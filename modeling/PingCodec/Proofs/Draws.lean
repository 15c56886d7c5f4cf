import PingCodec.Payload.Random
import PingCodec.Proofs.Classes

/-!
# Random draws

A payload is reserved if it is the one that announces a shutdown or begins as a user payload does,
whatever the tag; just these are not classified as ordinary (`classify_eq_ordinary_iff`).  Drawing
stops at the first draw that is not reserved (`firstOrdinary?_eq_some_iff`) and fails if there is none
(`firstOrdinary?_eq_none_iff`).  Drawing again goes on behind it, so that what is drawn one after the
other are the ordinary draws, each of them once and in their order (`drawMany?_eq_some`).
-/

namespace PingCodec.Payload

/-! ## Reserved payloads -/

/-- That a payload announces a shutdown or begins as a user payload does. -/
def Reserved (p : Payload) : Prop :=
  p = shutdownPayload ∨ userBeginning.toList <+: p.toBytes

instance (p : Payload) : Decidable p.Reserved := inferInstanceAs (Decidable (_ ∨ _))

theorem isShutdown_entries_iff (p : Payload) :
    p.entries.isShutdown = true ↔ p = shutdownPayload := by
  unfold Entries.isShutdown
  rw [Entries.equals_iff]
  simp only [getElem_entries, Number.equals_ofByte_iff]
  constructor
  · intro same
    exact Vector.ext fun i hi => same ⟨i, hi⟩
  · rintro rfl i
    rfl

theorem isUser_entries_iff (p : Payload) :
    p.entries.isUser = true ↔ userBeginning.toList <+: p.toBytes := by
  have entry (i : Fin 7) :
      (p.entries.get i.castSucc).equals (Number.ofByte (userBeginning.get i)) = true ↔
        p.toBytes[i.val]? = some (userBeginning.toList[i.val]) := by
    have byte : p.toBytes[i.val]? = some (p.get i.castSucc) := by simp [toBytes, Vector.get]
    have number : p.entries.get i.castSucc = Number.ofByte (p.get i.castSucc) :=
      p.getElem_entries i.castSucc
    rw [number, Number.equals_ofByte_iff, byte, Option.some.injEq]
    rfl
  rw [Entries.isUser_iff, List.prefix_iff_getElem?]
  simp only [entry, Fin.forall_iff]
  rfl

theorem classify_eq_ordinary_iff (p : Payload) : p.classify = .ordinary ↔ ¬ p.Reserved := by
  unfold classify Reserved
  rw [Entries.classify_eq_ordinary_iff, not_or, ← isShutdown_entries_iff, ← isUser_entries_iff,
    Bool.not_eq_true, Entries.userTag?, ite_eq_right_iff]
  simp

/-- A probe and the response to one can be made of every payload. -/
theorem accepted (p : Payload) :
    Ping.probe p.entries = .ok ⟨false, p.entries⟩ ∧ Ping.pong p.entries = .ok ⟨true, p.entries⟩ :=
  ⟨Ping.ofEntries_entries false p, Ping.ofEntries_entries true p⟩

/-! ## One draw -/

section

variable {p : Payload} (draws : List Payload)

theorem firstOrdinary?_cons_of_reserved (reserved : p.Reserved) :
    firstOrdinary? (p :: draws) = (firstOrdinary? draws).map fun (q, n) => (q, n + 1) := by
  have other : p.classify ≠ .ordinary := fun ordinary => (classify_eq_ordinary_iff p).1 ordinary reserved
  rw [firstOrdinary?, if_neg other]

theorem firstOrdinary?_cons_of_not_reserved (ordinary : ¬ p.Reserved) :
    firstOrdinary? (p :: draws) = some (p, 1) := by
  rw [firstOrdinary?, if_pos ((classify_eq_ordinary_iff p).2 ordinary)]

end

/-- Draws that are all reserved are used up. -/
theorem firstOrdinary?_eq_none_iff {draws : List Payload} :
    firstOrdinary? draws = none ↔ ∀ q ∈ draws, q.Reserved := by
  induction draws with
  | nil => simp [firstOrdinary?]
  | cons q draws ih =>
    rw [List.forall_mem_cons, ← ih]
    by_cases reserved : q.Reserved
    · simp [firstOrdinary?_cons_of_reserved, reserved]
    · simp [firstOrdinary?_cons_of_not_reserved, reserved]

theorem firstOrdinary?_append {before : List Payload} (reserved : ∀ q ∈ before, q.Reserved)
    {p : Payload} (ordinary : ¬ p.Reserved) (after : List Payload) :
    firstOrdinary? (before ++ p :: after) = some (p, before.length + 1) := by
  induction before with
  | nil => exact firstOrdinary?_cons_of_not_reserved after ordinary
  | cons q before ih =>
    obtain ⟨first, others⟩ := List.forall_mem_cons.1 reserved
    rw [List.cons_append, firstOrdinary?_cons_of_reserved _ first, ih others]
    rfl

/-- What is drawn is the first draw that is not reserved, and the number that comes with it is its place
among the draws. -/
theorem firstOrdinary?_eq_some_iff {draws : List Payload} {p : Payload} {n : Nat} :
    firstOrdinary? draws = some (p, n) ↔
      ∃ before after, draws = before ++ p :: after ∧ n = before.length + 1 ∧
        (∀ q ∈ before, q.Reserved) ∧ ¬ p.Reserved := by
  constructor
  · intro drawn
    induction draws generalizing n with
    | nil => cases drawn
    | cons q draws ih =>
      by_cases reserved : q.Reserved
      · rw [firstOrdinary?_cons_of_reserved draws reserved, Option.map_eq_some_iff] at drawn
        obtain ⟨⟨r, m⟩, later, same⟩ := drawn
        obtain ⟨rfl, rfl⟩ := Prod.mk.inj same
        obtain ⟨before, after, rfl, rfl, others, ordinary⟩ := ih later
        exact ⟨q :: before, after, rfl, rfl, List.forall_mem_cons.2 ⟨reserved, others⟩, ordinary⟩
      · rw [firstOrdinary?_cons_of_not_reserved draws reserved, Option.some.injEq] at drawn
        obtain ⟨rfl, rfl⟩ := Prod.mk.inj drawn
        exact ⟨[], draws, rfl, rfl, List.forall_mem_nil _, reserved⟩
  · rintro ⟨before, after, rfl, rfl, reserved, ordinary⟩
    exact firstOrdinary?_append reserved ordinary after

/-- What comes behind the draws that were used makes no difference. -/
theorem firstOrdinary?_take_append {draws : List Payload} {p : Payload} {n : Nat}
    (drawn : firstOrdinary? draws = some (p, n)) (others : List Payload) :
    firstOrdinary? (draws.take n ++ others) = some (p, n) := by
  obtain ⟨before, after, rfl, rfl, reserved, ordinary⟩ := firstOrdinary?_eq_some_iff.1 drawn
  have used : (before ++ p :: after).take (before.length + 1) = before ++ [p] := by
    rw [List.take_length_add_append]
    rfl
  rw [used, List.append_assoc]
  exact firstOrdinary?_append reserved ordinary others

/-- With fewer draws than were used there is none to be found. -/
theorem firstOrdinary?_take_of_lt {draws : List Payload} {p : Payload} {n : Nat}
    (drawn : firstOrdinary? draws = some (p, n)) {k : Nat} (fewer : k < n) :
    firstOrdinary? (draws.take k) = none := by
  obtain ⟨before, after, rfl, rfl, reserved, -⟩ := firstOrdinary?_eq_some_iff.1 drawn
  rw [firstOrdinary?_eq_none_iff, List.take_append_of_le_length (Nat.le_of_lt_succ fewer)]
  intro q hq
  exact reserved q (List.mem_of_mem_take hq)

/-! ## One draw after the other -/

/-- Payloads that are drawn one after the other, each from the draws that the ones before it have left
over, and what is left over in the end. -/
def drawMany? : Nat → List Payload → Option (List Payload × List Payload)
  | 0, draws => some ([], draws)
  | k + 1, draws => do
    let (p, n) ← firstOrdinary? draws
    let (ps, rest) ← drawMany? k (draws.drop n)
    return (p :: ps, rest)

/-- The draws that are not reserved. -/
def ordinaries (draws : List Payload) : List Payload := draws.filter fun q => ¬ q.Reserved

section

variable {before : List Payload} (reserved : ∀ q ∈ before, q.Reserved) {p : Payload}
  (ordinary : ¬ p.Reserved) (after : List Payload)

include reserved ordinary

theorem ordinaries_append : ordinaries (before ++ p :: after) = p :: ordinaries after := by
  have none : ordinaries before = [] := by simpa [ordinaries] using reserved
  unfold ordinaries at none ⊢
  rw [List.filter_append, none, List.nil_append, List.filter_cons_of_pos (by simpa using ordinary)]

/-- Drawing again goes on behind the draw that was taken. -/
theorem drawMany?_succ (k : Nat) :
    drawMany? (k + 1) (before ++ p :: after) =
      (drawMany? k after).map fun (ps, rest) => (p :: ps, rest) := by
  have rest : (before ++ p :: after).drop (before.length + 1) = after := by
    rw [List.drop_length_add_append]
    rfl
  rw [drawMany?, firstOrdinary?_append reserved ordinary]
  simp only [Option.bind_eq_bind, Option.bind_some, rest]
  cases drawMany? k after <;> rfl

end

/-- What is drawn are the ordinary ones of the draws that were used. -/
theorem drawMany?_eq_some {k : Nat} {draws ps rest : List Payload}
    (drawn : drawMany? k draws = some (ps, rest)) :
    ∃ used, draws = used ++ rest ∧ ordinaries used = ps ∧ ps.length = k := by
  induction k generalizing draws ps with
  | zero =>
    obtain ⟨rfl, rfl⟩ := Prod.mk.inj (Option.some.inj drawn)
    exact ⟨[], rfl, rfl, rfl⟩
  | succ k ih =>
    cases first : firstOrdinary? draws with
    | none => simp [drawMany?, first] at drawn
    | some found =>
      obtain ⟨before, after, rfl, -, reserved, ordinary⟩ := firstOrdinary?_eq_some_iff.1 first
      rw [drawMany?_succ reserved ordinary, Option.map_eq_some_iff] at drawn
      obtain ⟨⟨qs, rest'⟩, later, same⟩ := drawn
      obtain ⟨rfl, rfl⟩ := Prod.mk.inj same
      obtain ⟨used, rfl, rfl, size⟩ := ih later
      refine ⟨before ++ found.1 :: used, by simp, ordinaries_append reserved ordinary used, ?_⟩
      rw [List.length_cons, size]

/-- Drawing fails only if there are not enough ordinary draws. -/
theorem drawMany?_eq_none_iff {k : Nat} {draws : List Payload} :
    drawMany? k draws = none ↔ (ordinaries draws).length < k := by
  induction k generalizing draws with
  | zero => simp [drawMany?]
  | succ k ih =>
    cases first : firstOrdinary? draws with
    | none =>
      have none : ordinaries draws = [] := by
        simpa [ordinaries] using firstOrdinary?_eq_none_iff.1 first
      simp [drawMany?, first, none]
    | some found =>
      obtain ⟨before, after, rfl, -, reserved, ordinary⟩ := firstOrdinary?_eq_some_iff.1 first
      rw [drawMany?_succ reserved ordinary, ordinaries_append reserved ordinary, Option.map_eq_none_iff,
        ih, List.length_cons, Nat.succ_lt_succ_iff]

/-- Of all draws the first one that is neither the shutdown payload nor the beginning of a user payload
with whatever tag is taken, unchanged and as soon as it comes; there is none to take if and only if all
draws are reserved.  What is taken can be sent as a probe or a response, and is no reserved PING then.
Payloads that are drawn one after the other are the ordinary draws in their order, none of them left out
or taken twice. -/
theorem firstOrdinary?_exact :
    (∀ (draws : List Payload) (p : Payload) (n : Nat),
      firstOrdinary? draws = some (p, n) ↔
        ∃ before after, draws = before ++ p :: after ∧ n = before.length + 1 ∧
          (∀ q ∈ before, q.Reserved) ∧ ¬ p.Reserved) ∧
    (∀ draws : List Payload, firstOrdinary? draws = none ↔ ∀ q ∈ draws, q.Reserved) ∧
    (∀ (draws : List Payload) (p : Payload) (n : Nat), firstOrdinary? draws = some (p, n) →
      (∀ others, firstOrdinary? (draws.take n ++ others) = some (p, n)) ∧
      (∀ k < n, firstOrdinary? (draws.take k) = none) ∧
      Ping.probe p.entries = .ok ⟨false, p.entries⟩ ∧ Ping.pong p.entries = .ok ⟨true, p.entries⟩ ∧
      ∀ ack, (Ping.mk ack p.entries).isShutdown = false ∧ (Ping.mk ack p.entries).userTag? = none) ∧
    ∀ (k : Nat) (draws : List Payload),
      (drawMany? k draws = none ↔ (ordinaries draws).length < k) ∧
      ∀ ps rest, drawMany? k draws = some (ps, rest) →
        ∃ used, draws = used ++ rest ∧ ordinaries used = ps ∧ ps.length = k := by
  refine ⟨fun draws p n => firstOrdinary?_eq_some_iff, fun draws => firstOrdinary?_eq_none_iff,
    fun draws p n drawn => ?_,
    fun k draws => ⟨drawMany?_eq_none_iff, fun ps rest => drawMany?_eq_some⟩⟩
  obtain ⟨probe, pong⟩ := p.accepted
  refine ⟨firstOrdinary?_take_append drawn, fun k => firstOrdinary?_take_of_lt drawn, probe, pong,
    fun ack => ?_⟩
  obtain ⟨-, -, -, -, -, ordinary⟩ := firstOrdinary?_eq_some_iff.1 drawn
  exact (Entries.classify_eq_ordinary_iff p.entries).1 ((classify_eq_ordinary_iff p).2 ordinary)

/-- The shutdown payload, a user payload and one with a tag that is never sent come before an ordinary
draw; drawing twice takes two such draws. -/
theorem firstOrdinary?_exact_fourth :
    let p : Payload := #v[9, 8, 7, 6, 5, 4, 3, 2]
    let draws : List Payload := [shutdownPayload, userPayload 1, userBeginning.push 0x99, p]
    firstOrdinary? draws = some (p, 4) ∧
      (∀ others, firstOrdinary? (draws ++ others) = some (p, 4)) ∧
      firstOrdinary? (draws.take 3) = none ∧ Ping.pong p.entries = .ok ⟨true, p.entries⟩ ∧
      (Ping.mk true p.entries).isShutdown = false ∧ (Ping.mk true p.entries).userTag? = none ∧
      drawMany? 2 (draws ++ [p, shutdownPayload]) = some ([p, p], [shutdownPayload]) ∧
      ∃ used, draws ++ [p, shutdownPayload] = used ++ [shutdownPayload] ∧ ordinaries used = [p, p] := by
  intro p draws
  obtain ⟨drawn, -, uses, many⟩ := firstOrdinary?_exact
  have reserved : ∀ q ∈ [shutdownPayload, userPayload 1, userBeginning.push 0x99], q.Reserved := by
    simp only [List.mem_cons, List.not_mem_nil, or_false, forall_eq_or_imp, forall_eq]
    decide
  have first : firstOrdinary? draws = some (p, 4) :=
    (drawn draws p 4).2 ⟨_, [], rfl, rfl, reserved, by decide⟩
  obtain ⟨whole, fewer, -, pong, plain⟩ := uses draws p 4 first
  have twice : drawMany? 2 (draws ++ [p, shutdownPayload]) = some ([p, p], [shutdownPayload]) := by
    decide +kernel
  obtain ⟨used, split, taken, -⟩ := (many 2 _).2 _ _ twice
  exact ⟨first, whole, fewer 3 (by decide), pong, (plain true).1, (plain true).2, twice, used, split,
    taken⟩

end PingCodec.Payload
