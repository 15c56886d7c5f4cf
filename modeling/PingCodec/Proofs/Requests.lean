import Mathlib.Data.Finset.Card
import PingCodec.Cli.Request
import PingCodec.Proofs.Draws

/-!
# Requests and their sources

A request is refused as a conflict if it names two sources, and only then (`resolve_eq_conflict_iff`).
All others have one source at most, which alone decides what the request comes to; draws are looked at
if that source is the random one and in no other case (`resolve_of_not_random`).
-/

namespace PingCodec.Cli

/-- What the payload of a request can come from. -/
inductive Source where
  | payload
  | shutdown
  | user
  | random
deriving DecidableEq

def Source.all : List Source := [payload, shutdown, user, random]

namespace EncodeRequest

/-! ## Sources -/

/-- Whether a request names a source. -/
def names (r : EncodeRequest) : Source → Bool
  | .payload => r.payload.isSome
  | .shutdown => r.shutdown == some true
  | .user => r.user.isSome
  | .random => r.random == some true

/-- That a request names two sources. -/
def Conflict (r : EncodeRequest) : Prop := ∃ s t, s ≠ t ∧ r.names s = true ∧ r.names t = true

theorem one_lt_sourceCount_iff (r : EncodeRequest) : 1 < r.sourceCount ↔ r.Conflict := by
  have distinct : (Source.all.filter r.names).Nodup := (show Source.all.Nodup by decide).filter _
  have count : r.sourceCount = (Source.all.filter r.names).toFinset.card := by
    show (Source.all.map r.names).count true = _
    rw [List.toFinset_card_of_nodup distinct, ← List.countP_eq_length_filter, List.count,
      List.countP_map]
    simp [Function.comp_def]
  have mem (s : Source) : s ∈ Source.all := by cases s <;> decide
  rw [count, Finset.one_lt_card_iff]
  simp only [List.mem_toFinset, List.mem_filter, mem, true_and, Conflict]
  exact exists₂_congr fun s t => by tauto

/-! ## Outcomes -/

/-- What a request comes to, by the sources that it names. -/
inductive Answers (r : EncodeRequest) (draws : List Payload) :
    Except CommandError (Payload × Nat) → Prop
  | conflict (two : r.Conflict) : Answers r draws (.error .conflict)
  | wrongSize {bs : Bytes} (clear : ¬ r.Conflict) (given : r.payload = some bs)
      (size : bs.length ≠ payloadSize) : Answers r draws (.error (.frame (.payloadSize bs.length)))
  | bytes {p : Payload} (clear : ¬ r.Conflict) (given : r.payload = some p.toBytes) :
      Answers r draws (.ok (p, 0))
  | shutdown (clear : ¬ r.Conflict) (named : r.shutdown = some true) :
      Answers r draws (.ok (shutdownPayload, 0))
  | user {tag : UserTag} (clear : ¬ r.Conflict) (given : r.user = some tag) :
      Answers r draws (.ok (userPayload tag, 0))
  | random {p : Payload} {n : Nat} (clear : ¬ r.Conflict) (named : r.random = some true)
      (drawn : Payload.firstOrdinary? draws = some (p, n)) : Answers r draws (.ok (p, n))
  | exhausted (clear : ¬ r.Conflict) (named : r.random = some true)
      (none : Payload.firstOrdinary? draws = none) : Answers r draws (.error .drawsExhausted)
  | zeros (none : ∀ s, r.names s = false) : Answers r draws (.ok (zeroPayload, 0))

section

variable {r : EncodeRequest}

/-- Of a source that is not named a request has nothing. -/
theorem fields_of_not_names :
    (r.names .payload = false → r.payload = none) ∧
      (r.names .shutdown = false → r.shutdown ≠ some true) ∧
      (r.names .user = false → r.user = none) ∧ (r.names .random = false → r.random ≠ some true) := by
  simp [names]

/-- Next to a source that is named there is no other one. -/
theorem names_eq_false_of_clear (clear : ¬ r.Conflict) {s t : Source} (named : r.names s = true)
    (other : s ≠ t) : r.names t = false := by
  by_contra both
  exact clear ⟨s, t, other, named, Bool.eq_true_of_not_eq_false both⟩

theorem fields_of_shutdown (clear : ¬ r.Conflict) (named : r.shutdown = some true) :
    r.payload = none := by
  obtain ⟨payload, -⟩ := r.fields_of_not_names
  exact payload (names_eq_false_of_clear clear (s := .shutdown) (by simp [names, named]) (by decide))

theorem fields_of_user (clear : ¬ r.Conflict) {tag : UserTag} (given : r.user = some tag) :
    r.payload = none ∧ r.shutdown ≠ some true := by
  obtain ⟨payload, shutdown, -⟩ := r.fields_of_not_names
  have others {t : Source} := names_eq_false_of_clear clear (s := .user) (t := t)
    (by simp [names, given])
  exact ⟨payload (others (by decide)), shutdown (others (by decide))⟩

theorem fields_of_random (clear : ¬ r.Conflict) (named : r.random = some true) :
    r.payload = none ∧ r.shutdown ≠ some true ∧ r.user = none := by
  obtain ⟨payload, shutdown, user, -⟩ := r.fields_of_not_names
  have others {t : Source} := names_eq_false_of_clear clear (s := .random) (t := t)
    (by simp [names, named])
  exact ⟨payload (others (by decide)), shutdown (others (by decide)), user (others (by decide))⟩

theorem not_conflict_of_not_names (none : ∀ s, r.names s = false) : ¬ r.Conflict := by
  rintro ⟨s, -, -, named, -⟩
  rw [none s] at named
  cases named

variable (draws : List Payload)

theorem answers_resolve : r.Answers draws (r.resolve draws) := by
  unfold resolve
  by_cases two : 1 < r.sourceCount
  · rw [if_pos two]
    exact .conflict (r.one_lt_sourceCount_iff.1 two)
  have clear := mt r.one_lt_sourceCount_iff.2 two
  rw [if_neg two]
  cases given : r.payload with
  | some bs =>
    dsimp only
    by_cases size : bs.length = payloadSize
    · obtain ⟨p, rfl⟩ := Payload.exists_toBytes size
      rw [Payload.ofBytes_toBytes]
      exact .bytes clear given
    · rw [Payload.ofBytes_of_size size]
      exact .wrongSize clear given size
  | none =>
    by_cases shutdown : r.shutdown = some true
    · rw [if_pos shutdown]
      exact .shutdown clear shutdown
    rw [if_neg shutdown]
    cases user : r.user with
    | some tag => exact .user clear user
    | none =>
      by_cases random : r.random = some true
      · rw [if_pos random]
        cases drawn : Payload.firstOrdinary? draws with
        | some pair => exact .random clear random drawn
        | none => exact .exhausted clear random drawn
      · rw [if_neg random]
        refine .zeros fun s => ?_
        cases s <;> simp [names, given, shutdown, user, random]

theorem resolve_eq_of_answers {x : Except CommandError (Payload × Nat)}
    (answers : r.Answers draws x) : r.resolve draws = x := by
  have one (clear : ¬ r.Conflict) : ¬ 1 < r.sourceCount := mt r.one_lt_sourceCount_iff.1 clear
  cases answers with
  | conflict two => rw [resolve, if_pos (r.one_lt_sourceCount_iff.2 two)]
  | wrongSize clear given size => simp [resolve, one clear, given, Payload.ofBytes_of_size size]
  | bytes clear given => simp [resolve, one clear, given, Payload.ofBytes_toBytes]
  | shutdown clear named => simp [resolve, one clear, fields_of_shutdown clear named, named]
  | user clear given => simp [resolve, one clear, fields_of_user clear given, given]
  | random clear named drawn => simp [resolve, one clear, fields_of_random clear named, named, drawn]
  | exhausted clear named none =>
    simp [resolve, one clear, fields_of_random clear named, named, none]
  | zeros none =>
    obtain ⟨payload, shutdown, user, random⟩ := r.fields_of_not_names
    simp [resolve, one (not_conflict_of_not_names none), payload (none _), shutdown (none _),
      user (none _), random (none _)]

theorem resolve_eq_iff {x : Except CommandError (Payload × Nat)} :
    r.resolve draws = x ↔ r.Answers draws x :=
  ⟨fun same => same ▸ answers_resolve draws, resolve_eq_of_answers draws⟩

theorem resolve_eq_conflict_iff : r.resolve draws = .error .conflict ↔ r.Conflict := by
  rw [resolve_eq_iff]
  constructor
  · rintro ⟨two⟩
    exact two
  · exact .conflict

theorem exists_resolve_eq_frame_iff (clear : ¬ r.Conflict) :
    (∃ e, r.resolve draws = .error (.frame e) ∧ e.code = .badFrameSize) ↔
      ∃ bs, r.payload = some bs ∧ bs.length ≠ 8 := by
  constructor
  · rintro ⟨e, refused, -⟩
    cases (resolve_eq_iff draws).1 refused with
    | wrongSize _ given size => exact ⟨_, given, size⟩
  · rintro ⟨bs, given, size⟩
    exact ⟨_, resolve_eq_of_answers draws (.wrongSize clear given size), rfl⟩

theorem resolve_of_random (clear : ¬ r.Conflict) (named : r.random = some true) :
    (∀ p n, r.resolve draws = .ok (p, n) ↔ Payload.firstOrdinary? draws = some (p, n)) ∧
      (r.resolve draws = .error .drawsExhausted ↔ Payload.firstOrdinary? draws = none) := by
  cases drawn : Payload.firstOrdinary? draws with
  | some found =>
    rw [resolve_eq_of_answers draws (.random clear named drawn)]
    simp
  | none =>
    rw [resolve_eq_of_answers draws (.exhausted clear named drawn)]
    simp

section NotRandom

variable {draws} (other : ¬ ∀ s, r.names s = true ↔ s = .random)

include other

theorem not_random_of_clear (clear : ¬ r.Conflict) : r.random ≠ some true := by
  intro named
  have random : r.names .random = true := by simp [names, named]
  refine other fun s => ⟨fun also => ?_, fun same => same ▸ random⟩
  by_contra apart
  exact clear ⟨s, .random, apart, also, random⟩

/-- If the random source is not the only one, draws make no difference. -/
theorem resolve_of_not_random (others : List Payload) : r.resolve others = r.resolve draws := by
  have answers : r.Answers draws (r.resolve draws) := answers_resolve draws
  apply resolve_eq_of_answers
  generalize r.resolve draws = x at answers ⊢
  cases answers with
  | conflict two => exact .conflict two
  | wrongSize clear given size => exact .wrongSize clear given size
  | bytes clear given => exact .bytes clear given
  | shutdown clear named => exact .shutdown clear named
  | user clear given => exact .user clear given
  | random clear named | exhausted clear named =>
    exact absurd named (not_random_of_clear other clear)
  | zeros none => exact .zeros none

theorem eq_zero_of_not_random {p : Payload} {n : Nat} (resolved : r.resolve draws = .ok (p, n)) :
    n = 0 := by
  cases (resolve_eq_iff draws).1 resolved with
  | bytes | shutdown | user | zeros => rfl
  | random clear named => exact absurd named (not_random_of_clear other clear)

end NotRandom

end

/-- A request that names two sources is a conflict, whatever bytes it brings and whatever the draws.
Otherwise bytes of a wrong size are refused, and every source gives a payload of its own class: the
bytes that are given, the shutdown payload, the user payload with the tag, the first ordinary draw if
there is one, and zeros without a source.  All of them can be sent.  Draws count for a request with the
random source alone, the wish for a response counts for none, and a flag that is false counts as one
that is left out. -/
theorem resolve_contract (r : EncodeRequest) (draws : List Payload) :
    (r.resolve draws = .error .conflict ↔
      ∃ s t, s ≠ t ∧ r.names s = true ∧ r.names t = true) ∧
    CommandError.conflict.message =
      "Choose only one of --payload, --shutdown, --user and --random" ∧
    (¬ r.Conflict →
      ((∃ e, r.resolve draws = .error (.frame e) ∧ e.code = .badFrameSize) ↔
        ∃ bs, r.payload = some bs ∧ bs.length ≠ 8) ∧
      (∀ bs, r.payload = some bs → bs.length = 8 →
        ∃ p, r.resolve draws = .ok (p, 0) ∧ p.toBytes = bs) ∧
      (r.shutdown = some true → ∃ p, r.resolve draws = .ok (p, 0) ∧ p.classify = .shutdown) ∧
      (∀ tag, r.user = some tag →
        ∃ p, r.resolve draws = .ok (p, 0) ∧ p.classify = .user (Number.ofNat tag.val)) ∧
      (r.random = some true →
        (∀ p n, r.resolve draws = .ok (p, n) ↔ Payload.firstOrdinary? draws = some (p, n)) ∧
        (∀ p n, r.resolve draws = .ok (p, n) → p.classify = .ordinary) ∧
        (r.resolve draws = .error .drawsExhausted ↔ ∀ q ∈ draws, q.classify ≠ .ordinary)) ∧
      ((∀ s, r.names s = false) → ∃ p, r.resolve draws = .ok (p, 0) ∧
        p.toBytes = [0, 0, 0, 0, 0, 0, 0, 0] ∧ p.classify = .ordinary)) ∧
    (∀ p n, r.resolve draws = .ok (p, n) →
      Ping.probe p.entries = .ok ⟨false, p.entries⟩ ∧ Ping.pong p.entries = .ok ⟨true, p.entries⟩) ∧
    ((¬ ∀ s, r.names s = true ↔ s = .random) →
      (∀ others, r.resolve others = r.resolve draws) ∧
        ∀ p n, r.resolve draws = .ok (p, n) → n = 0) ∧
    (∀ ack, { r with ack := ack }.resolve draws = r.resolve draws) ∧
    { r with shutdown := some false }.resolve draws = { r with shutdown := none }.resolve draws ∧
    { r with random := some false }.resolve draws = { r with random := none }.resolve draws := by
  refine ⟨resolve_eq_conflict_iff draws, rfl, fun clear => ⟨exists_resolve_eq_frame_iff draws clear,
    fun bs given size => ?_, fun named => ?_, fun tag given => ?_, fun named => ?_, fun none => ?_⟩,
    fun p n _ => p.accepted, fun other => ⟨resolve_of_not_random other,
      fun p n => eq_zero_of_not_random other⟩, fun ack => rfl, rfl, rfl⟩
  · obtain ⟨p, rfl⟩ := Payload.exists_toBytes size
    exact ⟨p, resolve_eq_of_answers draws (.bytes clear given), rfl⟩
  · exact ⟨_, resolve_eq_of_answers draws (.shutdown clear named), by decide +kernel⟩
  · refine ⟨_, resolve_eq_of_answers draws (.user clear given), ?_⟩
    clear given
    decide +revert +kernel
  · obtain ⟨drawn, exhausted⟩ := resolve_of_random draws clear named
    refine ⟨drawn, fun p n resolved => ?_, ?_⟩
    · obtain ⟨-, -, -, -, -, ordinary⟩ := Payload.firstOrdinary?_eq_some_iff.1 ((drawn p n).1 resolved)
      exact (Payload.classify_eq_ordinary_iff p).2 ordinary
    · rw [exhausted, Payload.firstOrdinary?_eq_none_iff]
      simp [Payload.classify_eq_ordinary_iff]
  · exact ⟨_, resolve_eq_of_answers draws (.zeros none), by decide, by decide +kernel⟩

/-- A user payload with a tag that is zero, next to a flag that is false and to bytes that are none, and
a request that takes the third draw. -/
theorem resolve_contract_user :
    let p : Payload := #v[9, 8, 7, 6, 5, 4, 3, 2]
    let draws : List Payload := [shutdownPayload, userPayload 1, p]
    let r : EncodeRequest := { ack := true, shutdown := some false, user := some 0 }
    (∃ p, r.resolve draws = .ok (p, 0) ∧ p.classify = .user (Number.ofNat 0)) ∧
      (∀ others, r.resolve others = r.resolve draws) ∧
      { r with payload := some [] }.resolve draws = .error .conflict ∧
      (∃ e, { r with user := none, payload := some [] }.resolve draws = .error (.frame e) ∧
        e.code = .badFrameSize) ∧
      { r with user := none, random := some true }.resolve draws = .ok (p, 3) ∧
      p.classify = .ordinary ∧ Ping.probe p.entries = .ok ⟨false, p.entries⟩ := by
  intro p draws r
  have clear {q : EncodeRequest} (one : ¬ 1 < q.sourceCount) : ¬ q.Conflict :=
    mt q.one_lt_sourceCount_iff.2 one
  obtain ⟨-, -, sources, -, unused, -⟩ := resolve_contract r draws
  obtain ⟨-, -, -, user, -⟩ := sources (clear (by decide))
  obtain ⟨conflict, -⟩ := resolve_contract { r with payload := some [] } draws
  obtain ⟨-, -, sources', -⟩ := resolve_contract { r with user := none, payload := some [] } draws
  obtain ⟨size, -⟩ := sources' (clear (by decide))
  obtain ⟨-, -, sources'', accepted, -⟩ :=
    resolve_contract { r with user := none, random := some true } draws
  obtain ⟨-, -, -, -, random, -⟩ := sources'' (clear (by decide))
  obtain ⟨drawn, ordinary, -⟩ := random rfl
  have third := (drawn p 3).2 (by decide +kernel)
  refine ⟨user 0 rfl, (unused fun only => ?_).1, conflict.2 ⟨.payload, .user, by decide, rfl, rfl⟩,
    size.2 ⟨[], rfl, by decide⟩, third, ordinary p 3 third, (accepted p 3 third).1⟩
  cases (only .random).2 rfl

end EncodeRequest

end PingCodec.Cli
