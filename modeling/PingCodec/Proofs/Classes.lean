import PingCodec.Ping.Description
import PingCodec.Proofs.Ping

/-!
# Classes of payloads

What makes a payload a shutdown or a user payload is said entry by entry (`isShutdown_iff`,
`userTag?_eq_some_iff`).  The two exclude each other because they differ in their first byte
(`userTag?_eq_none_of_isShutdown`), so that it does not count which of them is looked for first.
Entries that are numerically equal are classified alike, and their tags are equal in turn
(`sameClass_of_equals`).
-/

namespace PingCodec

/-- That two classes are of one kind, with tags that are numerically equal. -/
def PayloadClass.Same : PayloadClass → PayloadClass → Prop
  | .shutdown, .shutdown | .ordinary, .ordinary => True
  | .user x, .user y => x.equals y = true
  | _, _ => False

namespace Entries

/-! ## Matching entry by entry -/

theorem isShutdown_iff (a : Entries) :
    a.isShutdown = true ↔
      ∀ i : Fin payloadSize, (a.get i).equals (Number.ofByte (shutdownPayload.get i)) = true := by
  rw [isShutdown, equals_iff]
  apply forall_congr'
  intro i
  rw [Payload.getElem_entries]
  rfl

theorem isUser_iff (a : Entries) :
    a.isUser = true ↔
      ∀ i : Fin 7, (a.get i.castSucc).equals (Number.ofByte (userBeginning.get i)) = true := by
  unfold isUser
  rw [List.all_eq_true]
  exact ⟨fun h i => h i (List.mem_finRange i), fun h i _ => h i⟩

theorem userTag?_eq_some_iff (a : Entries) (tag : Number) :
    a.userTag? = some tag ↔
      tag = a.get (7 : Fin payloadSize) ∧
        ∀ i : Fin 7, (a.get i.castSucc).equals (Number.ofByte (userBeginning.get i)) = true := by
  rw [← isUser_iff, userTag?, Option.ite_none_right_eq_some, Option.some.injEq, and_comm]
  exact and_congr_left' eq_comm

/-- No entries announce a shutdown and begin as a user payload does: the first of them cannot be equal
to two bytes. -/
theorem userTag?_eq_none_of_isShutdown {a : Entries} (shutdown : a.isShutdown = true) :
    a.userTag? = none := by
  rw [userTag?, if_neg]
  intro user
  have first : (a.get (0 : Fin payloadSize)).equals (Number.ofByte 0x0b) = true :=
    (isShutdown_iff a).1 shutdown 0
  have other : (a.get (0 : Fin payloadSize)).equals (Number.ofByte 0x3b) = true :=
    (isUser_iff a).1 user 0
  rw [Number.equals_congr first, Number.ofByte, Number.ofByte, Number.equals_ofNat] at other
  exact absurd other (by decide)

/-! ## The class -/

theorem classify_eq_shutdown_iff (a : Entries) : a.classify = .shutdown ↔ a.isShutdown = true := by
  unfold classify
  by_cases shutdown : a.isShutdown
  · simp [shutdown]
  · cases a.userTag? <;> simp [shutdown]

theorem classify_eq_user_iff (a : Entries) (tag : Number) :
    a.classify = .user tag ↔ a.userTag? = some tag := by
  unfold classify
  by_cases shutdown : a.isShutdown
  · simp [shutdown, userTag?_eq_none_of_isShutdown shutdown]
  · cases a.userTag? <;> simp [shutdown]

theorem classify_eq_ordinary_iff (a : Entries) :
    a.classify = .ordinary ↔ a.isShutdown = false ∧ a.userTag? = none := by
  unfold classify
  by_cases shutdown : a.isShutdown
  · simp [shutdown]
  · cases a.userTag? <;> simp [shutdown]

/-- The class, with the tag of a user payload looked for first. -/
def classifyTagFirst (a : Entries) : PayloadClass :=
  match a.userTag? with
  | some tag => .user tag
  | none => if a.isShutdown then .shutdown else .ordinary

theorem classifyTagFirst_eq (a : Entries) : a.classifyTagFirst = a.classify := by
  unfold classifyTagFirst classify
  by_cases shutdown : a.isShutdown
  · simp [shutdown, userTag?_eq_none_of_isShutdown shutdown]
  · cases a.userTag? <;> simp [shutdown]

/-! ## Equal entries -/

section Equal

variable {a b : Entries} (same : a.equals b = true)

include same

theorem equals_entry (i : Fin payloadSize) : (a.get i).equals (b.get i) = true :=
  (equals_iff a b).1 same i

theorem isShutdown_congr : a.isShutdown = b.isShutdown := by
  rw [Bool.eq_iff_iff, isShutdown_iff, isShutdown_iff]
  exact forall_congr' fun i => by rw [Number.equals_congr (equals_entry same i)]

theorem isUser_congr : a.isUser = b.isUser := by
  rw [Bool.eq_iff_iff, isUser_iff, isUser_iff]
  exact forall_congr' fun i => by rw [Number.equals_congr (equals_entry same i.castSucc)]

theorem userTag?_congr :
    Option.Rel (fun x y => x.equals y = true) a.userTag? b.userTag? := by
  rw [userTag?, userTag?, isUser_congr same]
  split_ifs
  · exact .some (equals_entry same 7)
  · exact .none

theorem sameClass_of_equals : a.classify.Same b.classify := by
  have tags := userTag?_congr same
  rw [classify, classify, isShutdown_congr same]
  generalize a.userTag? = x, b.userTag? = y at tags
  split_ifs
  · trivial
  · cases tags with
    | some equal => exact equal
    | none => trivial

end Equal

end Entries

/-! ## PINGs -/

theorem PayloadClass.text_classify (a : Entries) :
    "class: " ++ a.classify.text =
      if a.isShutdown then "class: shutdown"
      else
        match a.userTag? with
        | some tag => "class: user:" ++ tag.text
        | none => "class: ordinary" := by
  unfold Entries.classify
  split_ifs
  · rfl
  · cases a.userTag? with
    | some tag => exact (String.append_assoc ..).symm
    | none => rfl

/-- Entries have exactly one class, told by what they are equal to, whichever reserved value is looked
for first; equal entries have the same class; and a PING says of itself what the class of its entries
says. -/
theorem Entries.classify_exact :
    (∀ a : Entries,
      (a.classify = .shutdown ↔ a.isShutdown = true) ∧
      (a.isShutdown = true ↔
        ∀ i : Fin payloadSize, (a.get i).equals (Number.ofByte (shutdownPayload.get i)) = true) ∧
      (∀ tag, a.classify = .user tag ↔ a.userTag? = some tag) ∧
      (∀ tag, a.userTag? = some tag ↔
        tag = a.get (7 : Fin payloadSize) ∧
          ∀ i : Fin 7, (a.get i.castSucc).equals (Number.ofByte (userBeginning.get i)) = true) ∧
      (a.classify = .ordinary ↔ a.isShutdown = false ∧ a.userTag? = none) ∧
      ¬ (a.isShutdown = true ∧ ∃ tag, a.userTag? = some tag) ∧
      a.classifyTagFirst = a.classify) ∧
    (∀ a b : Entries, a.equals b = true →
      a.classify.Same b.classify ∧ a.isShutdown = b.isShutdown ∧
        Option.Rel (fun x y => x.equals y = true) a.userTag? b.userTag?) ∧
    ∀ p : Ping,
      (p.isShutdown = true ↔ p.entries.classify = .shutdown) ∧
      (∀ tag, p.userTag? = some tag ↔ p.entries.classify = .user tag) ∧
      p.description[2]? = some
        (if p.isShutdown then "class: shutdown"
        else
          match p.userTag? with
          | some tag => "class: user:" ++ tag.text
          | none => "class: ordinary") := by
  refine ⟨fun a => ⟨a.classify_eq_shutdown_iff, a.isShutdown_iff, a.classify_eq_user_iff,
    a.userTag?_eq_some_iff, a.classify_eq_ordinary_iff, ?_, a.classifyTagFirst_eq⟩,
    fun a b same => ⟨sameClass_of_equals same, isShutdown_congr same, userTag?_congr same⟩,
    fun p => ⟨p.entries.classify_eq_shutdown_iff.symm,
      fun tag => (p.entries.classify_eq_user_iff tag).symm, ?_⟩⟩
  · rintro ⟨shutdown, tag, found⟩
    rw [userTag?_eq_none_of_isShutdown shutdown] at found
    cases found
  · exact congrArg some (PayloadClass.text_classify p.entries)

/-- User payloads whose tags are the two zeros, which are different numbers but equal ones, and one
whose tag is not a number. -/
theorem Entries.classify_exact_zeros :
    let beginning := userBeginning.map Number.ofByte
    let a : Entries := beginning.push (Number.ofNat 0)
    let b : Entries := beginning.push .negativeZero
    let c : Entries := beginning.push .nan
    a.equals b = true ∧ a.classify = .user (Number.ofNat 0) ∧ b.classify = .user .negativeZero ∧
      a.classify.Same b.classify ∧ c.classify = .user .nan ∧ c.equals c = false := by
  intro beginning a b c
  obtain ⟨exact, alike, -⟩ := Entries.classify_exact
  have same : a.equals b = true := by decide +kernel
  have user (d : Entries) : ∀ tag, d.classify = .user tag ↔ d.userTag? = some tag := (exact d).2.2.1
  exact ⟨same, (user a _).2 (by decide +kernel), (user b _).2 (by decide +kernel), (alike a b same).1,
    (user c _).2 (by decide +kernel), by decide +kernel⟩

end PingCodec
