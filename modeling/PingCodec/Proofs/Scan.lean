import PingCodec.Cli.Scan

/-!
# Sorting arguments

What one argument adds to the scan of those behind it.  A word, which is what does not begin with a
dash, adds itself to the words that are left over, whatever the table of options (`scan_word`).  A
flag adds itself to the options that are given, wherever it stands among the arguments before the end
of the options (`adds_scan`).
-/

namespace PingCodec.Cli

variable {κ : Type}

/-- That a text does not begin with a dash. -/
def IsWord (text : String) : Prop := text.toList.head? ≠ some '-'

instance : DecidablePred IsWord := fun _ => inferInstanceAs (Decidable (_ ≠ _))

theorem readArgument_word (table : List (OptionSpec κ)) {text : String} (word : IsWord text) :
    readArgument table text = ([], .word text) := by
  unfold readArgument
  split
  · rename_i cs dashed
    rw [IsWord, dashed] at word
    simp at word
  · rfl

section

variable {table : List (OptionSpec κ)} (afterUnknown : Bool)

theorem scan_word {text : String} (word : IsWord text) (rest : List String) :
    scan table afterUnknown (text :: rest) =
      (scan table afterUnknown rest).withWords afterUnknown [text] := by
  rw [scan, readArgument_word table word]
  rfl

variable {argument : String}

theorem scan_unknown {text : String} (h : readArgument table argument = ([], .unknown text))
    (rest : List String) :
    scan table afterUnknown (argument :: rest) = (scan table true rest).withWords true [text] := by
  rw [scan, h]
  rfl

theorem scan_flag {o : OptionSpec κ} (h : readArgument table argument = ([o], .none))
    (rest : List String) :
    scan table afterUnknown (argument :: rest) =
      (scan table afterUnknown rest).withOptions [{ option := o }] := by
  rw [scan, h]
  rfl

theorem scan_value {o : OptionSpec κ} (h : readArgument table argument = ([], .awaits o))
    (value : String) (rest : List String) :
    scan table afterUnknown (argument :: value :: rest) =
      (scan table afterUnknown rest).withOptions [⟨o, some value⟩] := by
  rw [scan, h]
  rfl

theorem scan_carried {o : OptionSpec κ} {value : String}
    (h : readArgument table argument = ([], .carries o value)) (rest : List String) :
    scan table afterUnknown (argument :: rest) =
      (scan table afterUnknown rest).withOptions [⟨o, some value⟩] := by
  rw [scan, h]
  rfl

end

/-! ## Flags among other arguments -/

/-- The options that a scan has found. -/
def Scan.given (s : Scan κ) : List κ := s.occurrences.map fun o => o.option.key

/-- That the second scan has found one option more than the first, and differs in nothing else that
a run depends on. -/
structure Adds (key : κ) (s t : Scan κ) : Prop where
  operands : t.operands = s.operands
  unknown : t.unknown = s.unknown
  given (k : κ) : k ∈ t.given ↔ k = key ∨ k ∈ s.given

namespace Adds

variable {key : κ} {s t : Scan κ}

theorem withOptions (adds : Adds key s t) (os : List (Occurrence κ)) :
    Adds key (s.withOptions os) (t.withOptions os) where
  operands := adds.operands
  unknown := adds.unknown
  given k := by
    have h := adds.given k
    simp only [Scan.given, Scan.withOptions, List.map_append, List.mem_append] at h ⊢
    rw [h]
    exact or_left_comm

theorem withWords (adds : Adds key s t) (afterUnknown : Bool) (texts : List String) :
    Adds key (s.withWords afterUnknown texts) (t.withWords afterUnknown texts) := by
  cases afterUnknown with
  | false => exact ⟨congrArg (texts ++ ·) adds.operands, adds.unknown, adds.given⟩
  | true => exact ⟨adds.operands, congrArg (texts ++ ·) adds.unknown, adds.given⟩

end Adds

section

variable {table : List (OptionSpec κ)}

theorem readAssignment_ne_awaits (cs : List Char) (o : OptionSpec κ) :
    readAssignment table cs ≠ .awaits o := by
  unfold readAssignment
  dsimp only
  split
  · split <;> nofun
  · nofun

variable (flags : ∀ o ∈ table, o.value = none)

include flags

/-- Without options that take a value no argument claims the one behind it. -/
theorem readDashed_ne_awaits (cs : List Char) (o : OptionSpec κ) :
    (readDashed table cs).2 ≠ .awaits o := by
  fun_induction readDashed table cs with
  | case3 c rest _ o' found valued =>
    rw [flags o' (List.mem_of_find?_eq_some found)] at valued
    cases valued
  | case5 | case8 => exact readAssignment_ne_awaits _ _
  | case7 c rest _ _ _ o' _ _ flagged remainder read ih =>
    rw [read] at ih
    exact ih
  | case1 | case2 | case4 | case6 => nofun

theorem readArgument_ne_awaits (argument : String) (o : OptionSpec κ) :
    (readArgument table argument).2 ≠ .awaits o := by
  unfold readArgument
  split
  · exact readDashed_ne_awaits flags _ _
  · nofun

/-- A flag may stand anywhere before the end of the options. -/
theorem adds_scan {argument : String} {o : OptionSpec κ}
    (flag : readArgument table argument = ([o], .none)) {front : List String}
    (before : ∀ a ∈ front, (readArgument table a).2 ≠ .endOfOptions) (afterUnknown : Bool)
    (rest : List String) :
    Adds o.key (scan table afterUnknown (front ++ rest))
      (scan table afterUnknown (front ++ argument :: rest)) := by
  -- An unknown option in front switches `afterUnknown` for what comes behind it.
  induction front generalizing afterUnknown with
  | nil =>
    rw [List.nil_append, List.nil_append, scan_flag _ flag]
    exact ⟨rfl, rfl, fun k => List.mem_cons⟩
  | cons a front ih =>
    obtain ⟨first, before⟩ := List.forall_mem_cons.1 before
    have adds := ih before
    have unclaimed := readArgument_ne_awaits flags a
    rw [List.cons_append, List.cons_append, scan, scan]
    generalize readArgument table a = read at first unclaimed ⊢
    obtain ⟨os, remainder⟩ := read
    cases remainder with
    | none => exact (adds afterUnknown).withOptions _
    | endOfOptions => exact absurd rfl first
    | awaits o => exact absurd rfl (unclaimed o)
    | carries o value => exact (adds afterUnknown).withOptions _
    | word text => exact ((adds afterUnknown).withWords _ _).withOptions _
    | unknown text => exact ((adds true).withWords _ _).withOptions _

end

end PingCodec.Cli
