import Mathlib.Data.List.Basic
import PingCodec.Cli.Outcome

/-!
# Printed lines

Lines are printed with a newline at the end of each.  They can be told again from the text that comes
of them if none of them holds a newline itself, so deleting lines of one kind from the text deletes
just those among the lines that were printed (`deleteLines_joinLines`).  Debug lines are such a kind:
all of them open with the same mark, and lines of results do not (`deleteDebug_joinLines`).
-/

namespace PingCodec.Cli

namespace Outcome

/-- What is seen of an outcome: the exit status and the texts on the two streams. -/
def seen (time : String) (o : Outcome) : Nat × String × String :=
  (o.exit, o.stdoutText time, o.stderrText)

theorem joinLines_cons (line : String) (lines : List String) :
    joinLines (line :: lines) = line ++ "\n" ++ joinLines lines :=
  String.join_cons

theorem joinLines_eq_empty_iff (lines : List String) : joinLines lines = "" ↔ lines = [] := by
  cases lines with
  | nil => exact iff_of_true String.join_nil rfl
  | cons line lines => simp [joinLines_cons]

theorem joinLines_singleton (line : String) : joinLines [line] = line ++ "\n" := by
  rw [joinLines_cons, joinLines, List.map_nil, String.join_nil, String.append_empty]

theorem seen_of_stdout {time : String} {o : Outcome} {printed : List String}
    (h : o.stdout.map (Line.render time) = printed) :
    o.seen time = (o.exit, joinLines printed, joinLines o.stderr) := by
  rw [← h]
  rfl

theorem render_texts (time : String) (lines : List String) :
    (lines.map Line.text).map (Line.render time) = lines := by
  rw [List.map_map]
  exact List.map_id lines

theorem seen_success (time : String) (lines : List String) :
    (success lines).seen time = (0, joinLines lines, "") :=
  seen_of_stdout (render_texts time lines)

theorem seen_failure (time line : String) : (failure [line]).seen time = (1, "", line ++ "\n") := by
  rw [← joinLines_singleton]
  rfl

/-- Behind the last newline stands one more line, which is empty. -/
theorem joinLines_eq_intercalate (lines : List String) :
    joinLines lines = "\n".intercalate (lines ++ [""]) := by
  induction lines with
  | nil => exact String.join_nil.trans String.intercalate_singleton.symm
  | cons line lines ih =>
    rw [joinLines_cons, ih, List.cons_append, String.intercalate_cons_of_ne_nil (by simp)]

/-! ## Deleting lines -/

/-- The lines that newlines separate in a text. -/
def textLines (text : String) : List String := (text.split '\n').toList.map (·.copy)

theorem textLines_joinLines {lines : List String} (whole : ∀ line ∈ lines, '\n' ∉ line.toList) :
    textLines (joinLines lines) = lines ++ [""] := by
  rw [joinLines_eq_intercalate]
  refine (String.toList_split_intercalate fun line mem => ?_).trans (if_neg (by simp))
  obtain mem | mem := List.mem_append.1 mem
  · exact whole line mem
  · rw [List.mem_singleton.1 mem]
    exact List.not_mem_nil

/-- The text without its lines of a kind. -/
def deleteLines (kind : String → Bool) (text : String) : String :=
  "\n".intercalate ((textLines text).filter fun line => !kind line)

theorem deleteLines_joinLines {kind : String → Bool} (empty : kind "" = false) {lines : List String}
    (whole : ∀ line ∈ lines, '\n' ∉ line.toList) :
    deleteLines kind (joinLines lines) = joinLines (lines.filter fun line => !kind line) := by
  have kept : [""].filter (fun line => !kind line) = [""] := by simp [empty]
  rw [deleteLines, textLines_joinLines whole, List.filter_append, kept, joinLines_eq_intercalate]

end Outcome

/-! ## Debug lines -/

open Outcome

/-- What a debug line begins with. -/
def debugMark (time : String) : String := "[" ++ time ++ "] [DEBUG] "

/-- The text without its debug lines. -/
def deleteDebug (time text : String) : String :=
  deleteLines (fun line => line.startsWith (debugMark time)) text

theorem startsWith_debugMark (time text : String) :
    (debugMark time ++ text).startsWith (debugMark time) = true := by
  rw [String.startsWith_string_iff, String.toList_append]
  exact List.prefix_append _ _

/-- That a text is one line and does not open as debug lines do. -/
structure IsResultLine (text : String) : Prop where
  whole : '\n' ∉ text.toList
  opening : text.toList.head? ≠ some '['

instance (text : String) : Decidable (IsResultLine text) :=
  decidable_of_iff ('\n' ∉ text.toList ∧ text.toList.head? ≠ some '[')
    ⟨fun h => ⟨h.1, h.2⟩, fun h => ⟨h.whole, h.opening⟩⟩

theorem IsResultLine.append {text more : String} (h : IsResultLine text) (some : text ≠ "")
    (whole : '\n' ∉ more.toList) : IsResultLine (text ++ more) where
  whole := by
    rw [String.toList_append, List.mem_append, not_or]
    exact ⟨h.whole, whole⟩
  opening := by
    rw [String.toList_append, List.head?_append_of_ne_nil _ (mt String.toList_eq_nil_iff.1 some)]
    exact h.opening

theorem IsResultLine.startsWith_eq_false {text : String} (h : IsResultLine text) (time : String) :
    text.startsWith (debugMark time) = false := by
  rw [String.startsWith_string_eq_false_iff]
  rintro ⟨more, eq⟩
  apply h.opening
  rw [← eq, debugMark, String.toList_append, String.toList_append]
  rfl

/-- Deleting debug lines leaves the lines of the result. -/
theorem deleteDebug_joinLines {time : String} (oneLine : '\n' ∉ time.toList)
    {notes lines : List String} (whole : ∀ note ∈ notes, '\n' ∉ note.toList)
    (results : ∀ line ∈ lines, IsResultLine line) :
    deleteDebug time (joinLines (notes.map (debugMark time ++ ·) ++ lines)) = joinLines lines := by
  -- The empty line behind the last newline has to stay, or the newline would go with it.
  have empty : "".startsWith (debugMark time) = false := by
    have h : IsResultLine "" := by decide
    exact h.startsWith_eq_false time
  have marked : '\n' ∉ (debugMark time).toList := by
    simp [debugMark, oneLine]
  have one : ∀ line ∈ notes.map (debugMark time ++ ·) ++ lines, '\n' ∉ line.toList := by
    intro line mem
    obtain mem | mem := List.mem_append.1 mem
    · obtain ⟨note, noted, rfl⟩ := List.mem_map.1 mem
      rw [String.toList_append, List.mem_append, not_or]
      exact ⟨marked, whole note noted⟩
    · exact (results line mem).whole
  have gone : (notes.map (debugMark time ++ ·)).filter
      (fun line => !line.startsWith (debugMark time)) = [] := by
    simp [List.filter_map, startsWith_debugMark]
  have kept : lines.filter (fun line => !line.startsWith (debugMark time)) = lines := by
    refine List.filter_eq_self.2 fun line mem => ?_
    rw [(results line mem).startsWith_eq_false]
    rfl
  rw [deleteDebug, deleteLines_joinLines empty one, List.filter_append, gone, kept, List.nil_append]

end PingCodec.Cli
