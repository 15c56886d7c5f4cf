import PingCodec.Cli.Command
import PingCodec.Proofs.Lines

/-!
# The lines of help pages

Filling text into lines brings in no character but spaces (`forall_mem_fill`).  So a page has as many
lines as it prints if its texts hold no newline, and then none of its lines opens as a debug line does
(`isResultLine_page`).
-/

namespace PingCodec

/-! ## Filled text -/

namespace Text

variable {P : Char → Prop}

theorem forall_mem_splitOn {cs : List Char} (h : ∀ c ∈ cs, P c) (x : Char) :
    ∀ piece ∈ cs.splitOn x, ∀ c ∈ piece, P c := by
  induction cs with
  | nil => simp
  | cons d cs ih =>
    obtain ⟨first, others⟩ := List.forall_mem_cons.1 h
    have pieces := ih others
    obtain ⟨piece, rest, split⟩ := List.exists_cons_of_ne_nil (List.splitOn_ne_nil x cs)
    rw [split, List.forall_mem_cons] at pieces
    rw [List.splitOn_cons_eq_if_modifyHead, split]
    split
    · exact List.forall_mem_cons.2 ⟨List.forall_mem_nil _, List.forall_mem_cons.2 pieces⟩
    · exact List.forall_mem_cons.2 ⟨List.forall_mem_cons.2 ⟨first, pieces.1⟩, pieces.2⟩

theorem forall_mem_words {text : String} (h : ∀ c ∈ text.toList, P c) :
    ∀ word ∈ words text, ∀ c ∈ word.toList, P c := by
  intro word mem
  obtain ⟨piece, kept, rfl⟩ := List.mem_map.1 mem
  rw [String.toList_ofList]
  exact forall_mem_splitOn h ' ' piece (List.mem_filter.1 kept).1

theorem forall_mem_fillFrom (space : P ' ') (width : Nat) {line : String} {words : List String}
    (begun : ∀ c ∈ line.toList, P c) (h : ∀ word ∈ words, ∀ c ∈ word.toList, P c) :
    ∀ filled ∈ fillFrom width line words, ∀ c ∈ filled.toList, P c := by
  induction words generalizing line with
  | nil => exact List.forall_mem_singleton.2 begun
  | cons word words ih =>
    obtain ⟨first, others⟩ := List.forall_mem_cons.1 h
    rw [fillFrom]
    split
    · refine ih (fun c mem => ?_) others
      simp only [String.toList_append, List.mem_append] at mem
      obtain (mem | mem) | mem := mem
      · exact begun c mem
      · exact List.mem_singleton.1 mem ▸ space
      · exact first c mem
    · exact List.forall_mem_cons.2 ⟨begun, ih first others⟩

/-- Filling text into lines brings in no character but spaces. -/
theorem forall_mem_fill (space : P ' ') (width : Nat) {text : String}
    (h : ∀ c ∈ text.toList, P c) :
    ∀ filled ∈ fill width (words text), ∀ c ∈ filled.toList, P c := by
  have all := forall_mem_words h
  cases split : words text with
  | nil => exact List.forall_mem_nil _
  | cons word rest =>
    rw [split] at all
    obtain ⟨first, others⟩ := List.forall_mem_cons.1 all
    exact forall_mem_fillFrom space width first others

end Text

/-! ## Pages -/

namespace Cli

theorem newline_not_mem_padRight (width : Nat) {text : String} (h : '\n' ∉ text.toList) :
    '\n' ∉ (Text.padRight width text).toList := by
  simp [Text.padRight, h]

theorem newline_not_mem_fill (width : Nat) {text : String} (h : '\n' ∉ text.toList) :
    ∀ line ∈ Text.fill width (Text.words text), '\n' ∉ line.toList := by
  intro line mem newline
  have others : ∀ c ∈ text.toList, c ≠ '\n' := fun c mem => ne_of_mem_of_not_mem mem h
  exact Text.forall_mem_fill (by decide) width others line mem _ newline rfl

/-- A line that is set in is no debug line. -/
theorem isResultLine_indented (n : Nat) {text : String} (whole : '\n' ∉ text.toList) :
    IsResultLine (Text.padRight (n + 1) "" ++ text) := by
  have spaces : (Text.padRight (n + 1) "").toList = ' ' :: List.replicate n ' ' := by
    simp [Text.padRight, List.replicate_succ]
  refine IsResultLine.append ⟨?_, ?_⟩ ?_ whole
  · rw [spaces]
    simp
  · rw [spaces]
    simp
  · rw [← String.toList_eq_nil_iff.ne, spaces]
    exact List.cons_ne_nil _ _

theorem isResultLine_itemLines (termWidth : Nat) {item : String × String}
    (term : '\n' ∉ item.1.toList) (description : '\n' ∉ item.2.toList) :
    ∀ line ∈ Page.itemLines termWidth item, IsResultLine line := by
  have padded := newline_not_mem_padRight (termWidth + Page.gap) term
  have filled :=
    newline_not_mem_fill (Page.width - (Page.gap + termWidth + Page.gap) - 1) description
  unfold Page.itemLines
  dsimp only
  split
  · exact List.forall_mem_singleton.2 (isResultLine_indented 1 padded)
  · rename_i first others split
    rw [split] at filled
    obtain ⟨start, more⟩ := List.forall_mem_cons.1 filled
    refine List.forall_mem_cons.2 ⟨?_, List.forall_mem_map.2 fun line mem => ?_⟩
    · rw [String.append_assoc]
      refine isResultLine_indented 1 ?_
      rw [String.toList_append, List.mem_append, not_or]
      exact ⟨padded, start⟩
    · exact isResultLine_indented _ (more line mem)

theorem isResultLine_page {page : Page} (usage : '\n' ∉ page.usage.toList)
    (description : '\n' ∉ page.description.toList ∧ '[' ∉ page.description.toList)
    (sections : ∀ s ∈ page.sections, (IsResultLine s.title ∧ s.title ≠ "") ∧
      ∀ item ∈ s.items, '\n' ∉ item.1.toList ∧ '\n' ∉ item.2.toList) :
    ∀ line ∈ page.lines, IsResultLine line := by
  have plain : ∀ c ∈ page.description.toList, c ≠ '\n' ∧ c ≠ '[' := fun c mem =>
    ⟨ne_of_mem_of_not_mem mem description.1, ne_of_mem_of_not_mem mem description.2⟩
  have filled := Text.forall_mem_fill (by decide) (Page.width - 1) plain
  intro line mem
  simp only [Page.lines, List.mem_append, List.mem_cons, List.not_mem_nil, or_false,
    List.mem_flatMap] at mem
  obtain ((rfl | rfl) | mem) | ⟨s, hs, (rfl | rfl) | ⟨item, hitem, mem⟩⟩ := mem
  · exact IsResultLine.append (by decide) (by decide) usage
  · decide
  · exact ⟨fun newline => (filled line mem _ newline).1 rfl,
      fun opening => (filled line mem _ (List.mem_of_mem_head? opening)).2 rfl⟩
  · decide
  · exact (sections s hs).1.1.append (sections s hs).1.2 (by decide)
  · obtain ⟨term, text⟩ := (sections s hs).2 item hitem
    exact isResultLine_itemLines _ term text line mem

theorem isResultLine_programPage : ∀ line ∈ programPage.lines, IsResultLine line :=
  isResultLine_page (by decide +kernel) (by decide +kernel) (by decide +kernel)

theorem isResultLine_commandPage (c : Command) : ∀ line ∈ c.page.lines, IsResultLine line := by
  cases c <;>
    exact isResultLine_page (by decide +kernel) (by decide +kernel) (by decide +kernel)

end Cli

end PingCodec
