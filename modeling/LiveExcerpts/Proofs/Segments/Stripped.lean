import Mathlib.Data.List.Forall2
import LiveExcerpts.Proofs.Segments.Cleaning
/-!
# What comments lose

A comment is shown without its delimiters, without the one mark that makes it documentation, and
without the blanks around what is left.  The lines of a block comment lose their indentation, too,
and the star that leads them.  Nothing else is lost.

Main definitions: `Trimmed`, `Unmarked`, `Unstarred`, `ShowsLine`, `ShowsBlock`.  Main statements:
`showsLine_lineText` and `showsBlock_blockText`.
-/

namespace LiveExcerpts

/-! ## Blanks around a text -/

/-- What is left of a text without the blanks around it. -/
structure Trimmed (text shown : List Char) : Prop where
  /-- Only blanks are lost. -/
  around : ∃ lead trail, text = lead ++ shown ++ trail ∧ Text.allBlank lead = true ∧
    Text.allBlank trail = true
  /-- What is left does not begin with a blank. -/
  first : ∀ c ∈ shown.head?, Text.isBlank c = false
  /-- Nor does it end with one. -/
  last : ∀ c ∈ shown.getLast?, Text.isBlank c = false

theorem trimmed_trim (cs : List Char) : Trimmed cs (Text.trim cs) := by
  refine ⟨?_, fun c hc => ?_, fun c hc => Text.getLast?_trimEnd hc⟩
  · obtain ⟨lead, trail, hlead, htrail, heq⟩ := Text.exists_eq_append_trim cs
    exact ⟨lead, trail, heq, hlead, htrail⟩
  · -- What the text begins with is not lost at its end.
    obtain ⟨gap, -, heq⟩ := Text.exists_eq_trimEnd_append (Text.trimStart cs)
    apply @Text.head?_trimStart cs c
    rw [heq, List.head?_append, show (Text.trimEnd (Text.trimStart cs)).head? = some c from hc]
    rfl

theorem Trimmed.isInfix {text shown : List Char} (h : Trimmed text shown) : shown <:+: text := by
  obtain ⟨lead, trail, heq, -⟩ := h.around
  exact ⟨lead, trail, heq.symm⟩

/-! ## Marks of documentation -/

/-- What is left of a text without the character in front that makes a comment documentation, which
is `mark` or an exclamation mark. -/
inductive Unmarked (mark : Char) : List Char → List Char → Prop
  /-- One such character is lost, -/
  | marked {c : Char} {cs : List Char} (hc : c = mark ∨ c = '!') : Unmarked mark (c :: cs) cs
  /-- unless there is none. -/
  | plain {cs : List Char} (hcs : ∀ c ∈ cs.head?, ¬(c = mark ∨ c = '!')) : Unmarked mark cs cs

theorem unmarked_dropDocMark (mark : Char) (cs : List Char) :
    Unmarked mark cs (dropDocMark mark cs) := by
  cases cs with
  | nil => exact .plain (by simp)
  | cons c cs =>
      rw [dropDocMark]
      split
      · next hc => exact .marked hc
      · next hc => exact .plain (by simpa using hc)

theorem Unmarked.isSuffix {mark : Char} {text left : List Char} (h : Unmarked mark text left) :
    left <:+ text := by
  cases h with
  | marked => exact List.suffix_cons _ _
  | plain => exact List.suffix_refl _

/-! ## Stars -/

/-- What is left of a line without its indentation and without the star that leads it. -/
inductive Unstarred : List Char → List Char → Prop
  /-- A star is lost with a space behind it. -/
  | spaced {indent cs : List Char} (hindent : Text.allBlank indent = true) :
      Unstarred (indent ++ '*' :: ' ' :: cs) cs
  /-- A star is lost where there is no space. -/
  | starred {indent cs : List Char} (hindent : Text.allBlank indent = true)
      (hcs : ∀ c ∈ cs.head?, c ≠ ' ') : Unstarred (indent ++ '*' :: cs) cs
  /-- Where there is no star, the indentation is lost. -/
  | plain {indent cs : List Char} (hindent : Text.allBlank indent = true)
      (hcs : ∀ c ∈ cs.head?, Text.isBlank c = false ∧ c ≠ '*') : Unstarred (indent ++ cs) cs

theorem unstarred_dropStar (line : List Char) : Unstarred line (dropStar line) := by
  have hindent : Text.allBlank (line.takeWhile Text.isBlank) = true := List.all_takeWhile
  have hline : line.takeWhile Text.isBlank ++ Text.trimStart line = line :=
    List.takeWhile_append_dropWhile
  have hfirst : ∀ c ∈ (Text.trimStart line).head?, Text.isBlank c = false :=
    fun c hc => Text.head?_trimStart hc
  unfold dropStar
  generalize line.takeWhile Text.isBlank = indent at hindent hline
  generalize Text.trimStart line = rest at hline hfirst
  subst hline
  split
  · exact .spaced hindent
  · next cs hspace =>
      refine .starred hindent fun c hc => ?_
      rintro rfl
      obtain ⟨more, rfl⟩ := List.head?_eq_some_iff.1 hc
      exact hspace more rfl
  · next hspace hstar =>
      refine .plain hindent fun c hc => ⟨hfirst c hc, ?_⟩
      rintro rfl
      obtain ⟨more, rfl⟩ := List.head?_eq_some_iff.1 hc
      exact hstar more rfl

theorem Unstarred.isSuffix {line left : List Char} (h : Unstarred line left) : left <:+ line := by
  cases h with
  | @spaced indent =>
      exact ((List.suffix_cons ' ' left).trans (List.suffix_cons '*' _)).trans
        (List.suffix_append indent _)
  | @starred indent => exact (List.suffix_cons '*' left).trans (List.suffix_append indent _)
  | @plain indent => exact List.suffix_append indent left

/-! ## Comments -/

/-- What is shown of a line comment: what it says behind its two slashes and the mark of
documentation, without the blanks around that. -/
def ShowsLine (raw shown : List Char) : Prop :=
  ∃ body said, raw = '/' :: '/' :: body ∧ Unmarked '/' body said ∧ Trimmed said shown

/-- What is shown of a block comment: the lines between its delimiters, behind the mark of
documentation, each without the star that leads it, and all together without the blanks around
them. -/
def ShowsBlock (raw shown : List Char) : Prop :=
  ∃ body said left, raw = '/' :: '*' :: (body ++ ['*', '/']) ∧ Unmarked '*' body said ∧
    List.Forall₂ Unstarred (Text.lines said) left ∧ Trimmed (Text.joinLines left) shown

theorem showsLine_lineText (body : List Char) :
    ShowsLine ('/' :: '/' :: body) (lineText ('/' :: '/' :: body)) :=
  ⟨body, dropDocMark '/' body, rfl, unmarked_dropDocMark '/' body, trimmed_trim _⟩

theorem showsBlock_blockText (body : List Char) :
    ShowsBlock ('/' :: '*' :: (body ++ ['*', '/']))
      (blockText ('/' :: '*' :: (body ++ ['*', '/']))) := by
  have hinner : dropTrail ['*', '/'] (dropLead ['/', '*'] ('/' :: '*' :: (body ++ ['*', '/']))) =
      body := dropTrail_append body ['*', '/']
  refine ⟨body, dropDocMark '*' body, (Text.lines (dropDocMark '*' body)).map dropStar, rfl,
    unmarked_dropDocMark '*' body, ?_, ?_⟩
  · rw [List.forall₂_map_right_iff]
    exact List.forall₂_same.2 fun line _ => unstarred_dropStar line
  · unfold blockText
    rw [hinner]
    exact trimmed_trim _

end LiveExcerpts
