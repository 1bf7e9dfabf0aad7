import LiveExcerpts.Language
import LiveExcerpts.Proofs.Segments.Shown
/-!
# Code between fences

Code is written for Markdown between two fences of three backticks, whatever the code is.  In
Markdown a line ends at a line feed, at a carriage return, or at both, and it begins like a fence if
three backticks stand in it behind three spaces at most.  Since no blank is at the end of the code,
its lines are the lines between the fences, and any of them may begin like a fence, too.

Main definitions: `Markdown.lines`, `Markdown.beginsFence`, `Markdown.IsOneBlock`.  Main statements:
where code stands in Markdown (`Segment.lines_toMarkdown`), and it is one block exactly if none of
its lines begins like a fence (`Segment.one_block_iff`).
-/

namespace LiveExcerpts

namespace Markdown

/-! ## Lines of Markdown -/

/-- The lines of Markdown.  A line ends at a line feed, at a carriage return, or at a carriage
return with a line feed right behind it. -/
def lines : List Char → List (List Char)
  | '\r' :: '\n' :: cs => [] :: lines cs
  | c :: cs => if c = '\r' ∨ c = '\n' then [] :: lines cs else (lines cs).modifyHead (c :: ·)
  | [] => [[]]

example : lines "a\r```\r\n\n\rb".toList = ["a", "```", "", "", "b"].map String.toList := by
  decide +kernel

theorem lines_ne_nil (cs : List Char) : lines cs ≠ [] := by
  fun_induction lines cs with
  | case1 cs _ => exact List.cons_ne_nil _ _
  | case2 c cs _ _ _ => exact List.cons_ne_nil _ _
  | case3 c cs _ _ ih => rwa [ne_eq, List.modifyHead_eq_nil_iff]
  | case4 => exact List.cons_ne_nil _ _

/-- The first line is a beginning of the text, and every line is a stretch of it. -/
theorem isPrefix_and_isInfix_of_lines (cs : List Char) :
    (∀ line ∈ (lines cs).head?, line <+: cs) ∧ ∀ line ∈ lines cs, line <:+: cs := by
  fun_induction lines cs with
  | case1 cs ih =>
      refine ⟨by simp, List.forall_mem_cons.2 ⟨List.nil_infix, fun line hline => ?_⟩⟩
      exact (ih.2 line hline).trans ⟨['\r', '\n'], [], by simp⟩
  | case2 c cs _ _ ih =>
      refine ⟨by simp, List.forall_mem_cons.2 ⟨List.nil_infix, fun line hline => ?_⟩⟩
      exact (ih.2 line hline).trans (List.suffix_cons c cs).isInfix
  | case3 c cs _ _ ih =>
      obtain ⟨first, more, heq⟩ := List.exists_cons_of_ne_nil (lines_ne_nil cs)
      rw [heq] at ih ⊢
      -- Only of the first line it matters that it is where the text begins.
      have hfirst : c :: first <+: c :: cs := List.cons_prefix_cons.2 ⟨rfl, ih.1 first rfl⟩
      refine ⟨by simpa using hfirst, List.forall_mem_cons.2 ⟨hfirst.isInfix, fun line hline => ?_⟩⟩
      exact (ih.2 line (List.mem_cons_of_mem _ hline)).trans (List.suffix_cons c cs).isInfix
  | case4 => simp

/-- **A line feed parts the lines before it from those behind it**, unless it makes one line end
together with a carriage return. -/
theorem lines_append_feed {before : List Char} (h : ¬ ['\r'] <:+ before) (after : List Char) :
    lines (before ++ '\n' :: after) = lines before ++ lines after := by
  fun_induction lines before with
  | case1 cs ih =>
      have hrest : ¬ ['\r'] <:+ cs := fun hcs => h (hcs.trans ⟨['\r', '\n'], rfl⟩)
      rw [List.cons_append, List.cons_append, lines, ih hrest, List.cons_append]
  | case2 c cs hpair hend ih =>
      have hrest : ¬ ['\r'] <:+ cs := fun hcs => h (hcs.trans (List.suffix_cons c cs))
      have hcons : lines (c :: (cs ++ '\n' :: after)) = [] :: lines (cs ++ '\n' :: after) := by
        rw [lines, if_pos hend]
        rintro rest rfl heq
        -- Only a carriage return at the end would be one with the line feed.
        cases cs with
        | nil => exact h (List.suffix_refl _)
        | cons d cs =>
            obtain ⟨rfl, -⟩ := List.cons.inj heq
            exact hpair cs rfl rfl
      rw [List.cons_append, hcons, ih hrest, List.cons_append]
  | case3 c cs hpair hend ih =>
      have hrest : ¬ ['\r'] <:+ cs := fun hcs => h (hcs.trans (List.suffix_cons c cs))
      have hcons : lines (c :: (cs ++ '\n' :: after)) =
          (lines (cs ++ '\n' :: after)).modifyHead (c :: ·) := by
        rw [lines, if_neg hend]
        rintro rest rfl
        exact absurd (.inl rfl) hend
      obtain ⟨first, more, heq⟩ := List.exists_cons_of_ne_nil (lines_ne_nil cs)
      rw [List.cons_append, hcons, ih hrest, heq]
      rfl
  | case4 => rfl

/-! ## Fences -/

/-- The fence that is put around code. -/
def ticks : List Char := ['`', '`', '`']

/-- A line begins, behind three spaces at most, with three backticks. -/
def beginsFence (line : List Char) : Bool :=
  (List.range 4).any fun indent => (List.replicate indent ' ' ++ ticks).isPrefixOf line

/-- Three backticks stand in a row in a line that begins like a fence. -/
theorem ticks_isInfix_of_beginsFence {line : List Char} (h : beginsFence line = true) :
    ticks <:+: line := by
  obtain ⟨indent, -, hprefix⟩ := List.any_eq_true.1 h
  exact (List.suffix_append _ _).isInfix.trans (List.isPrefixOf_iff_prefix.1 hprefix).isInfix

/-- Markdown is one block of code: of the lines behind its first, the last begins like a fence, and
no other does. -/
structure IsOneBlock (markdown : List Char) : Prop where
  /-- The last line begins like a fence. -/
  last : ∃ line, (lines markdown).tail.getLast? = some line ∧ beginsFence line = true
  /-- No line before it does. -/
  between : ∀ line ∈ (lines markdown).tail.dropLast, beginsFence line = false

/-- Between a first line and a fence it is enough to look at the lines there. -/
theorem isOneBlock_iff {markdown opening : List Char} {code : List (List Char)}
    (h : lines markdown = opening :: (code ++ [ticks])) :
    IsOneBlock markdown ↔ ∀ line ∈ code, beginsFence line = false := by
  have hbetween : (lines markdown).tail.dropLast = code := by
    rw [h, List.tail_cons, List.dropLast_concat]
  constructor
  · intro hone
    exact hbetween ▸ hone.between
  · intro hall
    refine ⟨⟨ticks, ?_, rfl⟩, hbetween ▸ hall⟩
    rw [h, List.tail_cons, List.getLast?_concat]

end Markdown

/-! ## Segments -/

namespace Segment

open Markdown

variable {text : String} {segment : Segment}

/-- What is shown as code of a text is a stretch of the text that no blank is at the end of. -/
theorem isInfix_of_mem_read (hmem : segment ∈ (SegmentReader.ofText text).read.1)
    (hkind : segment.kind = .code) :
    segment.text.toList <:+: text.toList ∧
      ∀ c ∈ segment.text.toList.getLast?, Text.isBlank c = false := by
  obtain ⟨piece, hpiece, hshown⟩ := exists_shownAs hmem
  have hcode := hshown.code hkind
  refine ⟨hcode.isInfix.trans ?_, hcode.bottom⟩
  obtain ⟨before, after, hsplit⟩ := List.append_of_mem hpiece
  have htext : (Piece.ofText text.toList).flatMap Piece.text = text.toList :=
    Piece.flatMap_ofText text.toList
  refine ⟨before.flatMap Piece.text, after.flatMap Piece.text, ?_⟩
  rw [← htext, show Piece.ofText text.toList = before ++ piece :: after from hsplit]
  simp

/-- **Where code stands in Markdown**: its lines are those between a first line, which is a fence
with a label, and a last one, which is a fence. -/
theorem lines_toMarkdown (hmem : segment ∈ (SegmentReader.ofText text).read.1)
    (hkind : segment.kind = .code) (language : Language) :
    lines (segment.toMarkdown language.fence).toList =
      (ticks ++ language.fence.toList) :: (lines segment.text.toList ++ [ticks]) := by
  have hlabel : lines (ticks ++ language.fence.toList) = [ticks ++ language.fence.toList] ∧
      ¬ ['\r'] <:+ ticks ++ language.fence.toList := by
    cases language <;> decide +kernel
  have hcode : ¬ ['\r'] <:+ segment.text.toList := by
    rintro ⟨front, hfront⟩
    have hblank := (isInfix_of_mem_read hmem hkind).2 '\r' (by rw [← hfront]; simp)
    exact absurd hblank (by decide)
  have htext : (segment.toMarkdown language.fence).toList =
      (ticks ++ language.fence.toList) ++ '\n' :: (segment.text.toList ++ '\n' :: ticks) := by
    unfold toMarkdown
    rw [hkind]
    simp [ticks]
  rw [htext, lines_append_feed hlabel.2, lines_append_feed hcode, hlabel.1]
  rfl

/-- **When code stays one block.**  What is shown as code of a text is written between a fence with
the label of its language and a fence, so that its lines are those between the two.  It stays one
block exactly if none of them begins like a fence, which is so for all code of a text in which no
three backticks stand in a row. -/
theorem one_block_iff (hmem : segment ∈ (SegmentReader.ofText text).read.1)
    (hkind : segment.kind = .code) (language : Language) :
    lines (segment.toMarkdown language.fence).toList =
        (ticks ++ language.fence.toList) :: (lines segment.text.toList ++ [ticks]) ∧
    (IsOneBlock (segment.toMarkdown language.fence).toList ↔
      ∀ line ∈ lines segment.text.toList, beginsFence line = false) ∧
    (¬ ticks <:+: text.toList → IsOneBlock (segment.toMarkdown language.fence).toList) := by
  have hlines := lines_toMarkdown hmem hkind language
  refine ⟨hlines, isOneBlock_iff hlines, fun hticks => (isOneBlock_iff hlines).2 ?_⟩
  intro line hline
  rw [← Bool.not_eq_true]
  intro hbegins
  have hstretch := ((isPrefix_and_isInfix_of_lines _).2 line hline).trans
    (isInfix_of_mem_read hmem hkind).1
  exact hticks ((ticks_isInfix_of_beginsFence hbegins).trans hstretch)

/-- Code with a fence of its own in a string. -/
def fencedText : String := "const U: &str = \"\n```\nx\n```\n\";"

theorem one_block_iff_fenced :
    ⟨.code, fencedText⟩ ∈ (SegmentReader.ofText fencedText).read.1 ∧
    lines (toMarkdown Language.rust.fence ⟨.code, fencedText⟩).toList =
      ["```rust".toList, "const U: &str = \"".toList, ticks, "x".toList, ticks, "\";".toList,
        ticks] ∧
    ¬ IsOneBlock (toMarkdown Language.rust.fence ⟨.code, fencedText⟩).toList := by
  have hmem : (⟨.code, fencedText⟩ : Segment) ∈ (SegmentReader.ofText fencedText).read.1 := by
    decide +kernel
  obtain ⟨hlines, hiff, -⟩ := one_block_iff hmem rfl .rust
  have hcode : lines fencedText.toList =
      ["const U: &str = \"".toList, ticks, "x".toList, ticks, "\";".toList] := by decide +kernel
  rw [hcode] at hlines hiff
  refine ⟨hmem, hlines, fun hone => ?_⟩
  exact absurd (hiff.1 hone ticks (by decide)) (by decide +kernel)

/-- Not all code stays one block: a string in it may have a line that begins like a fence. -/
theorem not_forall_isOneBlock : ¬ ∀ (text : String) (segment : Segment) (language : Language),
    segment ∈ (SegmentReader.ofText text).read.1 → segment.kind = .code →
      IsOneBlock (segment.toMarkdown language.fence).toList := by
  intro h
  have hmem : (⟨.code, fencedText⟩ : Segment) ∈ (SegmentReader.ofText fencedText).read.1 := by
    decide +kernel
  have hbetween := (h fencedText _ .rust hmem rfl).between ticks (by decide +kernel)
  exact absurd hbetween (by decide +kernel)

end Segment

end LiveExcerpts
