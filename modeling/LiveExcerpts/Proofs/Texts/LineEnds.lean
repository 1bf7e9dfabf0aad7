import Mathlib.Data.List.Forall2
import LiveExcerpts.Proofs.Texts.Words
/-!
# Line ends

A text is its lines, each with a line end behind it: a line feed, or a carriage return and a line
feed.  The last line may go without, unless it is empty.  Which of the line ends stand there is not
kept when lines are read, and a line that itself ends in a carriage return can lose that.

Main definitions: `IsLined`, `ReadAs`.  Main statement: what is read of a text are its lines
(`IsLined.lines`).
-/

namespace LiveExcerpts.Text

/-! ## Texts made of lines -/

/-- The text is made of these lines in order, with a line end behind each but perhaps the last. -/
inductive IsLined : List (List Char) → List Char → Prop
  /-- No lines. -/
  | nil : IsLined [] []
  /-- A last line that the text ends with. -/
  | last {line : List Char} (hline : '\n' ∉ line) (hne : line ≠ []) : IsLined [line] line
  /-- A line and a line feed. -/
  | feed {line rest : List Char} {ls : List (List Char)} (hline : '\n' ∉ line)
      (hrest : IsLined ls rest) : IsLined (line :: ls) (line ++ '\n' :: rest)
  /-- A line, a carriage return and a line feed. -/
  | returnFeed {line rest : List Char} {ls : List (List Char)} (hline : '\n' ∉ line)
      (hrest : IsLined ls rest) : IsLined (line :: ls) (line ++ '\r' :: '\n' :: rest)

/-- Lines can be written down with a line feed behind each. -/
theorem isLined_flatMap {ls : List (List Char)} (h : ∀ line ∈ ls, '\n' ∉ line) :
    IsLined ls (ls.flatMap (· ++ ['\n'])) := by
  induction ls with
  | nil => exact .nil
  | cons line ls ih =>
      obtain ⟨hline, hrest⟩ := List.forall_mem_cons.1 h
      rw [List.flatMap_cons, List.append_assoc, List.singleton_append]
      exact .feed hline (ih hrest)

/-- A character in front belongs to the first line. -/
theorem IsLined.exists_cons {ls : List (List Char)} {cs : List Char} (h : IsLined ls cs) {c : Char}
    (hc : c ≠ '\n') : ∃ line more, IsLined (line :: more) (c :: cs) := by
  have hcons : ∀ {line : List Char}, '\n' ∉ line → '\n' ∉ c :: line := by
    intro line hline hmem
    rcases List.mem_cons.1 hmem with heq | hmem
    · exact hc heq.symm
    · exact hline hmem
  cases h with
  | nil => exact ⟨[c], [], .last (hcons (by simp)) (by simp)⟩
  | last hline _ => exact ⟨_, [], .last (hcons hline) (by simp)⟩
  | feed hline hrest => exact ⟨_, _, .feed (hcons hline) hrest⟩
  | returnFeed hline hrest => exact ⟨_, _, .returnFeed (hcons hline) hrest⟩

/-- **Every text is made of lines.** -/
theorem exists_isLined (cs : List Char) : ∃ ls, IsLined ls cs := by
  induction cs with
  | nil => exact ⟨[], .nil⟩
  | cons c cs ih =>
      obtain ⟨ls, hls⟩ := ih
      by_cases hc : c = '\n'
      · subst hc
        exact ⟨[] :: ls, IsLined.feed List.not_mem_nil hls⟩
      · obtain ⟨line, more, hlined⟩ := hls.exists_cons hc
        exact ⟨line :: more, hlined⟩

/-! ## Reading lines -/

/-- What a line is read as: it is read as it is, but for a carriage return at its end. -/
def ReadAs (line read : List Char) : Prop := read = line ∨ line = read ++ ['\r']

theorem readAs_dropReturn (line : List Char) : ReadAs line (dropReturn line) := by
  unfold dropReturn
  split
  · next hlast =>
      obtain ⟨front, rfl⟩ := List.getLast?_eq_some_iff.1 hlast
      exact .inr (by rw [List.dropLast_concat])
  · exact .inl rfl

@[simp] theorem dropReturn_concat (line : List Char) : dropReturn (line ++ ['\r']) = line := by
  unfold dropReturn
  rw [if_pos List.getLast?_concat, List.dropLast_concat]

/-- A line that does not end in a carriage return is read as it is. -/
theorem ReadAs.eq {line read : List Char} (h : ReadAs line read)
    (hlast : line.getLast? ≠ some '\r') : read = line := by
  rcases h with rfl | rfl
  · rfl
  · exact absurd List.getLast?_concat hlast

theorem eq_of_readAs {ls read : List (List Char)} (h : List.Forall₂ ReadAs ls read)
    (hlast : ∀ line ∈ ls, line.getLast? ≠ some '\r') : read = ls := by
  induction h with
  | nil => rfl
  | cons hread _ ih =>
      obtain ⟨hline, hrest⟩ := List.forall_mem_cons.1 hlast
      rw [hread.eq hline, ih hrest]

/-- What is left of a line without the blanks at its ends is left of what is read. -/
theorem ReadAs.trim {line read : List Char} (h : ReadAs line read) : trim read = trim line := by
  have hreturn : Text.allBlank ['\r'] = true := rfl
  rcases h with rfl | rfl
  · rfl
  · exact (trim_append_of_blank allBlank_nil hreturn read).symm

theorem ReadAs.allBlank {line read : List Char} (h : ReadAs line read) :
    allBlank read = allBlank line := by
  rcases h with rfl | rfl
  · rfl
  · rw [allBlank_append]
    exact (Bool.and_true _).symm

theorem pieces_of_not_mem {line : List Char} (h : '\n' ∉ line) :
    pieces (· == '\n') line = [line] := by
  apply pieces_of_not_sep
  intro c hc
  rw [beq_eq_false_iff_ne]
  rintro rfl
  exact h hc

/-- A last line is read as it is. -/
theorem lines_of_not_mem {line : List Char} (h : '\n' ∉ line) (hne : line ≠ []) :
    lines line = [line] := by
  unfold lines
  rw [pieces_of_not_mem h]
  simpa using hne

/-- A line feed ends a line. -/
theorem lines_append_cons {line : List Char} (h : '\n' ∉ line) (rest : List Char) :
    lines (line ++ '\n' :: rest) = dropReturn line :: lines rest := by
  obtain ⟨piece, more, hp⟩ := List.exists_cons_of_ne_nil (pieces_ne_nil (· == '\n') rest)
  unfold lines
  rw [pieces_append_of_sep (by simp), pieces_of_not_mem h, hp]
  simp

/-- **What is read of a text are its lines.** -/
theorem IsLined.lines {ls : List (List Char)} {cs : List Char} (h : IsLined ls cs) :
    List.Forall₂ ReadAs ls (lines cs) := by
  induction h with
  | nil => exact .nil
  | last hline hne =>
      rw [lines_of_not_mem hline hne]
      exact .cons (.inl rfl) .nil
  | feed hline _ ih =>
      rw [lines_append_cons hline]
      exact .cons (readAs_dropReturn _) ih
  | @returnFeed line rest ls hline _ ih =>
      have hreturn : '\n' ∉ line ++ ['\r'] := by simpa using hline
      have hread := lines_append_cons hreturn rest
      rw [List.append_assoc, List.singleton_append, dropReturn_concat] at hread
      rw [hread]
      exact .cons (.inl rfl) ih

end LiveExcerpts.Text
