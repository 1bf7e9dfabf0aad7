import Mathlib.Data.List.TakeWhile
import LiveExcerpts.Proofs.Texts.Words
/-!
# Lines written one below the other

What is read of lines that have been joined, and what is left of a text without the blank lines at
its top.

Main definition: `dropBlankLines`.  Main statements: `lines_joinLines`, and blank lines at the top
take nothing away from the rest (`dropBlankLines_eq`).
-/

namespace LiveExcerpts.Text

/-! ## Joining -/

/-- Every text but the first comes with the separator before it. -/
theorem intercalate_singleton_cons (d : Char) (text : List Char) (texts : List (List Char)) :
    [d].intercalate (text :: texts) = text ++ texts.flatMap (d :: ·) := by
  induction texts generalizing text with
  | nil => simp [List.intercalate]
  | cons next texts ih =>
      have hjoin : [d].intercalate (text :: next :: texts) =
          text ++ d :: [d].intercalate (next :: texts) := by
        simp [List.intercalate, List.intersperse]
      rw [hjoin, ih]
      rfl

/-- Every line but the first comes with the line feed before it. -/
theorem joinLines_cons (line : List Char) (ls : List (List Char)) :
    joinLines (line :: ls) = line ++ ls.flatMap ('\n' :: ·) :=
  intercalate_singleton_cons '\n' line ls

/-- **Lines can be read back**, but for a last one that is empty and for the carriage returns at the
ends of the others. -/
theorem lines_joinLines {ls : List (List Char)} (hne : ls ≠ []) (h : ∀ line ∈ ls, '\n' ∉ line) :
    lines (joinLines ls) =
      ls.dropLast.map dropReturn ++ (ls.getLast?.toList.filter fun line => !line.isEmpty) := by
  unfold lines joinLines
  rw [pieces_intercalate hne h]

/-- A line without a carriage return is kept whole. -/
theorem dropReturn_of_not_mem {line : List Char} (h : '\r' ∉ line) : dropReturn line = line := by
  unfold dropReturn
  rw [if_neg]
  intro hlast
  exact h (List.mem_of_getLast? hlast)

/-! ## Blank lines at the top -/

/-- The text without the blank lines at its top. -/
def dropBlankLines (cs : List Char) : List Char :=
  joinLines ((pieces (· == '\n') cs).dropWhile allBlank)

/-- A text is blank exactly if its lines are. -/
theorem allBlank_eq_all_pieces (cs : List Char) :
    allBlank cs = (pieces (· == '\n') cs).all allBlank := by
  induction cs with
  | nil => rfl
  | cons c cs ih =>
      by_cases hc : c = '\n'
      · subst hc
        rw [pieces_cons_of_sep (by simp), List.all_cons, allBlank_cons, ih]
        rfl
      · obtain ⟨piece, more, hp, hcons⟩ :=
          @pieces_cons_of_not_sep (· == '\n') c (by simpa using hc) cs
        rw [hcons, List.all_cons, allBlank_cons, allBlank_cons, ih, hp, List.all_cons,
          Bool.and_assoc]

/-- The first line of a text goes on at least up to its first character that is not blank, unless
that comes after a line feed. -/
theorem exists_pieces_eq_cons {indent : List Char} (h : '\n' ∉ indent) {d : Char}
    (hd : isBlank d = false) (rest : List Char) :
    ∃ piece more, pieces (· == '\n') (indent ++ d :: rest) = piece :: more ∧ d ∈ piece := by
  induction indent with
  | nil =>
      have hsep : (d == '\n') = false := by
        rw [beq_eq_false_iff_ne]
        rintro rfl
        cases hd
      obtain ⟨piece, more, -, hcons⟩ := @pieces_cons_of_not_sep (· == '\n') d hsep rest
      exact ⟨d :: piece, more, hcons, List.mem_cons_self⟩
  | cons c indent ih =>
      obtain ⟨hc, hindent⟩ := not_or.1 (mt List.mem_cons.2 h)
      obtain ⟨piece, more, hp, hmem⟩ := ih hindent
      have hsep : (c == '\n') = false := beq_eq_false_iff_ne.2 (Ne.symm hc)
      obtain ⟨piece', more', hp', hcons⟩ :=
        @pieces_cons_of_not_sep (· == '\n') c hsep (indent ++ d :: rest)
      obtain ⟨rfl, rfl⟩ := List.cons.inj (hp.symm.trans hp')
      exact ⟨c :: piece, more, hcons, List.mem_cons_of_mem c hmem⟩

/-- A text with something in its first line has no blank lines at the top. -/
theorem dropBlankLines_of_not_mem {indent : List Char} (h : '\n' ∉ indent) {d : Char}
    (hd : isBlank d = false) (rest : List Char) :
    dropBlankLines (indent ++ d :: rest) = indent ++ d :: rest := by
  obtain ⟨piece, more, hp, hmem⟩ := exists_pieces_eq_cons h hd rest
  have hpiece : ¬ allBlank piece = true := by
    intro hblank
    rw [List.all_eq_true.1 hblank d hmem] at hd
    cases hd
  unfold dropBlankLines
  rw [hp, List.dropWhile_cons_of_neg hpiece, ← hp]
  exact intercalate_pieces '\n' _

/-- Blank lines at the top are dropped. -/
theorem dropBlankLines_append {top : List Char} (h : allBlank top = true) (rest : List Char) :
    dropBlankLines (top ++ '\n' :: rest) = dropBlankLines rest := by
  unfold dropBlankLines
  rw [pieces_append_of_sep (by simp), List.dropWhile_append_of_pos]
  exact List.all_eq_true.1 ((allBlank_eq_all_pieces top).symm.trans h)

/-- So is a blank text above a line. -/
theorem dropBlankLines_of_above {above : List Char} (h : allBlank above = true)
    (hlast : ∀ c ∈ above.getLast?, c = '\n') (rest : List Char) :
    dropBlankLines (above ++ rest) = dropBlankLines rest := by
  rcases List.eq_nil_or_concat above with rfl | ⟨top, c, rfl⟩
  · rfl
  · rw [List.concat_eq_append] at h hlast ⊢
    obtain rfl : c = '\n' := hlast c List.getLast?_concat
    rw [allBlank_append, Bool.and_eq_true] at h
    rw [List.append_assoc, List.singleton_append]
    exact dropBlankLines_append h.1 rest

theorem not_mem_takeWhile_bne (d : Char) (cs : List Char) : d ∉ cs.takeWhile (· != d) := by
  intro hmem
  have hne := List.mem_takeWhile_imp hmem
  exact absurd rfl (bne_iff_ne.1 hne)

theorem eq_of_mem_head?_dropWhile_bne {c d : Char} {cs : List Char}
    (h : c ∈ (cs.dropWhile (· != d)).head?) : c = d := by
  have hnot := List.head?_dropWhile_not (· != d) cs
  rw [Option.mem_def.1 h] at hnot
  simpa using hnot

/-- What stands before the characters behind the last separator ends with it. -/
theorem exists_eq_append_last (d : Char) (cs : List Char) :
    ∃ above, cs = above ++ (cs.reverse.takeWhile (· != d)).reverse ∧
      ∀ c ∈ above.getLast?, c = d := by
  refine ⟨(cs.reverse.dropWhile (· != d)).reverse, ?_, ?_⟩
  · rw [← List.reverse_append, List.takeWhile_append_dropWhile, List.reverse_reverse]
  · intro c hc
    rw [List.getLast?_reverse] at hc
    exact eq_of_mem_head?_dropWhile_bne hc

/-- What stands in a text that is not blank begins with a character that is none. -/
theorem exists_dropWhile_isBlank {cs : List Char} (h : allBlank cs = false) :
    ∃ d rest, cs.dropWhile isBlank = d :: rest ∧ isBlank d = false := by
  have hrest : cs.dropWhile isBlank ≠ [] := by
    intro hnil
    rw [← trimStart, trimStart_eq_nil_iff, h] at hnil
    cases hnil
  obtain ⟨d, rest, hd⟩ := List.exists_cons_of_ne_nil hrest
  exact ⟨d, rest, hd, @head?_trimStart cs d (by rw [trimStart, hd]; rfl)⟩

/-- **The first line that is not blank** begins where a line does, with its indentation: that is
what follows the last line feed among the leading blanks. -/
theorem exists_first_line {cs : List Char} (h : allBlank cs = false) :
    ∃ above indent d rest, cs = above ++ (indent ++ d :: rest) ∧ allBlank above = true ∧
      (∀ c ∈ above.getLast?, c = '\n') ∧ '\n' ∉ indent ∧ isBlank d = false ∧
      ((cs.takeWhile isBlank).reverse.takeWhile (· != '\n')).reverse ++ cs.dropWhile isBlank =
        indent ++ d :: rest := by
  obtain ⟨d, rest, hd, hblank⟩ := exists_dropWhile_isBlank h
  obtain ⟨above, hwhole, hlast⟩ := exists_eq_append_last '\n' (cs.takeWhile isBlank)
  have htop : allBlank (cs.takeWhile isBlank) = true := List.all_takeWhile
  rw [hwhole, allBlank_append, Bool.and_eq_true] at htop
  refine ⟨above, _, d, rest, ?_, htop.1, hlast, ?_, hblank, by rw [hd]⟩
  · rw [← List.append_assoc, ← hwhole, ← hd, List.takeWhile_append_dropWhile]
  · rw [List.mem_reverse]
    exact not_mem_takeWhile_bne '\n' _

/-- **What blank lines at the top leave** begins with the line of the first character that is not
blank, with its indentation. -/
theorem dropBlankLines_eq {cs : List Char} (h : allBlank cs = false) :
    dropBlankLines cs =
      ((cs.takeWhile isBlank).reverse.takeWhile (· != '\n')).reverse ++ cs.dropWhile isBlank := by
  obtain ⟨above, indent, d, rest, hcs, habove, hlast, hindent, hblank, hline⟩ := exists_first_line h
  rw [hline]
  calc dropBlankLines cs = dropBlankLines (above ++ (indent ++ d :: rest)) :=
        congrArg dropBlankLines hcs
    _ = dropBlankLines (indent ++ d :: rest) := dropBlankLines_of_above habove hlast _
    _ = indent ++ d :: rest := dropBlankLines_of_not_mem hindent hblank rest

end LiveExcerpts.Text
