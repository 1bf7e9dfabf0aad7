import LiveExcerpts.Proofs.Texts.Lines
import LiveExcerpts.Proofs.Texts.Occurrences
import LiveExcerpts.Segment
/-!
# What cleaning leaves of a piece

Code is shown without the blank lines at its top and the blanks at its end, so line feeds that part
it from its neighbours do not matter.

Main statements: `codeText_eq_trimEnd_dropBlankLines`, `codeText_append_of_blank`, and
`Piece.filterMap_clean?_code?_concat` on a line feed after code.
-/

namespace LiveExcerpts

/-! ## Code -/

/-- **Code is shown without the blank lines at its top and the blanks at its end.** -/
theorem codeText_eq_trimEnd_dropBlankLines {cs : List Char} (h : Text.allBlank cs = false) :
    codeText cs = Text.trimEnd (Text.dropBlankLines cs) := by
  rw [Text.dropBlankLines_eq h]
  rfl

/-- A line feed in front of code is not shown. -/
theorem codeText_cons_newline {cs : List Char} (h : Text.allBlank cs = false) :
    codeText ('\n' :: cs) = codeText cs := by
  have hcons : Text.allBlank ('\n' :: cs) = false := by rw [Text.allBlank_cons, h, Bool.and_false]
  rw [codeText_eq_trimEnd_dropBlankLines h, codeText_eq_trimEnd_dropBlankLines hcons]
  have htop := Text.dropBlankLines_append Text.allBlank_nil cs
  exact congrArg Text.trimEnd htop

/-- Blanks behind code are not shown. -/
theorem codeText_append_of_blank {cs gap : List Char} (h : Text.allBlank cs = false)
    (hgap : Text.allBlank gap = true) : codeText (cs ++ gap) = codeText cs := by
  obtain ⟨d, rest, hd, -⟩ := Text.exists_dropWhile_isBlank h
  have hdrop : (cs ++ gap).dropWhile Text.isBlank = cs.dropWhile Text.isBlank ++ gap := by
    rw [List.dropWhile_append, if_neg]
    rw [hd]
    exact Bool.false_ne_true
  have hsplit : (cs ++ gap).takeWhile Text.isBlank ++ (cs ++ gap).dropWhile Text.isBlank =
      cs.takeWhile Text.isBlank ++ (cs.dropWhile Text.isBlank ++ gap) := by
    rw [List.takeWhile_append_dropWhile, ← List.append_assoc, List.takeWhile_append_dropWhile]
  rw [hdrop] at hsplit
  unfold codeText
  dsimp only
  rw [List.append_cancel_right hsplit, hdrop, ← List.append_assoc,
    Text.trimEnd_append_of_blank hgap]

/-! ## Notes to the authors -/

/-- A line feed is no part of the mark of a note. -/
theorem hasTodo_cons_newline (cs : List Char) : hasTodo ('\n' :: cs) = hasTodo cs := by
  unfold hasTodo
  rw [Bool.eq_iff_iff, Text.contains_iff_infix, Text.contains_iff_infix, List.map_cons,
    List.infix_cons_iff, or_iff_right]
  intro hprefix
  have hhead := (List.cons_prefix_cons.1 hprefix).1
  exact absurd hhead (by decide)

theorem hasTodo_concat_newline (cs : List Char) : hasTodo (cs ++ ['\n']) = hasTodo cs := by
  unfold hasTodo
  rw [Bool.eq_iff_iff, Text.contains_iff_infix, Text.contains_iff_infix, List.map_append,
    List.map_singleton, List.infix_concat_iff, or_iff_right]
  intro hsuffix
  rcases List.suffix_concat_iff.1 hsuffix with hempty | ⟨start, hstart, -⟩
  · exact absurd hempty (by decide)
  · have hlast := congrArg List.getLast? hstart
    rw [List.getLast?_concat] at hlast
    exact absurd hlast (by decide)

/-! ## Marks of comments -/

/-- The mark at the end can be taken away again. -/
theorem dropTrail_append (cs trail : List Char) : dropTrail trail (cs ++ trail) = cs := by
  unfold dropTrail
  rw [if_pos (List.isSuffixOf_iff_suffix.2 (List.suffix_append cs trail)), List.length_append,
    Nat.add_sub_cancel, List.take_left]

/-! ## Pieces -/

namespace Piece

/-- A piece that is not blank and holds no note gets to the page. -/
theorem clean?_of_shown {piece : Piece} (hblank : Text.allBlank piece.text = false)
    (htodo : hasTodo piece.text = false) :
    piece.clean? = some ⟨piece.kind, String.ofList (match piece.kind with
      | .block => blockText piece.text
      | .code => codeText piece.text
      | .line => lineText piece.text)⟩ := by
  unfold clean?
  rw [hblank, htodo]
  rfl

theorem code?_of_ne_nil {cs : List Char} (h : cs ≠ []) : code? cs = [⟨.code, cs⟩] := by
  obtain ⟨c, cs, rfl⟩ := List.exists_cons_of_ne_nil h
  rfl

/-- What is shown of code is told by three things about it. -/
theorem clean?_code_congr {cs ds : List Char} (hblank : Text.allBlank cs = Text.allBlank ds)
    (htodo : hasTodo cs = hasTodo ds)
    (htext : Text.allBlank ds = false → codeText cs = codeText ds) :
    clean? ⟨.code, cs⟩ = clean? ⟨.code, ds⟩ := by
  unfold clean?
  dsimp only
  rw [hblank, htodo]
  cases hds : Text.allBlank ds with
  | true => rfl
  | false => rw [htext hds]

/-- **A line feed behind code changes nothing about what is shown of it.** -/
theorem filterMap_clean?_code?_concat (cs : List Char) :
    (code? (cs ++ ['\n'])).filterMap clean? = (code? cs).filterMap clean? := by
  cases cs with
  | nil => rfl
  | cons c cs =>
      have hblank : Text.allBlank (c :: cs ++ ['\n']) = Text.allBlank (c :: cs) := by
        rw [Text.allBlank_append]
        exact Bool.and_true _
      have hclean := clean?_code_congr hblank (hasTodo_concat_newline _)
        fun hcs => codeText_append_of_blank hcs rfl
      show [Piece.mk .code (c :: cs ++ ['\n'])].filterMap clean? =
        [Piece.mk .code (c :: cs)].filterMap clean?
      rw [List.filterMap_cons, List.filterMap_cons, hclean]

/-- **Neither does one in front of it.** -/
theorem filterMap_clean?_code?_cons (cs : List Char) :
    (code? ('\n' :: cs)).filterMap clean? = (code? cs).filterMap clean? := by
  cases cs with
  | nil => rfl
  | cons c cs =>
      have hblank : Text.allBlank ('\n' :: c :: cs) = Text.allBlank (c :: cs) := Bool.true_and _
      have hclean := clean?_code_congr hblank (hasTodo_cons_newline _) codeText_cons_newline
      show [Piece.mk .code ('\n' :: c :: cs)].filterMap clean? =
        [Piece.mk .code (c :: cs)].filterMap clean?
      rw [List.filterMap_cons, List.filterMap_cons, hclean]

/-- The scan takes a line feed for code. -/
theorem scan_newline (code cs : List Char) : scan code ('\n' :: cs) = scan ('\n' :: code) cs := by
  have hnone : commentAt? ('\n' :: cs) = none := rfl
  rw [scan, hnone]

/-- A line feed in front of a text changes nothing about what is shown of it. -/
theorem filterMap_clean?_scan_concat (code cs : List Char) :
    (scan (code ++ ['\n']) cs).filterMap clean? = (scan code cs).filterMap clean? := by
  have hcode : ∀ code, (code? (code ++ ['\n']).reverse).filterMap clean? =
      (code? code.reverse).filterMap clean? := by
    intro code
    rw [List.reverse_append]
    exact filterMap_clean?_code?_cons code.reverse
  fun_induction scan code cs with
  | case1 code => rw [scan, hcode]
  | case2 code c cs kind n hcomment ih =>
      rw [scan, hcomment]
      dsimp only
      rw [List.filterMap_append, hcode, ← List.filterMap_append]
  | case3 code c cs hnone ih =>
      rw [scan, hnone]
      exact ih

end Piece

end LiveExcerpts
