import LiveExcerpts.Proofs.Outcomes
import LiveExcerpts.Proofs.Segments.Split
import LiveExcerpts.Proofs.Segments.Stripped
import LiveExcerpts.Proofs.Texts.Substitution
/-!
# What readers are shown of a text

Whether a piece is a note to the authors is asked before it is cleaned, and cleaning goes line by
line and joins what is left.  No line feed is part of a note's mark and every line that is shown is
a stretch of the piece, so no note comes about by cleaning.  Comments lose what makes them comments.
Code loses blanks only, and what is left of it is code that cleaning does not change.

Main definitions: `LinesOf`, `ShowsCode`, `Piece.ShownAs`.  Main statements: what is shown of a
piece is free of notes (`LinesOf.hasTodo`), code is shown but for the blanks around it
(`showsCode_codeText`), `Segment.exists_split_shown` on all segments of a text, and
`Segment.ofText_code` on texts that are shown as code.
-/

namespace LiveExcerpts

/-! ## Stretches of a text -/

namespace Text

theorem isPrefix_dropReturn (line : List Char) : dropReturn line <+: line := by
  unfold dropReturn
  split
  · exact List.dropLast_prefix line
  · exact List.prefix_refl line

/-- A line of a text is a stretch of it without a line feed. -/
theorem of_mem_lines {line cs : List Char} (h : line ∈ lines cs) : '\n' ∉ line ∧ line <:+: cs := by
  have hcut : ∀ piece ∈ pieces (· == '\n') cs, '\n' ∉ piece ∧ piece <:+: cs := by
    intro piece hpiece
    exact ⟨(mem_pieces_iff.1 hpiece).1, isInfix_of_mem_pieces hpiece⟩
  rcases List.mem_append.1 h with hmem | hmem
  · obtain ⟨piece, hpiece, rfl⟩ := List.mem_map.1 hmem
    obtain ⟨hnot, hin⟩ := hcut piece (List.dropLast_subset _ hpiece)
    have hstart := isPrefix_dropReturn piece
    exact ⟨fun hc => hnot (hstart.subset hc), hstart.isInfix.trans hin⟩
  · obtain ⟨hlast, -⟩ := List.mem_filter.1 hmem
    exact hcut line (List.mem_of_getLast? (Option.mem_toList.1 hlast))

end Text

/-! ## Lines that are shown -/

/-- Every line of `shown` is a stretch of the text `raw`. -/
def LinesOf (raw shown : List Char) : Prop :=
  ∀ line ∈ Text.pieces (· == '\n') shown, line <:+: raw

theorem linesOf_of_isInfix {raw shown : List Char} (h : shown <:+: raw) : LinesOf raw shown :=
  fun _ hline => (Text.isInfix_of_mem_pieces hline).trans h

/-- So are the lines of a stretch of `shown`. -/
theorem LinesOf.of_isInfix {raw shown cs : List Char} (h : LinesOf raw shown)
    (hcs : cs <:+: shown) : LinesOf raw cs := by
  intro line hline
  have hnot := (Text.mem_pieces_iff.1 hline).1
  obtain ⟨whole, hwhole, hin⟩ :=
    Text.exists_piece_of_isInfix hnot ((Text.isInfix_of_mem_pieces hline).trans hcs)
  exact hin.trans (h whole hwhole)

/-- Stretches that are lines can be joined. -/
theorem linesOf_joinLines {raw : List Char} {ls : List (List Char)}
    (h : ∀ line ∈ ls, '\n' ∉ line ∧ line <:+: raw) : LinesOf raw (Text.joinLines ls) := by
  rcases eq_or_ne ls [] with rfl | hne
  · exact linesOf_of_isInfix List.nil_infix
  · intro line hline
    unfold Text.joinLines at hline
    rw [Text.pieces_intercalate hne fun line hline => (h line hline).1] at hline
    exact (h line hline).2

/-- A text with a note has it on one line. -/
theorem exists_line_of_hasTodo {cs : List Char} (h : hasTodo cs = true) :
    ∃ line ∈ Text.pieces (· == '\n') cs, hasTodo line = true := by
  obtain ⟨before, after, heq⟩ := Text.contains_iff_infix.1 h
  obtain ⟨front, back, rfl, hfront, -⟩ := List.map_eq_append_iff.1 heq.symm
  obtain ⟨lead, note, rfl, -, hnote⟩ := List.map_eq_append_iff.1 hfront
  have hfeed : '\n' ∉ note := by
    intro hmem
    have hlower := List.mem_map_of_mem (f := Char.toLower) hmem
    rw [hnote] at hlower
    exact absurd hlower (by decide)
  obtain ⟨line, hline, hin⟩ := Text.exists_piece_of_isInfix hfeed ⟨lead, back, rfl⟩
  refine ⟨line, hline, Text.contains_iff_infix.2 ?_⟩
  rw [← hnote]
  exact hin.map Char.toLower

theorem hasTodo_of_isInfix {cs ds : List Char} (h : cs <:+: ds) (hcs : hasTodo cs = true) :
    hasTodo ds = true :=
  Text.contains_iff_infix.2 ((Text.contains_iff_infix.1 hcs).trans (h.map Char.toLower))

/-- **No note comes about where every line is a stretch of the text.** -/
theorem LinesOf.hasTodo {raw shown : List Char} (h : LinesOf raw shown)
    (hraw : hasTodo raw = false) : LiveExcerpts.hasTodo shown = false := by
  rw [← Bool.not_eq_true] at hraw ⊢
  intro htodo
  obtain ⟨line, hline, hnote⟩ := exists_line_of_hasTodo htodo
  exact hraw (hasTodo_of_isInfix (h line hline) hnote)

/-- What is shown of a line comment is a stretch of it. -/
theorem ShowsLine.linesOf {raw shown : List Char} (h : ShowsLine raw shown) :
    LinesOf raw shown := by
  obtain ⟨body, said, rfl, hmark, htrim⟩ := h
  apply linesOf_of_isInfix
  apply (htrim.isInfix.trans hmark.isSuffix.isInfix).trans
  exact ⟨['/', '/'], [], by simp⟩

/-- **What is shown of a block comment is made of stretches of it.** -/
theorem ShowsBlock.linesOf {raw shown : List Char} (h : ShowsBlock raw shown) :
    LinesOf raw shown := by
  obtain ⟨body, said, left, rfl, hmark, hstars, htrim⟩ := h
  have hsaid : said <:+: '/' :: '*' :: (body ++ ['*', '/']) :=
    hmark.isSuffix.isInfix.trans ⟨['/', '*'], ['*', '/'], by simp⟩
  refine (linesOf_joinLines fun line hline => ?_).of_isInfix htrim.isInfix
  obtain ⟨whole, hwhole, hstar⟩ := exists_mem_of_forall₂ hstars.flip hline
  obtain ⟨hfeed, hin⟩ := Text.of_mem_lines hwhole
  exact ⟨fun hc => hfeed (hstar.isSuffix.subset hc),
    (hstar.isSuffix.isInfix.trans hin).trans hsaid⟩

/-! ## Code that is shown -/

/-- Code is shown from the beginning of its first line that is not blank to its last character that
is not blank. -/
structure ShowsCode (raw shown : List Char) : Prop where
  /-- What is shown is one stretch, and begins where a line begins; around it there are blanks. -/
  stretch : ∃ above below, raw = above ++ shown ++ below ∧ Text.allBlank above = true ∧
    Text.allBlank below = true ∧ ∀ c ∈ above.getLast?, c = '\n'
  /-- The first line is not blank. -/
  top : ∀ line ∈ (Text.pieces (· == '\n') shown).head?, Text.allBlank line = false
  /-- There is no blank at the end. -/
  bottom : ∀ c ∈ shown.getLast?, Text.isBlank c = false

namespace ShowsCode

variable {raw shown : List Char}

theorem isInfix (h : ShowsCode raw shown) : shown <:+: raw := by
  obtain ⟨above, below, hraw, -⟩ := h.stretch
  exact ⟨above, below, hraw.symm⟩

/-- Something is shown of code. -/
theorem allBlank_eq_false (h : ShowsCode raw shown) : Text.allBlank shown = false := by
  obtain ⟨first, more, hpieces⟩ := List.exists_cons_of_ne_nil (Text.pieces_ne_nil (· == '\n') shown)
  have htop := h.top first (by rw [hpieces]; rfl)
  rw [Text.allBlank_eq_all_pieces, hpieces, List.all_cons, htop, Bool.false_and]

/-- The characters that are not blank are all shown, in order. -/
theorem filter_isBlank (h : ShowsCode raw shown) :
    shown.filter (fun c => !Text.isBlank c) = raw.filter fun c => !Text.isBlank c := by
  have hnone : ∀ gap, Text.allBlank gap = true → gap.filter (fun c => !Text.isBlank c) = [] := by
    intro gap hgap
    rw [List.filter_eq_nil_iff]
    intro c hc
    simp [List.all_eq_true.1 hgap c hc]
  obtain ⟨above, below, rfl, habove, hbelow, -⟩ := h.stretch
  rw [List.filter_append, List.filter_append, hnone above habove, hnone below hbelow,
    List.nil_append, List.append_nil]

/-- **Code that is shown is not changed by cleaning it again.** -/
theorem codeText_eq (h : ShowsCode raw shown) : codeText shown = shown := by
  obtain ⟨first, more, hpieces⟩ := List.exists_cons_of_ne_nil (Text.pieces_ne_nil (· == '\n') shown)
  have htop : ¬ Text.allBlank first = true := by
    rw [h.top first (by rw [hpieces]; rfl)]
    exact Bool.false_ne_true
  have hlines : Text.dropBlankLines shown = shown := by
    unfold Text.dropBlankLines
    rw [hpieces, List.dropWhile_cons_of_neg htop, ← hpieces]
    exact Text.intercalate_pieces '\n' shown
  rw [codeText_eq_trimEnd_dropBlankLines h.allBlank_eq_false, hlines]
  obtain ⟨gap, hgap, heq⟩ := Text.exists_eq_trimEnd_append shown
  rcases List.eq_nil_or_concat gap with rfl | ⟨gap, c, rfl⟩
  · rw [List.append_nil] at heq
    exact heq.symm
  · -- The last character would be one of the blanks that are trimmed.
    have hlast := h.bottom c (by rw [heq, List.concat_eq_append, ← List.append_assoc]; simp)
    rw [List.concat_eq_append, Text.allBlank_append, Text.allBlank_cons, hlast] at hgap
    simp at hgap

end ShowsCode

/-- **Code is shown but for the blank lines at its top and the blanks at its end.** -/
theorem showsCode_codeText {cs : List Char} (h : Text.allBlank cs = false) :
    ShowsCode cs (codeText cs) := by
  obtain ⟨above, indent, d, rest, hcs, habove, hlast, hindent, hblank, hline⟩ :=
    Text.exists_first_line h
  obtain ⟨below, hbelow, heq⟩ := Text.exists_eq_trimEnd_append rest
  have hshown : codeText cs = indent ++ d :: Text.trimEnd rest := by
    rw [← Text.trimEnd_append_cons hblank]
    exact congrArg Text.trimEnd hline
  refine ⟨⟨above, below, ?stretch, habove, hbelow, hlast⟩, ?top,
    fun c hc => Text.getLast?_trimEnd hc⟩
  case stretch =>
    rw [hshown]
    calc cs = above ++ (indent ++ d :: rest) := hcs
      _ = above ++ (indent ++ d :: (Text.trimEnd rest ++ below)) := by rw [← heq]
      _ = above ++ (indent ++ d :: Text.trimEnd rest) ++ below := by simp
  case top =>
    rw [hshown]
    intro line hmem
    obtain ⟨first, more, hpieces, hd⟩ :=
      Text.exists_pieces_eq_cons hindent hblank (Text.trimEnd rest)
    rw [hpieces] at hmem
    obtain rfl : first = line := Option.some.inj hmem
    rw [← Bool.not_eq_true]
    intro hall
    rw [List.all_eq_true.1 hall d hd] at hblank
    cases hblank

/-! ## Segments of a text -/

/-- A piece that is for readers: something stands in it, and it holds no note to the authors, be it
in upper or lower case. -/
def Piece.IsKept (piece : Piece) : Prop :=
  (∃ c ∈ piece.text, Text.isBlank c = false) ∧ ¬ todoMark <:+: piece.text.map Char.toLower

theorem Piece.isKept_iff {piece : Piece} :
    piece.IsKept ↔ Text.allBlank piece.text = false ∧ hasTodo piece.text = false := by
  unfold IsKept hasTodo
  rw [← Text.contains_iff_infix, Bool.not_eq_true, ← Bool.not_eq_true (Text.allBlank _)]
  simp [Text.allBlank]

instance : DecidablePred Piece.IsKept := fun _ => decidable_of_iff _ Piece.isKept_iff.symm

/-- What readers are shown of a piece. -/
structure Piece.ShownAs (piece : Piece) (segment : Segment) : Prop where
  /-- The sort of text is the same. -/
  kind : segment.kind = piece.kind
  /-- Every line is a stretch of the piece. -/
  lines : LinesOf piece.text segment.text.toList
  /-- There is no note to the authors. -/
  free : ¬ todoMark <:+: segment.text.toList.map Char.toLower
  /-- Code is shown but for the blanks around it. -/
  code : segment.kind = .code → ShowsCode piece.text segment.text.toList
  /-- The characters of code that are not blank are all shown, in order. -/
  filter_isBlank : segment.kind = .code →
    segment.text.toList.filter (fun c => !Text.isBlank c) =
      piece.text.filter fun c => !Text.isBlank c
  /-- A line comment loses its two slashes, its mark of documentation and the blanks around. -/
  line : segment.kind = .line → ShowsLine piece.text segment.text.toList
  /-- A block comment loses its delimiters, its mark of documentation, the stars that lead its lines
  and the blanks around. -/
  block : segment.kind = .block → ShowsBlock piece.text segment.text.toList

/-- What is for readers is cleaned, and nothing else is. -/
theorem Piece.isKept_iff_isSome {piece : Piece} : piece.IsKept ↔ piece.clean?.isSome = true := by
  rw [isKept_iff]
  unfold clean?
  cases Text.allBlank piece.text <;> cases hasTodo piece.text <;> simp

/-- A piece without notes is shown as it should be if its code and its comments are. -/
theorem Piece.shownAs_of_shows {kind : SegmentKind} {raw shown : List Char}
    (htodo : hasTodo raw = false) (hcode : kind = .code → ShowsCode raw shown)
    (hline : kind = .line → ShowsLine raw shown) (hblock : kind = .block → ShowsBlock raw shown) :
    Piece.ShownAs ⟨kind, raw⟩ ⟨kind, String.ofList shown⟩ := by
  have hlines : LinesOf raw shown := by
    cases kind with
    | block => exact (hblock rfl).linesOf
    | code => exact linesOf_of_isInfix (hcode rfl).isInfix
    | line => exact (hline rfl).linesOf
  rw [← String.toList_ofList (l := shown)] at hcode hline hblock hlines
  refine ⟨rfl, hlines, ?_, hcode, fun hkind => (hcode hkind).filter_isBlank, hline, hblock⟩
  rw [← Text.contains_iff_infix, Bool.not_eq_true]
  exact hlines.hasTodo htodo

/-- **A piece that stands in a text is shown as it should be.** -/
theorem Piece.shownAs_of_clean? {piece : Piece} {rest : List Char} {segment : Segment}
    (hstands : piece.Stands rest) (h : piece.clean? = some segment) : piece.ShownAs segment := by
  obtain ⟨hblank, htodo⟩ := isKept_iff.1 (isKept_iff_isSome.2 (Option.isSome_of_mem h))
  rw [clean?_of_shown hblank htodo] at h
  obtain rfl := Option.some.inj h
  obtain ⟨kind, text⟩ := piece
  cases kind with
  | block =>
      obtain ⟨body, rfl⟩ := hstands.exists_block_eq
      exact shownAs_of_shows htodo nofun nofun fun _ => showsBlock_blockText body
  | code => exact shownAs_of_shows htodo (fun _ => showsCode_codeText hblank) nofun nofun
  | line =>
      obtain ⟨body, rfl⟩ := hstands.exists_line_eq
      exact shownAs_of_shows htodo nofun (fun _ => showsLine_lineText body) nofun

/-- A piece of a text stands in front of what is left of the text. -/
theorem Piece.exists_stands {piece : Piece} {cs : List Char} (h : piece ∈ Piece.ofText cs) :
    ∃ rest, piece.Stands rest := by
  obtain ⟨before, after, hsplit⟩ := List.append_of_mem h
  exact ⟨_, (isSplit_ofText cs).stands before piece after hsplit⟩

/-- What is shown of a text is shown of one of its pieces. -/
theorem Segment.exists_shownAs {text : String} {segment : Segment}
    (h : segment ∈ (SegmentReader.ofText text).read.1) :
    ∃ piece ∈ Piece.ofText text.toList, piece.ShownAs segment := by
  obtain ⟨piece, hpiece, hclean⟩ := List.mem_filterMap.1 h
  obtain ⟨rest, hstands⟩ := Piece.exists_stands hpiece
  exact ⟨piece, hpiece, Piece.shownAs_of_clean? hstands hclean⟩

/-- **Cleaning drops and changes only what it should.**  A new reader of a text hands out, in the
order of the text, what is to be shown of its comments and the code between them: of each that is
not blank and is no note to the authors, and of no other.  In what is shown no note has come about,
code has lost nothing but blanks, and comments have lost nothing but blanks, marks and stars. -/
theorem Segment.exists_split_shown (text : String) :
    ∃ pieces, IsSplit text.toList pieces ∧
      List.Forall₂ Piece.ShownAs (pieces.filter fun piece => piece.IsKept)
        (SegmentReader.ofText text).read.1 := by
  refine ⟨Piece.ofText text.toList, isSplit_ofText text.toList, ?_⟩
  show List.Forall₂ Piece.ShownAs _ ((Piece.ofText text.toList).filterMap Piece.clean?)
  have hstands : ∀ piece ∈ Piece.ofText text.toList, ∃ rest, piece.Stands rest :=
    fun _ => Piece.exists_stands
  generalize Piece.ofText text.toList = pieces at hstands
  induction pieces with
  | nil => exact .nil
  | cons piece pieces ih =>
      obtain ⟨⟨rest, hpiece⟩, hpieces⟩ := List.forall_mem_cons.1 hstands
      by_cases hkept : piece.IsKept
      · obtain ⟨segment, h⟩ := Option.isSome_iff_exists.1 (Piece.isKept_iff_isSome.1 hkept)
        rw [List.filterMap_cons_some h, List.filter_cons_of_pos (by simpa using hkept)]
        exact .cons (Piece.shownAs_of_clean? hpiece h) (ih hpieces)
      · have h : piece.clean? = none := by
          rwa [Piece.isKept_iff_isSome, Bool.not_eq_true, Option.isSome_eq_false_iff,
            Option.isNone_iff_eq_none] at hkept
        rw [List.filterMap_cons_none h, List.filter_cons_of_neg (by simpa using hkept)]
        exact ih hpieces

/-- A mark that is parted by a line feed stays so when the star before its second half goes. -/
example : (SegmentReader.ofText "/* TO\n * DO: a */\n//! Todo:\n\n  b;\n\n").read.1 =
    [⟨.block, "TO\nDO: a"⟩, ⟨.code, "  b;"⟩] := by
  decide +kernel

/-! ## Code that is cleaned again -/

/-- A comment that opens somewhere opens there whatever is written after it. -/
theorem OpensComment.append {cs : List Char} (h : OpensComment cs) (after : List Char) :
    OpensComment (cs ++ after) := by
  rcases h with hline | ⟨comment, hstart, hbalanced⟩
  · exact .inl (hline.trans (List.prefix_append cs after))
  · exact .inr ⟨comment, hstart.trans (List.prefix_append cs after), hbalanced⟩

/-- **Within code no stretch opens a comment**, be it closed behind the stretch or never. -/
theorem Piece.Stands.of_isInfix {text cs rest : List Char} (h : Piece.Stands ⟨.code, text⟩ rest)
    (hcs : cs <:+: text) : Piece.Stands ⟨.code, cs⟩ [] := by
  obtain ⟨above, below, rfl⟩ := hcs
  rintro tail hne ⟨before, rfl⟩ hopens
  rw [List.append_nil] at hopens
  refine h (tail ++ below) ?_ ⟨above ++ before, ?_⟩ ?_
  · exact List.append_ne_nil_of_left_ne_nil hne below
  · simp only [List.append_assoc]
  · rw [List.append_assoc]
    exact hopens.append (below ++ rest)

/-- Code in which no comment opens is one piece. -/
theorem Piece.ofText_of_stands {cs : List Char} (hne : cs ≠ []) (h : Piece.Stands ⟨.code, cs⟩ []) :
    Piece.ofText cs = [⟨.code, cs⟩] := by
  have hsplit : IsSplit cs [⟨.code, cs⟩] :=
    isSplit_cons_iff.2 ⟨[], (List.append_nil cs).symm, hne, h, nofun, isSplit_nil_iff.2 rfl⟩
  exact hsplit.eq_ofText.symm

/-- **Shown code is shown again as it is.**  What is shown as code of any text is one piece of code
when it is read as a text of its own, so that no comment opens in it and no block comment that was
never closed is closed by what was cut off; and cleaning does not change it. -/
theorem Segment.ofText_code {text : String} {segment : Segment}
    (hmem : segment ∈ (SegmentReader.ofText text).read.1) (hkind : segment.kind = .code) :
    Piece.ofText segment.text.toList = [⟨.code, segment.text.toList⟩] ∧
      (SegmentReader.ofText segment.text).read.1 = [segment] := by
  obtain ⟨piece, hpiece, hshown⟩ := Segment.exists_shownAs hmem
  have hcode := hshown.code hkind
  obtain ⟨rest, hstands⟩ := Piece.exists_stands hpiece
  obtain ⟨kind, raw⟩ := piece
  obtain rfl : kind = .code := hshown.kind.symm.trans hkind
  have hne : segment.text.toList ≠ [] := by
    intro hnil
    have hblank := hcode.allBlank_eq_false
    rw [hnil] at hblank
    cases hblank
  have hone := Piece.ofText_of_stands hne (hstands.of_isInfix hcode.isInfix)
  refine ⟨hone, ?_⟩
  have htodo : hasTodo segment.text.toList = false := by
    rw [← Bool.not_eq_true]
    intro htodo
    exact hshown.free (Text.contains_iff_infix.1 htodo)
  show (Piece.ofText segment.text.toList).filterMap Piece.clean? = [segment]
  rw [hone, List.filterMap_cons_some (Piece.clean?_of_shown hcode.allBlank_eq_false htodo)]
  dsimp only
  rw [hcode.codeText_eq, String.ofList_toList, List.filterMap_nil, ← hkind]

theorem Segment.ofText_code_unclosed :
    ⟨.code, "  x /* y"⟩ ∈ (SegmentReader.ofText "\n  x /* y // z\n").read.1 ∧
    Piece.ofText "  x /* y".toList = [⟨.code, "  x /* y".toList⟩] ∧
    (SegmentReader.ofText "  x /* y").read.1 = [⟨.code, "  x /* y"⟩] := by
  have hmem : (⟨.code, "  x /* y"⟩ : Segment) ∈
      (SegmentReader.ofText "\n  x /* y // z\n").read.1 := by decide +kernel
  exact ⟨hmem, Segment.ofText_code hmem rfl⟩

end LiveExcerpts
