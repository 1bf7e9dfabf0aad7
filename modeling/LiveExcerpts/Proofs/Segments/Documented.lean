import LiveExcerpts.Proofs.Segments.Cleaning
import LiveExcerpts.Proofs.Segments.Split
/-!
# Documented code

Code with comments as it is usually written: line comments after `//` or `///`, blocks of
documentation with a star in front of each line, and code between them, one below the other.  Each
of these passages becomes one segment that holds what was written.

Main definitions: `Passage`, `Passage.written`, `Passage.shown`, `Passage.document`.  Main
statements: a passage stands where it was written (`Passage.stands_piece`), and segmenting undoes
writing (`Passage.ofText_document`).
-/

namespace LiveExcerpts

/-- A passage of documented code. -/
inductive Passage where
  /-- A line comment, after `///` if it documents something and after `//` if not. -/
  | line (documents : Bool) (text : List Char)
  /-- A block of documentation. -/
  | block (lines : List (List Char))
  /-- Code. -/
  | code (text : List Char)
deriving DecidableEq, Repr

namespace Passage

/-- The sort of text. -/
def kind : Passage → SegmentKind
  | line _ _ => .line
  | block _ => .block
  | code _ => .code

/-- The passage as it is written down. -/
def written : Passage → List Char
  | line true text => ['/', '/', '/', ' '] ++ text
  | line false text => ['/', '/', ' '] ++ text
  | block lines =>
    Text.joinLines (['/', '*', '*'] :: (lines.map ([' ', '*', ' '] ++ ·) ++ [[' ', '*', '/']]))
  | code text => text

/-- The passage can be told from what surrounds it: a line comment stays on its line, a block has no
marks of block comments in its lines, and code has no marks of comments in it. -/
def Fits : Passage → Prop
  | line _ text => '\r' ∉ text ∧ '\n' ∉ text
  | block lines => ∀ line ∈ lines, '\r' ∉ line ∧ '\n' ∉ line ∧
      ¬ ['/', '*'] <:+: line ∧ ¬ ['*', '/'] <:+: line
  | code text => Text.allBlank text = false ∧ ¬ ['/', '/'] <:+: text ∧ ¬ ['/', '*'] <:+: text

instance : DecidablePred Fits
  | line _ text => inferInstanceAs (Decidable ('\r' ∉ text ∧ '\n' ∉ text))
  | block lines => inferInstanceAs (Decidable (∀ line ∈ lines, '\r' ∉ line ∧ '\n' ∉ line ∧
      ¬ ['/', '*'] <:+: line ∧ ¬ ['*', '/'] <:+: line))
  | code text => inferInstanceAs (Decidable (Text.allBlank text = false ∧
      ¬ ['/', '/'] <:+: text ∧ ¬ ['/', '*'] <:+: text))

/-- What is shown of the passage: comments without the blanks around them, code without the blank
lines at its top and the blanks at its end. -/
def shown : Passage → Segment
  | line _ text => ⟨.line, String.ofList (Text.trim text)⟩
  | block lines => ⟨.block, String.ofList (Text.trim (Text.joinLines lines))⟩
  | code text => ⟨.code, String.ofList (Text.trimEnd (Text.dropBlankLines text))⟩

/-- The piece of text that the passage is. -/
def piece (p : Passage) : Piece := ⟨p.kind, p.written⟩

/-- Passages written one below the other. -/
def document (passages : List Passage) : List Char := Text.joinLines (passages.map written)

/-- Passages with a line feed before each of them. -/
def below (passages : List Passage) : List Char := passages.flatMap fun p => '\n' :: p.written

theorem document_cons (p : Passage) (passages : List Passage) :
    document (p :: passages) = p.written ++ below passages := by
  unfold document below
  rw [List.map_cons, Text.joinLines_cons, List.flatMap_map]

/-- What stands below a passage begins with a line feed. -/
theorem head?_below {passages : List Passage} {c : Char} (h : c ∈ (below passages).head?) :
    c = '\n' := by
  cases passages with
  | nil => cases h
  | cons p passages => exact (Option.some.inj h).symm

/-! ## Blocks -/

/-- How a block is written. -/
theorem written_block (lines : List (List Char)) :
    (block lines).written = ['/', '*', '*'] ++
      (lines.flatMap (['\n', ' ', '*', ' '] ++ ·) ++ ['\n', ' ', '*', '/']) := by
  show Text.joinLines (_ :: (lines.map _ ++ _)) = _
  rw [Text.joinLines_cons, List.flatMap_append, List.flatMap_map]
  rfl

/-- The search goes through text without marks of block comments. -/
theorem closing?_append_of_unmarked {text : List Char} (hopen : ¬ ['/', '*'] <:+: text)
    (hclose : ¬ ['*', '/'] <:+: text) (depth n : Nat) (rest : List Char) :
    closing? depth n (text ++ '\n' :: rest) =
      closing? depth (n + text.length) ('\n' :: rest) := by
  induction text generalizing n with
  | nil => rfl
  | cons c text ih =>
      rw [List.infix_cons_iff, not_or] at hopen hclose
      have hnone : BeginsNoMark c (text ++ '\n' :: rest) := by
        intro d hd
        cases text with
        | nil =>
            obtain rfl := Option.some.inj hd
            exact ⟨fun h => absurd h.2 (by decide), fun h => absurd h.2 (by decide)⟩
        | cons e text =>
            obtain rfl := Option.some.inj hd
            constructor
            · rintro ⟨rfl, rfl⟩
              exact hopen.1 ⟨text, rfl⟩
            · rintro ⟨rfl, rfl⟩
              exact hclose.1 ⟨text, rfl⟩
      rw [List.cons_append, closing?_cons hnone, ih hopen.2 hclose.2, List.length_cons]
      congr 1
      omega

/-- What follows a line of a block begins with a line feed, be it the next line or the end. -/
theorem exists_flatMap_append_eq_cons (lines : List (List Char)) (rest : List Char) :
    ∃ more, lines.flatMap (['\n', ' ', '*', ' '] ++ ·) ++ '\n' :: rest = '\n' :: more := by
  cases lines with
  | nil => exact ⟨rest, rfl⟩
  | cons line lines => exact ⟨_, rfl⟩

/-- The search finds the end of a block behind its lines. -/
theorem closing?_block {lines : List (List Char)} (h : (block lines).Fits) (n : Nat)
    (rest : List Char) :
    closing? 1 n (lines.flatMap (['\n', ' ', '*', ' '] ++ ·) ++ '\n' :: ' ' :: '*' :: '/' :: rest) =
      some (n + (lines.flatMap (['\n', ' ', '*', ' '] ++ ·)).length + 4) := by
  induction lines generalizing n with
  | nil => rfl
  | cons line lines ih =>
      obtain ⟨⟨-, -, hopen, hclose⟩, hlines⟩ := List.forall_mem_cons.1 h
      obtain ⟨more, hmore⟩ := exists_flatMap_append_eq_cons lines (' ' :: '*' :: '/' :: rest)
      have hlead : ∀ cs,
          closing? 1 n ('\n' :: ' ' :: '*' :: ' ' :: cs) = closing? 1 (n + 4) cs := by
        intro cs
        rw [closing?_cons (beginsNoMark_of_ne (by decide) (by decide) _),
          closing?_cons (beginsNoMark_of_ne (by decide) (by decide) _),
          closing?_cons (by simp [BeginsNoMark]),
          closing?_cons (beginsNoMark_of_ne (by decide) (by decide) _)]
      rw [List.flatMap_cons]
      simp only [List.append_assoc, List.cons_append, List.nil_append]
      simp only [List.cons_append, List.nil_append] at hmore ih
      rw [hlead, hmore, closing?_append_of_unmarked hopen hclose, ← hmore, ih hlines]
      simp only [List.length_append, List.length_cons]
      congr 1
      omega

/-! ## Passages as pieces -/

/-- A comment that the search finds to be just as long stands there. -/
theorem stands_of_commentAt?_append {kind : SegmentKind} {text rest : List Char}
    (h : commentAt? (text ++ rest) = some (kind, text.length)) :
    Piece.Stands ⟨kind, text⟩ rest := by
  obtain ⟨-, found, after, heq, hlength, hstands⟩ := stands_of_commentAt? h
  obtain ⟨rfl, rfl⟩ := List.append_inj heq hlength
  exact hstands

theorem stands_line {documents : Bool} {text rest : List Char} (h : (line documents text).Fits)
    (hrest : ∀ c ∈ rest.head?, c = '\n') : Piece.Stands (piece (line documents text)) rest := by
  have htext : ∀ c ∈ text, endsLine c = false := by
    intro c hc
    have hr : c ≠ '\r' := fun heq => h.1 (heq ▸ hc)
    have hn : c ≠ '\n' := fun heq => h.2 (heq ▸ hc)
    unfold endsLine
    simp [hr, hn]
  have hend : ∀ c ∈ rest.head?, endsLine c = true := by
    intro c hc
    rw [hrest c hc]
    rfl
  have hspace : endsLine ' ' = false := rfl
  have hslash : endsLine '/' = false := rfl
  cases documents with
  | true =>
      refine ⟨'/' :: ' ' :: text, rfl, ?_, hend⟩
      exact List.forall_mem_cons.2 ⟨hslash, List.forall_mem_cons.2 ⟨hspace, htext⟩⟩
  | false => exact ⟨' ' :: text, rfl, List.forall_mem_cons.2 ⟨hspace, htext⟩, hend⟩

theorem stands_block {lines : List (List Char)} (h : (block lines).Fits) (rest : List Char) :
    Piece.Stands (piece (block lines)) rest := by
  apply stands_of_commentAt?_append
  have hstar : ∀ cs, commentAt? ('/' :: '*' :: '*' :: '\n' :: cs) =
      (closing? 1 3 ('\n' :: cs)).map (SegmentKind.block, ·) := fun cs => rfl
  -- The second star of the opening mark does not close the comment.
  obtain ⟨more, hmore⟩ := exists_flatMap_append_eq_cons lines (' ' :: '*' :: '/' :: rest)
  have hclosing := closing?_block h 3 rest
  rw [written_block]
  simp only [List.append_assoc, List.cons_append, List.nil_append] at hmore hclosing ⊢
  rw [hmore] at hclosing ⊢
  rw [hstar, hclosing, Option.map_some]
  simp only [List.length_append, List.length_cons, List.length_nil]
  congr 2
  omega

theorem stands_code {text rest : List Char} (h : (code text).Fits)
    (hrest : ∀ c ∈ rest.head?, c = '\n') : Piece.Stands (piece (code text)) rest := by
  obtain ⟨-, hline, hblock⟩ := h
  intro tail hne htail hopens
  -- Two characters of a comment's mark would stand in the code, or the second in front of `rest`.
  have hmark : ∀ d, ['/', d] <+: tail ++ rest → d = '\n' ∨ ['/', d] <:+: text := by
    intro d hprefix
    obtain ⟨c, tail, rfl⟩ := List.exists_cons_of_ne_nil hne
    obtain ⟨rfl, hd⟩ := List.cons_prefix_cons.1 hprefix
    cases tail with
    | nil =>
        obtain ⟨after, rfl⟩ := hd
        exact .inl (hrest d rfl)
    | cons e tail =>
        obtain ⟨rfl, -⟩ := List.cons_prefix_cons.1 hd
        have hpair : ['/', d] <:+: '/' :: d :: tail := ⟨[], tail, rfl⟩
        exact .inr (hpair.trans htail.isInfix)
  rcases hopens with hprefix | ⟨comment, hprefix, hbalanced⟩
  · exact (hmark '/' hprefix).elim (by decide) hline
  · exact (hmark '*' (hbalanced.1.trans hprefix)).elim (by decide) hblock

/-- **A passage stands where it was written.** -/
theorem stands_piece {p : Passage} {rest : List Char} (h : p.Fits)
    (hrest : ∀ c ∈ rest.head?, c = '\n') : p.piece.Stands rest := by
  cases p with
  | line documents text => exact stands_line h hrest
  | block lines => exact stands_block h rest
  | code text => exact stands_code h hrest

/-! ## What is shown of passages -/

theorem lineText_written (documents : Bool) (text : List Char) :
    lineText (line documents text).written = Text.trim text := by
  have htrim : Text.trim (' ' :: text) = Text.trim text := by
    have hgap := @Text.trim_append_of_blank [' '] [] rfl rfl text
    rwa [List.append_nil] at hgap
  cases documents with
  | true => exact htrim
  | false => exact htrim

/-- What is inside a block, as lines. -/
theorem inner_written_block (lines : List (List Char)) :
    dropDocMark '*' (dropTrail ['*', '/'] (dropLead ['/', '*'] (block lines).written)) =
      Text.joinLines ([] :: (lines.map ([' ', '*', ' '] ++ ·) ++ [[' ']])) := by
  have hlead : dropLead ['/', '*'] (block lines).written =
      '*' :: (lines.flatMap (['\n', ' ', '*', ' '] ++ ·) ++ ['\n', ' ']) ++ ['*', '/'] := by
    rw [written_block]
    exact congrArg ('*' :: ·) (List.append_assoc _ ['\n', ' '] ['*', '/']).symm
  have hinner : Text.joinLines ([] :: (lines.map ([' ', '*', ' '] ++ ·) ++ [[' ']])) =
      lines.flatMap (['\n', ' ', '*', ' '] ++ ·) ++ ['\n', ' '] := by
    rw [Text.joinLines_cons, List.flatMap_append, List.flatMap_map]
    rfl
  rw [hlead, dropTrail_append, hinner]
  rfl

/-- Lines behind their stars are read as they are. -/
theorem map_dropStar_lines {lines : List (List Char)} (h : (block lines).Fits) :
    (Text.lines (Text.joinLines ([] :: (lines.map ([' ', '*', ' '] ++ ·) ++ [[' ']])))).map
      dropStar = [] :: (lines ++ [[]]) := by
  have hnewline : ∀ line ∈ [] :: (lines.map ([' ', '*', ' '] ++ ·) ++ [[' ']]), '\n' ∉ line := by
    simp only [List.forall_mem_cons, List.forall_mem_append, List.forall_mem_map]
    refine ⟨List.not_mem_nil, fun line hline => ?_, by decide, nofun⟩
    simpa using (h line hline).2.1
  have hread : ((lines.map ([' ', '*', ' '] ++ ·)).map Text.dropReturn).map dropStar = lines := by
    rw [List.map_map, List.map_map]
    refine (List.map_congr_left fun line hline => ?_).trans (List.map_id lines)
    have hreturn : '\r' ∉ [' ', '*', ' '] ++ line := by simpa using (h line hline).1
    exact congrArg dropStar (Text.dropReturn_of_not_mem hreturn)
  rw [Text.lines_joinLines (List.cons_ne_nil _ _) hnewline, ← List.cons_append,
    List.dropLast_concat, List.getLast?_concat, List.map_append]
  show [] :: (((lines.map _).map Text.dropReturn).map dropStar ++ [[]]) = _
  rw [hread]

theorem blockText_written {lines : List (List Char)} (h : (block lines).Fits) :
    blockText (block lines).written = Text.trim (Text.joinLines lines) := by
  unfold blockText
  dsimp only
  rw [inner_written_block, map_dropStar_lines h, Text.joinLines_cons]
  cases lines with
  | nil => rfl
  | cons line lines =>
      have hgap := @Text.trim_append_of_blank ['\n'] ['\n'] rfl rfl (Text.joinLines (line :: lines))
      rw [← hgap, Text.joinLines_cons, List.flatMap_append]
      rfl

/-- What is written is not blank, even where a comment says nothing. -/
theorem allBlank_written {p : Passage} (h : p.Fits) : Text.allBlank p.written = false := by
  cases p with
  | line documents text => cases documents <;> rfl
  | block lines => rw [written_block]; rfl
  | code text => exact h.1

/-- **What is shown of a passage** is what it says. -/
theorem clean?_piece {p : Passage} (h : p.Fits) (htodo : hasTodo p.written = false) :
    p.piece.clean? = some p.shown := by
  rw [Piece.clean?_of_shown (allBlank_written h) htodo]
  cases p with
  | line documents text =>
      show some (Segment.mk .line (String.ofList (lineText (line documents text).written))) = _
      rw [lineText_written]
      rfl
  | block lines =>
      show some (Segment.mk .block (String.ofList (blockText (block lines).written))) = _
      rw [blockText_written h]
      rfl
  | code text =>
      show some (Segment.mk .code (String.ofList (codeText text))) = _
      rw [codeText_eq_trimEnd_dropBlankLines h.1]
      rfl

/-! ## Passages one below the other -/

/-- **What is shown of passages below code** is that code and each of the passages. -/
theorem filterMap_clean?_scan_below {passages : List Passage} (hfits : ∀ p ∈ passages, p.Fits)
    (hchain : passages.IsChain fun p q => ¬(p.kind = .code ∧ q.kind = .code))
    (htodo : ∀ p ∈ passages, hasTodo p.written = false) (pending : List Char)
    (hpending : ∀ p ∈ passages.head?, p.kind = .code → pending = []) :
    (Piece.scan pending.reverse (below passages)).filterMap Piece.clean? =
      (Piece.code? pending).filterMap Piece.clean? ++ passages.map shown := by
  induction passages generalizing pending with
  | nil =>
      show (Piece.scan pending.reverse []).filterMap _ = _
      rw [Piece.scan, List.reverse_reverse]
      exact (List.append_nil _).symm
  | cons p passages ih =>
      obtain ⟨hp, hfits⟩ := List.forall_mem_cons.1 hfits
      obtain ⟨hnext, hchain⟩ := List.isChain_cons.1 hchain
      obtain ⟨hptodo, htodo⟩ := List.forall_mem_cons.1 htodo
      have hstands : p.piece.Stands (below passages) := stands_piece hp fun c => head?_below
      have hshown : p.piece.clean? = some p.shown := clean?_piece hp hptodo
      show (Piece.scan _ ('\n' :: (p.piece.text ++ below passages))).filterMap _ = _
      rw [Piece.scan_newline]
      -- The line feed becomes the first character of code, or the last one of what is pending
      -- before a comment.
      by_cases hkind : p.kind = .code
      · obtain rfl : pending = [] := hpending p rfl hkind
        have hpiece : p.piece = ⟨.code, p.written⟩ := congrArg (Piece.mk · p.written) hkind
        have hcode : Piece.code? p.written = [p.piece] := by
          rw [hpiece, Piece.code?_of_ne_nil]
          intro hnil
          have hblank := allBlank_written hp
          rw [hnil] at hblank
          cases hblank
        have hshift : p.piece.text.reverse ++ '\n' :: [].reverse = ('\n' :: p.written).reverse := by
          rw [List.reverse_cons]
          rfl
        rw [Piece.scan_of_stands_code (hpiece ▸ hstands), hshift,
          ih hfits hchain htodo _ fun q hq hqkind => absurd ⟨hkind, hqkind⟩ (hnext q hq),
          Piece.filterMap_clean?_code?_cons, hcode, List.filterMap_cons_some hshown]
        rfl
      · have hrest := ih hfits hchain htodo [] fun _ _ _ => rfl
        rw [Piece.scan_of_stands_comment hstands hkind, List.filterMap_append,
          List.filterMap_cons_some hshown, List.reverse_cons, List.reverse_reverse,
          Piece.filterMap_clean?_code?_concat]
        exact congrArg (_ ++ p.shown :: ·) hrest

/-- **Segmenting undoes writing.**  Passages that can be told from what surrounds them, of which no
two neighbours are code and none holds a note to the authors, are the segments of the text that has
them one below the other. -/
theorem ofText_document {passages : List Passage} (hfits : ∀ p ∈ passages, p.Fits)
    (hchain : passages.IsChain fun p q => ¬(p.kind = .code ∧ q.kind = .code))
    (htodo : ∀ p ∈ passages, hasTodo p.written = false) :
    Segment.ofText (String.ofList (document passages)) = passages.map shown := by
  have hbelow := filterMap_clean?_scan_below hfits hchain htodo [] fun _ _ _ => rfl
  unfold Segment.ofText Piece.ofText
  rw [String.toList_ofList]
  cases passages with
  | nil => exact hbelow
  | cons p passages =>
      have hnewline : below (p :: passages) = '\n' :: (p.written ++ below passages) := rfl
      rw [hnewline, List.reverse_nil, Piece.scan_newline] at hbelow
      rw [document_cons, ← Piece.filterMap_clean?_scan_concat]
      exact hbelow

/-- Code with a block over it whose lines are indented, empty and starred, and two line comments, of
which one says nothing. -/
def adder : List Passage :=
  [.block ["  Adds.".toList, [], "* one".toList], .code "\n  fn add() \x7b".toList,
    .line false [], .line true "Not yet. ".toList, .code "\x7d\n".toList]

/-- Line feeds go to the code before and after them, and leave nothing between comments. -/
theorem ofText_document_adder : Segment.ofText
    "/**\n *   Adds.\n * \n * * one\n */\n\n  fn add() \x7b\n// \n/// Not yet. \n\x7d\n" =
      [⟨.block, "Adds.\n\n* one"⟩, ⟨.code, "  fn add() \x7b"⟩, ⟨.line, ""⟩, ⟨.line, "Not yet."⟩,
        ⟨.code, "\x7d"⟩] := by
  have hadder := @ofText_document adder (by decide +kernel) (by decide) (by decide +kernel)
  exact hadder

end Passage

end LiveExcerpts
