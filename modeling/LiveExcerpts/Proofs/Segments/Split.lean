import Mathlib.Data.List.Chain
import LiveExcerpts.Proofs.Segments.Comments
import LiveExcerpts.Segment.Reader
/-!
# The split of a text into comments and code

A text has exactly one split into comments and code, and this is what a reader hands out, when new
and whenever it has been rewound.

Main definitions: `IsSplit`, `SegmentReader.Use`.  Main statements: the pieces of a text are a split
of it (`isSplit_ofText`) and the only one (`IsSplit.eq_ofText`), whatever has been done with the
reader (`isSplit_iff_eq_unread`).
-/

namespace LiveExcerpts

/-! ## Splits -/

/-- A split of a text: pieces that are not empty and make up the text, each of them standing where
it is, and no two neighbours both code. -/
structure IsSplit (text : List Char) (pieces : List Piece) : Prop where
  /-- The pieces joined are the text. -/
  flatMap_text : pieces.flatMap Piece.text = text
  /-- No piece is empty. -/
  text_ne_nil : ∀ piece ∈ pieces, piece.text ≠ []
  /-- Code is not parted. -/
  isChain : pieces.IsChain fun a b => ¬(a.kind = .code ∧ b.kind = .code)
  /-- Each piece stands in front of those after it. -/
  stands : ∀ before piece after, pieces = before ++ piece :: after →
    piece.Stands (after.flatMap Piece.text)

theorem isSplit_nil_iff {text : List Char} : IsSplit text [] ↔ text = [] := by
  constructor
  · intro h
    exact h.flatMap_text.symm
  · rintro rfl
    exact ⟨rfl, nofun, .nil, fun before piece after h => by simp at h⟩

/-- A split begins with a piece that stands in front of a split of the rest. -/
theorem isSplit_cons_iff {text : List Char} {piece : Piece} {pieces : List Piece} :
    IsSplit text (piece :: pieces) ↔
      ∃ rest, text = piece.text ++ rest ∧ piece.text ≠ [] ∧ piece.Stands rest ∧
        (∀ next ∈ pieces.head?, ¬(piece.kind = .code ∧ next.kind = .code)) ∧
        IsSplit rest pieces := by
  constructor
  · rintro ⟨rfl, hne, hchain, hstands⟩
    rw [List.forall_mem_cons] at hne
    rw [List.isChain_cons] at hchain
    refine ⟨pieces.flatMap Piece.text, List.flatMap_cons, hne.1, hstands [] piece pieces rfl,
      hchain.1, rfl, hne.2, hchain.2, ?_⟩
    rintro before other after rfl
    exact hstands (piece :: before) other after rfl
  · rintro ⟨rest, rfl, hne, hstands, hnext, ⟨rfl, hnes, hchain, hall⟩⟩
    refine ⟨List.flatMap_cons, List.forall_mem_cons.2 ⟨hne, hnes⟩,
      List.isChain_cons.2 ⟨hnext, hchain⟩, ?_⟩
    intro before other after hpieces
    cases before with
    | nil =>
        obtain ⟨rfl, rfl⟩ := List.cons.inj hpieces
        exact hstands
    | cons first before =>
        obtain ⟨-, hpieces⟩ := List.cons.inj hpieces
        exact hall before other after hpieces

/-! ## The scan -/

namespace Piece

/-- Where there is no code, no comment opens in it. -/
theorem stands_nil (rest : List Char) : Stands ⟨.code, []⟩ rest := by
  intro tail hne htail
  exact absurd (List.suffix_nil.1 htail) hne

/-- Code goes on with a character where no comment opens. -/
theorem stands_concat_iff {code : List Char} {c : Char} {rest : List Char} :
    Stands ⟨.code, code ++ [c]⟩ rest ↔
      Stands ⟨.code, code⟩ (c :: rest) ∧ ¬ OpensComment (c :: rest) := by
  constructor
  · intro h
    refine ⟨fun tail hne htail hopens => ?_, h [c] (by simp) (List.suffix_append code [c])⟩
    obtain ⟨before, rfl⟩ := htail
    refine h (tail ++ [c]) (by simp) ⟨before, (List.append_assoc _ _ _).symm⟩ ?_
    rwa [List.append_assoc]
  · rintro ⟨hcode, hnot⟩ tail hne htail
    rcases List.suffix_concat_iff.1 htail with rfl | ⟨start, rfl, hstart⟩
    · exact absurd rfl hne
    · rw [List.append_assoc]
      rcases eq_or_ne start [] with rfl | hne
      · exact hnot
      · exact hcode start hne hstart

/-- The scan goes through code. -/
theorem scan_of_stands_code {text rest : List Char} (h : Stands ⟨.code, text⟩ rest)
    (code : List Char) : scan code (text ++ rest) = scan (text.reverse ++ code) rest := by
  induction text generalizing code with
  | nil => rfl
  | cons c text ih =>
      have hnot : ¬ OpensComment (c :: (text ++ rest)) := h _ (List.cons_ne_nil c text) ⟨[], rfl⟩
      have htext : Stands ⟨.code, text⟩ rest := fun tail hne htail =>
        h tail hne (htail.trans (List.suffix_cons c text))
      rw [List.cons_append, scan, commentAt?_eq_none_iff.2 hnot]
      show scan (c :: code) (text ++ rest) = _
      rw [ih htext, List.reverse_cons, List.append_assoc]
      rfl

/-- The scan takes a comment as one piece, and begins anew after it. -/
theorem scan_of_stands_comment {piece : Piece} {rest : List Char} (h : piece.Stands rest)
    (hkind : piece.kind ≠ .code) (code : List Char) :
    scan code (piece.text ++ rest) = code? code.reverse ++ piece :: scan [] rest := by
  have hcomment := h.commentAt? hkind
  obtain ⟨c, tail, htext⟩ := List.exists_cons_of_ne_nil (h.text_ne_nil hkind)
  obtain ⟨kind, text⟩ := piece
  obtain rfl : text = c :: tail := htext
  rw [List.cons_append] at hcomment ⊢
  rw [scan, hcomment]
  simp

/-- A text that is empty or begins with a comment ends the code before it. -/
theorem scan_of_isSplit {rest : List Char} {pieces : List Piece} (h : IsSplit rest pieces)
    (hnext : ∀ next ∈ pieces.head?, next.kind ≠ .code) (code : List Char) :
    scan code rest = code? code.reverse ++ scan [] rest := by
  cases pieces with
  | nil =>
      obtain rfl := isSplit_nil_iff.1 h
      rw [scan, scan]
      exact (List.append_nil _).symm
  | cons piece pieces =>
      obtain ⟨after, rfl, -, hstands, -, -⟩ := isSplit_cons_iff.1 h
      have hkind : piece.kind ≠ .code := hnext piece rfl
      rw [scan_of_stands_comment hstands hkind code,
        scan_of_stands_comment hstands hkind []]
      rfl

end Piece

/-! ## The one split -/

/-- **A text has no other split than its pieces.** -/
theorem IsSplit.eq_ofText {text : List Char} {pieces : List Piece} (h : IsSplit text pieces) :
    pieces = Piece.ofText text := by
  show pieces = Piece.scan [] text
  induction pieces generalizing text with
  | nil =>
      obtain rfl := isSplit_nil_iff.1 h
      rw [Piece.scan]
      rfl
  | cons piece pieces ih =>
      obtain ⟨rest, rfl, hne, hstands, hnext, hrest⟩ := isSplit_cons_iff.1 h
      have htail := ih hrest
      by_cases hkind : piece.kind = .code
      · obtain ⟨kind, text⟩ := piece
        obtain rfl : kind = .code := hkind
        have hcomment : ∀ next ∈ pieces.head?, next.kind ≠ .code :=
          fun next hmem hcode => hnext next hmem ⟨rfl, hcode⟩
        -- The scan goes through the code, and then there is a comment or nothing.
        rw [Piece.scan_of_stands_code hstands, List.append_nil,
          Piece.scan_of_isSplit hrest hcomment, List.reverse_reverse, ← htail]
        obtain ⟨c, text, rfl⟩ := List.exists_cons_of_ne_nil hne
        rfl
      · rw [Piece.scan_of_stands_comment hstands hkind, ← htail]
        rfl

/-- Code in front of a split is a piece of its own, if no comment opens in it and no code
follows. -/
theorem IsSplit.code?_append {code rest : List Char} {pieces : List Piece} (h : IsSplit rest pieces)
    (hcode : Piece.Stands ⟨.code, code⟩ rest)
    (hnext : ∀ next ∈ pieces.head?, next.kind ≠ .code) :
    IsSplit (code ++ rest) (Piece.code? code ++ pieces) := by
  cases code with
  | nil => exact h
  | cons c code =>
      exact isSplit_cons_iff.2 ⟨rest, rfl, List.cons_ne_nil c code, hcode,
        fun next hmem hboth => hnext next hmem hboth.2, h⟩

/-- **The scan splits what it has read and what is left.**  The code read so far is one in which no
comment opens. -/
theorem isSplit_scan {code text : List Char} (hcode : Piece.Stands ⟨.code, code.reverse⟩ text) :
    IsSplit (code.reverse ++ text) (Piece.scan code text) := by
  fun_induction Piece.scan code text with
  | case1 code =>
      have hsplit := (isSplit_nil_iff.2 rfl).code?_append hcode (by simp)
      rwa [List.append_nil (Piece.code? code.reverse)] at hsplit
  | case2 code c cs kind n hcomment ih =>
      obtain ⟨hkind, text, rest, htext, rfl, hstands⟩ := stands_of_commentAt? hcomment
      have hne : text ≠ [] := hstands.text_ne_nil hkind
      obtain ⟨d, tail, rfl⟩ := List.exists_cons_of_ne_nil hne
      obtain ⟨rfl, htail⟩ := List.cons.inj htext
      obtain rfl : cs = tail ++ rest := htail
      simp only [List.length_cons, Nat.add_sub_cancel, List.take_left, List.drop_left] at ih ⊢
      have hrest : IsSplit rest (Piece.scan [] rest) := ih (Piece.stands_nil rest)
      have hsplit : IsSplit (c :: tail ++ rest) (⟨kind, c :: tail⟩ :: Piece.scan [] rest) :=
        isSplit_cons_iff.2 ⟨rest, rfl, hne, hstands, fun _ _ hboth => hkind hboth.1, hrest⟩
      -- What is split now begins with a comment, so the code before it is a piece of its own.
      refine hsplit.code?_append hcode ?_
      intro next hmem
      obtain rfl : _ = next := Option.some.inj hmem
      exact hkind
  | case3 code c cs hnone ih =>
      rw [List.reverse_cons, List.append_assoc] at ih
      exact ih (Piece.stands_concat_iff.2 ⟨hcode, commentAt?_eq_none_iff.1 hnone⟩)

/-- **The pieces of a text are a split of it.** -/
theorem isSplit_ofText (text : List Char) : IsSplit text (Piece.ofText text) := by
  have hcode : Piece.Stands ⟨.code, List.reverse []⟩ text := Piece.stands_nil text
  exact isSplit_scan hcode

/-! ## Readers -/

namespace SegmentReader

/-- What can be done with a reader. -/
inductive Use where
  /-- The segments not read yet are read. -/
  | read
  /-- The reader is rewound. -/
  | rewind

/-- The reader after one use. -/
def step (reader : SegmentReader) : Use → SegmentReader
  | .read => reader.read.2
  | .rewind => reader.rewind

/-- A use changes nothing about the pieces of the text. -/
theorem pieces_step (reader : SegmentReader) (use : Use) :
    (reader.step use).pieces = reader.pieces := by
  cases use <;> rfl

/-- Neither do many. -/
theorem pieces_foldl_step (reader : SegmentReader) (uses : List Use) :
    (uses.foldl step reader).pieces = reader.pieces := by
  induction uses generalizing reader with
  | nil => rfl
  | cons use uses ih => exact (ih (reader.step use)).trans (pieces_step reader use)

/-- **A reader hands out the one split of its text into comments and code**, when it is new and
whenever it has been rewound, whatever was done with it before. -/
theorem isSplit_iff_eq_unread (text : String) (uses : List Use) (pieces : List Piece) :
    (IsSplit text.toList pieces ↔ pieces = (ofText text).unread) ∧
    (IsSplit text.toList pieces ↔ pieces = (uses.foldl step (ofText text)).rewind.unread) := by
  have hiff : IsSplit text.toList pieces ↔ pieces = (ofText text).pieces := by
    constructor
    · exact IsSplit.eq_ofText
    · rintro rfl
      exact isSplit_ofText text.toList
  refine ⟨hiff, ?_⟩
  show IsSplit text.toList pieces ↔ pieces = (uses.foldl step (ofText text)).pieces
  rw [pieces_foldl_step]
  exact hiff

end SegmentReader

end LiveExcerpts
