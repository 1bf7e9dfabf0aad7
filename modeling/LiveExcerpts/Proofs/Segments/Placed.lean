import Mathlib.Data.String.Basic
import LiveExcerpts.Proofs.Segments.Split
/-!
# Where the pieces of a text stand

Each piece of a text takes a stretch of its bytes.  Comments open where pieces of comment begin, and
nowhere within a piece of code.

Main definitions: `Piece.placed`, `OpensCommentAt`.  Main statements: the placed pieces cover the
text (`exists_placed_at`), and `IsSplit.opensCommentAt` with `IsSplit.not_opensCommentAt` on where
comments open.
-/

namespace LiveExcerpts

open String (utf8Len utf8Len_append utf8Len_eq_zero)

/-! ## Beginnings of a text, by their bytes -/

/-- Of two beginnings of a text, the one with fewer bytes begins the other. -/
theorem exists_append_of_utf8Len_le {before rest start tail : List Char}
    (h : before ++ rest = start ++ tail) (hle : utf8Len start ≤ utf8Len before) :
    ∃ mid, before = start ++ mid ∧ tail = mid ++ rest := by
  rcases List.append_eq_append_iff.1 h with ⟨mid, rfl, rfl⟩ | ⟨mid, rfl, rfl⟩
  · rw [utf8Len_append] at hle
    obtain rfl : mid = [] := utf8Len_eq_zero.1 (by omega)
    exact ⟨[], by simp, rfl⟩
  · exact ⟨mid, rfl, rfl⟩

/-- A cut of a text that falls into the stretch `v` parts this. -/
theorem exists_append_of_cut {before rest u v w : List Char} (h : before ++ rest = u ++ (v ++ w))
    (hle : utf8Len u ≤ utf8Len before) (hlt : utf8Len before < utf8Len u + utf8Len v) :
    ∃ mid tail, tail ≠ [] ∧ v = mid ++ tail ∧ rest = tail ++ w := by
  obtain ⟨mid, rfl, hmid⟩ := exists_append_of_utf8Len_le h hle
  rw [utf8Len_append] at hlt
  obtain ⟨tail, rfl, rfl⟩ := exists_append_of_utf8Len_le hmid (by omega)
  refine ⟨mid, tail, ?_, rfl, rfl⟩
  rintro rfl
  simp at hlt

/-! ## Placed pieces -/

/-- A piece of a text with the bytes that it takes. -/
structure PlacedPiece where
  /-- The piece. -/
  piece : Piece
  /-- The byte it starts at. -/
  start : Nat
  /-- The byte after its last. -/
  stop : Nat
deriving DecidableEq, Repr

namespace Piece

/-- Pieces one after the other from the byte `base` on. -/
def placed (base : Nat) : List Piece → List PlacedPiece
  | [] => []
  | piece :: rest =>
    ⟨piece, base, base + utf8Len piece.text⟩ :: placed (base + utf8Len piece.text) rest

theorem mem_placed_iff {base : Nat} {pieces : List Piece} {p : PlacedPiece} :
    p ∈ placed base pieces ↔ ∃ before after, pieces = before ++ p.piece :: after ∧
      p.start = base + utf8Len (before.flatMap Piece.text) ∧
      p.stop = p.start + utf8Len p.piece.text := by
  induction pieces generalizing base with
  | nil => simp [placed]
  | cons piece rest ih =>
      rw [placed, List.mem_cons, ih]
      constructor
      · rintro (rfl | ⟨before, after, rfl, hstart, hstop⟩)
        · exact ⟨[], rest, rfl, rfl, rfl⟩
        · refine ⟨piece :: before, after, rfl, ?_, hstop⟩
          rw [hstart, List.flatMap_cons, utf8Len_append, Nat.add_assoc]
      · rintro ⟨before, after, hpieces, hstart, hstop⟩
        cases before with
        | nil =>
            obtain ⟨rfl, rfl⟩ := List.cons.inj hpieces
            obtain ⟨piece, start, stop⟩ := p
            simp only [List.flatMap_nil, String.utf8Len_nil, Nat.add_zero] at hstart hstop
            obtain rfl := hstart
            obtain rfl := hstop
            exact .inl rfl
        | cons first before =>
            obtain ⟨rfl, rfl⟩ := List.cons.inj hpieces
            refine .inr ⟨before, after, rfl, ?_, hstop⟩
            rw [hstart, List.flatMap_cons, utf8Len_append, Nat.add_assoc]

/-- **The placed pieces cover the text.** -/
theorem exists_placed_at {base b : Nat} {pieces : List Piece} (hle : base ≤ b)
    (hlt : b < base + utf8Len (pieces.flatMap Piece.text)) :
    ∃ p ∈ placed base pieces, p.start ≤ b ∧ b < p.stop := by
  induction pieces generalizing base with
  | nil =>
      simp only [List.flatMap_nil, String.utf8Len_nil] at hlt
      omega
  | cons piece rest ih =>
      rw [List.flatMap_cons, utf8Len_append] at hlt
      rw [placed]
      rcases Nat.lt_or_ge b (base + utf8Len piece.text) with hin | hbeyond
      · exact ⟨_, List.mem_cons_self, hle, hin⟩
      · obtain ⟨p, hp, hstart, hstop⟩ := ih hbeyond (by omega)
        exact ⟨p, List.mem_cons_of_mem _ hp, hstart, hstop⟩

end Piece

/-! ## Comments in a placed text -/

/-- A comment opens at the byte `b` of a text that starts at the byte `base`. -/
def OpensCommentAt (base : Nat) (text : List Char) (b : Nat) : Prop :=
  ∃ before rest, text = before ++ rest ∧ b = base + utf8Len before ∧ OpensComment rest

namespace IsSplit

variable {text : List Char} {pieces : List Piece} {base : Nat} {p : PlacedPiece}

/-- No piece of a split is empty. -/
theorem start_lt_stop (h : IsSplit text pieces) (hp : p ∈ Piece.placed base pieces) :
    p.start < p.stop := by
  obtain ⟨before, after, rfl, -, hstop⟩ := Piece.mem_placed_iff.1 hp
  have hne := h.text_ne_nil p.piece (by simp)
  have hpos := mt utf8Len_eq_zero.1 hne
  omega

/-- A piece of a split lies within the text. -/
theorem le_start_and_stop_le (h : IsSplit text pieces) (hp : p ∈ Piece.placed base pieces) :
    base ≤ p.start ∧ p.stop ≤ base + utf8Len text := by
  obtain ⟨before, after, rfl, hstart, hstop⟩ := Piece.mem_placed_iff.1 hp
  have hsize := congrArg utf8Len h.flatMap_text
  rw [List.flatMap_append, List.flatMap_cons, utf8Len_append, utf8Len_append] at hsize
  omega

/-- **A comment opens where a piece of comment begins.** -/
theorem opensCommentAt (h : IsSplit text pieces) (hp : p ∈ Piece.placed base pieces)
    (hkind : p.piece.kind ≠ .code) : OpensCommentAt base text p.start := by
  obtain ⟨before, after, hpieces, hstart, -⟩ := Piece.mem_placed_iff.1 hp
  refine ⟨before.flatMap Piece.text, p.piece.text ++ after.flatMap Piece.text, ?_, hstart,
    (h.stands before p.piece after hpieces).opensComment hkind⟩
  rw [← h.flatMap_text, hpieces, List.flatMap_append, List.flatMap_cons]

/-- **No comment opens within a piece of code.** -/
theorem not_opensCommentAt (h : IsSplit text pieces) (hp : p ∈ Piece.placed base pieces)
    (hkind : p.piece.kind = .code) {b : Nat} (hle : p.start ≤ b) (hlt : b < p.stop) :
    ¬ OpensCommentAt base text b := by
  rintro ⟨before, rest, htext, rfl, hopens⟩
  obtain ⟨earlier, later, hpieces, hstart, hstop⟩ := Piece.mem_placed_iff.1 hp
  have hparted : before ++ rest =
      earlier.flatMap Piece.text ++ (p.piece.text ++ later.flatMap Piece.text) := by
    rw [← htext, ← h.flatMap_text, hpieces, List.flatMap_append, List.flatMap_cons]
  obtain ⟨mid, tail, hne, hmid, rfl⟩ := exists_append_of_cut hparted (by omega) (by omega)
  have hstands := h.stands earlier p.piece later hpieces
  rw [Piece.Stands, hkind] at hstands
  exact hstands tail hne ⟨mid, hmid.symm⟩ hopens

/-- **After code comes a comment**, or the end of the text. -/
theorem exists_comment_after_code (h : IsSplit text pieces) (hp : p ∈ Piece.placed base pieces)
    (hkind : p.piece.kind = .code) (hlt : p.stop < base + utf8Len text) :
    ∃ q ∈ Piece.placed base pieces, q.start = p.stop ∧ q.piece.kind ≠ .code := by
  obtain ⟨before, after, hpieces, hstart, hstop⟩ := Piece.mem_placed_iff.1 hp
  cases after with
  | nil =>
      have hsize := congrArg utf8Len h.flatMap_text
      rw [hpieces, List.flatMap_append, List.flatMap_cons, utf8Len_append, utf8Len_append] at hsize
      simp only [List.flatMap_nil, String.utf8Len_nil] at hsize
      omega
  | cons next after =>
      have hchain := h.isChain
      rw [hpieces, List.isChain_append_cons_cons] at hchain
      refine ⟨⟨next, p.stop, p.stop + utf8Len next.text⟩, Piece.mem_placed_iff.2 ?_, rfl,
        fun hnext => hchain.2.1 ⟨hkind, hnext⟩⟩
      refine ⟨before ++ [p.piece], after, by rw [hpieces, List.append_assoc]; rfl, ?_, rfl⟩
      simp only [List.flatMap_append, List.flatMap_cons, List.flatMap_nil, List.append_nil,
        utf8Len_append]
      omega

end IsSplit

end LiveExcerpts
