import LiveExcerpts.Segment
/-!
# Reading segments

A reader hands out the segments of a text once; after that it has to be rewound.

Main statement: a rewound reader hands out what a new one does, whatever was read before
(`read_rewind`).
-/

namespace LiveExcerpts

/-- The pieces of a text, and those not read yet. -/
structure SegmentReader where
  /-- All pieces of the text. -/
  pieces : List Piece
  /-- The pieces not read yet. -/
  unread : List Piece
deriving Repr

namespace SegmentReader

/-- A reader at the start of a text. -/
def ofText (text : String) : SegmentReader :=
  let pieces := Piece.ofText text.toList
  ⟨pieces, pieces⟩

/-- The segments not read yet, and the reader at the end of its text. -/
def read (reader : SegmentReader) : List Segment × SegmentReader :=
  (reader.unread.filterMap Piece.clean?, { reader with unread := [] })

/-- The reader at the start of its text. -/
def rewind (reader : SegmentReader) : SegmentReader := { reader with unread := reader.pieces }

/-! ## Laws -/

theorem read_ofText (text : String) : (ofText text).read.1 = Segment.ofText text := rfl

/-- There is nothing left to read after a reading. -/
theorem read_read (reader : SegmentReader) : reader.read.2.read.1 = [] := rfl

/-- A rewound reader has everything to read again. -/
theorem read_rewind (text : String) (reader : SegmentReader)
    (h : reader.pieces = (ofText text).pieces) :
    reader.rewind.read.1 = Segment.ofText text := by
  rw [read, rewind, h]
  rfl

end SegmentReader

end LiveExcerpts
