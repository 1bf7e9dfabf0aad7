/-!
# Byte offsets

Trees and tokens count bytes of the UTF-8 form of a text.  `slice?` is the text between two such
offsets; it exists when both are edges of characters and stand in order.

Main statements: two neighbouring slices make one (`slice?_append`), and the slice from the start
to the end is the text (`slice?_zero_utf8ByteSize`).
-/

namespace LiveExcerpts.Text

/-- The byte offset `b` is an edge of a character of `s`. -/
def IsEdge (s : String) (b : Nat) : Prop := String.Pos.Raw.IsValid s ⟨b⟩

instance (s : String) (b : Nat) : Decidable (IsEdge s b) :=
  decidable_of_iff (String.Pos.Raw.isValid s ⟨b⟩ = true) String.Pos.Raw.isValid_eq_true_iff

/-- The text from byte `start` up to, not including, byte `stop`. -/
def slice? (s : String) (start stop : Nat) : Option String :=
  if h : start ≤ stop ∧ IsEdge s start ∧ IsEdge s stop then
    some (String.extract (s := s) ⟨⟨start⟩, h.2.1⟩ ⟨⟨stop⟩, h.2.2⟩)
  else none

/-- The number of line feeds in a text. -/
def countNewlines (s : String) : Nat := s.toList.count '\n'

/-! ## Edges -/

/-- An edge is where a text can be cut in two. -/
theorem isEdge_iff {s : String} {b : Nat} :
    IsEdge s b ↔ ∃ p q, s = p ++ q ∧ b = p.utf8ByteSize := by
  rw [IsEdge, String.Pos.Raw.isValid_iff_exists_append]
  simp [String.Pos.Raw.ext_iff]

theorem isEdge_zero (s : String) : IsEdge s 0 := isEdge_iff.2 ⟨"", s, by simp, by simp⟩

theorem isEdge_utf8ByteSize (s : String) : IsEdge s s.utf8ByteSize :=
  isEdge_iff.2 ⟨s, "", by simp, rfl⟩

theorem IsEdge.le_utf8ByteSize {s : String} {b : Nat} (h : IsEdge s b) :
    b ≤ s.utf8ByteSize := by
  obtain ⟨p, q, rfl, rfl⟩ := isEdge_iff.1 h
  simp

/-! ## Slices -/

theorem isSome_slice?_iff {s : String} {start stop : Nat} :
    (slice? s start stop).isSome ↔ start ≤ stop ∧ IsEdge s start ∧ IsEdge s stop := by
  rw [slice?]
  split <;> simp_all

/-- Between two edges in order there is a slice. -/
theorem exists_slice?_of_isEdge {s : String} {start stop : Nat} (hle : start ≤ stop)
    (hstart : IsEdge s start) (hstop : IsEdge s stop) : ∃ t, slice? s start stop = some t :=
  Option.isSome_iff_exists.1 (isSome_slice?_iff.2 ⟨hle, hstart, hstop⟩)

/-- A slice is told apart by its bytes. -/
theorem slice?_eq_some_iff {s t : String} {start stop : Nat} :
    slice? s start stop = some t ↔ (start ≤ stop ∧ IsEdge s start ∧ IsEdge s stop) ∧
      t.toByteArray = s.toByteArray.extract start stop := by
  rw [slice?]
  split
  · next h =>
      simp only [Option.some.injEq, h, and_true, true_and, ← String.toByteArray_inj,
        String.toByteArray_extract]
      exact eq_comm
  · next h => simp [h]

/-- A slice goes on for its number of bytes. -/
theorem add_utf8ByteSize_of_slice? {s t : String} {start stop : Nat}
    (h : slice? s start stop = some t) : start + t.utf8ByteSize = stop := by
  obtain ⟨⟨hle, -, hstop⟩, hbytes⟩ := slice?_eq_some_iff.1 h
  have hsize := congrArg ByteArray.size hbytes
  have hbound := hstop.le_utf8ByteSize
  rw [String.size_toByteArray, ByteArray.size_extract, String.size_toByteArray] at hsize
  omega

/-- Two neighbouring slices make one. -/
theorem slice?_append {s t u : String} {a b c : Nat} (ht : slice? s a b = some t)
    (hu : slice? s b c = some u) : slice? s a c = some (t ++ u) := by
  obtain ⟨⟨hab, ha, -⟩, ht⟩ := slice?_eq_some_iff.1 ht
  obtain ⟨⟨hbc, -, hc⟩, hu⟩ := slice?_eq_some_iff.1 hu
  refine slice?_eq_some_iff.2 ⟨⟨Nat.le_trans hab hbc, ha, hc⟩, ?_⟩
  rw [String.toByteArray_append, ht, hu, ByteArray.extract_append_extract, Nat.min_eq_left hab,
    Nat.max_eq_right hbc]

/-- The slice from the start to the end is the text. -/
theorem slice?_zero_utf8ByteSize (s : String) : slice? s 0 s.utf8ByteSize = some s :=
  slice?_eq_some_iff.2
    ⟨⟨Nat.zero_le _, isEdge_zero s, isEdge_utf8ByteSize s⟩, by simp [← String.size_toByteArray]⟩

example : slice? "héllo" 1 3 = some "é" := by decide +kernel
example : slice? "héllo" 1 2 = none := by decide +kernel

end LiveExcerpts.Text
