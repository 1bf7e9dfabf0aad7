import Mathlib.Data.String.Basic
import Mathlib.Order.Bounds.Basic
import LiveExcerpts.Proofs.Segments.Comments
/-!
# Block comments, byte by byte

The end of a block comment can be looked for among the characters of a text or among its bytes.  In
UTF-8 the characters of `/*` and `*/` are bytes of their own, which no other character has among its
bytes; so both searches take the same text.

Main definitions: `Text.bytes`, `Text.closings`, `Text.closingByte?`.  Main statements: the search
among bytes takes what the one among characters takes (`closing?_flatMap_spelled`), and it finds the
least byte at which the comment is closed (`Text.closingByte?_eq_some_iff`).
-/

namespace LiveExcerpts

open String (utf8Len utf8Len_append utf8Len_cons)

/-! ## Characters as bytes -/

/-- A character as its bytes in UTF-8, each read as the character of its number. -/
def spelled (c : Char) : List Char := (String.utf8EncodeChar c).map Char.ofUInt8

/-- A byte of a character is the character's number, or lies beyond ASCII. -/
theorem toNat_of_mem_utf8EncodeChar (c : Char) :
    ∀ b ∈ String.utf8EncodeChar c, b.toNat = c.toNat ∨ 128 ≤ b.toNat := by
  fun_cases String.utf8EncodeChar c with
  | case1 v hle =>
      intro b hb
      obtain rfl := List.mem_singleton.1 hb
      left
      rw [UInt8.toNat_ofNat']
      show v % 256 = v
      omega
  | case2 | case3 | case4 =>
      simp only [List.forall_mem_cons, UInt8.toNat_ofNat', List.not_mem_nil, false_implies,
        implies_true, and_true]
      omega

/-- A character of the marks `/*` and `*/`. -/
def InMark (c : Char) : Prop := c = '/' ∨ c = '*'

/-- A character of the marks is a byte of its own, -/
theorem spelled_of_inMark {c : Char} (h : InMark c) : spelled c = [c] := by
  rcases h with rfl | rfl <;> rfl

/-- and it is among the bytes of no other character. -/
theorem eq_of_inMark_of_mem_spelled {c x : Char} (hx : x ∈ spelled c) (h : InMark x) : x = c := by
  obtain ⟨b, hb, rfl⟩ := List.mem_map.1 hx
  have hnat : (Char.ofUInt8 b).toNat = b.toNat := rfl
  have hlt : (Char.ofUInt8 b).toNat < 128 := by rcases h with h | h <;> rw [h] <;> decide
  apply Char.toNat_inj.1
  rcases toNat_of_mem_utf8EncodeChar c b hb with hsame | hlarge
  · exact hsame
  · omega

/-- A byte is read as a character of the marks where it is one. -/
theorem ofUInt8_eq_iff {b : UInt8} {c : Char} (h : InMark c) :
    Char.ofUInt8 b = c ↔ b = c.toUInt8 := by
  constructor
  · rintro rfl
    exact (UInt8.toUInt8_toUInt32 b).symm
  · rintro rfl
    rcases h with rfl | rfl <;> rfl

/-- A text whose bytes begin with a character of the marks begins with it. -/
theorem head?_of_inMark {cs : List Char} {x : Char} (hx : x ∈ (cs.flatMap spelled).head?)
    (h : InMark x) : cs.head? = some x := by
  cases cs with
  | nil => simp at hx
  | cons c cs =>
      have hne : spelled c ≠ [] := mt List.map_eq_nil_iff.1 String.utf8EncodeChar_ne_nil
      rw [List.flatMap_cons, List.head?_append_of_ne_nil _ hne] at hx
      rw [List.head?_cons, eq_of_inMark_of_mem_spelled (List.mem_of_mem_head? hx) h]

/-! ## Searching bytes and searching characters -/

/-- A text that does not have two characters has one, or none. -/
theorem eq_nil_or_singleton {cs : List Char} (h : ∀ c d rest, cs = c :: d :: rest → False) :
    cs = [] ∨ ∃ c, cs = [c] := by
  rcases cs with _ | ⟨c, _ | ⟨d, rest⟩⟩
  · exact .inl rfl
  · exact .inr ⟨c, rfl⟩
  · exact absurd rfl (h c d rest)

/-- A text that has none of the marks' characters is passed over. -/
theorem closing?_append_of_not_inMark {lead : List Char} (h : ∀ c ∈ lead, ¬ InMark c)
    (depth n : Nat) (cs : List Char) :
    closing? depth n (lead ++ cs) = closing? depth (n + lead.length) cs := by
  induction lead generalizing n with
  | nil => rfl
  | cons c lead ih =>
      obtain ⟨hc, hlead⟩ := List.forall_mem_cons.1 h
      have hnone : BeginsNoMark c (lead ++ cs) :=
        beginsNoMark_of_ne (fun hslash => hc (.inl hslash)) (fun hstar => hc (.inr hstar)) _
      rw [List.cons_append, closing?_cons hnone, ih hlead, List.length_cons, Nat.add_right_comm,
        Nat.add_assoc]

/-- The bytes of a character that begins no mark are passed over. -/
theorem closing?_spelled_append {c : Char} {cs : List Char} (h : BeginsNoMark c cs)
    (depth n : Nat) :
    closing? depth n (spelled c ++ cs.flatMap spelled) =
      closing? depth (n + c.utf8Size) (cs.flatMap spelled) := by
  have hsize : (spelled c).length = c.utf8Size := by
    rw [spelled, List.length_map, String.length_utf8EncodeChar]
  by_cases hc : InMark c
  · -- The second character of a mark would be the next one of the text.
    rw [← hsize, spelled_of_inMark hc, List.singleton_append]
    refine closing?_cons (fun d hd => ⟨?_, ?_⟩) depth n
    · rintro ⟨rfl, rfl⟩
      exact (h '*' (head?_of_inMark hd (.inr rfl))).1 ⟨rfl, rfl⟩
    · rintro ⟨rfl, rfl⟩
      exact (h '/' (head?_of_inMark hd (.inl rfl))).2 ⟨rfl, rfl⟩
  · rw [← hsize]
    refine closing?_append_of_not_inMark (fun x hx hmark => hc ?_) depth n _
    rwa [← eq_of_inMark_of_mem_spelled hx hmark]

/-- What was counted before is added to the answer. -/
theorem closing?_add (depth n k : Nat) (cs : List Char) :
    closing? depth (n + k) cs = (closing? depth k cs).map (n + ·) := by
  fun_induction closing? depth k cs with
  | case1 depth k c d cs hopen ih => rw [closing?, if_pos hopen, Nat.add_assoc, ih]
  | case2 depth k c d cs hopen hclose hle =>
      rw [closing?, if_neg hopen, if_pos hclose, if_pos hle]
      rfl
  | case3 depth k c d cs hopen hclose hlt ih =>
      rw [closing?, if_neg hopen, if_pos hclose, if_neg hlt, Nat.add_assoc, ih]
  | case4 depth k c d cs hopen hclose ih =>
      rw [closing?, if_neg hopen, if_neg hclose, Nat.add_assoc, ih]
  | case5 cs depth k hcs =>
      obtain rfl | ⟨c, rfl⟩ := eq_nil_or_singleton hcs
      · rfl
      · rfl

/-- An answer that counts what stands in front takes it along. -/
theorem map_closing?_append (lead cs : List Char) (depth n : Nat) :
    ((closing? depth lead.length cs).map fun m => n + utf8Len ((lead ++ cs).take m)) =
      (closing? depth 0 cs).map fun m => n + utf8Len lead + utf8Len (cs.take m) := by
  have hadd := closing?_add depth lead.length 0 cs
  rw [Nat.add_zero] at hadd
  rw [hadd, Option.map_map]
  congr 1
  funext m
  show n + utf8Len ((lead ++ cs).take (lead.length + m)) = _
  rw [List.take_length_add_append, utf8Len_append, Nat.add_assoc]

/-- **The search among the bytes of a text ends with the characters that the search among its
characters takes.** -/
theorem closing?_flatMap_spelled (depth n : Nat) (cs : List Char) :
    closing? depth n (cs.flatMap spelled) =
      (closing? depth 0 cs).map fun m => n + utf8Len (cs.take m) := by
  -- The induction follows the depth, which goes through the pairs of the text as the search does.
  induction depth, cs using depthAfter.induct generalizing n with
  | case1 depth c d cs hopen ih =>
      obtain ⟨rfl, rfl⟩ := hopen
      show closing? depth n ('/' :: '*' :: cs.flatMap spelled) = _
      rw [closing?_open, closing?_open, ih]
      exact (map_closing?_append ['/', '*'] cs (depth + 1) n).symm
  | case2 depth c d cs hopen hclose ih =>
      obtain ⟨rfl, rfl⟩ := hclose
      show closing? depth n ('*' :: '/' :: cs.flatMap spelled) = _
      rw [closing?_close, closing?_close]
      split
      · rfl
      · rw [ih]
        exact (map_closing?_append ['*', '/'] cs (depth - 1) n).symm
  | case3 depth c d cs hopen hclose ih =>
      have hnone : BeginsNoMark c (d :: cs) := by
        intro x hx
        obtain rfl := Option.some.inj hx
        exact ⟨hopen, hclose⟩
      have hlead := map_closing?_append [c] (d :: cs) depth n
      rw [utf8Len_cons, String.utf8Len_nil, Nat.zero_add] at hlead
      rw [List.flatMap_cons, closing?_spelled_append hnone, closing?_cons hnone, ih]
      exact hlead.symm
  | case4 cs depth hcs =>
      obtain rfl | ⟨c, rfl⟩ := eq_nil_or_singleton hcs
      · rfl
      · rw [List.flatMap_cons, closing?_spelled_append (by simp [BeginsNoMark])]
        rfl

/-! ## Where a comment is closed -/

/-- One more character closes one comment at most. -/
theorem depthAfter_le_concat (depth : Nat) (cs : List Char) (c : Char) :
    depthAfter depth cs ≤ depthAfter depth (cs ++ [c]) + 1 := by
  fun_induction depthAfter depth cs with
  | case1 depth a b cs hopen ih =>
      obtain ⟨rfl, rfl⟩ := hopen
      rw [List.cons_append, List.cons_append, depthAfter_open]
      exact ih
  | case2 depth a b cs hopen hclose ih =>
      obtain ⟨rfl, rfl⟩ := hclose
      rw [List.cons_append, List.cons_append, depthAfter_close]
      exact ih
  | case3 depth a b cs hopen hclose ih =>
      rw [List.cons_append, List.cons_append, depthAfter_skip hopen hclose]
      exact ih
  | case4 cs depth hcs =>
      obtain rfl | ⟨a, rfl⟩ := eq_nil_or_singleton hcs
      · exact Nat.le_succ depth
      · -- The two characters that there are now may be a pair.
        rw [List.singleton_append, depthAfter]
        split
        · exact Nat.le_add_right depth 2
        · split
          · show depth ≤ depth - 1 + 1
            omega
          · exact Nat.le_succ depth

namespace Text

/-- The bytes of a text in UTF-8. -/
def bytes (text : String) : List UInt8 := text.toByteArray.data.toList

theorem length_bytes (text : String) : (bytes text).length = text.utf8ByteSize :=
  String.size_toByteArray

theorem map_bytes (text : String) :
    (bytes text).map Char.ofUInt8 = text.toList.flatMap spelled := by
  rw [bytes, ← String.utf8Encode_toList]
  show (text.toList.flatMap String.utf8EncodeChar).toByteArray.data.toList.map _ = _
  rw [List.data_toByteArray, List.map_flatMap]
  rfl

/-- The number of block comments that are open after the first `n` bytes of a text that stands
behind a `/*`, each byte read as the character of its number. -/
def openAfter (text : String) (n : Nat) : Nat :=
  depthAfter 1 (((bytes text).map Char.ofUInt8).take n)

/-- The bytes of a text behind a `/*` in front of which the depth comes from one to zero. -/
def closings (text : String) : Set Nat :=
  {stop | ∃ n, stop = n + 1 ∧ stop ≤ text.utf8ByteSize ∧ openAfter text n = 1 ∧
    openAfter text stop = 0}

/-- The byte that the search for the end of the comment finds in a text behind a `/*`. -/
def closingByte? (text : String) : Option Nat := closing? 1 0 ((bytes text).map Char.ofUInt8)

variable {text : String} {stop : Nat}

theorem openAfter_zero (text : String) : openAfter text 0 = 1 := rfl

/-- One more byte closes one comment at most. -/
theorem openAfter_le_succ {text : String} {n : Nat} (hn : n < text.utf8ByteSize) :
    openAfter text n ≤ openAfter text (n + 1) + 1 := by
  have hlt : n < ((bytes text).map Char.ofUInt8).length := by
    rw [List.length_map, length_bytes]
    exact hn
  rw [openAfter, openAfter, List.take_succ_eq_append_getElem hlt]
  exact depthAfter_le_concat 1 _ _

/-- Where the search finds nothing the depth never comes to zero. -/
theorem closings_eq_empty (h : closingByte? text = none) : closings text = ∅ := by
  rw [Set.eq_empty_iff_forall_notMem]
  rintro stop ⟨n, -, -, -, hzero⟩
  exact depthAfter_ne_zero_of_closing? Nat.one_ne_zero h (List.take_prefix stop _) hzero

/-- Where the search ends the depth comes to zero, and nowhere before. -/
theorem openAfter_of_closingByte? (h : closingByte? text = some stop) :
    stop ≤ text.utf8ByteSize ∧ openAfter text stop = 0 ∧
      ∀ n, openAfter text n = 0 → stop ≤ n := by
  obtain ⟨body, hbody, hstop⟩ := closes_of_closing? Nat.one_ne_zero h
  obtain rfl : stop = body.length := hstop.trans (Nat.zero_add _)
  refine ⟨?_, ?_, fun n hn => ?_⟩
  · rw [← length_bytes, ← List.length_map Char.ofUInt8]
    exact hbody.isPrefix.length_le
  · rw [openAfter, ← List.prefix_iff_eq_take.1 hbody.isPrefix]
    exact hbody.depth_eq_zero
  · exact (hbody.shortest _ (List.take_prefix n _) hn).trans (List.length_take_le n _)

/-- **Where the search ends the depth comes from one to zero**, for the first time. -/
theorem isLeast_closings (h : closingByte? text = some stop) : IsLeast (closings text) stop := by
  obtain ⟨hsize, hzero, hfirst⟩ := openAfter_of_closingByte? h
  refine ⟨?_, fun other ⟨n, _, _, _, hother⟩ => hfirst other hother⟩
  cases stop with
  | zero => exact absurd ((openAfter_zero text).symm.trans hzero) Nat.one_ne_zero
  | succ n =>
      -- One byte before, the depth is at most one, and not zero yet.
      have hstep : openAfter text n ≤ openAfter text (n + 1) + 1 :=
        openAfter_le_succ (Nat.lt_of_succ_le hsize)
      have hbefore : openAfter text n ≠ 0 := fun hn => Nat.not_succ_le_self n (hfirst n hn)
      exact ⟨n, rfl, hsize, by omega, hzero⟩

/-- **The search finds the least byte at which the depth comes from one to zero.** -/
theorem closingByte?_eq_some_iff :
    closingByte? text = some stop ↔ IsLeast (closings text) stop := by
  refine ⟨isLeast_closings, fun hleast => ?_⟩
  cases h : closingByte? text with
  | none =>
      rw [closings_eq_empty h] at hleast
      exact absurd hleast.1 (Set.notMem_empty stop)
  | some found => rw [(isLeast_closings h).unique hleast]

/-- It finds nothing only where there is none. -/
theorem closingByte?_eq_none_iff : closingByte? text = none ↔ closings text = ∅ := by
  refine ⟨closings_eq_empty, fun hempty => ?_⟩
  cases h : closingByte? text with
  | none => rfl
  | some found =>
      have hmem := (isLeast_closings h).1
      rw [hempty] at hmem
      exact absurd hmem (Set.notMem_empty found)

/-- The two searches take the same text. -/
theorem closingByte?_eq_map (text : String) :
    closingByte? text =
      (closing? 1 0 text.toList).map fun n => utf8Len (text.toList.take n) := by
  rw [closingByte?, map_bytes, closing?_flatMap_spelled]
  simp only [Nat.zero_add]

/-- **Where the search ends a character does**, and so does the search among characters. -/
theorem exists_append_of_closingByte? (h : closingByte? text = some stop) :
    ∃ body tail, text = body ++ tail ∧ stop = body.utf8ByteSize ∧
      closing? 1 0 text.toList = some body.length := by
  rw [closingByte?_eq_map] at h
  obtain ⟨m, hm, rfl⟩ := Option.map_eq_some_iff.1 h
  obtain ⟨taken, htaken, hlength⟩ := closes_of_closing? Nat.one_ne_zero hm
  obtain ⟨left, hleft⟩ := htaken.isPrefix
  obtain rfl : m = taken.length := hlength.trans (Nat.zero_add _)
  refine ⟨String.ofList taken, String.ofList left, ?_, ?_, ?_⟩
  · rw [← String.ofList_append, hleft, String.ofList_toList]
  · rw [← hleft, List.take_left, ← String.utf8Len_toList, String.toList_ofList]
  · rw [hm, String.length_ofList]

/-- A beginning of the text closes the comment among bytes exactly if it does among characters. -/
theorem closingByte?_append_iff {body tail : String} :
    closingByte? (body ++ tail) = some body.utf8ByteSize ↔
      closing? 1 0 (body ++ tail).toList = some body.length := by
  constructor
  · intro h
    obtain ⟨taken, left, htext, hsize, hchars⟩ := exists_append_of_closingByte? h
    -- Two beginnings of a text with as many bytes are the same.
    have hbytes : body.toByteArray ++ tail.toByteArray = taken.toByteArray ++ left.toByteArray := by
      rw [← String.toByteArray_append, htext, String.toByteArray_append]
    obtain rfl := String.toByteArray_inj.1 (ByteArray.append_inj_left hbytes hsize)
    exact hchars
  · intro h
    rw [closingByte?_eq_map, h, String.toList_append, Option.map_some, ← String.length_toList,
      List.take_left, String.utf8Len_toList]

/-- What is written after a text that closes the comment changes nothing. -/
theorem closingByte?_append (h : closingByte? text = some stop) (more : String) :
    closingByte? (text ++ more) = some stop := by
  rw [closingByte?, map_bytes, String.toList_append, List.flatMap_append]
  rw [closingByte?, map_bytes] at h
  exact closing?_append h _

end Text

end LiveExcerpts
