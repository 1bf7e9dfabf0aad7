import Mathlib.Order.Bounds.Basic
import LiveExcerpts.Proofs.Tokens.Partition
/-!
# Looking tokens up by byte

In a stream whose tokens tile the source, the two searches by halving find what their names say:
the first token that starts at or after a byte, and the last one that ends at or before it.

Main definition: `TokenStream.ExactLookups`.  Main statements: `tokenAt?_eq_some_iff` and
`lastEndingAt?_eq_some_iff`; at an edge between two tokens they give these two (`tokenAt?_start`,
`lastEndingAt?_stop`); the look-ups are exact in the stream of every tree
(`exactLookups_ofTree`).  Every byte is in exactly one token (`Tiled.exists_token_at`,
`Tiled.eq_of_byte`).
-/

namespace LiveExcerpts.TokenStream

variable {stream : TokenStream}

/-! ## The place that a search finds -/

/-- A search by halving for a test that passes from each token to those before it: the tokens before
the place that it finds pass the test, those from it on do not. -/
theorem bisect_spec {test : Token → Bool}
    (hback : ∀ (i j : Nat) (a b : Token), stream.tokens[i]? = some a →
      stream.tokens[j]? = some b → i ≤ j → test b = true → test a = true) :
    bisect (fun i => stream.tokens[i]?.any test) 0 stream.size ≤ stream.size ∧
      ∀ i token, stream.tokens[i]? = some token →
        (test token = true ↔ i < bisect (fun i => stream.tokens[i]?.any test) 0 stream.size) := by
  have hholds : HoldsUpTo fun i => stream.tokens[i]?.any test := by
    intro i j hij hj
    obtain ⟨b, hb, htest⟩ := (Option.any_eq_true _ _).1 hj
    have hi : i < stream.size := Nat.lt_of_le_of_lt hij (lt_size_of_getElem? hb)
    obtain ⟨a, ha⟩ := exists_getElem?_of_lt_size hi
    show stream.tokens[i]?.any test = true
    rw [ha, Option.any_some]
    exact hback i j a b ha hb hij htest
  constructor
  · simpa using bisect_le (fun i => stream.tokens[i]?.any test) 0 stream.size
  · intro i token htoken
    have hi : i < 0 + stream.size := by
      rw [Nat.zero_add]
      exact lt_size_of_getElem? htoken
    rw [← holds_iff_lt_bisect hholds 0 stream.size i (Nat.zero_le i) hi, htoken, Option.any_some]

/-- Tokens start below a byte exactly before the place that the search for a token's start finds. -/
theorem Tiled.exists_place_tokenAt? (h : stream.Tiled) (byte : Nat) :
    ∃ place ≤ stream.size,
      stream.tokenAt? byte = (if place < stream.size then some place else none) ∧
      ∀ i token, stream.tokens[i]? = some token → (token.start < byte ↔ i < place) := by
  have hback : ∀ (i j : Nat) (a b : Token), stream.tokens[i]? = some a →
      stream.tokens[j]? = some b → i ≤ j → decide (b.start < byte) = true →
      decide (a.start < byte) = true := by
    intro i j a b ha hb hij hlt
    have hle := h.start_le_start ha hb hij
    rw [decide_eq_true_eq] at hlt ⊢
    omega
  obtain ⟨hsize, hplace⟩ := bisect_spec hback
  refine ⟨_, hsize, rfl, ?_⟩
  intro i token htoken
  rw [← hplace i token htoken, decide_eq_true_eq]

/-- Tokens stop at or below a byte exactly before the place that the search for a token's stop
finds. -/
theorem Tiled.exists_place_lastEndingAt? (h : stream.Tiled) (byte : Nat) :
    ∃ place ≤ stream.size,
      stream.lastEndingAt? byte = (if 0 < place then some (place - 1) else none) ∧
      ∀ i token, stream.tokens[i]? = some token → (token.stop ≤ byte ↔ i < place) := by
  have hback : ∀ (i j : Nat) (a b : Token), stream.tokens[i]? = some a →
      stream.tokens[j]? = some b → i ≤ j → decide (b.stop ≤ byte) = true →
      decide (a.stop ≤ byte) = true := by
    intro i j a b ha hb hij hle
    have hstop := h.stop_le_stop ha hb hij
    rw [decide_eq_true_eq] at hle ⊢
    omega
  obtain ⟨hsize, hplace⟩ := bisect_spec hback
  refine ⟨_, hsize, ?_, ?_⟩
  · rw [lastEndingAt?]
    split
    · next hzero => rw [hzero, if_neg (Nat.lt_irrefl 0)]
    · next n hsucc => rw [hsucc, if_pos (Nat.succ_pos n), Nat.succ_sub_one]
  · intro i token htoken
    rw [← hplace i token htoken, decide_eq_true_eq]

/-! ## What is found -/

/-- **The first token at or after a byte.** -/
theorem Tiled.tokenAt?_eq_some_iff (h : stream.Tiled) {byte i : Nat} :
    stream.tokenAt? byte = some i ↔
      (∃ token, stream.tokens[i]? = some token ∧ byte ≤ token.start) ∧
        ∀ j token, j < i → stream.tokens[j]? = some token → token.start < byte := by
  obtain ⟨place, hle, hat, hplace⟩ := h.exists_place_tokenAt? byte
  rw [hat]
  constructor
  · intro hsome
    obtain ⟨hlt, rfl⟩ : place < stream.size ∧ place = i := by simpa using hsome
    obtain ⟨token, htoken⟩ := exists_getElem?_of_lt_size hlt
    have hstart := hplace place token htoken
    exact ⟨⟨token, htoken, by omega⟩, fun j t hj ht => (hplace j t ht).2 hj⟩
  · rintro ⟨⟨token, htoken, hbyte⟩, hbefore⟩
    have hlt := lt_size_of_getElem? htoken
    have hi := hplace i token htoken
    -- The place is not beyond `i`, and nothing before `i` can be it.
    have heq : place = i := by
      rcases Nat.lt_or_ge place i with hpi | hpi
      · have hsize : place < stream.size := Nat.lt_trans hpi hlt
        obtain ⟨t, ht⟩ := exists_getElem?_of_lt_size hsize
        have hbelow := hbefore place t hpi ht
        have hthere := hplace place t ht
        omega
      · omega
    rw [heq, if_pos hlt]

/-- There is no token at or after a byte exactly when all start below it. -/
theorem Tiled.tokenAt?_eq_none_iff (h : stream.Tiled) {byte : Nat} :
    stream.tokenAt? byte = none ↔
      ∀ (i : Nat) (token : Token), stream.tokens[i]? = some token → token.start < byte := by
  obtain ⟨place, hle, hat, hplace⟩ := h.exists_place_tokenAt? byte
  rw [hat]
  constructor
  · intro hnone i token htoken
    have hsize : ¬ place < stream.size := by simpa using hnone
    have hi := lt_size_of_getElem? htoken
    exact (hplace i token htoken).2 (by omega)
  · intro hall
    rw [if_neg]
    intro hlt
    obtain ⟨token, htoken⟩ := exists_getElem?_of_lt_size hlt
    have := (hplace place token htoken).1 (hall place token htoken)
    omega

/-- **The last token at or before a byte.** -/
theorem Tiled.lastEndingAt?_eq_some_iff (h : stream.Tiled) {byte i : Nat} :
    stream.lastEndingAt? byte = some i ↔
      (∃ token, stream.tokens[i]? = some token ∧ token.stop ≤ byte) ∧
        ∀ j token, i < j → stream.tokens[j]? = some token → byte < token.stop := by
  obtain ⟨place, hle, hat, hplace⟩ := h.exists_place_lastEndingAt? byte
  rw [hat]
  constructor
  · intro hsome
    obtain ⟨hpos, rfl⟩ : 0 < place ∧ place - 1 = i := by simpa using hsome
    have hsize : place - 1 < stream.size := by omega
    obtain ⟨token, htoken⟩ := exists_getElem?_of_lt_size hsize
    refine ⟨⟨token, htoken, (hplace _ token htoken).2 (by omega)⟩, fun j t hj ht => ?_⟩
    have hstop := hplace j t ht
    omega
  · rintro ⟨⟨token, htoken, hbyte⟩, hafter⟩
    have hi := (hplace i token htoken).1 hbyte
    have heq : place = i + 1 := by
      rcases Nat.lt_or_ge (i + 1) place with hip | hip
      · have hsize : i + 1 < stream.size := by omega
        obtain ⟨t, ht⟩ := exists_getElem?_of_lt_size hsize
        have habove := hafter (i + 1) t (by omega) ht
        have hthere := hplace (i + 1) t ht
        omega
      · omega
    rw [heq, if_pos (Nat.succ_pos i), Nat.add_sub_cancel]

/-- A token is the first at or after the byte where it starts. -/
theorem Tiled.tokenAt?_start (h : stream.Tiled) {i : Nat} {token : Token}
    (htoken : stream.tokens[i]? = some token) : stream.tokenAt? token.start = some i := by
  refine h.tokenAt?_eq_some_iff.2 ⟨⟨token, htoken, Nat.le_refl _⟩, fun j t hj ht => ?_⟩
  have hne := h.start_lt_stop ht
  have hle := h.stop_le_start ht htoken hj
  omega

/-- A token is the last at or before the byte where it stops. -/
theorem Tiled.lastEndingAt?_stop (h : stream.Tiled) {i : Nat} {token : Token}
    (htoken : stream.tokens[i]? = some token) : stream.lastEndingAt? token.stop = some i := by
  refine h.lastEndingAt?_eq_some_iff.2 ⟨⟨token, htoken, Nat.le_refl _⟩, fun j t hj ht => ?_⟩
  have hne := h.start_lt_stop ht
  have hle := h.stop_le_start htoken ht hj
  omega

/-- A token that starts at or after a byte bounds what is found there. -/
theorem Tiled.exists_tokenAt?_le (h : stream.Tiled) {byte i : Nat} {token : Token}
    (htoken : stream.tokens[i]? = some token) (hbyte : byte ≤ token.start) :
    ∃ j ≤ i, stream.tokenAt? byte = some j := by
  cases hj : stream.tokenAt? byte with
  | none =>
      have := h.tokenAt?_eq_none_iff.1 hj i token htoken
      omega
  | some j =>
      obtain ⟨-, hbefore⟩ := h.tokenAt?_eq_some_iff.1 hj
      refine ⟨j, ?_, rfl⟩
      rcases Nat.lt_or_ge i j with hij | hij
      · have := hbefore i token hij htoken
        omega
      · exact hij

/-- A token that stops at or before a byte bounds what is found there. -/
theorem Tiled.exists_le_lastEndingAt? (h : stream.Tiled) {byte i : Nat} {token : Token}
    (htoken : stream.tokens[i]? = some token) (hbyte : token.stop ≤ byte) :
    ∃ j, i ≤ j ∧ stream.lastEndingAt? byte = some j := by
  obtain ⟨place, -, hat, hplace⟩ := h.exists_place_lastEndingAt? byte
  have hlt := (hplace i token htoken).1 hbyte
  rw [if_pos (Nat.zero_lt_of_lt hlt)] at hat
  exact ⟨place - 1, Nat.le_sub_one_of_lt hlt, hat⟩

/-- What is found at or after a byte that a token covers or touches is at most the next token. -/
theorem Tiled.tokenAt?_le_succ (h : stream.Tiled) {byte i j : Nat} {token : Token}
    (htoken : stream.tokens[i]? = some token) (hbyte : byte ≤ token.stop)
    (hj : stream.tokenAt? byte = some j) : j ≤ i + 1 := by
  obtain ⟨⟨found, hfound, -⟩, hbefore⟩ := h.tokenAt?_eq_some_iff.1 hj
  rcases Nat.lt_or_ge (i + 1) j with hij | hij
  · have hsize : i + 1 < stream.size := Nat.lt_trans hij (lt_size_of_getElem? hfound)
    obtain ⟨next, hnext⟩ := exists_getElem?_of_lt_size hsize
    have hstart := hbefore (i + 1) next hij hnext
    have hle := h.stop_le_start htoken hnext (Nat.lt_succ_self i)
    omega
  · exact hij

/-- There is no token at or before a byte exactly when all stop above it. -/
theorem Tiled.lastEndingAt?_eq_none_iff (h : stream.Tiled) {byte : Nat} :
    stream.lastEndingAt? byte = none ↔
      ∀ (i : Nat) (token : Token), stream.tokens[i]? = some token → byte < token.stop := by
  constructor
  · intro hnone i token htoken
    apply Nat.lt_of_not_le
    intro hstop
    obtain ⟨j, -, hsome⟩ := h.exists_le_lastEndingAt? htoken hstop
    rw [hnone] at hsome
    cases hsome
  · intro hall
    cases hsome : stream.lastEndingAt? byte with
    | none => rfl
    | some i =>
        obtain ⟨⟨token, htoken, hstop⟩, -⟩ := h.lastEndingAt?_eq_some_iff.1 hsome
        exact absurd (hall i token htoken) (Nat.not_lt_of_le hstop)

/-! ## Exact look-ups -/

/-- The indices of the tokens that start at or after a byte. -/
def startingFrom (stream : TokenStream) (byte : Nat) : Set Nat :=
  {i | ∃ token, stream.tokens[i]? = some token ∧ byte ≤ token.start}

/-- The indices of the tokens that stop at or before a byte. -/
def stoppingBy (stream : TokenStream) (byte : Nat) : Set Nat :=
  {i | ∃ token, stream.tokens[i]? = some token ∧ token.stop ≤ byte}

/-- The look-ups by byte find what they are named for, at whatever byte, inside the source or beyond
its end. -/
structure ExactLookups (stream : TokenStream) : Prop where
  /-- The first token at or after a byte has the least of the indices. -/
  isLeast_iff : ∀ byte i, stream.tokenAt? byte = some i ↔ IsLeast (stream.startingFrom byte) i
  /-- It is not found only where there is none. -/
  none_at_iff : ∀ byte, stream.tokenAt? byte = none ↔ stream.startingFrom byte = ∅
  /-- The last token at or before a byte has the greatest of the indices. -/
  isGreatest_iff : ∀ byte i,
    stream.lastEndingAt? byte = some i ↔ IsGreatest (stream.stoppingBy byte) i
  /-- It is not found only where there is none. -/
  none_ending_iff : ∀ byte, stream.lastEndingAt? byte = none ↔ stream.stoppingBy byte = ∅
  /-- From a later byte on, the first token is not an earlier one. -/
  at_mono : ∀ byte later j, byte ≤ later → stream.tokenAt? later = some j →
    ∃ i ≤ j, stream.tokenAt? byte = some i
  /-- Up to a later byte, the last token is not an earlier one. -/
  ending_mono : ∀ byte later i, byte ≤ later → stream.lastEndingAt? byte = some i →
    ∃ j, i ≤ j ∧ stream.lastEndingAt? later = some j
  /-- At the common edge of two neighbours, the one is found behind it and the other before it. -/
  edge : ∀ i token next, stream.tokens[i]? = some token → stream.tokens[i + 1]? = some next →
    token.stop = next.start ∧ stream.tokenAt? token.stop = some (i + 1) ∧
      stream.lastEndingAt? token.stop = some i

theorem Tiled.tokenAt?_eq_some_iff_isLeast (h : stream.Tiled) {byte i : Nat} :
    stream.tokenAt? byte = some i ↔ IsLeast (stream.startingFrom byte) i := by
  rw [h.tokenAt?_eq_some_iff]
  refine and_congr_right fun _ => ?_
  constructor
  · rintro hbefore j ⟨token, htoken, hstart⟩
    apply Nat.le_of_not_lt
    intro hji
    have := hbefore j token hji htoken
    omega
  · intro hlower j token hji htoken
    apply Nat.lt_of_not_le
    intro hstart
    have := hlower ⟨token, htoken, hstart⟩
    omega

theorem Tiled.lastEndingAt?_eq_some_iff_isGreatest (h : stream.Tiled) {byte i : Nat} :
    stream.lastEndingAt? byte = some i ↔ IsGreatest (stream.stoppingBy byte) i := by
  rw [h.lastEndingAt?_eq_some_iff]
  refine and_congr_right fun _ => ?_
  constructor
  · rintro hafter j ⟨token, htoken, hstop⟩
    apply Nat.le_of_not_lt
    intro hij
    have := hafter j token hij htoken
    omega
  · intro hupper j token hij htoken
    apply Nat.lt_of_not_le
    intro hstop
    have := hupper ⟨token, htoken, hstop⟩
    omega

/-- Where the tokens tile the source the look-ups are exact. -/
theorem Tiled.exactLookups (h : stream.Tiled) : stream.ExactLookups where
  isLeast_iff := fun _ _ => h.tokenAt?_eq_some_iff_isLeast
  none_at_iff := fun byte => by
    rw [h.tokenAt?_eq_none_iff, Set.eq_empty_iff_forall_notMem]
    simp only [startingFrom, Set.mem_ofPred_eq, not_exists, not_and, Nat.not_le]
  isGreatest_iff := fun _ _ => h.lastEndingAt?_eq_some_iff_isGreatest
  none_ending_iff := fun byte => by
    rw [h.lastEndingAt?_eq_none_iff, Set.eq_empty_iff_forall_notMem]
    simp only [stoppingBy, Set.mem_ofPred_eq, not_exists, not_and, Nat.not_le]
  at_mono := fun byte later j hle hj => by
    obtain ⟨⟨token, htoken, hstart⟩, -⟩ := h.tokenAt?_eq_some_iff.1 hj
    exact h.exists_tokenAt?_le htoken (Nat.le_trans hle hstart)
  ending_mono := fun byte later i hle hi => by
    obtain ⟨⟨token, htoken, hstop⟩, -⟩ := h.lastEndingAt?_eq_some_iff.1 hi
    exact h.exists_le_lastEndingAt? htoken (Nat.le_trans hstop hle)
  edge := fun i token next htoken hnext => by
    have hedge := h.isPartition.start_next i token next htoken hnext
    refine ⟨hedge.symm, ?_, h.lastEndingAt?_stop htoken⟩
    rw [← hedge]
    exact h.tokenAt?_start hnext

/-- **Looking tokens up by byte is exact in the stream of every tree**, however its leaves overlap
and whatever their order. -/
theorem exactLookups_ofTree (source : String) (root : Node)
    (h : root.All (Node.SpansWithin source.utf8ByteSize)) : (ofTree source root).ExactLookups :=
  (tiled_ofTree h).exactLookups

/-- Where the second token of `overlapping` stops the third one starts, and far behind the end of
the source there is still a last token. -/
theorem exactLookups_ofTree_overlapping :
    overlapping.All (Node.SpansWithin "aé//b".utf8ByteSize) ∧
    (ofTree "aé//b" overlapping).tokenAt? 5 = some 2 ∧
    (ofTree "aé//b" overlapping).lastEndingAt? 5 = some 1 ∧
    ∃ j, 1 ≤ j ∧ (ofTree "aé//b" overlapping).lastEndingAt? 100 = some j := by
  have hspans : overlapping.All (Node.SpansWithin "aé//b".utf8ByteSize) := by decide +kernel
  have hexact := exactLookups_ofTree "aé//b" overlapping hspans
  obtain ⟨-, hat, hending⟩ := hexact.edge 1 ⟨"(", 2, 5, 1, .significant⟩
    ⟨"line_comment", 5, 6, 1, .hidden⟩ (by decide +kernel) (by decide +kernel)
  exact ⟨hspans, hat, hending, hexact.ending_mono 5 100 1 (by decide) hending⟩

/-! ## Tokens by their bytes -/

/-- A token that stops before another one starts comes before it. -/
theorem Tiled.lt_of_stop_le_start (h : stream.Tiled) {i j : Nat} {a b : Token}
    (ha : stream.tokens[i]? = some a) (hb : stream.tokens[j]? = some b)
    (hle : a.stop ≤ b.start) : i < j := by
  rcases Nat.lt_or_ge i j with hij | hji
  · exact hij
  · have hstart := h.start_le_start hb ha hji
    have hlt := h.start_lt_stop ha
    omega

/-- **A byte is in one token only.** -/
theorem Tiled.eq_of_byte (h : stream.Tiled) {i j byte : Nat} {a b : Token}
    (ha : stream.tokens[i]? = some a) (hb : stream.tokens[j]? = some b)
    (hina : a.start ≤ byte ∧ byte < a.stop) (hinb : b.start ≤ byte ∧ byte < b.stop) : i = j := by
  rcases Nat.lt_trichotomy i j with hij | rfl | hji
  · have hle := h.stop_le_start ha hb hij
    omega
  · rfl
  · have hle := h.stop_le_start hb ha hji
    omega

/-- **Every byte of a run of tokens is in one of them.** -/
theorem Tiled.exists_token_at (h : stream.Tiled) {first last byte : Nat} {x y : Token}
    (hx : stream.tokens[first]? = some x) (hy : stream.tokens[last]? = some y)
    (hle : x.start ≤ byte) (hlt : byte < y.stop) :
    ∃ i token, first ≤ i ∧ i ≤ last ∧ stream.tokens[i]? = some token ∧ token.start ≤ byte ∧
      byte < token.stop := by
  obtain ⟨place, hsize, -, hplace⟩ := h.exists_place_tokenAt? (byte + 1)
  have hfirst : first < place := (hplace first x hx).1 (Nat.lt_succ_of_le hle)
  have hlast := hplace last y hy
  -- The token before the place starts at or below the byte, the one at the place above it.
  have hbefore : place - 1 < stream.size := by omega
  obtain ⟨token, htoken⟩ := exists_getElem?_of_lt_size hbefore
  have hstart := (hplace _ token htoken).2 (by omega)
  refine ⟨place - 1, token, by omega, ?_, htoken, Nat.le_of_lt_succ hstart, ?_⟩
  · rcases Nat.lt_or_ge last (place - 1) with hbeyond | hin
    · have hstop := h.stop_le_start hy htoken hbeyond
      omega
    · exact hin
  · rcases Nat.lt_or_ge place stream.size with hnext | hend
    · obtain ⟨next, hnext⟩ := exists_getElem?_of_lt_size hnext
      have hafter : stream.tokens[place - 1 + 1]? = some next := by
        rw [Nat.sub_add_cancel (Nat.one_le_of_lt hfirst)]
        exact hnext
      have hedge := h.isPartition.start_next (place - 1) token next htoken hafter
      have habove := hplace place next hnext
      omega
    · have hin := lt_size_of_getElem? hy
      have hstop := h.stop_le_stop hy htoken (by omega)
      omega

end LiveExcerpts.TokenStream
