import LiveExcerpts.Proofs.Tree
import LiveExcerpts.Token
/-!
# Tokens part the source

Whatever the tree, the tokens of a stream stand edge to edge and reach from the first byte of the
source to the last: leaves that overlap are clipped, leaves that lie behind are dropped, and what no
leaf covers becomes a token of its own.

Main definitions: `Tiles`, `TokenStream.Builder.Reached`, `TokenStream.IsPartition`.  Main
statements: a builder's tokens tile the bytes before its cursor (`Builder.Reached.tiles`), and the
stream of any tree parts its source, so that cutting it between two tokens and joining the texts
loses nothing (`isPartition_ofTree`).
-/

namespace LiveExcerpts

/-! ## Tilings -/

/-- Tokens that stand edge to edge from the byte `lo` to the byte `hi`, none of them empty. -/
def Tiles (lo hi : Nat) : List Token → Prop
  | [] => lo = hi
  | token :: rest => token.start = lo ∧ token.start < token.stop ∧ Tiles token.stop hi rest

namespace Tiles

/-- One more token at the end of a tiling. -/
theorem concat {lo mid : Nat} {tokens : List Token} (h : Tiles lo mid tokens) {token : Token}
    (hstart : token.start = mid) (hlt : token.start < token.stop) :
    Tiles lo token.stop (tokens ++ [token]) := by
  induction tokens generalizing lo with
  | nil =>
      have hlo : lo = mid := h
      exact ⟨hstart.trans hlo.symm, hlt, rfl⟩
  | cons first rest ih =>
      obtain ⟨hfirst, hne, hrest⟩ := h
      exact ⟨hfirst, hne, ih hrest⟩

theorem lo_le_hi {lo hi : Nat} {tokens : List Token} (h : Tiles lo hi tokens) : lo ≤ hi := by
  induction tokens generalizing lo with
  | nil => exact Nat.le_of_eq h
  | cons first rest ih =>
      obtain ⟨hfirst, hne, hrest⟩ := h
      have := ih hrest
      omega

/-- A token of a tiling is not empty and lies between its ends. -/
theorem bounds_of_mem {lo hi : Nat} {tokens : List Token} (h : Tiles lo hi tokens) {token : Token}
    (hmem : token ∈ tokens) : lo ≤ token.start ∧ token.start < token.stop ∧ token.stop ≤ hi := by
  induction tokens generalizing lo with
  | nil => simp at hmem
  | cons first rest ih =>
      obtain ⟨hfirst, hne, hrest⟩ := h
      rcases List.mem_cons.1 hmem with rfl | hmem
      · have := hrest.lo_le_hi
        omega
      · have := ih hrest hmem
        omega

/-- The tokens of a tiling follow one another. -/
theorem pairwise {lo hi : Nat} {tokens : List Token} (h : Tiles lo hi tokens) :
    tokens.Pairwise fun a b => a.stop ≤ b.start := by
  induction tokens generalizing lo with
  | nil => exact .nil
  | cons first rest ih =>
      obtain ⟨-, -, hrest⟩ := h
      exact .cons (fun token hmem => (hrest.bounds_of_mem hmem).1) (ih hrest)

theorem stop_le_start {lo hi i j : Nat} {tokens : List Token} (h : Tiles lo hi tokens)
    {a b : Token} (ha : tokens[i]? = some a) (hb : tokens[j]? = some b) (hij : i < j) :
    a.stop ≤ b.start := by
  obtain ⟨hi, rfl⟩ := List.getElem?_eq_some_iff.1 ha
  obtain ⟨hj, rfl⟩ := List.getElem?_eq_some_iff.1 hb
  exact List.pairwise_iff_getElem.1 h.pairwise i j hi hj hij

/-- The first token of a tiling starts where it begins. -/
theorem start_zero {lo hi : Nat} {tokens : List Token} (h : Tiles lo hi tokens) {token : Token}
    (hzero : tokens[0]? = some token) : token.start = lo := by
  cases tokens with
  | nil => simp at hzero
  | cons first rest =>
      obtain rfl : first = token := by simpa using hzero
      exact h.1

/-- Each token of a tiling starts where the one before it stops. -/
theorem start_succ {lo hi i : Nat} {tokens : List Token} (h : Tiles lo hi tokens) {a b : Token}
    (ha : tokens[i]? = some a) (hb : tokens[i + 1]? = some b) : b.start = a.stop := by
  induction tokens generalizing lo i with
  | nil => simp at ha
  | cons first rest ih =>
      obtain ⟨-, -, hrest⟩ := h
      cases i with
      | zero =>
          obtain rfl : first = a := by simpa using ha
          exact hrest.start_zero (by simpa using hb)
      | succ i => exact ih hrest (by simpa using ha) (by simpa using hb)

/-- The last token of a tiling stops where it ends. -/
theorem stop_last {lo hi : Nat} {tokens : List Token} (h : Tiles lo hi tokens) {token : Token}
    (hlast : tokens.getLast? = some token) : token.stop = hi := by
  induction tokens generalizing lo with
  | nil => simp at hlast
  | cons first rest ih =>
      obtain ⟨-, -, hrest⟩ := h
      cases rest with
      | nil =>
          obtain rfl : first = token := by simpa using hlast
          exact hrest
      | cons second rest => exact ih hrest (by simpa using hlast)

/-- A tiling of no bytes has no tokens, and only that. -/
theorem eq_nil_iff {lo hi : Nat} {tokens : List Token} (h : Tiles lo hi tokens) :
    tokens = [] ↔ lo = hi := by
  cases tokens with
  | nil => exact ⟨fun _ => h, fun _ => rfl⟩
  | cons first rest =>
      obtain ⟨hfirst, hne, hrest⟩ := h
      have := hrest.lo_le_hi
      constructor
      · simp
      · omega

end Tiles

namespace TokenStream

/-! ## What a builder can do -/

/-- A builder that has come from the start by adding leaves, whole or clipped, and gaps that end
where a leaf starts or where the source ends. -/
inductive Builder.Reached (source : String) (leaves : List Node) : Builder → Prop
  | start : Reached source leaves .start
  | leaf {b : Builder} {leaf : Node} :
      Reached source leaves b → leaf ∈ leaves → b.cursor < leaf.stop →
      Reached source leaves (b.push source leaf.kind leaf.stop
        (if leaf.isComment then .hidden else .significant))
  | whitespace {b : Builder} {stop : Nat} :
      Reached source leaves b → (stop = source.utf8ByteSize ∨ ∃ leaf ∈ leaves, stop = leaf.start) →
      b.cursor < stop →
      (∃ text, Text.slice? source b.cursor stop = some text ∧ Text.allBlank text.toList = true) →
      Reached source leaves (b.push source "whitespace" stop .hidden)
  | text {b : Builder} {stop : Nat} :
      Reached source leaves b → (stop = source.utf8ByteSize ∨ ∃ leaf ∈ leaves, stop = leaf.start) →
      b.cursor < stop → Reached source leaves (b.push source "text" stop .significant)

namespace Builder

variable {source : String} {leaves : List Node}

theorem Reached.pushGap {b : Builder} (h : b.Reached source leaves) {stop : Nat}
    (hstop : stop = source.utf8ByteSize ∨ ∃ leaf ∈ leaves, stop = leaf.start) :
    (b.pushGap source stop).Reached source leaves := by
  rw [Builder.pushGap]
  split
  · exact h
  · next hlt =>
      split
      · next hblank =>
          obtain ⟨text, htext, hall⟩ := (Option.any_eq_true _ _).1 hblank
          exact .whitespace h hstop (by omega) ⟨text, htext, hall⟩
      · exact .text h hstop (by omega)

theorem Reached.pushLeaf {b : Builder} (h : b.Reached source leaves) {leaf : Node}
    (hleaf : leaf ∈ leaves) (hlt : leaf.start < leaf.stop) :
    (b.pushLeaf source leaf).Reached source leaves := by
  rw [Builder.pushLeaf]
  split
  · exact h
  · -- The gap before the leaf ends where the leaf starts, short of the leaf's own end.
    refine .leaf (h.pushGap (.inr ⟨leaf, hleaf, rfl⟩)) hleaf ?_
    rw [cursor_pushGap]
    omega

theorem Reached.foldl {b : Builder} (h : b.Reached source leaves) {some : List Node}
    (hsub : ∀ leaf ∈ some, leaf ∈ leaves) (hlt : ∀ leaf ∈ some, leaf.start < leaf.stop) :
    (some.foldl (Builder.pushLeaf source) b).Reached source leaves := by
  induction some generalizing b with
  | nil => exact h
  | cons leaf rest ih =>
      rw [List.forall_mem_cons] at hsub hlt
      exact ih (h.pushLeaf hsub.1 hlt.1) hsub.2 hlt.2

theorem tiles_push {b : Builder} (h : Tiles 0 b.cursor b.tokens.toList) {stop : Nat}
    (hlt : b.cursor < stop) (source kind : String) (channel : Channel) :
    Tiles 0 stop (b.push source kind stop channel).tokens.toList := by
  rw [tokens_push]
  let token : Token := ⟨kind, b.cursor, stop, b.line, channel⟩
  have hstart : token.start = b.cursor := rfl
  exact h.concat hstart hlt

/-- **A builder's tokens tile the bytes before its cursor.** -/
theorem Reached.tiles {b : Builder} (h : b.Reached source leaves) :
    Tiles 0 b.cursor b.tokens.toList := by
  induction h with
  | start => rfl
  | leaf _ _ hlt ih => exact tiles_push ih hlt _ _ _
  | whitespace _ _ hlt _ ih => exact tiles_push ih hlt _ _ _
  | text _ _ hlt ih => exact tiles_push ih hlt _ _ _

/-- The cursor stays within the source as long as the leaves do. -/
theorem cursor_foldl_le {bound : Nat} {b : Builder} (hb : b.cursor ≤ bound)
    (hleaves : ∀ leaf ∈ leaves, leaf.stop ≤ bound) :
    (leaves.foldl (Builder.pushLeaf source) b).cursor ≤ bound := by
  induction leaves generalizing b with
  | nil => exact hb
  | cons leaf rest ih =>
      rw [List.forall_mem_cons] at hleaves
      refine ih ?_ hleaves.2
      rw [cursor_pushLeaf]
      omega

end Builder

/-- The tokens of a stream are those of a builder that has reached the end of the source. -/
theorem exists_reached_ofLeaves {source : String} {leaves : List Node}
    (hlt : ∀ leaf ∈ leaves, leaf.start < leaf.stop)
    (hstop : ∀ leaf ∈ leaves, leaf.stop ≤ source.utf8ByteSize) :
    ∃ b : Builder, b.Reached source leaves ∧ b.cursor = source.utf8ByteSize ∧
      (ofLeaves source leaves).tokens = b.tokens := by
  have hfold : (leaves.foldl (Builder.pushLeaf source) .start).Reached source leaves :=
    Builder.Reached.start.foldl (fun _ h => h) hlt
  refine ⟨_, hfold.pushGap (.inl rfl), ?_, rfl⟩
  rw [Builder.cursor_pushGap]
  exact Nat.max_eq_right (Builder.cursor_foldl_le (Nat.zero_le _) hstop)

/-! ## Partitions -/

/-- The leaves of a tree whose spans lie in the source lie in it, too. -/
theorem stop_le_of_mem_leaves {bound : Nat} {root leaf : Node}
    (h : root.All (Node.SpansWithin bound)) (hleaf : leaf ∈ root.leaves) : leaf.stop ≤ bound :=
  (h.part (Node.part_of_mem_leaves hleaf)).here.2

theorem exists_reached_ofTree {source : String} {root : Node}
    (h : root.All (Node.SpansWithin source.utf8ByteSize)) :
    ∃ b : Builder, b.Reached source root.leaves ∧ b.cursor = source.utf8ByteSize ∧
      (ofTree source root).tokens = b.tokens :=
  exists_reached_ofLeaves (fun _ hleaf => Node.start_lt_stop_of_mem_leaves hleaf)
    (fun _ hleaf => stop_le_of_mem_leaves h hleaf)

/-- The tokens of a stream tile its source. -/
def Tiled (stream : TokenStream) : Prop :=
  Tiles 0 stream.source.utf8ByteSize stream.tokens.toList

/-- Leaves that span something and lie in the source are enough for that. -/
theorem tiled_ofLeaves {source : String} {leaves : List Node}
    (hlt : ∀ leaf ∈ leaves, leaf.start < leaf.stop)
    (hstop : ∀ leaf ∈ leaves, leaf.stop ≤ source.utf8ByteSize) :
    (ofLeaves source leaves).Tiled := by
  obtain ⟨b, hb, hcursor, htokens⟩ := exists_reached_ofLeaves hlt hstop
  have htiles := hb.tiles
  rw [hcursor] at htiles
  rw [Tiled, htokens]
  exact htiles

theorem tiled_ofTree {source : String} {root : Node}
    (h : root.All (Node.SpansWithin source.utf8ByteSize)) : (ofTree source root).Tiled :=
  tiled_ofLeaves (fun _ hleaf => Node.start_lt_stop_of_mem_leaves hleaf)
    (fun _ hleaf => stop_le_of_mem_leaves h hleaf)

/-- The tokens of a stream part its source: none is empty, the first starts at the first byte, each
next one starts where the one before it stops, and the last stops at the last byte.  Only the empty
source has no tokens. -/
structure IsPartition (stream : TokenStream) : Prop where
  /-- No token is empty. -/
  start_lt_stop : ∀ token ∈ stream.tokens, token.start < token.stop
  /-- The first token starts at the first byte. -/
  start_first : ∀ token, stream.tokens[0]? = some token → token.start = 0
  /-- Each token starts where the one before it stops. -/
  start_next : ∀ i token next, stream.tokens[i]? = some token →
    stream.tokens[i + 1]? = some next → next.start = token.stop
  /-- The last token stops at the last byte. -/
  stop_last : ∀ token, stream.tokens.back? = some token →
    token.stop = stream.source.utf8ByteSize
  /-- There are no tokens exactly when there is no text. -/
  size_eq_zero_iff : stream.size = 0 ↔ stream.source = ""

theorem Tiled.isPartition {stream : TokenStream} (h : stream.Tiled) : stream.IsPartition where
  start_lt_stop := fun token hmem => (h.bounds_of_mem (Array.mem_toList_iff.2 hmem)).2.1
  start_first := fun token hzero => h.start_zero (by rwa [Array.getElem?_toList])
  start_next := fun i token next htoken hnext =>
    h.start_succ (i := i) (by rwa [Array.getElem?_toList]) (by rwa [Array.getElem?_toList])
  stop_last := fun token hback => h.stop_last (by rwa [Array.getLast?_toList])
  size_eq_zero_iff := by
    rw [size, Array.size_eq_zero_iff, ← Array.toList_eq_nil_iff, h.eq_nil_iff, eq_comm,
      String.utf8ByteSize_eq_zero_iff]

variable {stream : TokenStream}

/-! ## Order of the tokens of a stream -/

theorem lt_size_of_getElem? {i : Nat} {token : Token} (h : stream.tokens[i]? = some token) :
    i < stream.size := (Array.getElem?_eq_some_iff.1 h).1

theorem exists_getElem?_of_lt_size {i : Nat} (h : i < stream.size) :
    ∃ token, stream.tokens[i]? = some token := ⟨_, Array.getElem?_eq_getElem h⟩

theorem Tiled.start_lt_stop (h : stream.Tiled) {i : Nat} {token : Token}
    (htoken : stream.tokens[i]? = some token) : token.start < token.stop :=
  h.isPartition.start_lt_stop token (Array.mem_of_getElem? htoken)

/-- A token stops before a later one starts, or right there. -/
theorem Tiled.stop_le_start (h : stream.Tiled) {i j : Nat} {a b : Token}
    (ha : stream.tokens[i]? = some a) (hb : stream.tokens[j]? = some b) (hij : i < j) :
    a.stop ≤ b.start :=
  Tiles.stop_le_start h (by rwa [Array.getElem?_toList]) (by rwa [Array.getElem?_toList]) hij

theorem Tiled.start_le_start (h : stream.Tiled) {i j : Nat} {a b : Token}
    (ha : stream.tokens[i]? = some a) (hb : stream.tokens[j]? = some b) (hij : i ≤ j) :
    a.start ≤ b.start := by
  rcases Nat.lt_or_eq_of_le hij with hlt | rfl
  · have hne := h.start_lt_stop ha
    have hle := h.stop_le_start ha hb hlt
    omega
  · obtain rfl : a = b := Option.some.inj (ha.symm.trans hb)
    exact Nat.le_refl _

theorem Tiled.stop_le_stop (h : stream.Tiled) {i j : Nat} {a b : Token}
    (ha : stream.tokens[i]? = some a) (hb : stream.tokens[j]? = some b) (hij : i ≤ j) :
    a.stop ≤ b.stop := by
  rcases Nat.lt_or_eq_of_le hij with hlt | rfl
  · have hne := h.start_lt_stop hb
    have hle := h.stop_le_start ha hb hlt
    omega
  · obtain rfl : a = b := Option.some.inj (ha.symm.trans hb)
    exact Nat.le_refl _

/-! ## Texts -/

theorem textOf_eq {a b : Nat} {x y : Token} (hx : stream.tokens[a]? = some x)
    (hy : stream.tokens[b]? = some y) :
    stream.textOf a b = (Text.slice? stream.source x.start y.stop).getD "" := by
  rw [textOf, hx, hy]

/-- **Two neighbouring runs of tokens make one.** -/
theorem Tiled.textOf_append (h : stream.Tiled) {a b c : Nat} {x y z : Token} (hab : a ≤ b)
    (hbc : b < c) (hx : stream.tokens[a]? = some x) (hy : stream.tokens[b]? = some y)
    (hz : stream.tokens[c]? = some z) (hedgex : Text.IsEdge stream.source x.start)
    (hedgey : Text.IsEdge stream.source y.stop) (hedgez : Text.IsEdge stream.source z.stop) :
    stream.textOf a b ++ stream.textOf (b + 1) c = stream.textOf a c := by
  have hsize : b + 1 < stream.size := Nat.lt_of_le_of_lt hbc (lt_size_of_getElem? hz)
  obtain ⟨y', hy'⟩ := exists_getElem?_of_lt_size hsize
  -- The second run begins where the first one ends.
  have hnext : y'.start = y.stop := h.isPartition.start_next b y y' hy hy'
  have hxy : x.start ≤ y.stop := by
    have hle := h.start_le_start hx hy hab
    have hne := h.start_lt_stop hy
    omega
  have hyz : y.stop ≤ z.stop := h.stop_le_stop hy hz (by omega)
  obtain ⟨t, ht⟩ := Text.exists_slice?_of_isEdge hxy hedgex hedgey
  obtain ⟨u, hu⟩ := Text.exists_slice?_of_isEdge hyz hedgey hedgez
  rw [textOf_eq hx hy, textOf_eq hy' hz, textOf_eq hx hz, hnext, ht, hu, Text.slice?_append ht hu]
  rfl

/-- All tokens together are the source. -/
theorem Tiled.textOf_all (h : stream.Tiled) :
    stream.textOf 0 (stream.size - 1) = stream.source := by
  rcases Nat.eq_zero_or_pos stream.size with hzero | hpos
  · rw [h.isPartition.size_eq_zero_iff.1 hzero, textOf, Array.getElem?_eq_none (Nat.le_of_eq hzero)]
  · obtain ⟨x, hx⟩ := exists_getElem?_of_lt_size hpos
    have hlast : stream.size - 1 < stream.size := by omega
    obtain ⟨y, hy⟩ := exists_getElem?_of_lt_size hlast
    have hstart : x.start = 0 := h.isPartition.start_first x hx
    have hstop : y.stop = stream.source.utf8ByteSize :=
      h.isPartition.stop_last y (by rw [Array.back?_eq_getElem?]; exact hy)
    rw [textOf_eq hx hy, hstart, hstop, Text.slice?_zero_utf8ByteSize]
    rfl

/-- **The tokens of a stream part its source, whatever the tree.**  So the texts of two neighbouring
runs of tokens make the text of both together, where the runs begin and end on edges of characters,
and all tokens together make the source. -/
theorem isPartition_ofTree (source : String) (root : Node)
    (h : root.All (Node.SpansWithin source.utf8ByteSize)) :
    (ofTree source root).source = source ∧ (ofTree source root).IsPartition ∧
    (∀ (a b c : Nat) (x y z : Token), a ≤ b → b < c →
      (ofTree source root).tokens[a]? = some x → (ofTree source root).tokens[b]? = some y →
      (ofTree source root).tokens[c]? = some z →
      Text.IsEdge source x.start → Text.IsEdge source y.stop → Text.IsEdge source z.stop →
      (ofTree source root).textOf a b ++ (ofTree source root).textOf (b + 1) c =
        (ofTree source root).textOf a c) ∧
    (ofTree source root).textOf 0 ((ofTree source root).size - 1) = source := by
  have htiled := tiled_ofTree h
  refine ⟨rfl, htiled.isPartition, ?_, htiled.textOf_all⟩
  intro a b c x y z hab hbc hx hy hz hedgex hedgey hedgez
  exact htiled.textOf_append hab hbc hx hy hz hedgex hedgey hedgez

/-- A tree of `aé//b` whose leaves overlap, run backwards and split a character. -/
def overlapping : Node :=
  ⟨"source_file", true, none, 0, 6, [
    ⟨"identifier", true, none, 0, 2, []⟩,
    ⟨"call", true, none, 1, 5, [
      ⟨"(", false, none, 1, 5, []⟩,
      ⟨"MISSING", true, none, 4, 4, []⟩]⟩,
    ⟨"line_comment", true, none, 3, 6, [⟨"//", false, none, 3, 5, []⟩]⟩,
    ⟨"identifier", true, none, 0, 1, []⟩]⟩

theorem isPartition_ofTree_overlapping :
    overlapping.All (Node.SpansWithin "aé//b".utf8ByteSize) ∧
    (ofTree "aé//b" overlapping).tokens.toList.map (fun token => (token.start, token.stop)) =
      [(0, 2), (2, 5), (5, 6)] ∧
    (ofTree "aé//b" overlapping).IsPartition ∧
    (ofTree "aé//b" overlapping).textOf 0 1 ++ (ofTree "aé//b" overlapping).textOf 2 2 =
      (ofTree "aé//b" overlapping).textOf 0 2 ∧
    (ofTree "aé//b" overlapping).textOf 0 2 = "aé//b" := by
  have hspans : overlapping.All (Node.SpansWithin "aé//b".utf8ByteSize) := by decide +kernel
  obtain ⟨-, hpartition, happend, hall⟩ := isPartition_ofTree "aé//b" overlapping hspans
  have hsize : (ofTree "aé//b" overlapping).size = 3 := by decide +kernel
  rw [hsize] at hall
  refine ⟨hspans, by decide +kernel, hpartition, ?_, hall⟩
  exact happend 0 1 2 ⟨"identifier", 0, 2, 1, .significant⟩ ⟨"(", 2, 5, 1, .significant⟩
    ⟨"line_comment", 5, 6, 1, .hidden⟩ (by decide) (by decide) (by decide +kernel)
    (by decide +kernel) (by decide +kernel) (by decide +kernel) (by decide +kernel)
    (by decide +kernel)

end TokenStream

end LiveExcerpts
