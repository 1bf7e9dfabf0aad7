import Mathlib.Data.List.Chain
import Mathlib.Data.List.Forall2
import Mathlib.Data.List.ReduceOption
import LiveExcerpts.Proofs.Tokens.Leaves
import LiveExcerpts.Proofs.Tokens.Lookup
/-!
# Where tokens come from

Every token of a well-formed tree is read from an **origin**: a leaf of the tree, or a stretch of
bytes that no leaf covers.  The leaves among the origins are all leaves in pre-order, and each
stretch before, between and behind them is one token.

Main definitions: `Node.Site.isLeaf`, `Token.ReadFrom`, `IsStretch`, `TokenStream.ReadsWhole`.  Main
statements: the leaves of a tree are its sites that are leaves, in pre-order
(`Node.leaves_eq_filter_sites`), what a builder has read (`Builder.Read.foldl`), and the origins of
all tokens of a tree (`TokenStream.exists_readsWhole`).
-/

namespace LiveExcerpts

/-! ## Leaves among the sites of a tree -/

namespace Node

/-- Whether a site is that of a leaf: it spans something, has no children or is a comment, and is
not inside a comment. -/
def Site.isLeaf (site : Site) : Bool :=
  (site.node.children.isEmpty || site.node.isComment) &&
    decide (site.node.start < site.node.stop) &&
    site.above.all fun step => !step.parent.isComment

mutual

/-- Below a way up on which there is no comment, the sites of leaves are the leaves; below a comment
there are none. -/
theorem filter_isLeaf_sitesUnder (above : List Step) : ∀ node : Node,
    ((node.sitesUnder above).filter Site.isLeaf).map Site.node =
      if above.all fun step => !step.parent.isComment then node.leaves else []
  | ⟨kind, isNamed, field?, start, stop, children⟩ => by
      have hbelow := filter_isLeaf_sitesAmong above
        ⟨kind, isNamed, field?, start, stop, children⟩ [] children
      rw [sitesUnder, List.filter_cons, leaves]
      cases hout : above.all fun step => !step.parent.isComment with
      | false =>
          rw [hout, Bool.and_false, if_neg Bool.false_ne_true] at hbelow
          rw [if_neg (by rw [Site.isLeaf, hout]; simp), hbelow]
          rfl
      | true =>
          rw [hout, Bool.and_true] at hbelow
          cases hcomment : isComment ⟨kind, isNamed, field?, start, stop, children⟩ with
          | true =>
              -- A comment is a leaf itself, so nothing inside it is one.
              rw [hcomment, Bool.not_true, if_neg Bool.false_ne_true] at hbelow
              simp only [Site.isLeaf, hcomment, hout, Bool.or_true, Bool.true_and, Bool.and_true,
                decide_eq_true_eq, if_true]
              split
              · rw [List.map_cons, hbelow]
              · exact hbelow
          | false =>
              rw [hcomment, Bool.not_false, if_pos rfl] at hbelow
              cases children with
              | nil =>
                  simp only [Site.isLeaf, hcomment, hout, List.isEmpty_nil, Bool.true_or,
                    Bool.true_and, Bool.and_true, decide_eq_true_eq, if_true]
                  split
                  · rw [List.map_cons, hbelow]
                    rfl
                  · exact hbelow
              | cons child rest =>
                  simp only [Site.isLeaf, hcomment, List.isEmpty_cons, Bool.or_false,
                    Bool.false_and, Bool.false_eq_true, if_false, if_true]
                  exact hbelow

theorem filter_isLeaf_sitesAmong (above : List Step) (parent : Node) (before : List Node) :
    ∀ nodes : List Node, ((sitesAmong above parent before nodes).filter Site.isLeaf).map Site.node =
      if !parent.isComment && above.all fun step => !step.parent.isComment then leavesAmong nodes
      else []
  | [] => by rw [sitesAmong, leavesAmong]; simp
  | node :: rest => by
      rw [sitesAmong, List.filter_append, List.map_append,
        filter_isLeaf_sitesUnder (⟨parent, before⟩ :: above) node,
        filter_isLeaf_sitesAmong above parent (node :: before) rest, List.all_cons, leavesAmong]
      split <;> rfl

end

/-- **The leaves of a tree are its sites that are leaves, in pre-order.** -/
theorem leaves_eq_filter_sites (root : Node) :
    root.leaves = (root.sites.filter Site.isLeaf).map Site.node := by
  rw [sites, filter_isLeaf_sitesUnder, List.all_nil, if_pos rfl]

end Node

/-! ## Origins -/

/-- What a token is read from: a leaf, with its kind and its whole span, or a stretch of bytes that
no leaf covers.  Such a stretch is hidden if it is blank. -/
inductive Token.ReadFrom (source : String) : Option Node → Token → Prop
  | leaf {leaf : Node} {token : Token} : token.IsOf leaf → ReadFrom source (some leaf) token
  | stretch {token : Token} {text : String} :
      Text.slice? source token.start token.stop = some text →
      token.kind = (if Text.allBlank text.toList then "whitespace" else "text") →
      token.channel = (if Text.allBlank text.toList then .hidden else .significant) →
      ReadFrom source none token

/-- A stretch of the bytes up to `bound` that leaves do not cover: it is not empty, begins with the
first byte or where a leaf stops, ends at the bound or where a leaf starts, and holds no byte of a
leaf. -/
structure IsStretch (leaves : List Node) (bound lo hi : Nat) : Prop where
  /-- A stretch is not empty. -/
  lo_lt_hi : lo < hi
  /-- It begins with the first byte or right behind a leaf. -/
  from_leaf : lo = 0 ∨ ∃ leaf ∈ leaves, leaf.stop = lo
  /-- It ends with the last byte or right before a leaf. -/
  to_leaf : hi = bound ∨ ∃ leaf ∈ leaves, leaf.start = hi
  /-- No leaf has a byte in it. -/
  apart : ∀ leaf ∈ leaves, leaf.stop ≤ lo ∨ hi ≤ leaf.start

namespace IsStretch

variable {leaves : List Node} {bound : Nat}

theorem hi_le_bound {lo hi : Nat} (h : IsStretch leaves bound lo hi)
    (hlt : ∀ leaf ∈ leaves, leaf.start < leaf.stop) (hbound : ∀ leaf ∈ leaves, leaf.stop ≤ bound) :
    hi ≤ bound := by
  rcases h.to_leaf with rfl | ⟨leaf, hleaf, rfl⟩
  · exact Nat.le_refl _
  · exact Nat.le_trans (Nat.le_of_lt (hlt leaf hleaf)) (hbound leaf hleaf)

/-- Of two stretches that share a byte, neither begins before the other. -/
theorem lo_le {a b c d byte : Nat} (h : IsStretch leaves bound a b)
    (h' : IsStretch leaves bound c d) (hlt : ∀ leaf ∈ leaves, leaf.start < leaf.stop)
    (hin : byte < b) (hin' : c ≤ byte) : c ≤ a := by
  rcases h'.from_leaf with rfl | ⟨leaf, hleaf, rfl⟩
  · exact Nat.zero_le a
  · -- The leaf before the second stretch is not in the first one.
    have hapart := h.apart leaf hleaf
    have hne := hlt leaf hleaf
    omega

/-- Of two stretches that share a byte, neither ends before the other. -/
theorem hi_le {a b c d byte : Nat} (h : IsStretch leaves bound a b)
    (h' : IsStretch leaves bound c d) (hlt : ∀ leaf ∈ leaves, leaf.start < leaf.stop)
    (hbound : ∀ leaf ∈ leaves, leaf.stop ≤ bound) (hin : byte < b) (hin' : c ≤ byte) : d ≤ b := by
  have hd := h'.hi_le_bound hlt hbound
  rcases h.to_leaf with rfl | ⟨leaf, hleaf, rfl⟩
  · exact hd
  · have hapart := h'.apart leaf hleaf
    have hne := hlt leaf hleaf
    omega

/-- **Stretches that share a byte are the same.** -/
theorem unique {a b c d byte : Nat} (h : IsStretch leaves bound a b)
    (h' : IsStretch leaves bound c d) (hlt : ∀ leaf ∈ leaves, leaf.start < leaf.stop)
    (hbound : ∀ leaf ∈ leaves, leaf.stop ≤ bound) (hin : a ≤ byte ∧ byte < b)
    (hin' : c ≤ byte ∧ byte < d) : a = c ∧ b = d :=
  ⟨Nat.le_antisymm (h'.lo_le h hlt hin'.2 hin.1) (h.lo_le h' hlt hin.2 hin'.1),
    Nat.le_antisymm (h'.hi_le h hlt hbound hin'.2 hin.1) (h.hi_le h' hlt hbound hin.2 hin'.1)⟩

end IsStretch

namespace TokenStream

/-! ## What a builder has read -/

/-- The origins of the tokens of a builder that has read `leaves`: each token is read from its own,
the leaves among them are those read, in order, and no two stretches follow one another. -/
structure Builder.Read (source : String) (leaves : List Node) (origins : List (Option Node))
    (b : Builder) : Prop where
  /-- Each token is read from its origin. -/
  aligned : List.Forall₂ (Token.ReadFrom source) origins b.tokens.toList
  /-- The leaves among the origins are those that were read. -/
  leaves_eq : origins.reduceOption = leaves
  /-- No two stretches follow one another. -/
  isChain : origins.IsChain fun x y => x ≠ none ∨ y ≠ none
  /-- The cursor is on an edge of a character. -/
  isEdge : Text.IsEdge source b.cursor

namespace Builder

variable {source : String} {leaves : List Node} {origins : List (Option Node)} {b : Builder}

theorem read_start (source : String) : Read source [] [] .start :=
  ⟨.nil, rfl, .nil, Text.isEdge_zero source⟩

/-- A leaf that starts at the cursor is read whole. -/
theorem Read.push {leaf : Node} (h : b.Read source leaves origins) (hcursor : b.cursor = leaf.start)
    (hstop : Text.IsEdge source leaf.stop) :
    (b.push source leaf.kind leaf.stop (if leaf.isComment then .hidden else .significant)).Read
      source (leaves ++ [leaf]) (origins ++ [some leaf]) where
  aligned := by
    rw [tokens_push]
    exact List.rel_append h.aligned (.cons (.leaf ⟨rfl, hcursor, rfl, rfl⟩) .nil)
  leaves_eq := by
    rw [List.reduceOption_append, h.leaves_eq, List.reduceOption_singleton, Option.toList_some]
  isChain := h.isChain.append (.singleton _) fun x _ y hy => .inr <| by
    obtain rfl : some leaf = y := by simpa using hy
    nofun
  isEdge := hstop

/-- A stretch behind a leaf, or at the start, is read as one token. -/
theorem Read.pushGap (h : b.Read source leaves origins) (hlast : origins.getLast? ≠ some none)
    {stop : Nat} (hlt : b.cursor < stop) (hstop : Text.IsEdge source stop) :
    (b.pushGap source stop).Read source leaves (origins ++ [none]) where
  aligned := by
    obtain ⟨text, htext⟩ := Text.exists_slice?_of_isEdge (Nat.le_of_lt hlt) h.isEdge hstop
    rw [Builder.pushGap, if_neg (Nat.not_le_of_lt hlt), htext, Option.any_some]
    cases hblank : Text.allBlank text.toList with
    | true =>
        rw [if_pos rfl, tokens_push]
        refine List.rel_append h.aligned (.cons (.stretch htext ?_ ?_) .nil) <;> rw [hblank] <;> rfl
    | false =>
        rw [if_neg Bool.false_ne_true, tokens_push]
        refine List.rel_append h.aligned (.cons (.stretch htext ?_ ?_) .nil) <;> rw [hblank] <;> rfl
  leaves_eq := by
    rw [List.reduceOption_append, h.leaves_eq, List.reduceOption_cons_of_none,
      List.reduceOption_nil, List.append_nil]
  isChain := h.isChain.append (.singleton _) fun x hx _ _ => .inl fun hnone =>
    hlast (by rw [← hnone]; exact hx)
  isEdge := by
    rw [cursor_pushGap, Nat.max_eq_right (Nat.le_of_lt hlt)]
    exact hstop

/-- **A leaf that does not start before the cursor** is read whole, after the stretch before it, if
there is one. -/
theorem Read.pushLeaf {leaf : Node} (h : b.Read source leaves origins)
    (hlast : origins.getLast? ≠ some none) (hcursor : b.cursor ≤ leaf.start)
    (hlt : leaf.start < leaf.stop) (hedges : leaf.OnEdges source) :
    ∃ after : List (Option Node), after.getLast? ≠ some none ∧
      (b.pushLeaf source leaf).Read source (leaves ++ [leaf]) after := by
  rw [Builder.pushLeaf, if_neg (by omega)]
  rcases Nat.lt_or_eq_of_le hcursor with hgap | heq
  · have hend : (b.pushGap source leaf.start).cursor = leaf.start := by
      rw [cursor_pushGap, Nat.max_eq_right hcursor]
    exact ⟨_, by simp, (h.pushGap hlast hgap hedges.1).push hend hedges.2⟩
  · have hnone : b.pushGap source leaf.start = b := by
      rw [Builder.pushGap, if_pos (Nat.le_of_eq heq.symm)]
    rw [hnone]
    exact ⟨_, by simp, h.push heq hedges.2⟩

/-- **Leaves that follow one another from the cursor on are all read**, each as one token. -/
theorem Read.foldl {done : List Node} (h : b.Read source done origins)
    (hlast : origins.getLast? ≠ some none) (hcursor : ∀ leaf ∈ leaves, b.cursor ≤ leaf.start)
    (hlt : ∀ leaf ∈ leaves, leaf.start < leaf.stop)
    (hedges : ∀ leaf ∈ leaves, leaf.OnEdges source)
    (horder : leaves.Pairwise fun x y => x.stop ≤ y.start) :
    ∃ after : List (Option Node), after.getLast? ≠ some none ∧
      (leaves.foldl (Builder.pushLeaf source) b).Read source (done ++ leaves) after := by
  induction leaves generalizing b done origins with
  | nil => exact ⟨origins, hlast, by rwa [List.append_nil]⟩
  | cons leaf rest ih =>
      obtain ⟨hfirst, hrest⟩ := List.pairwise_cons.1 horder
      rw [List.forall_mem_cons] at hcursor hlt hedges
      obtain ⟨middle, hmiddle, hread⟩ := h.pushLeaf hlast hcursor.1 hlt.1 hedges.1
      -- Behind this leaf the cursor is where it stops, and the other leaves start there or later.
      have hnext : ∀ other ∈ rest, (b.pushLeaf source leaf).cursor ≤ other.start := by
        intro other hother
        have hafter := hfirst other hother
        have hbefore := hcursor.1
        have hspan := hlt.1
        rw [cursor_pushLeaf]
        omega
      obtain ⟨after, hafter, hall⟩ := ih hread hmiddle hnext hlt.2 hedges.2 hrest
      refine ⟨after, hafter, ?_⟩
      rwa [List.append_assoc, List.singleton_append] at hall

end Builder

/-! ## Leaves and stretches -/

/-- **A stream that reads leaves whole.**  Its tokens have origins, of which each leaf is one, in
order, and each stretch that the leaves do not cover is one. -/
structure ReadsWhole (stream : TokenStream) (leaves : List Node) (origins : List (Option Node)) :
    Prop where
  /-- Each token is read from its origin. -/
  aligned : List.Forall₂ (Token.ReadFrom stream.source) origins stream.tokens.toList
  /-- The leaves among the origins are all leaves, in order. -/
  leaves_eq : origins.reduceOption = leaves
  /-- A token that is not read from a leaf is a stretch. -/
  isStretch : ∀ (i : Nat) (token : Token), stream.tokens[i]? = some token →
    origins[i]? = some none →
    IsStretch leaves stream.source.utf8ByteSize token.start token.stop
  /-- Each stretch is one token. -/
  existsUnique_token : ∀ lo hi, IsStretch leaves stream.source.utf8ByteSize lo hi →
    ∃! i : Nat, origins[i]? = some none ∧
      ∃ token : Token, stream.tokens[i]? = some token ∧ token.start = lo ∧ token.stop = hi
  /-- Hidden are the comments among the leaves and the blank stretches. -/
  hidden_iff : ∀ (i : Nat) (token : Token), stream.tokens[i]? = some token →
    (token.channel = .hidden ↔ (∃ leaf, origins[i]? = some (some leaf) ∧ leaf.isComment = true) ∨
      origins[i]? = some none ∧ Text.allBlank (stream.tokenText token).toList = true)

variable {stream : TokenStream} {leaves : List Node} {origins : List (Option Node)}

/-- The origin of a token. -/
theorem exists_origin (h : List.Forall₂ (Token.ReadFrom stream.source) origins stream.tokens.toList)
    {i : Nat} {token : Token} (htoken : stream.tokens[i]? = some token) :
    ∃ origin, origins[i]? = some origin ∧ token.ReadFrom stream.source origin := by
  rw [← Array.getElem?_toList] at htoken
  obtain ⟨hi, rfl⟩ := List.getElem?_eq_some_iff.1 htoken
  have hlength : i < origins.length := by rwa [h.length_eq]
  exact ⟨_, List.getElem?_eq_getElem hlength, h.get hlength hi⟩

/-- The token of an origin. -/
theorem exists_token_of_origin
    (h : List.Forall₂ (Token.ReadFrom stream.source) origins stream.tokens.toList) {i : Nat}
    {origin : Option Node} (horigin : origins[i]? = some origin) :
    ∃ token, stream.tokens[i]? = some token ∧ token.ReadFrom stream.source origin := by
  obtain ⟨hi, rfl⟩ := List.getElem?_eq_some_iff.1 horigin
  have hlength : i < stream.tokens.toList.length := by rwa [← h.length_eq]
  refine ⟨_, ?_, h.get hi hlength⟩
  rw [← Array.getElem?_toList]
  exact List.getElem?_eq_getElem hlength

/-- An origin that is a leaf is one of the leaves. -/
theorem mem_leaves_of_origin (hleaves : origins.reduceOption = leaves) {i : Nat} {leaf : Node}
    (hi : origins[i]? = some (some leaf)) : leaf ∈ leaves := by
  rw [← hleaves, List.reduceOption_mem_iff]
  exact List.mem_of_getElem? hi

/-- **Of two neighbouring tokens, one is read from a leaf**, if no two stretches are neighbours. -/
theorem exists_leaf_of_neighbours
    (haligned : List.Forall₂ (Token.ReadFrom stream.source) origins stream.tokens.toList)
    (hchain : origins.IsChain fun x y => x ≠ none ∨ y ≠ none) {i : Nat} {a b : Token}
    (ha : stream.tokens[i]? = some a) (hb : stream.tokens[i + 1]? = some b) :
    (∃ leaf, origins[i]? = some (some leaf) ∧ a.IsOf leaf) ∨
      ∃ leaf, origins[i + 1]? = some (some leaf) ∧ b.IsOf leaf := by
  obtain ⟨x, hx, hreadx⟩ := exists_origin haligned ha
  obtain ⟨y, hy, hready⟩ := exists_origin haligned hb
  obtain ⟨hi, rfl⟩ := List.getElem?_eq_some_iff.1 hx
  obtain ⟨hi', rfl⟩ := List.getElem?_eq_some_iff.1 hy
  rcases List.isChain_iff_getElem.1 hchain i hi' with hleaf | hleaf
  · obtain ⟨leaf, hleaf⟩ := Option.ne_none_iff_exists'.1 hleaf
    rw [hleaf] at hx hreadx
    cases hreadx with
    | leaf hof => exact .inl ⟨leaf, hx, hof⟩
  · obtain ⟨leaf, hleaf⟩ := Option.ne_none_iff_exists'.1 hleaf
    rw [hleaf] at hy hready
    cases hready with
    | leaf hof => exact .inr ⟨leaf, hy, hof⟩

/-- Every byte of the source is in a token. -/
theorem Tiled.exists_token_of_lt (h : stream.Tiled) {byte : Nat}
    (hbyte : byte < stream.source.utf8ByteSize) :
    ∃ (i : Nat) (token : Token), stream.tokens[i]? = some token ∧ token.start ≤ byte ∧
      byte < token.stop := by
  have hsize : 0 < stream.size := by
    rw [Nat.pos_iff_ne_zero]
    intro hzero
    rw [h.isPartition.size_eq_zero_iff.1 hzero] at hbyte
    exact absurd hbyte (Nat.not_lt_zero byte)
  obtain ⟨first, hfirst⟩ := exists_getElem?_of_lt_size hsize
  obtain ⟨last, hlast⟩ := exists_getElem?_of_lt_size (Nat.sub_one_lt_of_lt hsize)
  have hstart := h.isPartition.start_first first hfirst
  have hstop := h.isPartition.stop_last last (by rw [Array.back?_eq_getElem?]; exact hlast)
  obtain ⟨i, token, -, -, htoken, hin⟩ :=
    h.exists_token_at hfirst hlast (by omega : first.start ≤ byte) (by omega)
  exact ⟨i, token, htoken, hin⟩

section Stretches

variable (htiled : stream.Tiled)
  (haligned : List.Forall₂ (Token.ReadFrom stream.source) origins stream.tokens.toList)
  (hleaves : origins.reduceOption = leaves)

include haligned hleaves

/-- A leaf is read by a token. -/
theorem exists_token_of_leaf {leaf : Node} (hleaf : leaf ∈ leaves) :
    ∃ (i : Nat) (token : Token), origins[i]? = some (some leaf) ∧
      stream.tokens[i]? = some token ∧ token.IsOf leaf := by
  rw [← hleaves, List.reduceOption_mem_iff] at hleaf
  obtain ⟨i, hi⟩ := List.mem_iff_getElem?.1 hleaf
  obtain ⟨token, htoken, hread⟩ := exists_token_of_origin haligned hi
  cases hread with
  | leaf hof => exact ⟨i, token, hi, htoken, hof⟩

include htiled

/-- **A token that is not read from a leaf is a stretch**, if none of its neighbours is such a token
as well. -/
theorem isStretch_of_origin (hchain : origins.IsChain fun x y => x ≠ none ∨ y ≠ none) {i : Nat}
    {token : Token} (htoken : stream.tokens[i]? = some token) (hnone : origins[i]? = some none) :
    IsStretch leaves stream.source.utf8ByteSize token.start token.stop where
  lo_lt_hi := htiled.start_lt_stop htoken
  from_leaf := by
    cases i with
    | zero => exact .inl (htiled.isPartition.start_first token htoken)
    | succ i =>
        obtain ⟨other, hother⟩ :=
          exists_getElem?_of_lt_size (Nat.lt_of_succ_lt (lt_size_of_getElem? htoken))
        have hedge := htiled.isPartition.start_next i other token hother htoken
        rcases exists_leaf_of_neighbours haligned hchain hother htoken with
          ⟨leaf, hleaf, hof⟩ | ⟨leaf, hleaf, -⟩
        · exact .inr ⟨leaf, mem_leaves_of_origin hleaves hleaf, by rw [← hof.stop, hedge]⟩
        · rw [hnone] at hleaf
          exact nomatch hleaf
  to_leaf := by
    rcases Nat.lt_or_ge (i + 1) stream.size with hsize | hlast
    · obtain ⟨other, hother⟩ := exists_getElem?_of_lt_size hsize
      have hedge := htiled.isPartition.start_next i token other htoken hother
      rcases exists_leaf_of_neighbours haligned hchain htoken hother with
        ⟨leaf, hleaf, -⟩ | ⟨leaf, hleaf, hof⟩
      · rw [hnone] at hleaf
        exact nomatch hleaf
      · exact .inr ⟨leaf, mem_leaves_of_origin hleaves hleaf, by rw [← hof.start, hedge]⟩
    · have hlt := lt_size_of_getElem? htoken
      have hback : stream.tokens.size - 1 = i := Nat.le_antisymm
        (Nat.sub_le_of_le_add hlast) (Nat.le_sub_one_of_lt hlt)
      have hend : stream.tokens.back? = some token := by
        rw [Array.back?_eq_getElem?, hback, htoken]
      exact .inl (htiled.isPartition.stop_last token hend)
  apart := by
    intro leaf hleaf
    obtain ⟨j, other, hj, hother, hof⟩ := exists_token_of_leaf haligned hleaves hleaf
    rw [← hof.start, ← hof.stop]
    rcases Nat.lt_trichotomy j i with hlt | rfl | hgt
    · exact .inl (htiled.stop_le_start hother htoken hlt)
    · rw [hnone] at hj
      exact nomatch hj
    · exact .inr (htiled.stop_le_start htoken hother hgt)

/-- **Each stretch is one token.** -/
theorem existsUnique_of_isStretch (hchain : origins.IsChain fun x y => x ≠ none ∨ y ≠ none)
    {lo hi : Nat} (h : IsStretch leaves stream.source.utf8ByteSize lo hi) :
    ∃! i : Nat, origins[i]? = some none ∧
      ∃ token : Token, stream.tokens[i]? = some token ∧ token.start = lo ∧ token.stop = hi := by
  have hlt : ∀ leaf ∈ leaves, leaf.start < leaf.stop := by
    intro leaf hleaf
    obtain ⟨i, token, -, htoken, hof⟩ := exists_token_of_leaf haligned hleaves hleaf
    rw [← hof.start, ← hof.stop]
    exact htiled.start_lt_stop htoken
  have hbound : ∀ leaf ∈ leaves, leaf.stop ≤ stream.source.utf8ByteSize := by
    intro leaf hleaf
    obtain ⟨i, token, -, htoken, hof⟩ := exists_token_of_leaf haligned hleaves hleaf
    rw [← hof.stop]
    exact (htiled.bounds_of_mem (Array.mem_toList_iff.2 (Array.mem_of_getElem? htoken))).2.2
  have hbyte : lo < stream.source.utf8ByteSize :=
    Nat.lt_of_lt_of_le h.lo_lt_hi (h.hi_le_bound hlt hbound)
  obtain ⟨i, token, htoken, hstart, hstop⟩ := htiled.exists_token_of_lt hbyte
  obtain ⟨origin, horigin, hread⟩ := exists_origin haligned htoken
  cases hread with
  | leaf hof =>
      -- A leaf with the first byte of the stretch would not be apart from it.
      have hapart := h.apart _ (mem_leaves_of_origin hleaves horigin)
      rw [hof.start] at hstart
      rw [hof.stop] at hstop
      have hne := h.lo_lt_hi
      omega
  | stretch _ _ _ =>
      have hthere := isStretch_of_origin htiled haligned hleaves hchain htoken horigin
      obtain ⟨rfl, rfl⟩ := hthere.unique h hlt hbound ⟨hstart, hstop⟩ ⟨Nat.le_refl lo, h.lo_lt_hi⟩
      refine ⟨i, ⟨horigin, token, htoken, rfl, rfl⟩, ?_⟩
      rintro j ⟨-, other, hother, hfrom, hto⟩
      have hpos := htiled.start_lt_stop htoken
      exact htiled.eq_of_byte hother htoken ⟨Nat.le_of_eq hfrom, by omega⟩ ⟨Nat.le_refl _, hpos⟩

end Stretches

/-- A token is hidden if it is read from a comment or from a blank stretch. -/
theorem hidden_iff_of_origin
    (haligned : List.Forall₂ (Token.ReadFrom stream.source) origins stream.tokens.toList) {i : Nat}
    {token : Token} (htoken : stream.tokens[i]? = some token) :
    token.channel = .hidden ↔ (∃ leaf, origins[i]? = some (some leaf) ∧ leaf.isComment = true) ∨
      origins[i]? = some none ∧ Text.allBlank (stream.tokenText token).toList = true := by
  obtain ⟨origin, horigin, hread⟩ := exists_origin haligned htoken
  rw [horigin]
  cases hread with
  | @leaf leaf _ hof =>
      rw [hof.channel]
      cases hcomment : leaf.isComment <;> simp [hcomment]
  | @stretch _ text htext _ hchannel =>
      rw [hchannel, tokenText, htext, Option.getD_some]
      cases Text.allBlank text.toList <;> simp

/-- **The tokens of a well-formed tree are its leaves and what lies before, between and behind
them.**  The leaves are the sites of the tree that span something, have no children or are comments,
and are not inside a comment, in pre-order; each is one token, of its own kind and with its whole
span.  Every stretch of bytes that they do not cover is one token, too, and there are no others.
Hidden are the comments and the blank stretches. -/
theorem exists_readsWhole {source : String} {root : Node} (hroot : root.WellFormed source) :
    ∃ origins, (ofTree source root).ReadsWhole
      ((root.sites.filter Node.Site.isLeaf).map Node.Site.node) origins := by
  have hedges : ∀ leaf ∈ root.leaves, leaf.OnEdges source := fun leaf hleaf =>
    (hroot.edges.part (Node.part_of_mem_leaves hleaf)).here
  obtain ⟨origins, hlast, hread⟩ := (Builder.read_start source).foldl nofun
    (fun _ _ => Nat.zero_le _) (fun _ => Node.start_lt_stop_of_mem_leaves) hedges
    (Node.pairwise_leaves hroot.toWellNested)
  rw [List.nil_append] at hread
  obtain ⟨all, hall⟩ : ∃ all : List (Option Node),
      ((root.leaves.foldl (Builder.pushLeaf source) .start).pushGap source
        source.utf8ByteSize).Read source root.leaves all := by
    rcases Nat.lt_or_ge (root.leaves.foldl (Builder.pushLeaf source) .start).cursor
        source.utf8ByteSize with hlt | hge
    · exact ⟨_, hread.pushGap hlast hlt (Text.isEdge_utf8ByteSize source)⟩
    · rw [Builder.pushGap, if_pos hge]
      exact ⟨origins, hread⟩
  have htiled := tiled_ofTree hroot.spans
  rw [← Node.leaves_eq_filter_sites]
  exact ⟨all,
    { aligned := hall.aligned
      leaves_eq := hall.leaves_eq
      isStretch := fun _ _ htoken hnone =>
        isStretch_of_origin htiled hall.aligned hall.leaves_eq hall.isChain htoken hnone
      existsUnique_token := fun _ _ h =>
        existsUnique_of_isStretch htiled hall.aligned hall.leaves_eq hall.isChain h
      hidden_iff := fun _ _ htoken => hidden_iff_of_origin hall.aligned htoken }⟩

end TokenStream

/-- A text with a comment, a name and something that its tree does not cover. -/
def sparseText : String := "/*é*/ x ?"

/-- The tree of `sparseText`. -/
def sparse : Node :=
  ⟨"source_file", true, none, 0, 10, [
    ⟨"block_comment", true, none, 0, 6, [⟨"/*", false, none, 0, 2, []⟩]⟩,
    ⟨"expression", true, none, 7, 8, [
      ⟨"identifier", true, none, 7, 8, []⟩,
      ⟨";", false, none, 8, 8, []⟩]⟩]⟩

/-- In `sparseText` there are two leaves and two stretches, of which one is blank. -/
theorem exists_readsWhole_sparse :
    sparse.WellFormed sparseText ∧
    ((sparse.sites.filter Node.Site.isLeaf).map Node.Site.node).map Node.kind =
      ["block_comment", "identifier"] ∧
    (TokenStream.ofTree sparseText sparse).tokens.toList.map
      (fun token => (token.start, token.stop, token.channel)) =
      [(0, 6, .hidden), (6, 7, .hidden), (7, 8, .significant), (8, 10, .significant)] ∧
    ∃ origins, (TokenStream.ofTree sparseText sparse).ReadsWhole
      ((sparse.sites.filter Node.Site.isLeaf).map Node.Site.node) origins ∧ origins.length = 4 := by
  have hroot : sparse.WellFormed sparseText := by decide +kernel
  obtain ⟨origins, hreads⟩ := TokenStream.exists_readsWhole hroot
  refine ⟨hroot, by decide +kernel, by decide +kernel, origins, hreads, ?_⟩
  rw [hreads.aligned.length_eq]
  decide +kernel

end LiveExcerpts
