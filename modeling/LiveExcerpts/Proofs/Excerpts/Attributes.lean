import LiveExcerpts.Proofs.Agreement
import LiveExcerpts.Proofs.Bodies
import LiveExcerpts.Proofs.LineNumbers
import LiveExcerpts.Proofs.Placement
import LiveExcerpts.Proofs.Siblings
import LiveExcerpts.Proofs.Tokens.Origins
/-!
# Attributes above a declaration

The start of a decorated declaration is found among the siblings above it, and the first token of
its excerpt by going back from there over comments and blanks.  Where a tree leaves out blanks only,
both together take in the attributes above the declaration, and nothing else that is significant.

Main definitions: `Node.MeetsLeaves`, `Node.BlankBetween`, `TokenStream.TakesIn`.  Main statements:
an excerpt begins at or before the topmost attribute (`TokenStream.exists_firstToken_le`), what is
significant from there up to the declaration belongs to attributes
(`SourceFile.exists_decoration_of_token`), and `SourceFile.takesIn_attributes` on all declarations
in Rust.
-/

namespace LiveExcerpts

/-! ## Edges of leaves -/

namespace Node

/-- A byte where a leaf starts or stops. -/
def IsLeafEdge (root : Node) (byte : Nat) : Prop :=
  ∃ leaf ∈ root.leaves, leaf.start = byte ∨ leaf.stop = byte

/-- Each node that is not inside a comment and spans something starts and stops where leaves do. -/
def MeetsLeaves (root : Node) : Prop :=
  ∀ site ∈ root.sites, site.isOutside = true → site.node.start < site.node.stop →
    IsLeafEdge root site.node.start ∧ IsLeafEdge root site.node.stop

/-- What no leaf of a tree covers is blank. -/
def BlankBetween (source : String) (root : Node) : Prop :=
  ∀ lo hi, IsStretch root.leaves source.utf8ByteSize lo hi →
    (Text.slice? source lo hi).any (fun text => Text.allBlank text.toList) = true

instance (root : Node) (byte : Nat) : Decidable (IsLeafEdge root byte) :=
  inferInstanceAs (Decidable (∃ leaf ∈ root.leaves, _ ∨ _))

instance (root : Node) : Decidable (MeetsLeaves root) :=
  inferInstanceAs (Decidable (∀ site ∈ root.sites, _ → _ → _))

instance (leaves : List Node) (bound lo hi : Nat) : Decidable (IsStretch leaves bound lo hi) :=
  decidable_of_iff (lo < hi ∧ (lo = 0 ∨ ∃ leaf ∈ leaves, leaf.stop = lo) ∧
      (hi = bound ∨ ∃ leaf ∈ leaves, leaf.start = hi) ∧
      ∀ leaf ∈ leaves, leaf.stop ≤ lo ∨ hi ≤ leaf.start)
    ⟨fun h => ⟨h.1, h.2.1, h.2.2.1, h.2.2.2⟩,
      fun h => ⟨h.lo_lt_hi, h.from_leaf, h.to_leaf, h.apart⟩⟩

/-- It is enough to look behind the leaves, and up to the leaves. -/
theorem blankBetween_iff {source : String} {root : Node} :
    BlankBetween source root ↔
      ∀ lo ∈ 0 :: root.leaves.map Node.stop,
        ∀ hi ∈ source.utf8ByteSize :: root.leaves.map Node.start,
          IsStretch root.leaves source.utf8ByteSize lo hi →
            (Text.slice? source lo hi).any (fun text => Text.allBlank text.toList) = true := by
  constructor
  · intro h lo _ hi _
    exact h lo hi
  · intro h lo hi hstretch
    apply h lo _ hi _ hstretch
    · rcases hstretch.from_leaf with rfl | ⟨leaf, hleaf, rfl⟩
      · exact List.mem_cons_self
      · exact List.mem_cons_of_mem _ (List.mem_map_of_mem hleaf)
    · rcases hstretch.to_leaf with rfl | ⟨leaf, hleaf, rfl⟩
      · exact List.mem_cons_self
      · exact List.mem_cons_of_mem _ (List.mem_map_of_mem hleaf)

instance (source : String) (root : Node) : Decidable (BlankBetween source root) :=
  decidable_of_iff _ blankBetween_iff.symm

end Node

/-! ## Tokens of leaves and of blanks -/

namespace TokenStream

variable {source : String} {root : Node}

/-- Where a tree leaves out blanks only, a token is that of a leaf, or blank. -/
theorem token_cases (hroot : root.WellFormed source) (hblank : root.BlankBetween source) {i : Nat}
    {token : Token} (htoken : (ofTree source root).tokens[i]? = some token) :
    (∃ leaf ∈ root.leaves, token.IsOf leaf) ∨
      Text.allBlank ((ofTree source root).tokenText token).toList = true := by
  obtain ⟨origins, hreads⟩ := exists_readsWhole hroot
  rw [← Node.leaves_eq_filter_sites] at hreads
  obtain ⟨origin, horigin, hread⟩ := exists_origin hreads.aligned htoken
  cases hread with
  | leaf hof =>
      left
      exact ⟨_, mem_leaves_of_origin hreads.leaves_eq horigin, hof⟩
  | stretch htext _ _ =>
      right
      have hany := hblank _ _ (hreads.isStretch i token htoken horigin)
      rw [show Text.slice? source token.start token.stop = _ from htext, Option.any_some] at hany
      unfold tokenText
      rw [htext, Option.getD_some]
      exact hany

/-- A blank token is trivia. -/
theorem isTrivia_of_allBlank {stream : TokenStream} {i : Nat} {token : Token}
    (htoken : stream.tokens[i]? = some token)
    (hblank : Text.allBlank (stream.tokenText token).toList = true) : stream.isTrivia i = true := by
  unfold isTrivia
  rw [htoken]
  dsimp only
  rw [hblank, Bool.or_true]

/-- Where a leaf starts or stops, a token starts, unless the source ends there. -/
theorem exists_token_of_isLeafEdge (hroot : root.WellNested source.utf8ByteSize) {byte : Nat}
    (hedge : Node.IsLeafEdge root byte) (hlt : byte < source.utf8ByteSize) :
    ∃ (i : Nat) (token : Token), (ofTree source root).tokens[i]? = some token ∧
      token.start = byte := by
  have htiled := tiled_ofTree hroot.spans
  obtain ⟨leaf, hleaf, hat⟩ := hedge
  obtain ⟨i, a, ha, hof⟩ := exists_token_of_mem_leaves hroot hleaf
  rcases hat with rfl | rfl
  · exact ⟨i, a, ha, hof.start⟩
  · -- The token that the byte is in comes after that of the leaf, and so it starts there.
    obtain ⟨j, b, hb, hstart, hstop⟩ := htiled.exists_token_of_lt hlt
    refine ⟨j, b, hb, ?_⟩
    rcases Nat.lt_or_ge i j with hij | hji
    · have hle := htiled.stop_le_start ha hb hij
      rw [hof.stop] at hle
      omega
    · have hle := htiled.stop_le_stop hb ha hji
      rw [hof.stop] at hle
      omega

/-- A token that starts before an edge of a leaf stops there or earlier. -/
theorem stop_le_of_isLeafEdge (hroot : root.WellNested source.utf8ByteSize) {byte i : Nat}
    {token : Token} (hedge : Node.IsLeafEdge root byte)
    (htoken : (ofTree source root).tokens[i]? = some token) (hlt : token.start < byte) :
    token.stop ≤ byte := by
  have htiled := tiled_ofTree hroot.spans
  obtain ⟨leaf, hleaf, hat⟩ := hedge
  obtain ⟨j, a, ha, hof⟩ := exists_token_of_mem_leaves hroot hleaf
  have hne := htiled.start_lt_stop ha
  rw [hof.start, hof.stop] at hne
  rcases Nat.lt_trichotomy i j with hij | rfl | hji
  · have hle := htiled.stop_le_start htoken ha hij
    rw [hof.start] at hle
    omega
  · obtain rfl : token = a := Option.some.inj (htoken.symm.trans ha)
    have hstart := hof.start
    have hstop := hof.stop
    omega
  · have hle := htiled.stop_le_start ha htoken hji
    rw [hof.stop] at hle
    omega

/-! ## Where an excerpt begins -/

/-- Only blanks can reach across the start of a node. -/
theorem isTrivia_of_across (hroot : root.WellFormed source) (hblank : root.BlankBetween source)
    {site : Node.Site} (hunder : site.Under root) (hout : site.isOutside = true) {j : Nat}
    {token : Token} (htoken : (ofTree source root).tokens[j]? = some token)
    (hstart : token.start < site.node.start) (hstop : site.node.start < token.stop) :
    (ofTree source root).isTrivia j = true := by
  rcases token_cases hroot hblank htoken with ⟨leaf, hleaf, hof⟩ | hspace
  · have hnode := hroot.toWellNested.part hunder.part
    have hspan := hnode.start_le_stop
    rw [hof.start] at hstart
    rw [hof.stop] at hstop
    rcases hunder.leaf_cases hroot.toWellNested hout hleaf with hin | hbefore | hbehind
    · have hbounds := Node.Site.span_of_mem_leaves hnode hin
      omega
    · omega
    · omega
  · exact isTrivia_of_allBlank htoken hspace

/-- **An excerpt begins at or before the node that its first token is looked up for.** -/
theorem exists_firstToken_le (hroot : root.WellFormed source) (hblank : root.BlankBetween source)
    {site : Node.Site} (hunder : site.Under root) (hout : site.isOutside = true)
    (hlt : site.node.start < source.utf8ByteSize) {i : Nat}
    (hi : (ofTree source root).tokenAt? site.node.start = some i) :
    ∃ x, (ofTree source root).tokens[(ofTree source root).firstToken i]? = some x ∧
      x.start ≤ site.node.start := by
  have htiled := tiled_ofTree hroot.spans
  obtain ⟨j, token, htoken, hstart, hstop⟩ := htiled.exists_token_of_lt hlt
  have hle : (ofTree source root).firstToken i ≤ j := by
    rcases Nat.lt_or_eq_of_le hstart with hacross | heq
    · -- The token that is looked up is the next one, and this one is stepped over.
      have htrivia := isTrivia_of_across hroot hblank hunder hout htoken hacross hstop
      have hnext := htiled.tokenAt?_le_succ htoken (Nat.le_of_lt hstop) hi
      obtain ⟨⟨found, hfound, hbyte⟩, -⟩ := htiled.tokenAt?_eq_some_iff.1 hi
      have hji : j < i := by
        rcases Nat.lt_or_ge j i with hji | hij
        · exact hji
        · have hback := htiled.start_le_start hfound htoken hij
          omega
      obtain rfl : i = j + 1 := by omega
      rw [firstToken, if_pos htrivia]
      exact (ofTree source root).firstToken_le j
    · have hthere := htiled.tokenAt?_start htoken
      rw [heq] at hthere
      obtain rfl : j = i := Option.some.inj (hthere.symm.trans hi)
      exact (ofTree source root).firstToken_le j
  obtain ⟨x, hx⟩ := exists_getElem?_of_lt_size (Nat.lt_of_le_of_lt hle (lt_size_of_getElem? htoken))
  have hback := htiled.start_le_start hx htoken hle
  exact ⟨x, hx, by omega⟩

/-- A node that is not inside a comment and spans something starts with a token, which lies within
it. -/
theorem exists_token_of_meetsLeaves (hroot : root.WellNested source.utf8ByteSize)
    (hmeets : root.MeetsLeaves) {site : Node.Site} (hunder : site.Under root)
    (hout : site.isOutside = true) (hspan : site.node.start < site.node.stop) :
    ∃ (i : Nat) (token : Token), (ofTree source root).tokens[i]? = some token ∧
      token.start = site.node.start ∧ token.Within site.node := by
  obtain ⟨hstart, hstop⟩ := hmeets site (Node.Site.mem_sites_iff_under.2 hunder) hout hspan
  have hbound := (hroot.part hunder.part).spans.here.2
  obtain ⟨i, token, htoken, hbegin⟩ :=
    exists_token_of_isLeafEdge hroot hstart (Nat.lt_of_lt_of_le hspan hbound)
  refine ⟨i, token, htoken, hbegin, Nat.le_of_eq hbegin.symm, ?_⟩
  apply stop_le_of_isLeafEdge hroot hstop htoken
  omega

end TokenStream

/-! ## Leaves of decorations -/

/-- A comment is a leaf itself. -/
theorem Node.eq_of_mem_leaves_of_isComment {node leaf : Node} (hcomment : node.isComment = true)
    (hleaf : leaf ∈ node.leaves) : leaf = node := by
  rw [leaves_eq, hcomment, Bool.or_true, if_pos rfl] at hleaf
  split at hleaf
  · exact List.mem_singleton.1 hleaf
  · exact absurd hleaf List.not_mem_nil

/-- A sibling above the declaration is a decoration, or a comment, or it is above the topmost
decoration. -/
theorem Binding.mem_run_or_stop_le_top {language : Language} {binding : Binding} {sibling : Node}
    (hordered : (binding.outer language).before.Pairwise fun a b => b.stop ≤ a.start)
    (htop : binding.top language ∈ binding.decorations language)
    (hsibling : sibling ∈ (binding.outer language).before) :
    sibling ∈ binding.decorations language ∨ sibling.isComment = true ∨
      sibling.stop ≤ (binding.top language).start := by
  let inRun : Node → Bool := fun node =>
    language.decorationKinds.contains node.kind || node.isComment
  have hrun : binding.top language ∈ (binding.outer language).before.takeWhile inRun :=
    (List.mem_filter.1 htop).1
  rw [← List.takeWhile_append_dropWhile (p := inRun) (l := (binding.outer language).before)]
    at hordered hsibling
  rcases List.mem_append.1 hsibling with hinside | habove
  · have hkind : inRun sibling = true := List.mem_takeWhile_imp hinside
    rcases Bool.or_eq_true_iff.1 hkind with hdecoration | hcomment
    · exact .inl (List.mem_filter.2 ⟨hinside, hdecoration⟩)
    · exact .inr (.inl hcomment)
  · exact .inr (.inr ((List.pairwise_append.1 hordered).2.2 _ hrun sibling habove))

/-- **Between the topmost decoration and the declaration** there are only leaves of decorations, and
comments. -/
theorem Binding.exists_decoration_of_leaf {bound : Nat} {root leaf : Node} {language : Language}
    {binding : Binding} (hunder : (binding.outer language).Under root)
    (hroot : root.WellNested bound) (hout : (binding.outer language).isOutside = true)
    (hleaf : leaf ∈ root.leaves) (hstart : (binding.top language).start ≤ leaf.start)
    (hstop : leaf.stop ≤ (binding.outer language).node.start) :
    (∃ decoration ∈ binding.decorations language, leaf ∈ decoration.leaves) ∨
      leaf.isComment = true := by
  have hne := Node.start_lt_stop_of_mem_leaves hleaf
  have htop : binding.top language ∈ binding.decorations language := by
    rcases List.mem_cons.1 (binding.top_mem language) with heq | hmem
    · rw [heq] at hstart
      omega
    · exact hmem
  have hbefore := (binding.decorations_sublist language).subset htop
  obtain ⟨sibling, hsibling, hin⟩ :=
    hunder.exists_sibling_of_leaf hroot hout hbefore hleaf hstart hstop
  have hbounds := Node.Site.span_of_mem_leaves (hroot.part (hunder.before hroot hsibling).1) hin
  rcases mem_run_or_stop_le_top (hunder.pairwise_before hroot) htop hsibling with
    hdecoration | hcomment | habove
  · exact .inl ⟨sibling, hdecoration, hin⟩
  · rw [Node.eq_of_mem_leaves_of_isComment hcomment hin]
    exact .inr hcomment
  · omega

/-- A decoration spans what it spans above the declaration. -/
theorem Binding.span_of_mem_decorations {bound : Nat} {root decoration : Node} {language : Language}
    {binding : Binding} (hunder : (binding.outer language).Under root)
    (hroot : root.WellNested bound) (hmem : decoration ∈ binding.decorations language) :
    decoration.start ≤ decoration.stop ∧ decoration.stop ≤ (binding.outer language).node.start := by
  obtain ⟨hpart, hle⟩ := hunder.before hroot ((binding.decorations_sublist language).subset hmem)
  exact ⟨(hroot.part hpart).start_le_stop, hle⟩

/-- The topmost decoration starts before the others. -/
theorem Binding.start_top_le {bound : Nat} {root decoration : Node} {language : Language}
    {binding : Binding} (hunder : (binding.outer language).Under root)
    (hroot : root.WellNested bound) (hmem : decoration ∈ binding.decorations language) :
    (binding.top language).start ≤ decoration.start := by
  have hordered : (binding.decorations language).Pairwise fun a b => b.stop ≤ a.start :=
    (hunder.pairwise_before hroot).sublist (binding.decorations_sublist language)
  obtain ⟨lower, last, heq⟩ := List.eq_nil_or_concat' (binding.decorations language) |>.resolve_left
    (List.ne_nil_of_mem hmem)
  have htop : binding.top language = last := by
    rw [top, heq, List.getLast?_concat, Option.getD_some]
  have hlast : last ∈ binding.decorations language := by
    rw [heq]
    exact List.mem_append_right _ List.mem_cons_self
  have hforward := (span_of_mem_decorations hunder hroot hlast).1
  rw [heq, List.mem_append, List.mem_singleton] at hmem
  rw [htop]
  rcases hmem with hmem | rfl
  · rw [heq, List.pairwise_append] at hordered
    have hle := hordered.2.2 decoration hmem last (List.mem_singleton_self last)
    omega
  · exact Nat.le_refl _

/-- The topmost decoration, or the declaration without any, has a site of its own. -/
theorem Binding.exists_site_of_top {root : Node} {language : Language} {binding : Binding}
    (hunder : (binding.outer language).Under root) :
    ∃ site : Node.Site, site.Under root ∧ site.node = binding.top language ∧
      site.isOutside = (binding.outer language).isOutside := by
  rcases List.mem_cons.1 (binding.top_mem language) with heq | hmem
  · exact ⟨binding.outer language, hunder, heq.symm, rfl⟩
  · exact hunder.exists_site_of_before ((binding.decorations_sublist language).subset hmem)

/-! ## Runs that take in nodes -/

/-- A run of tokens takes in some nodes above the token `own`: they lie in it as a whole, and of
what it has before that token nothing is significant but their leaves. -/
structure TokenStream.TakesIn (stream : TokenStream) (nodes : List Node) (own : Nat)
    (r : TokenRange) : Prop where
  /-- The run begins at or before each of the nodes. -/
  begins : ∀ node ∈ nodes, ∃ x, stream.tokens[r.first]? = some x ∧ x.start ≤ node.start
  /-- It ends at or behind each of them. -/
  ends : ∀ node ∈ nodes, ∃ y, stream.tokens[r.last]? = some y ∧ node.stop ≤ y.stop
  /-- The significant tokens before `own` are leaves of the nodes. -/
  only : ∀ (k : Nat) (token : Token), r.first ≤ k → k ≤ r.last → k < own →
    stream.tokens[k]? = some token → stream.isSignificant token = true →
    ∃ node ∈ nodes, ∃ leaf ∈ node.leaves, token.IsOf leaf

namespace Declaration

variable {stream : TokenStream} {d : Declaration} {own : Nat}

/-- A signature without an object ends right before the body, or with the declaration. -/
theorem le_signatureEnd {file : Path} {last : Nat} (hobject : d.object? = none)
    (hstop : own ≤ d.stop) (hbody : ∀ body, d.body? = some body → own ≤ body)
    (h : d.signatureEnd stream file = .ok last) : own ≤ last + 1 := by
  rw [signatureEnd] at h
  split at h
  · next body _ hsome =>
      obtain rfl : body - 1 = last := Except.ok.inj h
      have hle := hbody body hsome
      omega
  · next body _ hsome =>
      obtain rfl : body - 1 = last := Except.ok.inj h
      have hle := hbody body hsome
      omega
  · next object _ hsome =>
      rw [hobject] at hsome
      cases hsome
  · obtain rfl : d.stop = last := Except.ok.inj h
    omega

/-- **A declaration without an object has a run in both extents**, which goes on at least up to what
is before the body. -/
theorem exists_range (stream : TokenStream) (file : Path) (extent : Extent)
    (hobject : d.object? = none) (hstop : own ≤ d.stop)
    (hbody : ∀ body, d.body? = some body → own ≤ body) :
    ∃ r, d.range stream file extent = .ok r ∧ own ≤ r.last + 1 := by
  cases extent with
  | definition =>
      rw [range_definition]
      refine ⟨_, rfl, ?_⟩
      show own ≤ max d.stop (stream.firstToken d.start) + 1
      omega
  | signature =>
      rw [range_signature]
      cases hend : d.signatureEnd stream file with
      | error e =>
          obtain ⟨-, -, object, hsome, -⟩ := signatureEnd_eq_error_iff.1 hend
          rw [hobject] at hsome
          exact nomatch hsome
      | ok last =>
          have hle := le_signatureEnd hobject hstop hbody hend
          refine ⟨_, rfl, ?_⟩
          show own ≤ max last (stream.firstToken d.start) + 1
          omega

end Declaration

/-! ## Declarations in Rust -/

/-- In Rust nothing wraps a declaration. -/
theorem Binding.outer_rust (binding : Binding) : binding.outer .rust = binding.site := by
  obtain ⟨⟨node, above⟩, carrier, kind, name⟩ := binding
  cases above <;> rfl

namespace SourceFile

variable {path : Path} {source : String} {root : Node} {binding : Binding} {d : Declaration}

/-- In Rust no property holds an object. -/
theorem object?_of_rust (hd : (ofTree path .rust source root).declare binding = .ok d) :
    d.object? = none := by
  obtain ⟨-, -, -, -, -, -, hobject⟩ := declare_eq_ok_iff.1 hd
  have hnone : binding.object? .rust = none := by
    rw [Option.eq_none_iff_forall_ne_some]
    intro object hsome
    obtain ⟨value, -, hfound⟩ := Option.bind_eq_some_iff.1 hsome
    exact absurd (Node.kind_of_objectAt? hfound) List.not_mem_nil
  rw [hobject, show (ofTree path .rust source root).language = .rust from rfl, hnone]
  split <;> rfl

/-- A body does not open before the token that the declaring node starts with. -/
theorem own_le_body {language : Language} {own : Nat} {t : Token}
    (hmem : binding ∈ (ofTree path language source root).bindings)
    (hroot : root.WellNested source.utf8ByteSize)
    (hd : (ofTree path language source root).declare binding = .ok d)
    (htoken : (TokenStream.ofTree source root).tokens[own]? = some t)
    (hstart : t.start = binding.site.node.start) : ∀ body, d.body? = some body → own ≤ body := by
  intro body hsome
  have htiled := TokenStream.tiled_ofTree hroot.spans
  obtain ⟨-, -, -, -, -, hbody, -⟩ := declare_eq_ok_iff.1 hd
  rw [hsome] at hbody
  split at hbody
  · exact nomatch hbody
  · obtain ⟨byte, hbyte, hat⟩ := Option.bind_eq_some_iff.1 hbody.symm
    have hinside := Node.bodyStart?_inside (wellNested_site hmem hroot) hbyte
    obtain ⟨⟨opening, hopening, hle⟩, -⟩ := htiled.tokenAt?_eq_some_iff.1 hat
    rcases Nat.lt_or_ge body own with hlt | hge
    · have hback := htiled.stop_le_start hopening htoken hlt
      have hne := htiled.start_lt_stop hopening
      omega
    · exact hge

/-- The first token is looked up at the start of the topmost decoration. -/
theorem tokenAt?_top {language : Language}
    (hd : (ofTree path language source root).declare binding = .ok d) :
    (TokenStream.ofTree source root).tokenAt? (binding.top language).start = some d.start := by
  rw [← Binding.start_eq]
  exact (declare_eq_ok_iff.1 hd).1

/-- **What is significant between the first token of an excerpt and the declaration** is a leaf of a
decoration. -/
theorem exists_decoration_of_token {language : Language} {own k : Nat} {t token : Token}
    (hroot : root.WellFormed source) (hblank : root.BlankBetween source)
    (hmem : binding ∈ (ofTree path language source root).bindings)
    (hout : (binding.outer language).isOutside = true)
    (hd : (ofTree path language source root).declare binding = .ok d)
    (hown : (TokenStream.ofTree source root).tokens[own]? = some t)
    (hstart : t.start = (binding.outer language).node.start)
    (hk : (TokenStream.ofTree source root).firstToken d.start ≤ k) (hlt : k < own)
    (htoken : (TokenStream.ofTree source root).tokens[k]? = some token)
    (hsignificant : (TokenStream.ofTree source root).isSignificant token = true) :
    ∃ decoration ∈ binding.decorations language, ∃ leaf ∈ decoration.leaves, token.IsOf leaf := by
  have htiled := TokenStream.tiled_ofTree hroot.spans
  have hunder : (binding.outer language).Under root := (outer_under hmem).1
  have hnot := (TokenStream.isTrivia_eq_false_iff hroot.spans).2 ⟨token, htoken, hsignificant⟩
  have hge : d.start ≤ k := by
    rcases Nat.lt_or_ge k d.start with habove | hge
    · rw [TokenStream.isTrivia_of_firstToken_le _ hk habove] at hnot
      exact nomatch hnot
    · exact hge
  rcases TokenStream.token_cases hroot hblank htoken with ⟨leaf, hleaf, hof⟩ | hspace
  · obtain ⟨⟨x, hx, hbyte⟩, -⟩ := htiled.tokenAt?_eq_some_iff.1 (tokenAt?_top hd)
    have hbegin := htiled.start_le_start hx htoken hge
    have hend := htiled.stop_le_start htoken hown hlt
    rw [hof.start] at hbegin
    rw [hof.stop, hstart] at hend
    rcases Binding.exists_decoration_of_leaf hunder hroot.toWellNested hout hleaf
      (Nat.le_trans hbyte hbegin) hend with ⟨decoration, hdecoration, hin⟩ | hcomment
    · exact ⟨decoration, hdecoration, leaf, hin, hof⟩
    · have hsame : token.isComment = leaf.isComment := by
        unfold Token.isComment Node.isComment
        rw [hof.kind]
      unfold TokenStream.isSignificant at hsignificant
      rw [hsame, hcomment] at hsignificant
      exact nomatch hsignificant
  · rw [TokenStream.isTrivia_of_allBlank htoken hspace] at hnot
    exact nomatch hnot

/-- An excerpt begins at or before each of the decorations. -/
theorem exists_firstToken_le_decoration {language : Language} {decoration : Node}
    (hroot : root.WellFormed source) (hblank : root.BlankBetween source)
    (hmem : binding ∈ (ofTree path language source root).bindings)
    (hout : (binding.outer language).isOutside = true)
    (hd : (ofTree path language source root).declare binding = .ok d)
    (hlt : (binding.outer language).node.start < source.utf8ByteSize)
    (hdecoration : decoration ∈ binding.decorations language) :
    ∃ x, (TokenStream.ofTree source root).tokens[
        (TokenStream.ofTree source root).firstToken d.start]? = some x ∧
      x.start ≤ decoration.start := by
  have hunder : (binding.outer language).Under root := (outer_under hmem).1
  obtain ⟨top, htop, hnode, hsame⟩ := Binding.exists_site_of_top hunder
  have hlow := Binding.start_top_le hunder hroot.toWellNested hdecoration
  obtain ⟨hforward, habove⟩ :=
    Binding.span_of_mem_decorations hunder hroot.toWellNested hdecoration
  have hat := tokenAt?_top hd
  rw [← hnode] at hat hlow
  have hbyte : top.node.start < source.utf8ByteSize := by omega
  obtain ⟨x, hx, hle⟩ :=
    TokenStream.exists_firstToken_le hroot hblank htop (hsame.trans hout) hbyte hat
  exact ⟨x, hx, Nat.le_trans hle hlow⟩

/-- **An excerpt that goes on up to the declaration takes in its decorations.** -/
theorem takesIn_decorations {language : Language} {own : Nat} {t : Token} {extent : Extent}
    {r : TokenRange} (hroot : root.WellFormed source) (hblank : root.BlankBetween source)
    (hmem : binding ∈ (ofTree path language source root).bindings)
    (hout : (binding.outer language).isOutside = true)
    (hd : (ofTree path language source root).declare binding = .ok d)
    (hown : (TokenStream.ofTree source root).tokens[own]? = some t)
    (hstart : t.start = (binding.outer language).node.start)
    (hr : d.range (TokenStream.ofTree source root) path extent = .ok r)
    (hend : own ≤ r.last + 1) :
    (TokenStream.ofTree source root).TakesIn (binding.decorations language) own r := by
  have htiled := TokenStream.tiled_ofTree hroot.spans
  have hfirst := Declaration.first_of_range hr
  refine ⟨?begins, ?ends, ?only⟩
  case begins =>
    intro decoration hdecoration
    have hne := htiled.start_lt_stop hown
    have hbound : t.stop ≤ source.utf8ByteSize :=
      (htiled.bounds_of_mem (Array.mem_toList_iff.2 (Array.mem_of_getElem? hown))).2.2
    rw [hfirst]
    exact exists_firstToken_le_decoration hroot hblank hmem hout hd (by omega) hdecoration
  case ends =>
    intro decoration hdecoration
    have hunder : (binding.outer language).Under root := (outer_under hmem).1
    have habove := (Binding.span_of_mem_decorations hunder hroot.toWellNested hdecoration).2
    rw [← hstart] at habove
    obtain ⟨y, hy⟩ := TokenStream.exists_getElem?_of_lt_size
      (last_lt_size_of_declare hroot.toWellNested hd hr)
    refine ⟨y, hy, ?_⟩
    rcases Nat.lt_or_ge r.last own with hlt | hge
    · obtain rfl : own = r.last + 1 := by omega
      have hedge := htiled.isPartition.start_next r.last y t hy hown
      omega
    · have hle := htiled.start_le_start hown hy hge
      have hne := htiled.start_lt_stop hy
      omega
  case only =>
    intro k token hk _ hlt htoken hsignificant
    rw [hfirst] at hk
    exact exists_decoration_of_token hroot hblank hmem hout hd hown hstart hk hlt htoken
      hsignificant

/-- **The line of a declaration is that of its topmost decoration**, or of the declaration if there
is none: the line of the first token from there on, which starts right there if the node spans
something. -/
theorem exists_first_of_declare {language : Language} (hroot : root.WellFormed source)
    (hmeets : root.MeetsLeaves) (hmem : binding ∈ (ofTree path language source root).bindings)
    (hout : (binding.outer language).isOutside = true)
    (hd : (ofTree path language source root).declare binding = .ok d) :
    ∃ x, (TokenStream.ofTree source root).tokens[d.start]? = some x ∧
      (TokenStream.ofTree source root).tokenAt? (binding.top language).start = some d.start ∧
      ((binding.top language).start < (binding.top language).stop →
        x.start = (binding.top language).start) ∧
      Text.lineOf? source x.start = some d.line := by
  have htiled := TokenStream.tiled_ofTree hroot.spans
  have hunder : (binding.outer language).Under root := (outer_under hmem).1
  have hat := tokenAt?_top hd
  obtain ⟨-, -, -, -, hline, -, -⟩ := declare_eq_ok_iff.1 hd
  obtain ⟨⟨x, hx, -⟩, -⟩ := htiled.tokenAt?_eq_some_iff.1 hat
  refine ⟨x, hx, hat, ?_, ?_⟩
  · intro hne
    obtain ⟨top, htop, hnode, hsame⟩ := Binding.exists_site_of_top hunder
    rw [← hnode] at hne hat ⊢
    obtain ⟨i, first, hfirst, hbegin, -⟩ := TokenStream.exists_token_of_meetsLeaves
      hroot.toWellNested hmeets htop (hsame.trans hout) hne
    have hthere := htiled.tokenAt?_start hfirst
    rw [hbegin] at hthere
    obtain rfl : i = d.start := Option.some.inj (hthere.symm.trans hat)
    obtain rfl : first = x := Option.some.inj (hfirst.symm.trans hx)
    exact hbegin
  · have hleaves : ∀ leaf ∈ root.leaves, leaf.OnEdges source := by
      intro leaf hleaf
      exact (hroot.edges.part (Node.part_of_mem_leaves hleaf)).here
    have hthere : (ofTree path language source root).tokens.tokens[d.start]? = some x := hx
    rw [hthere, Option.elim_some] at hline
    rw [hline]
    exact TokenStream.lineOf?_of_getElem? hleaves hx

/-- **The attributes above a declaration in Rust are taken in as a whole, and nothing else is.**  In
a well-formed tree that leaves out blanks only and whose nodes, where they span something, start and
stop at edges of leaves, a name that is bound outside comments to a node that spans something is
located.  Both excerpts then hold the attributes in the run of attributes and comments above the
declaration, and what is significant in them before the declaration's own first token belongs to one
of these.  The line is that of the topmost attribute, or of the declaration if there is none: it is
the line of the first token from there on, which starts right there unless an attribute spans
nothing. -/
theorem takesIn_attributes (path : Path) (source : String) (root : Node) (identifier : String)
    (binding : Binding) (hroot : root.WellFormed source) (hblank : root.BlankBetween source)
    (hmeets : root.MeetsLeaves)
    (hfound : (ofTree path .rust source root).bindings.find?
      (fun b => b.name == identifier) = some binding)
    (hout : binding.site.isOutside = true)
    (hspan : binding.site.node.start < binding.site.node.stop) :
    ∃ (d : Declaration) (own : Nat) (t : Token),
      (ofTree path .rust source root).locate identifier = .ok d ∧
      (TokenStream.ofTree source root).tokens[own]? = some t ∧
      t.start = binding.site.node.start ∧
      (∃ x, (TokenStream.ofTree source root).tokens[d.start]? = some x ∧
        (TokenStream.ofTree source root).tokenAt? (binding.top .rust).start = some d.start ∧
        ((binding.top .rust).start < (binding.top .rust).stop →
          x.start = (binding.top .rust).start) ∧
        Text.lineOf? source x.start = some d.line) ∧
      ∀ extent, ∃ r, d.range (TokenStream.ofTree source root) path extent = .ok r ∧
        (TokenStream.ofTree source root).TakesIn (binding.decorations .rust) own r := by
  have hmem : binding ∈ (ofTree path .rust source root).bindings := List.mem_of_find?_eq_some hfound
  have hwhole := binding.outer_rust
  obtain ⟨own, t, hown, hstart, hwithin⟩ := TokenStream.exists_token_of_meetsLeaves
    hroot.toWellNested hmeets (Node.Site.under_of_mem_sites (site_mem_sites hmem)) hout hspan
  obtain ⟨d, hd, -, hstop⟩ := exists_declare_of_within hmem hroot.toWellNested hown hwithin
  rw [← hwhole] at hout
  refine ⟨d, own, t, (locate_of_find? hfound).trans hd, hown, hstart,
    exists_first_of_declare hroot hmeets hmem hout hd, ?_⟩
  intro extent
  obtain ⟨r, hr, hend⟩ := Declaration.exists_range (TokenStream.ofTree source root) path extent
    (object?_of_rust hd) hstop (own_le_body hmem hroot.toWellNested hd hown hstart)
  rw [← hwhole] at hstart
  exact ⟨r, hr, takesIn_decorations hroot hblank hmem hout hd hown hstart hr hend⟩

end SourceFile

/-- The function in `decoratedText` stands outside comments, below one attribute, which spans
something. -/
theorem exists_attribute_decorated :
    ∃ binding : Binding,
      (SourceFile.ofTree ⟨"a.rs"⟩ .rust decoratedText decorated).bindings.find?
        (fun b => b.name == "f") = some binding ∧
      binding.site.isOutside = true ∧ binding.site.node.start < binding.site.node.stop ∧
      (binding.decorations .rust).map Node.start = [12] ∧
      (binding.top .rust).start < (binding.top .rust).stop := by
  obtain ⟨binding, hfound⟩ : ∃ binding,
      (SourceFile.ofTree ⟨"a.rs"⟩ .rust decoratedText decorated).bindings.find?
        (fun b => b.name == "f") = some binding := Option.isSome_iff_exists.1 (by decide +kernel)
  have hbinding : ∀ b ∈ (SourceFile.ofTree ⟨"a.rs"⟩ .rust decoratedText decorated).bindings.find?
      (fun b => b.name == "f"),
      b.site.isOutside = true ∧ b.site.node.start < b.site.node.stop ∧
        (b.decorations .rust).map Node.start = [12] ∧
        (b.top .rust).start < (b.top .rust).stop := by decide +kernel
  exact ⟨binding, hfound, hbinding binding hfound⟩

theorem takesIn_attributes_decorated :
    decorated.WellFormed decoratedText ∧ decorated.BlankBetween decoratedText ∧
    decorated.MeetsLeaves ∧
    ∃ (binding : Binding) (own : Nat) (t : Token),
      (SourceFile.ofTree ⟨"a.rs"⟩ .rust decoratedText decorated).bindings.find?
        (fun b => b.name == "f") = some binding ∧
      binding.site.isOutside = true ∧ binding.site.node.start < binding.site.node.stop ∧
      (binding.decorations .rust).map Node.start = [12] ∧
      (TokenStream.ofTree decoratedText decorated).tokens[own]? = some t ∧
      t.start = binding.site.node.start ∧
      Text.lineOf? decoratedText (binding.top .rust).start = some 3 ∧
      ∀ extent, ∃ r, decoratedFunction.range (TokenStream.ofTree decoratedText decorated) ⟨"a.rs"⟩
          extent = .ok r ∧
        (TokenStream.ofTree decoratedText decorated).TakesIn (binding.decorations .rust) own r := by
  have hroot : decorated.WellFormed decoratedText := by decide +kernel
  have hblank : decorated.BlankBetween decoratedText := by decide +kernel
  have hmeets : decorated.MeetsLeaves := by decide +kernel
  obtain ⟨binding, hfound, hout, hspan, hattributes, htop⟩ := exists_attribute_decorated
  obtain ⟨d, own, t, hd, hown, hstart, ⟨x, -, -, hbegin, hline⟩, hruns⟩ :=
    SourceFile.takesIn_attributes ⟨"a.rs"⟩ decoratedText decorated "f" binding hroot hblank hmeets
      hfound hout hspan
  obtain rfl : decoratedFunction = d := Except.ok.inj (locate_decorated.symm.trans hd)
  rw [hbegin htop] at hline
  exact ⟨hroot, hblank, hmeets, binding, own, t, hfound, hout, hspan, hattributes, hown, hstart,
    hline, hruns⟩

/-- A function with empty lines above it. -/
def gapText : String := "use a;\n\n\n\nfn f() \x7b\x7d"

/-- A tree of `gapText` with an attribute that spans nothing on the second line. -/
def gapped : Node :=
  ⟨"source_file", true, none, 0, 19, [
    ⟨"use_declaration", true, none, 0, 6, [
      ⟨"use", false, none, 0, 3, []⟩,
      ⟨"identifier", true, some "argument", 4, 5, []⟩,
      ⟨";", false, none, 5, 6, []⟩]⟩,
    ⟨"attribute_item", true, none, 7, 7, []⟩,
    ⟨"function_item", true, none, 10, 19, [
      ⟨"fn", false, none, 10, 12, []⟩,
      ⟨"identifier", true, some "name", 13, 14, []⟩,
      ⟨"parameters", true, some "parameters", 14, 16, [
        ⟨"(", false, none, 14, 15, []⟩,
        ⟨")", false, none, 15, 16, []⟩]⟩,
      ⟨"block", true, some "body", 17, 19, [
        ⟨"\x7b", false, none, 17, 18, []⟩,
        ⟨"\x7d", false, none, 18, 19, []⟩]⟩]⟩]⟩

/-- The function in `gapText` stands outside comments, below an attribute on the second line. -/
theorem exists_attribute_gapped :
    ∃ binding : Binding,
      (SourceFile.ofTree ⟨"a.rs"⟩ .rust gapText gapped).bindings.find?
        (fun b => b.name == "f") = some binding ∧
      binding.site.isOutside = true ∧ binding.site.node.start < binding.site.node.stop ∧
      Text.lineOf? gapText (binding.top .rust).start = some 2 := by
  obtain ⟨binding, hfound⟩ : ∃ binding,
      (SourceFile.ofTree ⟨"a.rs"⟩ .rust gapText gapped).bindings.find?
        (fun b => b.name == "f") = some binding := Option.isSome_iff_exists.1 (by decide +kernel)
  have hbinding : ∀ b ∈ (SourceFile.ofTree ⟨"a.rs"⟩ .rust gapText gapped).bindings.find?
      (fun b => b.name == "f"),
      b.site.isOutside = true ∧ b.site.node.start < b.site.node.stop ∧
        Text.lineOf? gapText (b.top .rust).start = some 2 := by decide +kernel
  exact ⟨binding, hfound, hbinding binding hfound⟩

/-- The line of a declaration need not be that of its topmost attribute: no token starts with an
attribute that spans nothing, and the next one may be lines below. -/
theorem not_forall_line_of_top : ¬ ∀ (path : Path) (source : String) (root : Node)
    (identifier : String) (binding : Binding), root.WellFormed source → root.BlankBetween source →
    root.MeetsLeaves →
    (SourceFile.ofTree path .rust source root).bindings.find?
      (fun b => b.name == identifier) = some binding →
    binding.site.isOutside = true → binding.site.node.start < binding.site.node.stop →
    ∃ d, (SourceFile.ofTree path .rust source root).locate identifier = .ok d ∧
      Text.lineOf? source (binding.top .rust).start = some d.line := by
  intro h
  obtain ⟨binding, hfound, hout, hspan, hattribute⟩ := exists_attribute_gapped
  obtain ⟨d, hd, hline⟩ := h ⟨"a.rs"⟩ gapText gapped "f" binding (by decide +kernel)
    (by decide +kernel) (by decide +kernel) hfound hout hspan
  have hfifth : ((SourceFile.ofTree ⟨"a.rs"⟩ .rust gapText gapped).locate "f").toOption.map
      Declaration.line = some 5 := by decide +kernel
  rw [hd] at hfifth
  have hfive : d.line = 5 := Option.some.inj hfifth
  rw [hattribute, hfive] at hline
  exact absurd (Option.some.inj hline) (by decide)

end LiveExcerpts
