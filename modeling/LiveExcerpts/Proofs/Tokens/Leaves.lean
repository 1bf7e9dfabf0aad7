import LiveExcerpts.Proofs.Tokens.Lookup
/-!
# Tokens of a well-formed tree

When the leaves of a tree follow one another, each of them is a token, whole and with its own kind;
and when they lie on edges of characters, so do all tokens.  What counts as trivia can then be told
from the kind of a token and its text alone.

Main definitions: `Token.IsOf`, `TokenStream.isSignificant`.  Main statements:
`exists_token_of_mem_leaves`, `isEdge_of_mem_tokens` and `isTrivia_eq_false_iff`.
-/

namespace LiveExcerpts

/-- The token of a leaf: of its kind, with its span, and hidden only if it is a comment. -/
structure Token.IsOf (token : Token) (leaf : Node) : Prop where
  /-- The kind of the leaf. -/
  kind : token.kind = leaf.kind
  /-- The byte where the leaf starts. -/
  start : token.start = leaf.start
  /-- The byte where the leaf stops. -/
  stop : token.stop = leaf.stop
  /-- Comments are hidden, other leaves are not. -/
  channel : token.channel = if leaf.isComment then .hidden else .significant

/-- The kind of a token tells whether it is a comment. -/
def Token.isComment (token : Token) : Bool :=
  Text.contains "comment".toList token.kind.toList

namespace TokenStream

variable {source : String} {leaves : List Node}

/-! ## Every leaf is a token -/

namespace Builder

/-- What holds of the tokens so far and of the one pushed holds of the tokens after. -/
theorem forall_tokens_push {p : Token → Prop} {b : Builder} (h : ∀ token ∈ b.tokens.toList, p token)
    {kind : String} {stop : Nat} {channel : Channel}
    (hnew : p ⟨kind, b.cursor, stop, b.line, channel⟩) :
    ∀ token ∈ (b.push source kind stop channel).tokens.toList, p token := by
  intro token htoken
  rw [tokens_push, List.mem_append, List.mem_singleton] at htoken
  rcases htoken with htoken | rfl
  · exact h token htoken
  · exact hnew

theorem mem_tokens_push {b : Builder} {token : Token} (h : token ∈ b.tokens.toList) (kind : String)
    (stop : Nat) (channel : Channel) : token ∈ (b.push source kind stop channel).tokens.toList := by
  rw [tokens_push]
  exact List.mem_append_left _ h

theorem mem_tokens_pushGap {b : Builder} {token : Token} (h : token ∈ b.tokens.toList)
    (stop : Nat) : token ∈ (b.pushGap source stop).tokens.toList := by
  rw [pushGap]
  split
  · exact h
  · split <;> exact mem_tokens_push h _ _ _

/-- What a builder has, it keeps. -/
theorem mem_tokens_foldl (leaves : List Node) {b : Builder} {token : Token}
    (h : token ∈ b.tokens.toList) : token ∈ (leaves.foldl (pushLeaf source) b).tokens.toList := by
  induction leaves generalizing b with
  | nil => exact h
  | cons leaf rest ih =>
      refine ih ?_
      rw [pushLeaf]
      split
      · exact h
      · exact mem_tokens_push (mem_tokens_pushGap h _) _ _ _

/-- A leaf that does not start before the cursor is added whole. -/
theorem exists_token_pushLeaf (source : String) {b : Builder} {leaf : Node}
    (hcursor : b.cursor ≤ leaf.start) (hlt : leaf.start < leaf.stop) :
    ∃ token ∈ (b.pushLeaf source leaf).tokens.toList, token.IsOf leaf := by
  rw [pushLeaf, if_neg (by omega), tokens_push]
  refine ⟨_, List.mem_append_right _ (List.mem_singleton_self _), rfl, ?_, rfl, rfl⟩
  show (b.pushGap source leaf.start).cursor = leaf.start
  rw [cursor_pushGap]
  exact Nat.max_eq_right hcursor

/-- Leaves that follow one another from the cursor on are all added whole. -/
theorem exists_token_foldl (source : String) {b : Builder}
    (hcursor : ∀ leaf ∈ leaves, b.cursor ≤ leaf.start)
    (hlt : ∀ leaf ∈ leaves, leaf.start < leaf.stop)
    (horder : leaves.Pairwise fun x y => x.stop ≤ y.start) {leaf : Node} (hleaf : leaf ∈ leaves) :
    ∃ token ∈ (leaves.foldl (pushLeaf source) b).tokens.toList, token.IsOf leaf := by
  induction leaves generalizing b with
  | nil => simp at hleaf
  | cons first rest ih =>
      obtain ⟨hfirst, hrest⟩ := List.pairwise_cons.1 horder
      rw [List.forall_mem_cons] at hcursor hlt
      rcases List.mem_cons.1 hleaf with rfl | hleaf
      · -- This leaf is added now; the leaves after it take nothing away.
        obtain ⟨token, htoken, hof⟩ := exists_token_pushLeaf source hcursor.1 hlt.1
        exact ⟨token, mem_tokens_foldl rest htoken, hof⟩
      · -- After the first leaf the cursor is where it stops, which is before the other leaves.
        refine ih (fun other hother => ?_) hlt.2 hrest hleaf
        have hother' := hfirst other hother
        have hcursor' := hcursor.1
        have hlt' := hlt.1
        rw [cursor_pushLeaf]
        omega

end Builder

/-- **Every leaf of a well-nested tree is a token.** -/
theorem exists_token_of_mem_leaves {root leaf : Node}
    (h : root.WellNested source.utf8ByteSize) (hleaf : leaf ∈ root.leaves) :
    ∃ (i : Nat) (token : Token),
      (ofTree source root).tokens[i]? = some token ∧ token.IsOf leaf := by
  have hcursor : ∀ leaf ∈ root.leaves, Builder.start.cursor ≤ leaf.start := fun _ _ =>
    Nat.zero_le _
  obtain ⟨token, htoken, hof⟩ := Builder.exists_token_foldl source hcursor
    (fun _ hmem => Node.start_lt_stop_of_mem_leaves hmem) (Node.pairwise_leaves h) hleaf
  have hmem : token ∈ (ofTree source root).tokens.toList := Builder.mem_tokens_pushGap htoken _
  obtain ⟨i, hi⟩ := List.mem_iff_getElem?.1 hmem
  exact ⟨i, token, by rwa [← Array.getElem?_toList], hof⟩

/-! ## Edges of characters -/

/-- The cursor of a builder and the ends of its tokens are on edges of characters. -/
def Builder.OnEdges (source : String) (b : Builder) : Prop :=
  Text.IsEdge source b.cursor ∧
    ∀ token ∈ b.tokens.toList, Text.IsEdge source token.start ∧ Text.IsEdge source token.stop

theorem Builder.OnEdges.push {b : Builder} (h : b.OnEdges source) {stop : Nat}
    (hstop : Text.IsEdge source stop) (kind : String) (channel : Channel) :
    (b.push source kind stop channel).OnEdges source :=
  ⟨hstop, forall_tokens_push h.2 ⟨h.1, hstop⟩⟩

/-- A gap ends on an edge of a character, if leaves start on edges. -/
theorem isEdge_of_gap (hleaves : ∀ leaf ∈ leaves, leaf.OnEdges source) {stop : Nat}
    (hstop : stop = source.utf8ByteSize ∨ ∃ leaf ∈ leaves, stop = leaf.start) :
    Text.IsEdge source stop := by
  rcases hstop with rfl | ⟨leaf, hleaf, rfl⟩
  · exact Text.isEdge_utf8ByteSize source
  · exact (hleaves leaf hleaf).1

theorem Builder.Reached.onEdges {b : Builder} (h : b.Reached source leaves)
    (hleaves : ∀ leaf ∈ leaves, leaf.OnEdges source) : b.OnEdges source := by
  induction h with
  | start => exact ⟨Text.isEdge_zero source, by simp [Builder.start]⟩
  | leaf _ hleaf _ ih => exact ih.push (hleaves _ hleaf).2 _ _
  | whitespace _ hstop _ _ ih => exact ih.push (isEdge_of_gap hleaves hstop) _ _
  | text _ hstop _ ih => exact ih.push (isEdge_of_gap hleaves hstop) _ _

/-- **The tokens of a well-formed tree lie on edges of characters.** -/
theorem isEdge_of_getElem? {root : Node} (h : root.WellFormed source) {i : Nat} {token : Token}
    (htoken : (ofTree source root).tokens[i]? = some token) :
    Text.IsEdge source token.start ∧ Text.IsEdge source token.stop := by
  obtain ⟨b, hb, -, htokens⟩ := exists_reached_ofTree h.spans
  have hedges := hb.onEdges fun leaf hleaf => (h.edges.part (Node.part_of_mem_leaves hleaf)).here
  rw [htokens] at htoken
  exact hedges.2 token (Array.mem_toList_iff.2 (Array.mem_of_getElem? htoken))

/-! ## Trivia -/

/-- The channel of a token says whether it is a comment or a blank gap; a leaf that is blank without
being a comment is not hidden. -/
structure ChannelFits (source : String) (token : Token) : Prop where
  /-- Comments are hidden. -/
  hidden_of_isComment : token.isComment = true → token.channel = .hidden
  /-- What is hidden is a comment or blank. -/
  of_hidden : token.channel = .hidden → token.isComment = true ∨
    ∃ text, Text.slice? source token.start token.stop = some text ∧
      Text.allBlank text.toList = true

theorem Builder.Reached.channelFits {b : Builder} (h : b.Reached source leaves) :
    ∀ token ∈ b.tokens.toList, ChannelFits source token := by
  induction h with
  | start => simp [Builder.start]
  | @leaf b leaf _ _ _ ih =>
      refine forall_tokens_push ih ⟨fun hcomment => if_pos hcomment, fun hhidden => .inl ?_⟩
      cases hcomment : leaf.isComment with
      | true => exact hcomment
      | false => simp [hcomment] at hhidden
  | whitespace _ _ _ hblank ih =>
      exact forall_tokens_push ih ⟨fun _ => rfl, fun _ => .inr hblank⟩
  | text _ _ _ ih =>
      -- The kind that gaps are given is not that of a comment.
      refine forall_tokens_push ih ⟨fun hcomment => ?_, nofun⟩
      exact absurd hcomment (show ¬ Text.contains "comment".toList "text".toList = true by decide)

/-- A token that is neither a comment nor blank. -/
def isSignificant (stream : TokenStream) (token : Token) : Bool :=
  !token.isComment && !Text.allBlank (stream.tokenText token).toList

/-- **An index is not trivia exactly where a token is that is neither a comment nor blank.** -/
theorem isTrivia_eq_false_iff {root : Node}
    (h : root.All (Node.SpansWithin source.utf8ByteSize)) {i : Nat} :
    (ofTree source root).isTrivia i = false ↔
      ∃ token, (ofTree source root).tokens[i]? = some token ∧
        (ofTree source root).isSignificant token = true := by
  obtain ⟨b, hb, -, htokens⟩ := exists_reached_ofTree h
  rw [isTrivia]
  cases htoken : (ofTree source root).tokens[i]? with
  | none => simp
  | some token =>
      have hmem : token ∈ b.tokens.toList := by
        rw [htokens] at htoken
        exact Array.mem_toList_iff.2 (Array.mem_of_getElem? htoken)
      have hfits := hb.channelFits token hmem
      have htext : (ofTree source root).tokenText token =
          (Text.slice? source token.start token.stop).getD "" := rfl
      simp only [Option.some.injEq, exists_eq_left', isSignificant, htext]
      constructor
      · intro htrivia
        rw [Bool.or_eq_false_iff, decide_eq_false_iff_not] at htrivia
        rw [Bool.and_eq_true, Bool.not_eq_true', Bool.not_eq_true']
        refine ⟨Bool.eq_false_iff.2 fun hcomment => ?_, htrivia.2⟩
        exact htrivia.1 (hfits.hidden_of_isComment hcomment)
      · intro hsignificant
        rw [Bool.and_eq_true, Bool.not_eq_true', Bool.not_eq_true'] at hsignificant
        rw [Bool.or_eq_false_iff, decide_eq_false_iff_not]
        -- A hidden token would be a comment or blank.
        refine ⟨fun hhidden => ?_, hsignificant.2⟩
        rcases hfits.of_hidden hhidden with hcomment | ⟨text, htext, hblank⟩
        · rw [hcomment] at hsignificant
          exact absurd hsignificant.1 (by decide)
        · rw [htext] at hsignificant
          exact absurd (hblank.symm.trans hsignificant.2) (by decide)

end TokenStream

end LiveExcerpts
