import LiveExcerpts.Proofs.Excerpts.Signature
import LiveExcerpts.Proofs.Outcomes
import LiveExcerpts.Proofs.Segments.Placed
/-!
# Comments of the tree and comments of the text

What is a comment is told twice: a token is one by the kind of its leaf, and a piece of an excerpt
is one by its marks alone.  The two agree on an excerpt exactly if no comment opens within a token
that is neither a comment nor blank, and no comment of the text goes on behind the token that it
begins in.

Main definitions: `TokenStream.pieces`, `TokenStream.LexersAgree`.  Main statement:
`SourceFile.lexersAgree_iff_of_locate`.
-/

namespace LiveExcerpts

open String (utf8Len utf8Len_append utf8Len_toList)

namespace TokenStream

/-! ## Texts of runs of tokens -/

/-- The byte that a run of tokens starts at. -/
def startOf (stream : TokenStream) (r : TokenRange) : Nat :=
  (stream.tokens[r.first]?).elim 0 Token.start

/-- The characters of a run of tokens. -/
def charsOf (stream : TokenStream) (r : TokenRange) : List Char :=
  (stream.textOf r.first r.last).toList

/-- The pieces of a run of tokens, at their bytes. -/
def pieces (stream : TokenStream) (r : TokenRange) : List PlacedPiece :=
  Piece.placed (stream.startOf r) (Piece.ofText (stream.charsOf r))

/-- The token at the index `k` is one of a run. -/
structure Has (stream : TokenStream) (r : TokenRange) (k : Nat) (token : Token) : Prop where
  /-- It is not before the first one. -/
  first_le : r.first ≤ k
  /-- It is not after the last one. -/
  le_last : k ≤ r.last
  /-- It is the token at this index. -/
  getElem? : stream.tokens[k]? = some token

/-- A token lies within one piece of code. -/
def InCode (stream : TokenStream) (r : TokenRange) (token : Token) : Prop :=
  ∃ p ∈ stream.pieces r, p.piece.kind = .code ∧ p.start ≤ token.start ∧ token.stop ≤ p.stop

/-- A piece lies within one token that is a comment. -/
def InComment (stream : TokenStream) (r : TokenRange) (p : PlacedPiece) : Prop :=
  ∃ k token, stream.Has r k token ∧ token.isComment = true ∧ token.start ≤ p.start ∧
    p.stop ≤ token.stop

/-- **What the tree takes for a comment and what the text does agree** on a run of tokens. -/
structure LexersAgree (stream : TokenStream) (r : TokenRange) : Prop where
  /-- Tokens that are neither comments nor blank are code. -/
  code : ∀ k token, stream.Has r k token → stream.isTrivia k = false → stream.InCode r token
  /-- Pieces that are comments are in comments of the tree. -/
  comment : ∀ p ∈ stream.pieces r, p.piece.kind ≠ .code → stream.InComment r p

theorem has_iff {stream : TokenStream} {r : TokenRange} {k : Nat} {token : Token} :
    stream.Has r k token ↔ k ∈ List.range' r.first (r.last + 1 - r.first) ∧
      token ∈ (stream.tokens[k]?).toList := by
  rw [List.mem_range'_1, Option.mem_toList]
  constructor
  · rintro ⟨hfirst, hlast, htoken⟩
    exact ⟨⟨hfirst, by omega⟩, htoken⟩
  · rintro ⟨⟨hfirst, hlast⟩, htoken⟩
    exact ⟨hfirst, by omega, htoken⟩

instance (stream : TokenStream) (r : TokenRange) (token : Token) :
    Decidable (stream.InCode r token) :=
  inferInstanceAs (Decidable (∃ p ∈ stream.pieces r, _))

theorem inComment_iff {stream : TokenStream} {r : TokenRange} {p : PlacedPiece} :
    stream.InComment r p ↔ ∃ k ∈ List.range' r.first (r.last + 1 - r.first),
      ∃ token ∈ (stream.tokens[k]?).toList,
        token.isComment = true ∧ token.start ≤ p.start ∧ p.stop ≤ token.stop := by
  simp only [InComment, has_iff, and_assoc, exists_and_left]

instance (stream : TokenStream) (r : TokenRange) (p : PlacedPiece) :
    Decidable (stream.InComment r p) := decidable_of_iff _ inComment_iff.symm

instance (stream : TokenStream) (r : TokenRange) : Decidable (stream.LexersAgree r) :=
  decidable_of_iff
    ((∀ k ∈ List.range' r.first (r.last + 1 - r.first), ∀ token ∈ (stream.tokens[k]?).toList,
      stream.isTrivia k = false → stream.InCode r token) ∧
      ∀ p ∈ stream.pieces r, p.piece.kind ≠ .code → stream.InComment r p)
    ⟨fun h => ⟨fun k token hhas => h.1 k (has_iff.1 hhas).1 token (has_iff.1 hhas).2, h.2⟩,
      fun h => ⟨fun k hk token htoken => h.code k token (has_iff.2 ⟨hk, htoken⟩), h.comment⟩⟩

variable {source : String} {root : Node} {r : TokenRange}

/-- The text of a run of tokens around one of them. -/
theorem exists_charsOf_eq (hroot : root.WellFormed source) (hle : r.first ≤ r.last)
    (hlt : r.last < (ofTree source root).size) {k : Nat} {token : Token}
    (h : (ofTree source root).Has r k token) :
    ∃ u w, (ofTree source root).charsOf r =
        u ++ (((ofTree source root).tokenText token).toList ++ w) ∧
      (ofTree source root).startOf r + utf8Len u = token.start ∧
      token.start + utf8Len ((ofTree source root).tokenText token).toList = token.stop := by
  have htiled := tiled_ofTree hroot.spans
  obtain ⟨x, hx⟩ := exists_getElem?_of_lt_size (Nat.lt_of_le_of_lt hle hlt)
  obtain ⟨y, hy⟩ := exists_getElem?_of_lt_size hlt
  have hxedge := (isEdge_of_getElem? hroot hx).1
  have hedge := isEdge_of_getElem? hroot h.getElem?
  have hyedge := (isEdge_of_getElem? hroot hy).2
  obtain ⟨u, hu⟩ := Text.exists_slice?_of_isEdge
    (htiled.start_le_start hx h.getElem? h.first_le) hxedge hedge.1
  obtain ⟨v, hv⟩ := Text.exists_slice?_of_isEdge
    (Nat.le_of_lt (htiled.start_lt_stop h.getElem?)) hedge.1 hedge.2
  obtain ⟨w, hw⟩ := Text.exists_slice?_of_isEdge
    (htiled.stop_le_stop h.getElem? hy h.le_last) hedge.2 hyedge
  have htoken : (ofTree source root).tokenText token = v := by
    show (Text.slice? source token.start token.stop).getD "" = v
    rw [hv, Option.getD_some]
  have hstart : (ofTree source root).startOf r = x.start := by
    rw [startOf, hx, Option.elim_some]
  have htext : (ofTree source root).textOf r.first r.last = u ++ (v ++ w) := by
    rw [textOf_eq hx hy]
    show (Text.slice? source x.start y.stop).getD "" = _
    rw [Text.slice?_append hu (Text.slice?_append hv hw), Option.getD_some]
  refine ⟨u.toList, w.toList, ?_, ?_, ?_⟩
  · rw [charsOf, htext, htoken, String.toList_append, String.toList_append]
  · rw [hstart, utf8Len_toList]
    exact Text.add_utf8ByteSize_of_slice? hu
  · rw [htoken, utf8Len_toList]
    exact Text.add_utf8ByteSize_of_slice? hv

/-- The text of a run of tokens ends where its last token does. -/
theorem startOf_add_utf8Len (hroot : root.WellFormed source) (hle : r.first ≤ r.last) {y : Token}
    (hy : (ofTree source root).tokens[r.last]? = some y) :
    (ofTree source root).startOf r + utf8Len ((ofTree source root).charsOf r) = y.stop := by
  have htiled := tiled_ofTree hroot.spans
  obtain ⟨x, hx⟩ := exists_getElem?_of_lt_size (Nat.lt_of_le_of_lt hle (lt_size_of_getElem? hy))
  obtain ⟨t, ht⟩ := Text.exists_slice?_of_isEdge
    (Nat.le_trans (htiled.start_le_start hx hy hle) (Nat.le_of_lt (htiled.start_lt_stop hy)))
    (isEdge_of_getElem? hroot hx).1 (isEdge_of_getElem? hroot hy).2
  have htext : (ofTree source root).textOf r.first r.last = t := by
    rw [textOf_eq hx hy]
    show (Text.slice? source x.start y.stop).getD "" = t
    rw [ht, Option.getD_some]
  rw [startOf, hx, Option.elim_some, charsOf, htext, utf8Len_toList]
  exact Text.add_utf8ByteSize_of_slice? ht

/-- **Every byte of a run's text is in one of its tokens.** -/
theorem exists_has_at (hroot : root.WellFormed source) (hle : r.first ≤ r.last)
    (hlt : r.last < (ofTree source root).size) {b : Nat}
    (hstart : (ofTree source root).startOf r ≤ b)
    (hstop : b < (ofTree source root).startOf r + utf8Len ((ofTree source root).charsOf r)) :
    ∃ k token, (ofTree source root).Has r k token ∧ token.start ≤ b ∧ b < token.stop := by
  obtain ⟨x, hx⟩ := exists_getElem?_of_lt_size (Nat.lt_of_le_of_lt hle hlt)
  obtain ⟨y, hy⟩ := exists_getElem?_of_lt_size hlt
  rw [startOf_add_utf8Len hroot hle hy] at hstop
  rw [startOf, hx, Option.elim_some] at hstart
  obtain ⟨k, token, hfirst, hlast, htoken, hin⟩ :=
    (tiled_ofTree hroot.spans).exists_token_at hx hy hstart hstop
  exact ⟨k, token, ⟨hfirst, hlast, htoken⟩, hin⟩

/-! ## Comments open in tokens -/

/-- A comment opens with a character that is not blank. -/
theorem head_not_blank_of_opensComment {cs : List Char} (h : OpensComment cs) :
    ∃ rest, cs = '/' :: rest := by
  rcases h with ⟨rest, rfl⟩ | ⟨comment, ⟨rest, rfl⟩, ⟨body, rfl⟩, -⟩
  · exact ⟨_, rfl⟩
  · exact ⟨_, rfl⟩

/-- **No comment opens in a blank token.** -/
theorem not_allBlank_of_opensCommentAt (hroot : root.WellFormed source) (hle : r.first ≤ r.last)
    (hlt : r.last < (ofTree source root).size) {k b : Nat} {token : Token}
    (h : (ofTree source root).Has r k token) (hstart : token.start ≤ b) (hstop : b < token.stop)
    (hopens : OpensCommentAt ((ofTree source root).startOf r) ((ofTree source root).charsOf r) b) :
    Text.allBlank ((ofTree source root).tokenText token).toList = false := by
  obtain ⟨u, w, htext, hu, hv⟩ := exists_charsOf_eq hroot hle hlt h
  obtain ⟨before, rest, hparted, rfl, hcomment⟩ := hopens
  obtain ⟨mid, tail, hne, hmid, rfl⟩ :=
    exists_append_of_cut (hparted.symm.trans htext) (by omega) (by omega)
  obtain ⟨cs, hslash⟩ := head_not_blank_of_opensComment hcomment
  obtain ⟨c, tail, rfl⟩ := List.exists_cons_of_ne_nil hne
  obtain ⟨rfl, -⟩ := List.cons.inj hslash
  rw [Text.allBlank, List.all_eq_false]
  refine ⟨'/', ?_, by decide⟩
  rw [hmid]
  simp

/-- **A comment opens in a significant token or in a comment.** -/
theorem isComment_of_opensCommentAt (hroot : root.WellFormed source) (hle : r.first ≤ r.last)
    (hlt : r.last < (ofTree source root).size) {k b : Nat} {token : Token}
    (h : (ofTree source root).Has r k token) (hstart : token.start ≤ b) (hstop : b < token.stop)
    (hopens : OpensCommentAt ((ofTree source root).startOf r) ((ofTree source root).charsOf r) b) :
    (ofTree source root).isTrivia k = false ∨ token.isComment = true := by
  have hblank := not_allBlank_of_opensCommentAt hroot hle hlt h hstart hstop hopens
  cases hcomment : token.isComment with
  | true => exact .inr rfl
  | false =>
      refine .inl ((isTrivia_eq_false_iff hroot.spans).2 ⟨token, h.getElem?, ?_⟩)
      rw [isSignificant, hcomment, hblank]
      rfl

/-! ## Agreement -/

/-- No comment opens in a token that is neither a comment nor blank. -/
def NoneOpensInCode (stream : TokenStream) (r : TokenRange) : Prop :=
  ∀ k token, stream.Has r k token → stream.isTrivia k = false →
    ∀ b, token.start ≤ b → b < token.stop →
      ¬ OpensCommentAt (stream.startOf r) (stream.charsOf r) b

/-- No comment of the text goes on behind a comment of the tree that it begins in. -/
def CommentsEndInTokens (stream : TokenStream) (r : TokenRange) : Prop :=
  ∀ p ∈ stream.pieces r, p.piece.kind ≠ .code →
    ∀ k token, stream.Has r k token → token.isComment = true → token.start ≤ p.start →
      p.start < token.stop → p.stop ≤ token.stop

/-- Comments of the text lie in comments of the tree, if no comment opens elsewhere and none goes
on behind its token. -/
theorem inComment_of_mem_pieces (hroot : root.WellFormed source) (hle : r.first ≤ r.last)
    (hlt : r.last < (ofTree source root).size) (hopen : (ofTree source root).NoneOpensInCode r)
    (hend : (ofTree source root).CommentsEndInTokens r) {p : PlacedPiece}
    (hp : p ∈ (ofTree source root).pieces r) (hkind : p.piece.kind ≠ .code) :
    (ofTree source root).InComment r p := by
  have hsplit := isSplit_ofText ((ofTree source root).charsOf r)
  have hopens := hsplit.opensCommentAt hp hkind
  have hpos := hsplit.start_lt_stop hp
  obtain ⟨hfirst, hlast⟩ := hsplit.le_start_and_stop_le hp
  obtain ⟨k, token, hhas, hstart, hstop⟩ :=
    exists_has_at hroot hle hlt hfirst (Nat.lt_of_lt_of_le hpos hlast)
  rcases isComment_of_opensCommentAt hroot hle hlt hhas hstart hstop hopens with hcode | hcomment
  · exact absurd hopens (hopen k token hhas hcode p.start hstart hstop)
  · exact ⟨k, token, hhas, hcomment, hstart, hend p hp hkind k token hhas hcomment hstart hstop⟩

/-- **Where comments of the text lie in comments of the tree, code lies in code.**  Pieces of code
are not neighbours, so a token that is not in one piece of code shares a byte with a comment. -/
theorem LexersAgree.of_comment (hroot : root.WellFormed source) (hle : r.first ≤ r.last)
    (hlt : r.last < (ofTree source root).size)
    (hcomment : ∀ p ∈ (ofTree source root).pieces r, p.piece.kind ≠ .code →
      (ofTree source root).InComment r p) :
    (ofTree source root).LexersAgree r := by
  refine ⟨fun k token hhas htrivia => ?_, hcomment⟩
  have htiled := tiled_ofTree hroot.spans
  have hsplit := isSplit_ofText ((ofTree source root).charsOf r)
  obtain ⟨y, hy⟩ := exists_getElem?_of_lt_size hlt
  have hend := startOf_add_utf8Len hroot hle hy
  have hinside := htiled.stop_le_stop hhas.getElem? hy hhas.le_last
  have hpos := htiled.start_lt_stop hhas.getElem?
  obtain ⟨u, -, -, hu, -⟩ := exists_charsOf_eq hroot hle hlt hhas
  have hsignificant : token.isComment = false := by
    obtain ⟨token', htoken', hsig⟩ := (isTrivia_eq_false_iff hroot.spans).1 htrivia
    obtain rfl : token = token' := Option.some.inj (hhas.getElem?.symm.trans htoken')
    rw [isSignificant, Bool.and_eq_true, Bool.not_eq_true'] at hsig
    exact hsig.1
  -- No comment of the text has a byte of the token.
  have hapart : ∀ p ∈ (ofTree source root).pieces r, ∀ b, p.start ≤ b → b < p.stop →
      token.start ≤ b → b < token.stop → p.piece.kind = .code := by
    intro p hp b hpb hbp htb hbt
    refine Classical.byContradiction fun hkind => ?_
    obtain ⟨k', token', hhas', hcomment', hstart', hstop'⟩ := hcomment p hp hkind
    obtain rfl : k = k' := htiled.eq_of_byte hhas.getElem? hhas'.getElem? ⟨htb, hbt⟩
      ⟨Nat.le_trans hstart' hpb, Nat.lt_of_lt_of_le hbp hstop'⟩
    obtain rfl : token = token' := Option.some.inj (hhas.getElem?.symm.trans hhas'.getElem?)
    exact Bool.false_ne_true (hsignificant.symm.trans hcomment')
  obtain ⟨p, hp, hpstart, hpstop⟩ : ∃ p ∈ (ofTree source root).pieces r,
      p.start ≤ token.start ∧ token.start < p.stop := by
    refine Piece.exists_placed_at (by omega) ?_
    rw [Piece.flatMap_ofText]
    omega
  have hkind := hapart p hp token.start hpstart hpstop (Nat.le_refl _) hpos
  refine ⟨p, hp, hkind, hpstart, ?_⟩
  rcases Nat.lt_or_ge p.stop token.stop with hshort | hlong
  · -- The piece that follows would be a comment with a byte of the token.
    obtain ⟨q, hq, hqstart, hqkind⟩ := hsplit.exists_comment_after_code hp hkind (by omega)
    have hqpos := hsplit.start_lt_stop hq
    exact absurd (hapart q hq q.start (Nat.le_refl _) hqpos (by omega) (by omega)) hqkind
  · exact hlong

/-- **The two agree on a run of tokens** exactly if no comment opens in its code and none goes on
behind its token. -/
theorem lexersAgree_iff (hroot : root.WellFormed source) (hle : r.first ≤ r.last)
    (hlt : r.last < (ofTree source root).size) :
    (ofTree source root).LexersAgree r ↔
      (ofTree source root).NoneOpensInCode r ∧ (ofTree source root).CommentsEndInTokens r := by
  have htiled := tiled_ofTree hroot.spans
  have hsplit := isSplit_ofText ((ofTree source root).charsOf r)
  constructor
  · intro hagree
    constructor
    · intro k token hhas htrivia b hstart hstop
      obtain ⟨p, hp, hkind, hpstart, hpstop⟩ := hagree.code k token hhas htrivia
      exact hsplit.not_opensCommentAt hp hkind (by omega) (by omega)
    · intro p hp hkind k token hhas _ hstart hstop
      obtain ⟨k', token', hhas', -, hstart', hstop'⟩ := hagree.comment p hp hkind
      have hpos := hsplit.start_lt_stop hp
      obtain rfl : k = k' := htiled.eq_of_byte hhas.getElem? hhas'.getElem? ⟨hstart, hstop⟩
        ⟨hstart', by omega⟩
      obtain rfl : token = token' := Option.some.inj (hhas.getElem?.symm.trans hhas'.getElem?)
      exact hstop'
  · rintro ⟨hopen, hend⟩
    exact .of_comment hroot hle hlt fun p hp hkind =>
      inComment_of_mem_pieces hroot hle hlt hopen hend hp hkind

end TokenStream

/-! ## Agreement on excerpts -/

namespace SourceFile

variable {path : Path} {language : Language} {source : String} {root : Node}

/-- The tokens that a declaration names are tokens of the file. -/
theorem lt_size_of_declare {binding : Binding} {d : Declaration}
    (hroot : root.WellNested source.utf8ByteSize)
    (hd : (ofTree path language source root).declare binding = .ok d) :
    d.start < (TokenStream.ofTree source root).size ∧
      d.stop < (TokenStream.ofTree source root).size ∧
      ∀ body, d.body? = some body → body < (TokenStream.ofTree source root).size := by
  have htiled := TokenStream.tiled_ofTree hroot.spans
  have hat : ∀ {byte i : Nat}, (TokenStream.ofTree source root).tokenAt? byte = some i →
      i < (TokenStream.ofTree source root).size := by
    intro byte i h
    obtain ⟨⟨token, htoken, -⟩, -⟩ := htiled.tokenAt?_eq_some_iff.1 h
    exact TokenStream.lt_size_of_getElem? htoken
  obtain ⟨hstart, hstop, -, -, -, hbody, -⟩ := declare_eq_ok_iff.1 hd
  refine ⟨hat hstart, ?_, ?_⟩
  · obtain ⟨⟨token, htoken, -⟩, -⟩ := htiled.lastEndingAt?_eq_some_iff.1 hstop
    exact TokenStream.lt_size_of_getElem? htoken
  · intro body hsome
    rw [hsome] at hbody
    split at hbody
    · exact nomatch hbody
    · obtain ⟨byte, -, hfound⟩ := Option.bind_eq_some_iff.1 hbody.symm
      exact hat hfound

/-- The excerpt of a declaration ends with a token of the file. -/
theorem last_lt_size_of_declare {binding : Binding} {d : Declaration} {extent : Extent}
    {r : TokenRange} (hroot : root.WellNested source.utf8ByteSize)
    (hd : (ofTree path language source root).declare binding = .ok d)
    (hr : d.range (TokenStream.ofTree source root) path extent = .ok r) :
    r.last < (TokenStream.ofTree source root).size := by
  obtain ⟨hstart, hstop, hbody⟩ := lt_size_of_declare hroot hd
  have hfirst := (TokenStream.ofTree source root).firstToken_le d.start
  cases extent with
  | definition =>
      rw [Declaration.range_definition] at hr
      obtain rfl := Except.ok.inj hr
      simp only
      omega
  | signature =>
      obtain ⟨last, hend, rfl⟩ := Declaration.range_signature_eq_ok_iff.1 hr
      have hbounded : ∀ body, d.body? = some body →
          body ≤ (TokenStream.ofTree source root).size - 1 + 1 := by
        intro body hsome
        have hlt := hbody body hsome
        omega
      have hlast := Declaration.signatureEnd_le (Nat.le_sub_one_of_lt hstop) hbounded hend
      simp only
      omega

/-- **The two agree on an excerpt exactly if no comment opens in its code and none goes on behind
its token.**  This is so for every declaration that is located in a well-formed tree, and in both
extents. -/
theorem lexersAgree_iff_of_locate {identifier : String} {d : Declaration} {extent : Extent}
    {r : TokenRange} (hroot : root.WellFormed source)
    (hd : (ofTree path language source root).locate identifier = .ok d)
    (hr : d.range (TokenStream.ofTree source root) path extent = .ok r) :
    (TokenStream.ofTree source root).LexersAgree r ↔
      (TokenStream.ofTree source root).NoneOpensInCode r ∧
        (TokenStream.ofTree source root).CommentsEndInTokens r := by
  obtain ⟨binding, hdeclare⟩ : ∃ binding,
      (ofTree path language source root).declare binding = .ok d := by
    rw [locate] at hd
    split at hd
    · next binding _ => exact ⟨binding, hd⟩
    · cases hd
  exact TokenStream.lexersAgree_iff hroot (Declaration.range_first_le_last hr)
    (last_lt_size_of_declare hroot.toWellNested hdeclare hr)

end SourceFile

/-- In the excerpt of the function in `decoratedText`, the two agree. -/
theorem lexersAgree_iff_of_locate_decorated :
    decorated.WellFormed decoratedText ∧
    (SourceFile.ofTree ⟨"a.rs"⟩ .rust decoratedText decorated).locate "f" =
      .ok decoratedFunction ∧
    ∃ r, decoratedFunction.range (TokenStream.ofTree decoratedText decorated) ⟨"a.rs"⟩
        .definition = .ok r ∧
      (TokenStream.ofTree decoratedText decorated).LexersAgree r ∧
      (TokenStream.ofTree decoratedText decorated).NoneOpensInCode r ∧
      (TokenStream.ofTree decoratedText decorated).CommentsEndInTokens r := by
  have hroot : decorated.WellFormed decoratedText := by decide +kernel
  have hrange : (decoratedFunction.range (TokenStream.ofTree decoratedText decorated) ⟨"a.rs"⟩
      .definition).toOption = some ⟨4, 21⟩ := by decide +kernel
  have hagree : (TokenStream.ofTree decoratedText decorated).LexersAgree ⟨4, 21⟩ := by
    decide +kernel
  have hparts := (SourceFile.lexersAgree_iff_of_locate hroot locate_decorated
    (eq_ok_of_toOption hrange)).1 hagree
  exact ⟨hroot, locate_decorated, _, eq_ok_of_toOption hrange, hagree, hparts⟩

/-- A constant whose text has the marks of a comment in it. -/
def quotedText : String := "const U: &str = \"a//b\";\n"

/-- The tree of `quotedText`. -/
def quoted : Node :=
  ⟨"source_file", true, none, 0, 24, [
    ⟨"const_item", true, none, 0, 23, [
      ⟨"const", false, none, 0, 5, []⟩,
      ⟨"identifier", true, some "name", 6, 7, []⟩,
      ⟨":", false, none, 7, 8, []⟩,
      ⟨"reference_type", true, some "type", 9, 13, [
        ⟨"&", false, none, 9, 10, []⟩,
        ⟨"primitive_type", true, some "type", 10, 13, []⟩]⟩,
      ⟨"=", false, none, 14, 15, []⟩,
      ⟨"string_literal", true, some "value", 16, 22, [
        ⟨"\"", false, none, 16, 17, []⟩,
        ⟨"string_content", true, none, 17, 21, []⟩,
        ⟨"\"", false, none, 21, 22, []⟩]⟩,
      ⟨";", false, none, 22, 23, []⟩]⟩]⟩

/-- The constant in `quotedText`. -/
def quotedConstant : Declaration := ⟨.property, "U", 1, 0, 13, none, none⟩

/-- **The two need not agree:** a comment opens within the constant of `quotedText`. -/
theorem not_forall_lexersAgree :
    ¬ ∀ (path : Path) (language : Language) (source : String) (root : Node) (identifier : String)
      (d : Declaration) (extent : Extent) (r : TokenRange), root.WellFormed source →
      (SourceFile.ofTree path language source root).locate identifier = .ok d →
      d.range (TokenStream.ofTree source root) path extent = .ok r →
      (TokenStream.ofTree source root).LexersAgree r := by
  intro hagree
  have hlocate : ((SourceFile.ofTree ⟨"m.rs"⟩ .rust quotedText quoted).locate "U").toOption =
      some quotedConstant := by decide +kernel
  have hrange : (quotedConstant.range (TokenStream.ofTree quotedText quoted) ⟨"m.rs"⟩
      .definition).toOption = some ⟨0, 13⟩ := by decide +kernel
  have hnot : ¬ (TokenStream.ofTree quotedText quoted).LexersAgree ⟨0, 13⟩ := by decide +kernel
  exact hnot (hagree ⟨"m.rs"⟩ .rust quotedText quoted "U" quotedConstant .definition ⟨0, 13⟩
    (by decide +kernel) (eq_ok_of_toOption hlocate) (eq_ok_of_toOption hrange))

end LiveExcerpts
