import LiveExcerpts.Declaration
import LiveExcerpts.Proofs.Tokens.Leaves
/-!
# Where declarations stand in their tree

A binding of a file belongs to a site of its tree, and so does the whole declaration around it.  The
start of the decorated declaration is the start of the topmost decoration in the run of decorations
and comments right above it, and the search for a body stays inside the declaring node.

Main definitions: `Binding.decorations`, `Node.EndsAtLeaf`.  Main statements: `Binding.start_eq`,
`Node.bodyStart?_inside`, `SourceFile.declare_eq_ok_iff`, and `SourceFile.exists_declare`: a
declaration that ends with a leaf has a first and a last token, in this order.
What then holds of its tokens is `Declaration.Fits`.
-/

namespace LiveExcerpts

/-! ## Sites of bindings -/

namespace SourceFile

/-- A binding is declared at a site of the file's tree. -/
theorem site_mem_sites {file : SourceFile} {binding : Binding} (h : binding ∈ file.bindings) :
    binding.site ∈ file.root.sites := by
  obtain ⟨site, hsite, hbinding⟩ := List.mem_flatMap.1 h
  rw [Node.Site.bindings] at hbinding
  split at hbinding
  · simp at hbinding
  · obtain ⟨name, -, rfl⟩ := List.mem_map.1 hbinding
    exact hsite

/-- The whole declaration around a binding is at a site of the tree, and the declaring node is a
part of it. -/
theorem outer_under {file : SourceFile} {binding : Binding} (h : binding ∈ file.bindings) :
    (binding.outer file.language).Under file.root ∧
      Node.Part (binding.outer file.language).node binding.site.node :=
  (Node.Site.under_of_mem_sites (site_mem_sites h)).climb _

end SourceFile

/-! ## Decorations -/

/-- The decorations among the siblings above a node, the nearest first: those in the longest run of
decorations and comments right above it. -/
def decorationRun (kinds : List String) (siblings : List Node) : List Node :=
  (siblings.takeWhile fun sibling => kinds.contains sibling.kind || sibling.isComment).filter
    fun sibling => kinds.contains sibling.kind

/-- The decorations of a declaration. -/
def Binding.decorations (language : Language) (binding : Binding) : List Node :=
  decorationRun language.decorationKinds (binding.outer language).before

/-- The node that a decorated declaration starts with: its topmost decoration, or the declaration
itself. -/
def Binding.top (language : Language) (binding : Binding) : Node :=
  (binding.decorations language).getLast?.getD (binding.outer language).node

theorem decorationRun_cons (kinds : List String) (sibling : Node) (rest : List Node) :
    decorationRun kinds (sibling :: rest) =
      if kinds.contains sibling.kind then sibling :: decorationRun kinds rest
      else if sibling.isComment then decorationRun kinds rest else [] := by
  rw [decorationRun, List.takeWhile_cons]
  cases hdecoration : kinds.contains sibling.kind with
  | true => rw [Bool.true_or, if_pos rfl, List.filter_cons, if_pos hdecoration]; rfl
  | false =>
      cases hcomment : sibling.isComment with
      | true =>
          rw [Bool.or_true, if_pos rfl, List.filter_cons, if_neg (Bool.eq_false_iff.1 hdecoration)]
          rfl
      | false => rfl

/-- The start of a decorated declaration, read off its run of decorations. -/
theorem decoratedStart_eq (kinds : List String) (start : Nat) (siblings : List Node) :
    decoratedStart kinds start siblings =
      (decorationRun kinds siblings).getLast?.elim start Node.start := by
  induction siblings generalizing start with
  | nil => rfl
  | cons sibling rest ih =>
      rw [decoratedStart, decorationRun_cons]
      split
      · rw [ih, List.getLast?_cons]
        cases (decorationRun kinds rest).getLast? <;> rfl
      · split
        · exact ih start
        · rfl

/-- **A decorated declaration starts where its topmost decoration does.** -/
theorem Binding.start_eq (language : Language) (binding : Binding) :
    binding.start language = (binding.top language).start := by
  show decoratedStart _ _ _ = ((binding.decorations language).getLast?.getD _).start
  rw [decoratedStart_eq, decorations]
  cases (decorationRun _ _).getLast? <;> rfl

/-- The topmost decoration is one of the decorations, or the declaration itself. -/
theorem Binding.top_mem (language : Language) (binding : Binding) :
    binding.top language ∈ (binding.outer language).node :: binding.decorations language := by
  rw [top]
  cases hlast : (binding.decorations language).getLast? with
  | none => exact List.mem_cons_self
  | some node => exact List.mem_cons_of_mem _ (List.mem_of_getLast? hlast)

/-- Decorations are siblings above the declaration, in their order. -/
theorem Binding.decorations_sublist (language : Language) (binding : Binding) :
    (binding.decorations language).Sublist (binding.outer language).before :=
  List.filter_sublist.trans (List.takeWhile_sublist _)

/-- A decorated declaration does not start after the declaration itself. -/
theorem SourceFile.start_le_outer {file : SourceFile} {binding : Binding} {bound : Nat}
    (h : binding ∈ file.bindings) (hroot : file.root.WellNested bound) :
    binding.start file.language ≤ (binding.outer file.language).node.start := by
  have hunder := (outer_under h).1
  rw [Binding.start_eq]
  rcases List.mem_cons.1 (Binding.top_mem file.language binding) with htop | htop
  · exact Nat.le_of_eq (congrArg Node.start htop)
  · have hbefore := (Binding.decorations_sublist file.language binding).subset htop
    obtain ⟨hpart, hle⟩ := hunder.before hroot hbefore
    have hspan := (hroot.part hpart).start_le_stop
    omega

/-! ## Bodies -/

namespace Node

theorem childByField?_part {node child : Node} {field : String}
    (h : node.childByField? field = some child) : Part node child :=
  part_of_mem_children (List.mem_of_find?_eq_some h)

theorem childOfKind?_part {node child : Node} {kinds : List String}
    (h : node.childOfKind? kinds = some child) : Part node child :=
  part_of_mem_children (List.mem_of_find?_eq_some h)

theorem descendantAmong?_part {parent : Node} {kinds : List String} {found : Node}
    (ih : ∀ child ∈ parent.children, ∀ found, child.descendant? kinds = some found →
      Part child found) :
    ∀ nodes : List Node, (∀ node ∈ nodes, node ∈ parent.children) →
      descendantAmong? kinds nodes = some found → Part parent found := by
  intro nodes hsub h
  induction nodes with
  | nil => simp [descendantAmong?] at h
  | cons node rest ihrest =>
      have hchild := part_of_mem_children (hsub node List.mem_cons_self)
      rw [descendantAmong?] at h
      split at h
      · obtain rfl : node = found := Option.some.inj h
        exact hchild
      · rcases Option.or_eq_some_iff.1 h with hfound | ⟨-, hrest⟩
        · exact hchild.trans (ih node (hsub node List.mem_cons_self) found hfound)
        · exact ihrest (fun other hother => hsub other (List.mem_cons_of_mem _ hother)) hrest

/-- What is found below a node is a part of it. -/
theorem descendant?_part {node found : Node} {kinds : List String}
    (h : node.descendant? kinds = some found) : Part node found := by
  induction node using childrenInduction generalizing found with
  | step node ih =>
      obtain ⟨kind, isNamed, field?, start, stop, children⟩ := node
      rw [descendant?] at h
      exact descendantAmong?_part ih children (fun _ hmem => hmem) h

/-- **A body opens inside its node.** -/
theorem bodyStart?_inside {language : Language} {node : Node} {bound byte : Nat}
    (h : node.WellNested bound) (hbody : node.bodyStart? language = some byte) :
    node.start ≤ byte ∧ byte ≤ node.stop := by
  obtain ⟨body, hfound, rfl⟩ := Option.map_eq_some_iff.1 hbody
  have hpart : Part node body := by
    rcases Option.or_eq_some_iff.1 hfound with hfield | ⟨-, hbelow⟩
    · exact childByField?_part hfield
    · exact descendant?_part hbelow
  cases hbrace : body.childOfKind? [openBrace] with
  | none =>
      have hinside := hpart.inside h
      have hspan := (h.part hpart).start_le_stop
      rw [Option.elim_none]
      omega
  | some brace =>
      have hbracePart := hpart.trans (childOfKind?_part hbrace)
      have hinside := hbracePart.inside h
      have hspan := (h.part hbracePart).start_le_stop
      rw [Option.elim_some]
      omega

end Node

/-! ## From nodes to tokens -/

/-- **What a declaration says of a binding.**  Its first token is the first at or after the
decorated start, its last the last at or before the end of the whole declaration; types and
functions may have a body, properties an object. -/
theorem SourceFile.declare_eq_ok_iff {file : SourceFile} {binding : Binding} {d : Declaration} :
    file.declare binding = .ok d ↔
      file.tokens.tokenAt? (binding.start file.language) = some d.start ∧
      file.tokens.lastEndingAt? (binding.outer file.language).node.stop = some d.stop ∧
      d.kind = binding.kind ∧ d.name = binding.name ∧
      d.line = (file.tokens.tokens[d.start]?).elim 1 Token.line ∧
      d.body? = (if binding.kind = .property then none
        else (binding.site.node.bodyStart? file.language).bind file.tokens.tokenAt?) ∧
      d.object? = (if binding.kind = .property then
        (binding.object? file.language).bind fun o => file.tokens.tokenAt? o.start else none) := by
  obtain ⟨kind, name, line, start, stop, body?, object?⟩ := d
  rw [declare]
  cases hstart : file.tokens.tokenAt? (binding.start file.language) with
  | none => simp
  | some first =>
      cases hstop : file.tokens.lastEndingAt? (binding.outer file.language).node.stop with
      | none => simp
      | some last =>
          cases hkind : binding.kind <;>
            simp only [Except.ok.injEq, Declaration.mk.injEq, Option.some.injEq, reduceCtorEq,
              if_true, if_false] <;>
            constructor <;> rintro ⟨rfl, rfl, rfl, rfl, rfl, rfl, rfl⟩ <;> simp

/-- A binding with a first and a last token is a declaration. -/
theorem SourceFile.exists_declare_eq_ok {file : SourceFile} {binding : Binding} {i j : Nat}
    (hi : file.tokens.tokenAt? (binding.start file.language) = some i)
    (hj : file.tokens.lastEndingAt? (binding.outer file.language).node.stop = some j) :
    ∃ d : Declaration, file.declare binding = .ok d ∧ d.start = i ∧ d.stop = j := by
  rw [declare, hi, hj]
  cases binding.kind <;> exact ⟨_, rfl, rfl, rfl⟩

/-! ## First and last tokens -/

/-- A node that holds a leaf and ends where a leaf does.  The leaves are those of the whole tree, so
nothing inside a comment has any. -/
def Node.EndsAtLeaf (root node : Node) : Prop :=
  (∃ leaf ∈ root.leaves, node.start ≤ leaf.start ∧ leaf.stop ≤ node.stop) ∧
    ∃ leaf ∈ root.leaves, leaf.stop = node.stop

instance (root node : Node) : Decidable (Node.EndsAtLeaf root node) :=
  inferInstanceAs (Decidable ((∃ leaf ∈ root.leaves, _ ∧ _) ∧ ∃ leaf ∈ root.leaves, _))

variable {path : Path} {language : Language} {source : String} {root : Node}

/-- A node that ends at a leaf ends with the stop of a token that starts inside it. -/
theorem Node.EndsAtLeaf.exists_token {node : Node} (h : Node.EndsAtLeaf root node)
    (hroot : root.WellNested source.utf8ByteSize) :
    ∃ (i : Nat) (token : Token), (TokenStream.ofTree source root).tokens[i]? = some token ∧
      node.start ≤ token.start ∧ token.stop = node.stop := by
  obtain ⟨⟨inner, hinner, hstart, hstop⟩, ⟨last, hlast, hend⟩⟩ := h
  obtain ⟨i, x, hx, hofx⟩ := TokenStream.exists_token_of_mem_leaves hroot hinner
  obtain ⟨j, y, hy, hofy⟩ := TokenStream.exists_token_of_mem_leaves hroot hlast
  have htiled := TokenStream.tiled_ofTree hroot.spans
  refine ⟨j, y, hy, ?_, hofy.stop.trans hend⟩
  -- The leaf that ends the node is not before the one inside it.
  have hij : i ≤ j := by
    rcases Nat.lt_or_ge j i with hji | hij
    · have hle := htiled.stop_le_start hy hx hji
      have hne := htiled.start_lt_stop hx
      rw [hofx.stop, hofx.start] at hne
      rw [hofy.stop, hofx.start] at hle
      omega
    · exact hij
  have hle := htiled.start_le_start hx hy hij
  rw [hofx.start] at hle
  omega

/-- **A declaration that ends at a leaf has a first and a last token, in this order.** -/
theorem SourceFile.exists_declare {binding : Binding}
    (hbinding : binding ∈ (ofTree path language source root).bindings)
    (hroot : root.WellNested source.utf8ByteSize)
    (houter : Node.EndsAtLeaf root (binding.outer language).node) :
    ∃ (d : Declaration) (x y : Token), (ofTree path language source root).declare binding = .ok d ∧
      (TokenStream.ofTree source root).tokens[d.start]? = some x ∧
      (TokenStream.ofTree source root).tokens[d.stop]? = some y ∧
      binding.start language ≤ x.start ∧ y.stop = (binding.outer language).node.stop ∧
      d.start ≤ d.stop := by
  have htiled := TokenStream.tiled_ofTree hroot.spans
  have hle := start_le_outer hbinding hroot
  obtain ⟨j, y, hy, hstart, hstop⟩ := houter.exists_token hroot
  obtain ⟨i, hij, hi⟩ := htiled.exists_tokenAt?_le hy (Nat.le_trans hle hstart)
  obtain ⟨⟨x, hx, hxstart⟩, -⟩ := htiled.tokenAt?_eq_some_iff.1 hi
  have hj := htiled.lastEndingAt?_stop hy
  rw [hstop] at hj
  let file := ofTree path language source root
  have hfirst : file.tokens.tokenAt? (binding.start file.language) = some i := hi
  obtain ⟨d, hd, rfl, rfl⟩ := exists_declare_eq_ok hfirst hj
  exact ⟨d, x, y, hd, hx, hy, hxstart, hstop, hij⟩

/-- **A token that is looked up at a byte of the whole declaration** is one of its tokens, or the
next one behind them. -/
theorem SourceFile.tokenAt?_inside {binding : Binding} {d : Declaration}
    (hbinding : binding ∈ (ofTree path language source root).bindings)
    (hroot : root.WellNested source.utf8ByteSize)
    (houter : Node.EndsAtLeaf root (binding.outer language).node)
    (hd : (ofTree path language source root).declare binding = .ok d) {byte i : Nat}
    (hfrom : (binding.outer language).node.start ≤ byte)
    (hto : byte ≤ (binding.outer language).node.stop)
    (hi : (TokenStream.ofTree source root).tokenAt? byte = some i) :
    d.start ≤ i ∧ i ≤ d.stop + 1 := by
  have htiled := TokenStream.tiled_ofTree hroot.spans
  obtain ⟨d', x, y, hd', -, hy, -, hystop, -⟩ := exists_declare hbinding hroot houter
  obtain rfl : d = d' := Except.ok.inj (hd.symm.trans hd')
  have hfirst : (TokenStream.ofTree source root).tokenAt? (binding.start language) =
      some d.start := (declare_eq_ok_iff.1 hd).1
  have habove : binding.start language ≤ (binding.outer language).node.start :=
    start_le_outer hbinding hroot
  obtain ⟨⟨token, htoken, hbyte⟩, -⟩ := htiled.tokenAt?_eq_some_iff.1 hi
  constructor
  · obtain ⟨j, hji, hj⟩ := htiled.exists_tokenAt?_le htoken
      (Nat.le_trans habove (Nat.le_trans hfrom hbyte))
    obtain rfl : j = d.start := Option.some.inj (hj.symm.trans hfirst)
    exact hji
  · exact htiled.tokenAt?_le_succ hy (by rw [hystop]; exact hto) hi

/-! ## Declarations that fit their file -/

/-- The tokens of a declaration stand in order in its file.  A body opens within the declaration, or
right behind it where the body's node spans nothing; properties have none. -/
structure Declaration.Fits (stream : TokenStream) (d : Declaration) : Prop where
  /-- The first token is not after the last. -/
  start_le_stop : d.start ≤ d.stop
  /-- The last token exists. -/
  stop_lt_size : d.stop < stream.size
  /-- Only types and functions have a body. -/
  kind_of_body : ∀ body, d.body? = some body → d.kind ≠ .property
  /-- A body opens at most one token behind the declaration. -/
  body_le : ∀ body, d.body? = some body → body ≤ d.stop + 1

/-- **What ends at a leaf fits its file.** -/
theorem SourceFile.fits_of_declare {binding : Binding} {d : Declaration}
    (hbinding : binding ∈ (ofTree path language source root).bindings)
    (hroot : root.WellNested source.utf8ByteSize)
    (houter : Node.EndsAtLeaf root (binding.outer language).node)
    (hd : (ofTree path language source root).declare binding = .ok d) :
    d.Fits (TokenStream.ofTree source root) := by
  obtain ⟨d', x, y, hd', -, hy, -, -, hle⟩ := exists_declare hbinding hroot houter
  obtain rfl : d = d' := Except.ok.inj (hd.symm.trans hd')
  obtain ⟨-, -, hkind, -, -, hat, -⟩ := declare_eq_ok_iff.1 hd
  have hopens : ∀ body, d.body? = some body → d.kind ≠ .property ∧ body ≤ d.stop + 1 := by
    intro body hbody
    rw [hbody] at hat
    split at hat
    · simp at hat
    · next hne =>
        -- The body is below the declaring node, and that is part of the whole declaration.
        obtain ⟨byte, hbyte, hfound⟩ := Option.bind_eq_some_iff.1 hat.symm
        obtain ⟨hunder, hpart⟩ := outer_under hbinding
        have hwhole := hroot.part hunder.part
        have hinside := hpart.inside hwhole
        have hopening := Node.bodyStart?_inside (hwhole.part hpart) hbyte
        refine ⟨by rw [hkind]; exact hne, ?_⟩
        exact (tokenAt?_inside hbinding hroot houter hd (Nat.le_trans hinside.1 hopening.1)
          (Nat.le_trans hopening.2 hinside.2) hfound).2
  exact ⟨hle, TokenStream.lt_size_of_getElem? hy, fun body h => (hopens body h).1,
    fun body h => (hopens body h).2⟩

end LiveExcerpts
