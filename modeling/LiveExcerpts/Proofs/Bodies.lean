import LiveExcerpts.Proofs.Excerpts.Signature
import LiveExcerpts.Proofs.Outcomes
/-!
# The body that a signature is cut at

A node without a field for its body has the first node of a body's kind below it for one, in
pre-order.  This one belongs to the first child that holds any body at all, so a declaration is cut
at its own body exactly if nothing that comes before holds another one.

Main definitions: `Node.firstIn?`, `Node.opening`, `Declaration.CutSeenFrom`.  Main statements:
`Node.descendant?_eq_findSome?`, `SourceFile.cutSeenFrom` on the child that a declaration is cut in,
and `SourceFile.cut_at_own_body_iff` on the body among the children of the declaring node.
-/

namespace LiveExcerpts

namespace Node

/-! ## The first body below a node -/

/-- The first node of one of `kinds` in a tree, in pre-order. -/
def firstIn? (kinds : List String) (node : Node) : Option Node :=
  if kinds.contains node.kind then some node else node.descendant? kinds

theorem firstIn?_of_mem {kinds : List String} {node : Node} (h : node.kind ∈ kinds) :
    node.firstIn? kinds = some node := by
  rw [firstIn?, if_pos (List.contains_iff_mem.2 h)]

theorem firstIn?_of_not_mem {kinds : List String} {node : Node} (h : node.kind ∉ kinds) :
    node.firstIn? kinds = node.descendant? kinds := by
  rw [firstIn?, if_neg (fun hmem => h (List.contains_iff_mem.1 hmem))]

theorem descendantAmong?_eq_findSome? (kinds : List String) (nodes : List Node) :
    descendantAmong? kinds nodes = nodes.findSome? (firstIn? kinds) := by
  induction nodes with
  | nil => rfl
  | cons node rest ih =>
      rw [descendantAmong?, List.findSome?_cons, firstIn?, ih]
      split
      · rfl
      · cases node.descendant? kinds <;> rfl

/-- **The first one below a node is that of the first child that has one.** -/
theorem descendant?_eq_findSome? (kinds : List String) (node : Node) :
    node.descendant? kinds = node.children.findSome? (firstIn? kinds) := by
  cases node
  exact descendantAmong?_eq_findSome? kinds _

/-- What is found is of one of the kinds. -/
theorem kind_of_firstIn? {kinds : List String} {node found : Node}
    (h : node.firstIn? kinds = some found) : found.kind ∈ kinds := by
  induction node using childrenInduction with
  | step node ih =>
      by_cases hkind : node.kind ∈ kinds
      · rw [firstIn?_of_mem hkind] at h
        obtain rfl := Option.some.inj h
        exact hkind
      · rw [firstIn?_of_not_mem hkind, descendant?_eq_findSome?] at h
        obtain ⟨child, hchild, hfound⟩ := List.exists_of_findSome?_eq_some h
        exact ih child hchild hfound

/-- What is found is a part of the tree. -/
theorem firstIn?_part {kinds : List String} {node found : Node}
    (h : node.firstIn? kinds = some found) : Part node found := by
  by_cases hkind : node.kind ∈ kinds
  · rw [firstIn?_of_mem hkind] at h
    obtain rfl := Option.some.inj h
    exact .root
  · rw [firstIn?_of_not_mem hkind] at h
    exact descendant?_part h

/-! ## Where a body opens -/

/-- The byte where a body opens: at its own brace if it has one, else where it starts. -/
def opening (body : Node) : Nat := (body.childOfKind? [openBrace]).elim body.start Node.start

/-- A body opens with a leaf of its own. -/
def OpensAtLeaf (root body : Node) : Prop :=
  ∃ leaf ∈ root.leaves, leaf.start = body.opening ∧ leaf.stop ≤ body.stop

instance (root body : Node) : Decidable (OpensAtLeaf root body) :=
  inferInstanceAs (Decidable (∃ leaf ∈ root.leaves, _ ∧ _))

/-- All bodies in a tree open with leaves of their own. -/
def BodiesOpen (kinds : List String) (root node : Node) : Prop :=
  node.All fun body => body.kind ∈ kinds → OpensAtLeaf root body

instance (kinds : List String) (root node : Node) : Decidable (BodiesOpen kinds root node) :=
  inferInstanceAs (Decidable (node.All fun body => body.kind ∈ kinds → OpensAtLeaf root body))

theorem bodyStart?_of_field_eq_none {language : Language} {node : Node}
    (h : node.childByField? "body" = none) :
    node.bodyStart? language = (node.descendant? language.bodyKinds).map opening := by
  rw [bodyStart?, h, Option.none_or]
  rfl

theorem start_le_opening {body : Node} {bound : Nat} (h : body.WellNested bound) :
    body.start ≤ body.opening := by
  unfold opening
  cases hbrace : body.childOfKind? [openBrace] with
  | none => exact Nat.le_refl _
  | some brace => exact ((childOfKind?_part hbrace).inside h).1

/-! ## Earlier children -/

/-- The children of a node that end at or before `byte`. -/
def childrenBefore (node : Node) (byte : Nat) : List Node :=
  node.children.filter fun child => child.stop ≤ byte

theorem mem_childrenBefore {node child : Node} {byte : Nat} :
    child ∈ node.childrenBefore byte ↔ child ∈ node.children ∧ child.stop ≤ byte := by
  rw [childrenBefore, List.mem_filter, decide_eq_true_eq]

/-- **The children around one that spans something** are those before it and later ones. -/
theorem exists_children_eq {bound : Nat} {node child : Node} (h : node.WellNested bound)
    (hchild : child ∈ node.children) (hlt : child.start < child.stop) :
    ∃ after, node.children = node.childrenBefore child.start ++ child :: after ∧
      ∀ other ∈ after, child.stop ≤ other.start := by
  obtain ⟨before, after, hchildren⟩ := List.append_of_mem hchild
  have horder := h.holds.here.2
  rw [hchildren, List.pairwise_append, List.pairwise_cons] at horder
  obtain ⟨-, ⟨hafter, -⟩, hbefore⟩ := horder
  have hspan : ∀ other ∈ after, other.start ≤ other.stop := fun other hother =>
    (h.part (part_of_mem_children (by rw [hchildren]; simp [hother]))).start_le_stop
  have hearlier : node.childrenBefore child.start = before := by
    rw [childrenBefore, hchildren, List.filter_append, List.filter_cons_of_neg (by simpa using hlt)]
    have hkeep : before.filter (fun c => decide (c.stop ≤ child.start)) = before :=
      List.filter_eq_self.2 fun other hother =>
        decide_eq_true (hbefore other hother child List.mem_cons_self)
    have hdrop : after.filter (fun c => decide (c.stop ≤ child.start)) = [] := by
      refine List.filter_eq_nil_iff.2 fun other hother => ?_
      have := hafter other hother
      have := hspan other hother
      rw [decide_eq_true_eq]
      omega
    rw [hkeep, hdrop, List.append_nil]
  exact ⟨after, by rw [hearlier, hchildren], hafter⟩

end Node

/-! ## Tokens of a declaration -/

/-- A token lies within a node. -/
structure Token.Within (token : Token) (node : Node) : Prop where
  /-- It does not start before the node. -/
  start : node.start ≤ token.start
  /-- It does not stop after the node. -/
  stop : token.stop ≤ node.stop

/-- What a token lies within spans something. -/
theorem Token.Within.start_lt_stop {token : Token} {node : Node} (h : token.Within node)
    (hlt : token.start < token.stop) : node.start < node.stop :=
  Nat.lt_of_le_of_lt h.start (Nat.lt_of_lt_of_le hlt h.stop)

/-- What lies within a part of a node lies within the node. -/
theorem Token.Within.of_part {token : Token} {node part : Node} {bound : Nat}
    (h : token.Within part) (hpart : Node.Part node part) (hnode : node.WellNested bound) :
    token.Within node :=
  ⟨Nat.le_trans (hpart.inside hnode).1 h.start, Nat.le_trans h.stop (hpart.inside hnode).2⟩

variable {path : Path} {language : Language} {source : String} {root : Node}

/-- A body that opens with a leaf opens with a token, which lies within the body. -/
theorem Node.OpensAtLeaf.exists_opening {body : Node} (h : Node.OpensAtLeaf root body)
    (hroot : root.WellNested source.utf8ByteSize) (hbody : body.WellNested source.utf8ByteSize) :
    ∃ (i : Nat) (token : Token), (TokenStream.ofTree source root).tokens[i]? = some token ∧
      token.start = body.opening ∧ token.Within body ∧
      (TokenStream.ofTree source root).tokenAt? body.opening = some i := by
  obtain ⟨leaf, hleaf, hstart, hstop⟩ := h
  obtain ⟨i, token, htoken, hof⟩ := TokenStream.exists_token_of_mem_leaves hroot hleaf
  have hopening : token.start = body.opening := hof.start.trans hstart
  have hfirst := Node.start_le_opening hbody
  refine ⟨i, token, htoken, hopening, ⟨by omega, by rw [hof.stop]; exact hstop⟩, ?_⟩
  rw [← hopening]
  exact (TokenStream.tiled_ofTree hroot.spans).tokenAt?_start htoken

namespace SourceFile

variable {binding : Binding} {d : Declaration}

/-- The declaring node of a binding is well nested in a well-nested tree. -/
theorem wellNested_site (hmem : binding ∈ (ofTree path language source root).bindings)
    (hroot : root.WellNested source.utf8ByteSize) :
    binding.site.node.WellNested source.utf8ByteSize :=
  hroot.part (Node.Site.under_of_mem_sites (site_mem_sites hmem)).part

/-- **A binding whose node holds a token is a declaration**, and the token belongs to it. -/
theorem exists_declare_of_within
    (hmem : binding ∈ (ofTree path language source root).bindings)
    (hroot : root.WellNested source.utf8ByteSize) {k : Nat} {token : Token}
    (htoken : (TokenStream.ofTree source root).tokens[k]? = some token)
    (hwithin : token.Within binding.site.node) :
    ∃ d, (ofTree path language source root).declare binding = .ok d ∧ d.start ≤ k ∧ k ≤ d.stop := by
  let file := ofTree path language source root
  have htiled := TokenStream.tiled_ofTree hroot.spans
  obtain ⟨hunder, hpart⟩ := outer_under hmem
  have hnode := hpart.inside (hroot.part hunder.part)
  have habove : binding.start language ≤ (binding.outer language).node.start :=
    start_le_outer hmem hroot
  obtain ⟨i, hik, hi⟩ := htiled.exists_tokenAt?_le htoken
    (Nat.le_trans habove (Nat.le_trans hnode.1 hwithin.start))
  obtain ⟨j, hkj, hj⟩ := htiled.exists_le_lastEndingAt? htoken
    (Nat.le_trans hwithin.stop hnode.2)
  have hfirst : file.tokens.tokenAt? (binding.start file.language) = some i := hi
  obtain ⟨d, hd, rfl, rfl⟩ := exists_declare_eq_ok hfirst hj
  exact ⟨d, hd, hik, hkj⟩

/-- The tokens within the declaring node belong to the declaration. -/
theorem start_le_and_le_stop_of_within
    (hmem : binding ∈ (ofTree path language source root).bindings)
    (hroot : root.WellNested source.utf8ByteSize)
    (hd : (ofTree path language source root).declare binding = .ok d) {k : Nat} {token : Token}
    (htoken : (TokenStream.ofTree source root).tokens[k]? = some token)
    (hwithin : token.Within binding.site.node) : d.start ≤ k ∧ k ≤ d.stop := by
  obtain ⟨d', hd', hbounds⟩ := exists_declare_of_within hmem hroot htoken hwithin
  obtain rfl : d' = d := Except.ok.inj (hd'.symm.trans hd)
  exact hbounds

end SourceFile

/-! ## The cut -/

/-- How the cut of a declaration is seen from a child of its node. -/
inductive Declaration.CutSeenFrom (d : Declaration) (stream : TokenStream) (kinds : List String)
    (node child : Node) : Prop
  /-- An earlier child holds a body, and the cut is within that child. -/
  | before {other : Node} {cut : Nat} {token : Token} : other ∈ node.childrenBefore child.start →
      other.firstIn? kinds ≠ none → d.body? = some cut → stream.tokens[cut]? = some token →
      token.Within other → CutSeenFrom d stream kinds node child
  /-- No earlier child holds a body, but the child does, and the cut is where that body opens. -/
  | within {own : Node} {cut : Nat} {token : Token} :
      (∀ other ∈ node.childrenBefore child.start, other.firstIn? kinds = none) →
      child.firstIn? kinds = some own → d.body? = some cut → stream.tokens[cut]? = some token →
      token.start = own.opening → token.Within child → CutSeenFrom d stream kinds node child
  /-- Neither an earlier child nor the child holds a body; if there is a cut, it is within a later
  child. -/
  | behind : (∀ other ∈ node.childrenBefore child.start, other.firstIn? kinds = none) →
      child.firstIn? kinds = none →
      (∀ cut, d.body? = some cut → ∃ other ∈ node.children, ∃ token,
        stream.tokens[cut]? = some token ∧ token.Within other ∧ child.stop ≤ token.start) →
      CutSeenFrom d stream kinds node child

namespace SourceFile

variable {binding : Binding} {d : Declaration}

/-- A type or function is cut at the first body among the children of its node, if the node has no
field for its body. -/
theorem body?_of_declare (hd : (ofTree path language source root).declare binding = .ok d)
    (hkind : binding.kind ≠ .property)
    (hfield : binding.site.node.childByField? "body" = none) :
    d.body? = (binding.site.node.children.findSome? (Node.firstIn? language.bodyKinds)).bind
      fun body => (TokenStream.ofTree source root).tokenAt? body.opening := by
  obtain ⟨-, -, -, -, -, hbody, -⟩ := declare_eq_ok_iff.1 hd
  have hstart : binding.site.node.bodyStart? language =
      (binding.site.node.children.findSome? (Node.firstIn? language.bodyKinds)).map
        Node.opening := by
    rw [Node.bodyStart?_of_field_eq_none hfield, Node.descendant?_eq_findSome?]
  rw [hbody, if_neg hkind]
  show (binding.site.node.bodyStart? language).bind (TokenStream.ofTree source root).tokenAt? = _
  rw [hstart]
  cases binding.site.node.children.findSome? (Node.firstIn? language.bodyKinds) <;> rfl

/-- The signature of a type or function ends right before its body, but not before its own first
token; without a body, it ends with the declaration. -/
theorem range_signature_of_declare
    (hd : (ofTree path language source root).declare binding = .ok d)
    (hkind : binding.kind ≠ .property) (stream : TokenStream) (file : Path) :
    d.range stream file .signature =
      .ok ⟨stream.firstToken d.start,
        max (d.body?.elim d.stop (· - 1)) (stream.firstToken d.start)⟩ := by
  have hk : d.kind = binding.kind := (declare_eq_ok_iff.1 hd).2.2.1
  have hend : d.signatureEnd stream file = .ok (d.body?.elim d.stop (· - 1)) := by
    rw [Declaration.signatureEnd, hk]
    cases hbinding : binding.kind with
    | property => exact absurd hbinding hkind
    | type => cases d.body? <;> rfl
    | function => cases d.body? <;> rfl
  rw [Declaration.range_signature, hend]
  rfl

section Cut

variable (hroot : root.WellNested source.utf8ByteSize)
  (hmem : binding ∈ (ofTree path language source root).bindings)
  (hd : (ofTree path language source root).declare binding = .ok d)
  (hkind : binding.kind ≠ .property)

include hroot hmem hd hkind

/-- Without a body, the signature shows all tokens of the declaring node. -/
theorem shown_of_body?_eq_none {file : Path} {s : TokenRange}
    (hs : d.range (TokenStream.ofTree source root) file .signature = .ok s)
    (hbody : d.body? = none) {k : Nat} {token : Token}
    (htoken : (TokenStream.ofTree source root).tokens[k]? = some token)
    (hwithin : token.Within binding.site.node) : s.first ≤ k ∧ k ≤ s.last := by
  obtain ⟨hstart, hstop⟩ := start_le_and_le_stop_of_within hmem hroot hd htoken hwithin
  have hfirst := (TokenStream.ofTree source root).firstToken_le d.start
  rw [range_signature_of_declare hd hkind, hbody, Option.elim_none] at hs
  obtain rfl := Except.ok.inj hs
  constructor <;> simp only <;> omega

/-- **The signature shows what is before the cut**, of the tokens of the declaring node. -/
theorem shown_iff_lt {file : Path} {s : TokenRange}
    (hs : d.range (TokenStream.ofTree source root) file .signature = .ok s)
    {cut k : Nat} {opening token : Token} (hbody : d.body? = some cut)
    (hopening : (TokenStream.ofTree source root).tokens[cut]? = some opening)
    (hinside : opening.Within binding.site.node)
    (htoken : (TokenStream.ofTree source root).tokens[k]? = some token)
    (hwithin : token.Within binding.site.node) (hne : k ≠ cut) :
    (s.first ≤ k ∧ k ≤ s.last) ↔ k < cut := by
  have hcut := (start_le_and_le_stop_of_within hmem hroot hd hopening hinside).1
  have hstart := (start_le_and_le_stop_of_within hmem hroot hd htoken hwithin).1
  have hfirst := (TokenStream.ofTree source root).firstToken_le d.start
  rw [range_signature_of_declare hd hkind, hbody, Option.elim_some] at hs
  obtain rfl := Except.ok.inj hs
  constructor <;> simp only <;> omega

variable (hfield : binding.site.node.childByField? "body" = none)
  (hopens : Node.BodiesOpen language.bodyKinds root binding.site.node)

include hfield hopens

/-- **A declaration is cut where the first body among the children opens**, within the child that
holds it. -/
theorem exists_cut {found : Node}
    (hfound : binding.site.node.children.findSome? (Node.firstIn? language.bodyKinds) =
      some found) {child : Node} (hchild : child ∈ binding.site.node.children)
    (hin : child.firstIn? language.bodyKinds = some found) :
    ∃ (k : Nat) (token : Token), d.body? = some k ∧
      (TokenStream.ofTree source root).tokens[k]? = some token ∧ token.start = found.opening ∧
      token.Within child := by
  have hnode := wellNested_site hmem hroot
  have hpart := Node.part_of_mem_children hchild
  have hinner := Node.firstIn?_part hin
  have hleaf := (hopens.part (hpart.trans hinner)).here (Node.kind_of_firstIn? hin)
  obtain ⟨k, token, htoken, hstart, hwithin, hat⟩ :=
    hleaf.exists_opening hroot (hnode.part (hpart.trans hinner))
  refine ⟨k, token, ?_, htoken, hstart, hwithin.of_part hinner (hnode.part hpart)⟩
  rw [body?_of_declare hd hkind hfield, hfound]
  exact hat

/-- **A declaration is cut before, within or behind a child that spans something.** -/
theorem cutSeenFrom {child : Node} (hchild : child ∈ binding.site.node.children)
    (hlt : child.start < child.stop) :
    d.CutSeenFrom (TokenStream.ofTree source root) language.bodyKinds binding.site.node child := by
  obtain ⟨after, hchildren, hafter⟩ :=
    Node.exists_children_eq (wellNested_site hmem hroot) hchild hlt
  have hfirst : binding.site.node.children.findSome? (Node.firstIn? language.bodyKinds) =
      ((binding.site.node.childrenBefore child.start).findSome?
        (Node.firstIn? language.bodyKinds)).or
      ((child.firstIn? language.bodyKinds).or
        (after.findSome? (Node.firstIn? language.bodyKinds))) := by
    rw [hchildren, List.findSome?_append, List.findSome?_cons]
    cases child.firstIn? language.bodyKinds <;> rfl
  cases hbefore : (binding.site.node.childrenBefore child.start).findSome?
      (Node.firstIn? language.bodyKinds) with
  | some found =>
      rw [hbefore, Option.some_or] at hfirst
      obtain ⟨other, hother, hin⟩ := List.exists_of_findSome?_eq_some hbefore
      obtain ⟨cut, t, hcut, ht, -, hwithin⟩ := exists_cut hroot hmem hd hkind hfield hopens
        hfirst (Node.mem_childrenBefore.1 hother).1 hin
      exact .before hother (by rw [hin]; nofun) hcut ht hwithin
  | none =>
      have hnone := List.findSome?_eq_none_iff.1 hbefore
      rw [hbefore, Option.none_or] at hfirst
      cases hown : child.firstIn? language.bodyKinds with
      | some own =>
          rw [hown, Option.some_or] at hfirst
          obtain ⟨cut, t, hcut, ht, hstart, hwithin⟩ :=
            exists_cut hroot hmem hd hkind hfield hopens hfirst hchild hown
          exact .within hnone hown hcut ht hstart hwithin
      | none =>
          rw [hown, Option.none_or] at hfirst
          refine .behind hnone hown fun cut hcut => ?_
          -- Only a later child can hold the body that is cut at.
          cases hlater : after.findSome? (Node.firstIn? language.bodyKinds) with
          | none =>
              rw [body?_of_declare hd hkind hfield, hfirst, hlater] at hcut
              exact nomatch hcut
          | some found =>
              rw [hlater] at hfirst
              obtain ⟨other, hother, hin⟩ := List.exists_of_findSome?_eq_some hlater
              have hmemOther : other ∈ binding.site.node.children := by
                rw [hchildren]
                exact List.mem_append_right _ (List.mem_cons_of_mem _ hother)
              obtain ⟨cut', t, hcut', ht, -, hwithin⟩ :=
                exists_cut hroot hmem hd hkind hfield hopens hfirst hmemOther hin
              obtain rfl : cut' = cut := Option.some.inj (hcut'.symm.trans hcut)
              exact ⟨other, hmemOther, t, ht, hwithin,
                Nat.le_trans (hafter other hother) hwithin.start⟩

/-- **A child shows what it has before its own body** exactly if no earlier child holds a body. -/
theorem shown_in_child_iff {file : Path} {s : TokenRange}
    (hs : d.range (TokenStream.ofTree source root) file .signature = .ok s) {child : Node}
    (hchild : child ∈ binding.site.node.children) {k : Nat} {token : Token}
    (htoken : (TokenStream.ofTree source root).tokens[k]? = some token)
    (hwithin : token.Within child)
    (hfirst : ∀ own ∈ child.firstIn? language.bodyKinds, token.stop ≤ own.opening) :
    (s.first ≤ k ∧ k ≤ s.last) ↔ ∀ other ∈ binding.site.node.childrenBefore child.start,
      other.firstIn? language.bodyKinds = none := by
  have htiled := TokenStream.tiled_ofTree hroot.spans
  have hnode := wellNested_site hmem hroot
  have hinside := hwithin.of_part (Node.part_of_mem_children hchild) hnode
  cases cutSeenFrom hroot hmem hd hkind hfield hopens hchild
      (hwithin.start_lt_stop (htiled.start_lt_stop htoken)) with
  | @before other cut t hother hheld hcut ht htwithin =>
      obtain ⟨hmemOther, hend⟩ := Node.mem_childrenBefore.1 hother
      have hle : t.stop ≤ token.start :=
        Nat.le_trans htwithin.stop (Nat.le_trans hend hwithin.start)
      have hlt : cut < k := htiled.lt_of_stop_le_start ht htoken hle
      rw [shown_iff_lt hroot hmem hd hkind hs hcut ht
        (htwithin.of_part (Node.part_of_mem_children hmemOther) hnode) htoken hinside
        (Nat.ne_of_gt hlt)]
      exact ⟨fun h => absurd h (Nat.lt_asymm hlt), fun h => absurd (h other hother) hheld⟩
  | @within own cut t hnone hown hcut ht hstart htwithin =>
      have hle : token.stop ≤ t.start := by
        rw [hstart]
        exact hfirst own hown
      have hlt : k < cut := htiled.lt_of_stop_le_start htoken ht hle
      rw [shown_iff_lt hroot hmem hd hkind hs hcut ht
        (htwithin.of_part (Node.part_of_mem_children hchild) hnode) htoken hinside
        (Nat.ne_of_lt hlt)]
      exact ⟨fun _ => hnone, fun _ => hlt⟩
  | behind hnone _ hlater =>
      refine ⟨fun _ => hnone, fun _ => ?_⟩
      cases hcut : d.body? with
      | none => exact shown_of_body?_eq_none hroot hmem hd hkind hs hcut htoken hinside
      | some cut =>
          obtain ⟨other, hother, t, ht, htwithin, hle⟩ := hlater cut hcut
          have hlt : k < cut :=
            htiled.lt_of_stop_le_start htoken ht (Nat.le_trans hwithin.stop hle)
          exact (shown_iff_lt hroot hmem hd hkind hs hcut ht
            (htwithin.of_part (Node.part_of_mem_children hother) hnode) htoken hinside
            (Nat.ne_of_lt hlt)).2 hlt

/-- **The cut is within a child** exactly if the first body among the children is in it. -/
theorem exists_cut_within_iff {child : Node} (hchild : child ∈ binding.site.node.children)
    (hlt : child.start < child.stop) :
    (∃ (cut : Nat) (token : Token), d.body? = some cut ∧
      (TokenStream.ofTree source root).tokens[cut]? = some token ∧ token.Within child) ↔
      (∀ other ∈ binding.site.node.childrenBefore child.start,
        other.firstIn? language.bodyKinds = none) ∧
      child.firstIn? language.bodyKinds ≠ none := by
  have htiled := TokenStream.tiled_ofTree hroot.spans
  cases cutSeenFrom hroot hmem hd hkind hfield hopens hchild hlt with
  | @before other cut t hother hheld hcut ht htwithin =>
      refine ⟨?_, fun h => absurd (h.1 other hother) hheld⟩
      rintro ⟨cut', t', hcut', ht', hwithin⟩
      obtain rfl : cut = cut' := Option.some.inj (hcut.symm.trans hcut')
      obtain rfl : t = t' := Option.some.inj (ht.symm.trans ht')
      have hend := (Node.mem_childrenBefore.1 hother).2
      have hstop := htwithin.stop
      have hstart := hwithin.start
      have hpos := htiled.start_lt_stop ht
      omega
  | @within own cut t hnone hown hcut ht _ htwithin =>
      refine ⟨fun _ => ⟨hnone, ?_⟩, fun _ => ⟨cut, t, hcut, ht, htwithin⟩⟩
      rw [hown]
      nofun
  | behind hnone hnot hlater =>
      refine ⟨?_, fun h => absurd hnot h.2⟩
      rintro ⟨cut, t, hcut, ht, hwithin⟩
      obtain ⟨other, -, t', ht', -, hle⟩ := hlater cut hcut
      obtain rfl : t = t' := Option.some.inj (ht.symm.trans ht')
      have hstop := hwithin.stop
      have hpos := htiled.start_lt_stop ht
      omega

end Cut

/-! ## A body among the children -/

/-- **A declaration is cut at its own body exactly if no body comes before it.**  In a well-nested
tree, let a type or function have no field for its body, but a child that is one.  Then its body is
taken to open where that child does exactly if none of the children before holds a body, and then
its signature shows every token of these children.  Otherwise it is taken to open within one of
them. -/
theorem cut_at_own_body_iff {body : Node} (hroot : root.WellNested source.utf8ByteSize)
    (hmem : binding ∈ (ofTree path language source root).bindings)
    (hd : (ofTree path language source root).declare binding = .ok d)
    (hkind : binding.kind ≠ .property)
    (hfield : binding.site.node.childByField? "body" = none)
    (hbody : binding.site.node.childOfKind? language.bodyKinds = some body)
    (hopens : Node.BodiesOpen language.bodyKinds root binding.site.node) :
    ∃ (own : Nat) (token : Token) (s : TokenRange),
      (TokenStream.ofTree source root).tokens[own]? = some token ∧ token.start = body.opening ∧
      d.range (TokenStream.ofTree source root) path .signature = .ok s ∧
      (d.body? = some own ↔ ∀ child ∈ binding.site.node.childrenBefore body.start,
        child.firstIn? language.bodyKinds = none) ∧
      (d.body? = some own → ∀ child ∈ binding.site.node.childrenBefore body.start,
        ∀ (k : Nat) (t : Token), (TokenStream.ofTree source root).tokens[k]? = some t →
          t.Within child → s.first ≤ k ∧ k ≤ s.last) ∧
      (d.body? ≠ some own → ∃ child ∈ binding.site.node.childrenBefore body.start,
        ∃ (k : Nat) (t : Token), d.body? = some k ∧
          (TokenStream.ofTree source root).tokens[k]? = some t ∧ t.Within child) := by
  have htiled := TokenStream.tiled_ofTree hroot.spans
  have hnode := wellNested_site hmem hroot
  have hchild : body ∈ binding.site.node.children := List.mem_of_find?_eq_some hbody
  have hpart := Node.part_of_mem_children hchild
  have hbodyKind : body.kind ∈ language.bodyKinds := List.contains_iff_mem.1
    (List.find?_some (p := fun c : Node => language.bodyKinds.contains c.kind) hbody)
  obtain ⟨own, token, htoken, hstart, hwithin, -⟩ :=
    ((hopens.part hpart).here hbodyKind).exists_opening hroot (hnode.part hpart)
  obtain ⟨s, hs⟩ : ∃ s, d.range (TokenStream.ofTree source root) path .signature = .ok s :=
    ⟨_, range_signature_of_declare hd hkind _ _⟩
  -- A token of an earlier child comes before the body.
  have hbefore : ∀ child ∈ binding.site.node.childrenBefore body.start, ∀ (k : Nat) (t : Token),
      (TokenStream.ofTree source root).tokens[k]? = some t → t.Within child → k < own := by
    intro child hearlier k t ht htwithin
    have hstop := (Node.mem_childrenBefore.1 hearlier).2
    have hend := htwithin.stop
    have hfirst := hwithin.start
    exact htiled.lt_of_stop_le_start ht htoken (by omega)
  refine ⟨own, token, s, htoken, hstart, hs, ?_⟩
  cases cutSeenFrom hroot hmem hd hkind hfield hopens hchild
      (hwithin.start_lt_stop (htiled.start_lt_stop htoken)) with
  | @before child cut t hearlier hheld hcut ht htwithin =>
      have hne : d.body? ≠ some own := by
        rw [hcut]
        intro h
        exact Nat.ne_of_lt (hbefore child hearlier cut t ht htwithin) (Option.some.inj h)
      exact ⟨⟨fun h => absurd h hne, fun hnone => absurd (hnone child hearlier) hheld⟩,
        fun h => absurd h hne, fun _ => ⟨child, hearlier, cut, t, hcut, ht, htwithin⟩⟩
  | @within found cut t hnone hfound hcut ht htstart htwithin =>
      rw [Node.firstIn?_of_mem hbodyKind] at hfound
      obtain rfl : body = found := Option.some.inj hfound
      have hsame : t.start = token.start := htstart.trans hstart.symm
      have hpos := htiled.start_lt_stop ht
      have hpos' := htiled.start_lt_stop htoken
      obtain rfl : cut = own :=
        htiled.eq_of_byte ht htoken ⟨Nat.le_refl t.start, hpos⟩ (by omega)
      refine ⟨⟨fun _ => hnone, fun _ => hcut⟩, ?_, fun hne => absurd hcut hne⟩
      intro _ child hearlier k t' ht' htwithin'
      have hlt := hbefore child hearlier k t' ht' htwithin'
      have hinside := Node.part_of_mem_children (Node.mem_childrenBefore.1 hearlier).1
      exact (shown_iff_lt hroot hmem hd hkind hs hcut ht (htwithin.of_part hpart hnode) ht'
        (htwithin'.of_part hinside hnode) (Nat.ne_of_lt hlt)).2 hlt
  | behind _ hnot _ =>
      rw [Node.firstIn?_of_mem hbodyKind] at hnot
      exact nomatch hnot

end SourceFile

/-- Two functions, the first with an object in the default of its parameter. -/
def defaultedText : String :=
  "fun f(a: Any = object \x7b\x7d) \x7b\x7d\nfun g(b: B) \x7b\x7d\n"

/-- The tree of `defaultedText`. -/
def defaulted : Node :=
  ⟨"source_file", true, none, 0, 44, [
    ⟨"function_declaration", true, none, 0, 28, [
      ⟨"fun", false, none, 0, 3, []⟩,
      ⟨"identifier", true, some "name", 4, 5, []⟩,
      ⟨"function_value_parameters", true, none, 5, 25, [
        ⟨"(", false, none, 5, 6, []⟩,
        ⟨"parameter", true, none, 6, 12, [
          ⟨"identifier", true, none, 6, 7, []⟩,
          ⟨":", false, none, 7, 8, []⟩,
          ⟨"user_type", true, none, 9, 12, [
            ⟨"identifier", true, none, 9, 12, []⟩]⟩]⟩,
        ⟨"=", false, none, 13, 14, []⟩,
        ⟨"object_literal", true, none, 15, 24, [
          ⟨"object", false, none, 15, 21, []⟩,
          ⟨"class_body", true, none, 22, 24, [
            ⟨Node.openBrace, false, none, 22, 23, []⟩,
            ⟨"\x7d", false, none, 23, 24, []⟩]⟩]⟩,
        ⟨")", false, none, 24, 25, []⟩]⟩,
      ⟨"function_body", true, none, 26, 28, [
        ⟨"block", true, none, 26, 28, [
          ⟨Node.openBrace, false, none, 26, 27, []⟩,
          ⟨"\x7d", false, none, 27, 28, []⟩]⟩]⟩]⟩,
    ⟨"function_declaration", true, none, 29, 43, [
      ⟨"fun", false, none, 29, 32, []⟩,
      ⟨"identifier", true, some "name", 33, 34, []⟩,
      ⟨"function_value_parameters", true, none, 34, 40, [
        ⟨"(", false, none, 34, 35, []⟩,
        ⟨"parameter", true, none, 35, 39, [
          ⟨"identifier", true, none, 35, 36, []⟩,
          ⟨":", false, none, 36, 37, []⟩,
          ⟨"user_type", true, none, 38, 39, [
            ⟨"identifier", true, none, 38, 39, []⟩]⟩]⟩,
        ⟨")", false, none, 39, 40, []⟩]⟩,
      ⟨"function_body", true, none, 41, 43, [
        ⟨"block", true, none, 41, 43, [
          ⟨Node.openBrace, false, none, 41, 42, []⟩,
          ⟨"\x7d", false, none, 42, 43, []⟩]⟩]⟩]⟩]⟩

/-- The file of `defaultedText`. -/
def defaultedFile : SourceFile := .ofTree ⟨"m.kt"⟩ .kotlin defaultedText defaulted

/-- In `defaultedText`, the second function is cut at its own body, and shows its parameters. -/
theorem cut_at_own_body_iff_defaulted :
    defaulted.WellFormed defaultedText ∧
    ∃ (binding : Binding) (body : Node) (d : Declaration) (s : TokenRange),
      binding ∈ defaultedFile.bindings ∧ binding.name = "g" ∧ binding.kind = .function ∧
      defaultedFile.declare binding = .ok d ∧
      binding.site.node.childByField? "body" = none ∧
      binding.site.node.childOfKind? Language.kotlin.bodyKinds = some body ∧
      Node.BodiesOpen Language.kotlin.bodyKinds defaulted binding.site.node ∧
      d.range (TokenStream.ofTree defaultedText defaulted) ⟨"m.kt"⟩ .signature = .ok s ∧
      (∃ own token, (TokenStream.ofTree defaultedText defaulted).tokens[own]? = some token ∧
        token.start = body.opening ∧ d.body? = some own) ∧
      ∃ parameters ∈ binding.site.node.children, parameters.kind = "function_value_parameters" ∧
        ∀ (k : Nat) (t : Token),
          (TokenStream.ofTree defaultedText defaulted).tokens[k]? = some t →
          t.Within parameters → s.first ≤ k ∧ k ≤ s.last := by
  have hroot : defaulted.WellFormed defaultedText := by decide +kernel
  obtain ⟨binding, hmem, hname, hkind, hd, hfield, hsome, hopens, hchildren⟩ :
      ∃ b ∈ defaultedFile.bindings, b.name = "g" ∧ b.kind = .function ∧
        (defaultedFile.declare b).toOption = some ⟨.function, "g", 2, 20, 31, some 30, none⟩ ∧
        b.site.node.childByField? "body" = none ∧
        (b.site.node.childOfKind? Language.kotlin.bodyKinds).isSome ∧
        Node.BodiesOpen Language.kotlin.bodyKinds defaulted b.site.node ∧
        (∀ body ∈ b.site.node.childOfKind? Language.kotlin.bodyKinds,
          (∀ child ∈ b.site.node.childrenBefore body.start,
            child.firstIn? Language.kotlin.bodyKinds = none) ∧
          ∃ child ∈ b.site.node.childrenBefore body.start,
            child.kind = "function_value_parameters") := by decide +kernel
  obtain ⟨body, hbody⟩ := Option.isSome_iff_exists.1 hsome
  obtain ⟨hnone, parameters, hbefore, hparameters⟩ := hchildren body hbody
  have hproperty : binding.kind ≠ .property := by
    rw [hkind]
    nofun
  obtain ⟨own, token, s, htoken, hstart, hs, hcut, hshown, -⟩ :=
    SourceFile.cut_at_own_body_iff hroot.toWellNested hmem (eq_ok_of_toOption hd) hproperty hfield
      hbody hopens
  have hown := hcut.2 hnone
  exact ⟨hroot, binding, body, _, s, hmem, hname, hkind, eq_ok_of_toOption hd, hfield, hbody,
    hopens, hs, ⟨own, token, htoken, hstart, hown⟩, parameters,
    (Node.mem_childrenBefore.1 hbefore).1, hparameters, hshown hown parameters hbefore⟩

/-- A function need not be cut at its own body: the first one in `defaultedText` is cut within its
parameters. -/
theorem not_forall_cut_at_own_body :
    ¬ ∀ (path : Path) (source : String) (root : Node) (binding : Binding) (d : Declaration)
      (body : Node) (own : Nat) (token : Token), root.WellFormed source →
      binding ∈ (SourceFile.ofTree path .kotlin source root).bindings →
      (SourceFile.ofTree path .kotlin source root).declare binding = .ok d →
      binding.kind ≠ .property → binding.site.node.childByField? "body" = none →
      binding.site.node.childOfKind? Language.kotlin.bodyKinds = some body →
      (TokenStream.ofTree source root).tokens[own]? = some token → token.start = body.opening →
      d.body? = some own := by
  intro hown
  obtain ⟨binding, hmem, hkind, hd, hfield, hopening⟩ :
      ∃ b ∈ defaultedFile.bindings, b.kind = .function ∧
        (defaultedFile.declare b).toOption = some ⟨.function, "f", 1, 0, 18, some 13, none⟩ ∧
        b.site.node.childByField? "body" = none ∧
        (b.site.node.childOfKind? Language.kotlin.bodyKinds).map Node.opening = some 26 := by
    decide +kernel
  have hbrace : ((TokenStream.ofTree defaultedText defaulted).tokens[17]?).map Token.start =
      some 26 := by decide +kernel
  obtain ⟨body, hbody, hbodyOpening⟩ := Option.map_eq_some_iff.1 hopening
  obtain ⟨token, htoken, hstart⟩ := Option.map_eq_some_iff.1 hbrace
  have hcut := hown ⟨"m.kt"⟩ defaultedText defaulted binding _ body 17 token (by decide +kernel)
    hmem (eq_ok_of_toOption hd) (by rw [hkind]; nofun) hfield hbody htoken
    (hstart.trans hbodyOpening.symm)
  exact absurd hcut (by decide)

end LiveExcerpts
