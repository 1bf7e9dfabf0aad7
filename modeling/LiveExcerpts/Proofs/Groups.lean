import LiveExcerpts.Proofs.Bindings
import LiveExcerpts.Proofs.Bodies
/-!
# Types that are declared in groups

One node of Go can declare many types: each name is carried by a child of its own, while the cut of
the signature is looked for below the whole node.  So the signature of a type shows its name exactly
if no type before it in the group has a body.

Main definitions: `Node.nameNode?`, `Node.NameFirst`.  Main statement:
`SourceFile.grouped_name_shown_iff`.
-/

namespace LiveExcerpts

/-! ## Names and what carries them -/

namespace Node

/-- The node of a name: in `field`, or the first child that is a name. -/
def nameNode? (field : String) (node : Node) : Option Node :=
  (node.childByField? field).or (node.childOfKind? nameKinds)

theorem nameIn?_eq (source field : String) (node : Node) :
    node.nameIn? source field = (node.nameNode? field).bind (text? source) := rfl

theorem nameNode?_part {node name : Node} {field : String}
    (h : node.nameNode? field = some name) : Part node name := by
  rcases Option.or_eq_some_iff.1 h with hfield | ⟨-, hkind⟩
  · exact childByField?_part hfield
  · exact childOfKind?_part hkind

/-- The name of a node spans a leaf, and stands before the first body that the node holds. -/
structure NameFirst (kinds : List String) (field : String) (root node : Node) : Prop where
  /-- The name spans a leaf. -/
  leaf : ∀ name ∈ node.nameNode? field,
    ∃ leaf ∈ root.leaves, leaf.start = name.start ∧ leaf.stop = name.stop
  /-- The name stands before the body. -/
  before : ∀ name ∈ node.nameNode? field, ∀ own ∈ node.firstIn? kinds, name.stop ≤ own.opening

instance (kinds : List String) (field : String) (root node : Node) :
    Decidable (NameFirst kinds field root node) :=
  decidable_of_iff
    ((∀ name ∈ node.nameNode? field,
      ∃ leaf ∈ root.leaves, leaf.start = name.start ∧ leaf.stop = name.stop) ∧
      ∀ name ∈ node.nameNode? field, ∀ own ∈ node.firstIn? kinds, name.stop ≤ own.opening)
    ⟨fun h => ⟨h.1, h.2⟩, fun h => ⟨h.leaf, h.before⟩⟩

end Node

/-- The types of Go are named in the children that are type specifications. -/
theorem Language.name_of_go_type {nodeKind : String} {rule : DeclarationRule}
    (h : Language.go.rule? nodeKind = some rule) (hkind : rule.kind = .type) :
    rule.name = .nested "type_spec" "name" := by
  have hall : ∀ rule ∈ goRules, rule.kind = .type → rule.name = .nested "type_spec" "name" := by
    decide
  exact hall rule (List.mem_of_find?_eq_some h) hkind

namespace SourceFile

/-- A type of Go is carried by a child of its node, and named by that child's name. -/
theorem exists_name_of_go_type {file : SourceFile} {binding : Binding} (h : binding ∈ file.bindings)
    (hgo : file.language = .go) (hkind : binding.kind = .type) :
    binding.carrier ∈ binding.site.node.children ∧ binding.carrier.kind = "type_spec" ∧
      ∃ name, binding.carrier.nameNode? "name" = some name ∧
        name.text? file.source = some binding.name := by
  obtain ⟨index, hbinds⟩ := exists_binds h
  obtain ⟨site, carrier, kind, bound⟩ := binding
  simp only at hbinds hkind
  rw [hgo] at hbinds
  cases hbinds with
  | field hrule hfield hname =>
      rw [Language.name_of_go_type hrule hkind] at hfield
      exact nomatch hfield
  | nested hrule hnested hchild hcarrier hname =>
      rw [Language.name_of_go_type hrule hkind] at hnested
      obtain ⟨rfl, rfl⟩ := NameRule.nested.inj hnested
      rw [Node.nameIn?_eq] at hname
      exact ⟨List.mem_of_getElem? hchild, hcarrier, Option.bind_eq_some_iff.1 hname⟩

/-! ## Names in signatures -/

variable {path : Path} {source : String} {root : Node} {binding : Binding} {d : Declaration}

/-- The name of a type is a token in the child that carries it. -/
theorem exists_token_of_nameFirst {language : Language} {field : String} {kinds : List String}
    (hroot : root.WellFormed source)
    (hmem : binding ∈ (ofTree path language source root).bindings)
    (hchild : binding.carrier ∈ binding.site.node.children) {name : Node}
    (hname : binding.carrier.nameNode? field = some name)
    (htext : name.text? source = some binding.name)
    (hfirst : Node.NameFirst kinds field root binding.carrier) :
    ∃ (k : Nat) (token : Token), (TokenStream.ofTree source root).tokens[k]? = some token ∧
      token.Within binding.carrier ∧ token.stop = name.stop ∧
      (TokenStream.ofTree source root).tokenText token = binding.name := by
  obtain ⟨leaf, hleaf, hstart, hstop⟩ := hfirst.leaf name hname
  obtain ⟨k, token, htoken, hof⟩ := TokenStream.exists_token_of_mem_leaves hroot.toWellNested hleaf
  have htokenStart : token.start = name.start := hof.start.trans hstart
  have htokenStop : token.stop = name.stop := hof.stop.trans hstop
  have hinside := (Node.nameNode?_part hname).inside
    ((wellNested_site hmem hroot.toWellNested).part (Node.part_of_mem_children hchild))
  refine ⟨k, token, htoken, ⟨by omega, by omega⟩, htokenStop, ?_⟩
  show (Text.slice? source token.start token.stop).getD "" = binding.name
  rw [htokenStart, htokenStop]
  exact congrArg (Option.getD · "") htext

/-- **A type in a group shows its name exactly if none before it has a body.**  In a well-formed
tree of Go, let the name of a type span a leaf and stand before its own body.  Then this name is a
token, and the signature of the type shows it exactly if no earlier child of the declaring node
holds a body.  The signature is cut within the child that carries the name exactly if, besides, this
child holds a body. -/
theorem grouped_name_shown_iff (hroot : root.WellFormed source)
    (hmem : binding ∈ (ofTree path .go source root).bindings) (hkind : binding.kind = .type)
    (hd : (ofTree path .go source root).declare binding = .ok d)
    (hfield : binding.site.node.childByField? "body" = none)
    (hopens : Node.BodiesOpen Language.go.bodyKinds root binding.site.node)
    (hfirst : Node.NameFirst Language.go.bodyKinds "name" root binding.carrier) :
    ∃ (k : Nat) (token : Token) (s : TokenRange),
      (TokenStream.ofTree source root).tokens[k]? = some token ∧ token.Within binding.carrier ∧
      (TokenStream.ofTree source root).tokenText token = binding.name ∧
      d.range (TokenStream.ofTree source root) path .signature = .ok s ∧
      ((s.first ≤ k ∧ k ≤ s.last) ↔
        ∀ child ∈ binding.site.node.childrenBefore binding.carrier.start,
          child.firstIn? Language.go.bodyKinds = none) ∧
      ((∃ (cut : Nat) (t : Token), d.body? = some cut ∧
        (TokenStream.ofTree source root).tokens[cut]? = some t ∧ t.Within binding.carrier) ↔
        (∀ child ∈ binding.site.node.childrenBefore binding.carrier.start,
          child.firstIn? Language.go.bodyKinds = none) ∧
        binding.carrier.firstIn? Language.go.bodyKinds ≠ none) := by
  have hproperty : binding.kind ≠ .property := by
    rw [hkind]
    nofun
  obtain ⟨hchild, -, name, hname, htext⟩ := exists_name_of_go_type hmem rfl hkind
  obtain ⟨k, token, htoken, hwithin, hstop, hshows⟩ :=
    exists_token_of_nameFirst hroot hmem hchild hname htext hfirst
  obtain ⟨s, hs⟩ : ∃ s, d.range (TokenStream.ofTree source root) path .signature = .ok s :=
    ⟨_, range_signature_of_declare hd hproperty _ _⟩
  have hbefore : ∀ own ∈ binding.carrier.firstIn? Language.go.bodyKinds,
      token.stop ≤ own.opening := by
    intro own hown
    rw [hstop]
    exact hfirst.before name hname own hown
  have hlt := hwithin.start_lt_stop
    ((TokenStream.tiled_ofTree hroot.spans).start_lt_stop htoken)
  exact ⟨k, token, s, htoken, hwithin, hshows, hs,
    shown_in_child_iff hroot.toWellNested hmem hd hproperty hfield hopens hs hchild htoken hwithin
      hbefore,
    exists_cut_within_iff hroot.toWellNested hmem hd hproperty hfield hopens hchild hlt⟩

end SourceFile

/-- Two types in one group, each with a body. -/
def twoTypesText : String :=
  "package p\n\ntype (\n\tA struct\x7b a int \x7d\n\tB struct\x7b b int \x7d\n)\n"

/-- The tree of `twoTypesText`. -/
def twoTypes : Node :=
  ⟨"source_file", true, none, 0, 58, [
    ⟨"package_clause", true, none, 0, 9, [
      ⟨"package", false, none, 0, 7, []⟩,
      ⟨"package_identifier", true, none, 8, 9, []⟩]⟩,
    ⟨"type_declaration", true, none, 11, 57, [
      ⟨"type", false, none, 11, 15, []⟩,
      ⟨"(", false, none, 16, 17, []⟩,
      ⟨"type_spec", true, none, 19, 36, [
        ⟨"type_identifier", true, some "name", 19, 20, []⟩,
        ⟨"struct_type", true, some "type", 21, 36, [
          ⟨"struct", false, none, 21, 27, []⟩,
          ⟨"field_declaration_list", true, none, 27, 36, [
            ⟨Node.openBrace, false, none, 27, 28, []⟩,
            ⟨"field_declaration", true, none, 29, 34, [
              ⟨"field_identifier", true, some "name", 29, 30, []⟩,
              ⟨"type_identifier", true, some "type", 31, 34, []⟩]⟩,
            ⟨"\x7d", false, none, 35, 36, []⟩]⟩]⟩]⟩,
      ⟨"type_spec", true, none, 38, 55, [
        ⟨"type_identifier", true, some "name", 38, 39, []⟩,
        ⟨"struct_type", true, some "type", 40, 55, [
          ⟨"struct", false, none, 40, 46, []⟩,
          ⟨"field_declaration_list", true, none, 46, 55, [
            ⟨Node.openBrace, false, none, 46, 47, []⟩,
            ⟨"field_declaration", true, none, 48, 53, [
              ⟨"field_identifier", true, some "name", 48, 49, []⟩,
              ⟨"type_identifier", true, some "type", 50, 53, []⟩]⟩,
            ⟨"\x7d", false, none, 54, 55, []⟩]⟩]⟩]⟩,
      ⟨")", false, none, 56, 57, []⟩]⟩]⟩

/-- The file of `twoTypesText`. -/
def twoTypesFile : SourceFile := .ofTree ⟨"m.go"⟩ .go twoTypesText twoTypes

/-- In `twoTypesText`, the first type shows its name, and is cut within its own specification. -/
theorem grouped_name_shown_iff_twoTypes :
    twoTypes.WellFormed twoTypesText ∧
    ∃ (binding : Binding) (d : Declaration) (k : Nat) (token : Token) (s : TokenRange),
      binding ∈ twoTypesFile.bindings ∧ binding.name = "A" ∧ binding.kind = .type ∧
      twoTypesFile.declare binding = .ok d ∧
      binding.site.node.childByField? "body" = none ∧
      Node.BodiesOpen Language.go.bodyKinds twoTypes binding.site.node ∧
      Node.NameFirst Language.go.bodyKinds "name" twoTypes binding.carrier ∧
      (TokenStream.ofTree twoTypesText twoTypes).tokens[k]? = some token ∧
      (TokenStream.ofTree twoTypesText twoTypes).tokenText token = "A" ∧
      d.range (TokenStream.ofTree twoTypesText twoTypes) ⟨"m.go"⟩ .signature = .ok s ∧
      (s.first ≤ k ∧ k ≤ s.last) ∧
      ∃ (cut : Nat) (t : Token), d.body? = some cut ∧
        (TokenStream.ofTree twoTypesText twoTypes).tokens[cut]? = some t ∧
        t.Within binding.carrier := by
  have hroot : twoTypes.WellFormed twoTypesText := by decide +kernel
  obtain ⟨binding, hmem, hname, hkind, hd, hfield, hopens, hfirst, hnone, hown⟩ :
      ∃ b ∈ twoTypesFile.bindings, b.name = "A" ∧ b.kind = .type ∧
        (twoTypesFile.declare b).toOption = some ⟨.type, "A", 3, 4, 30, some 11, none⟩ ∧
        b.site.node.childByField? "body" = none ∧
        Node.BodiesOpen Language.go.bodyKinds twoTypes b.site.node ∧
        Node.NameFirst Language.go.bodyKinds "name" twoTypes b.carrier ∧
        (∀ child ∈ b.site.node.childrenBefore b.carrier.start,
          child.firstIn? Language.go.bodyKinds = none) ∧
        b.carrier.firstIn? Language.go.bodyKinds ≠ none := by decide +kernel
  obtain ⟨k, token, s, htoken, -, htext, hs, hshown, hcut⟩ :=
    SourceFile.grouped_name_shown_iff hroot hmem hkind (eq_ok_of_toOption hd) hfield hopens hfirst
  exact ⟨hroot, binding, _, k, token, s, hmem, hname, hkind, eq_ok_of_toOption hd, hfield, hopens,
    hfirst, htoken, htext.trans hname, hs, hshown.2 hnone, hcut.2 ⟨hnone, hown⟩⟩

/-- The signature of a type need not show its name: that of the second type in `twoTypesText` is cut
at the body of the first. -/
theorem not_forall_grouped_name_shown :
    ¬ ∀ (path : Path) (source : String) (root : Node) (binding : Binding) (d : Declaration)
      (s : TokenRange), root.WellFormed source →
      binding ∈ (SourceFile.ofTree path .go source root).bindings → binding.kind = .type →
      (SourceFile.ofTree path .go source root).declare binding = .ok d →
      Node.NameFirst Language.go.bodyKinds "name" root binding.carrier →
      d.range (TokenStream.ofTree source root) path .signature = .ok s →
      ∃ (k : Nat) (token : Token), (s.first ≤ k ∧ k ≤ s.last) ∧
        (TokenStream.ofTree source root).tokens[k]? = some token ∧
        (TokenStream.ofTree source root).tokenText token = binding.name := by
  intro hshown
  obtain ⟨binding, hmem, hname, hkind, hd, hfirst⟩ :
      ∃ b ∈ twoTypesFile.bindings, b.name = "B" ∧ b.kind = .type ∧
        (twoTypesFile.declare b).toOption = some ⟨.type, "B", 3, 4, 30, some 11, none⟩ ∧
        Node.NameFirst Language.go.bodyKinds "name" twoTypes b.carrier := by decide +kernel
  have hrange : ((⟨.type, "B", 3, 4, 30, some 11, none⟩ : Declaration).range
      (TokenStream.ofTree twoTypesText twoTypes) ⟨"m.go"⟩ .signature).toOption = some ⟨3, 10⟩ := by
    decide +kernel
  obtain ⟨k, token, ⟨-, hk⟩, htoken, htext⟩ := hshown ⟨"m.go"⟩ twoTypesText twoTypes binding _ _
    (by decide +kernel) hmem hkind (eq_ok_of_toOption hd) hfirst (eq_ok_of_toOption hrange)
  have hother : ∀ k ≤ 10, ∀ t ∈ (TokenStream.ofTree twoTypesText twoTypes).tokens[k]?,
      (TokenStream.ofTree twoTypesText twoTypes).tokenText t ≠ "B" := by decide +kernel
  exact hother k hk token htoken (htext.trans hname)

end LiveExcerpts
