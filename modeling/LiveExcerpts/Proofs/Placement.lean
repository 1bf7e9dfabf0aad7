import LiveExcerpts.Proofs.Bindings
/-!
# Where the tokens of declarations are

A declaration is told by tokens that are looked up at bytes of three nodes: the whole declaration
with its decorations, its body, and the object that it holds.  The body and the object are below the
declaring node, so where every whole declaration ends with a leaf, all these tokens exist and stand
in order.

Main definition: `Declaration.IsPlaced`.  Main statements: the object that a property holds is below
its node (`SourceFile.part_of_object?`), what becomes of a binding is placed
(`SourceFile.isPlaced_of_declare`), and all declarations of a file are listed and located
(`SourceFile.declarations_isPlaced`).
-/

namespace LiveExcerpts

/-! ## The object that a property holds -/

namespace Node

theorem objectAmong?_part {kinds : List String} {start : Nat} {parent found : Node}
    (ih : ∀ child ∈ parent.children, ∀ found, child.objectAt? kinds start = some found →
      child.start = start → Part child found ∧ found.start = start) :
    ∀ nodes : List Node, (∀ node ∈ nodes, node ∈ parent.children) →
      objectAmong? kinds start nodes = some found → Part parent found ∧ found.start = start := by
  intro nodes hsub h
  induction nodes with
  | nil => exact nomatch h
  | cons node rest ihrest =>
      rw [List.forall_mem_cons] at hsub
      rw [objectAmong?] at h
      split at h
      · split at h
        · next hstart =>
            obtain ⟨hpart, hfound⟩ := ih node hsub.1 found h hstart
            exact ⟨(part_of_mem_children hsub.1).trans hpart, hfound⟩
        · exact nomatch h
      · exact ihrest hsub.2 h

/-- **The object that a node leads to** is a part of it that starts where the node does. -/
theorem objectAt?_part {kinds : List String} {start : Nat} {node found : Node}
    (h : node.objectAt? kinds start = some found) (hstart : node.start = start) :
    Part node found ∧ found.start = start := by
  induction node using childrenInduction generalizing found with
  | step node ih =>
      obtain ⟨kind, isNamed, field?, first, stop, children⟩ := node
      rw [objectAt?] at h
      split at h
      · obtain rfl := Option.some.inj h
        exact ⟨.root, hstart⟩
      · exact objectAmong?_part (fun child hchild found hfound heq => ih child hchild hfound heq)
          children (fun _ hmem => hmem) h

/-- What a node leads to is of one of the kinds that are looked for. -/
theorem kind_of_objectAt? {kinds : List String} {start : Nat} {node found : Node}
    (h : node.objectAt? kinds start = some found) : found.kind ∈ kinds := by
  induction node using childrenInduction generalizing found with
  | step node ih =>
      obtain ⟨kind, isNamed, field?, first, stop, children⟩ := node
      have hamong : ∀ nodes : List Node, (∀ node ∈ nodes, node ∈ children) →
          objectAmong? kinds start nodes = some found → found.kind ∈ kinds := by
        intro nodes hsub hfound
        induction nodes with
        | nil => exact nomatch hfound
        | cons child rest ihrest =>
            rw [List.forall_mem_cons] at hsub
            rw [objectAmong?] at hfound
            split at hfound
            · split at hfound
              · exact ih child hsub.1 hfound
              · exact nomatch hfound
            · exact ihrest hsub.2 hfound
      rw [objectAt?] at h
      split at h
      · next hkind =>
          obtain rfl := Option.some.inj h
          exact List.contains_iff_mem.1 hkind
      · exact hamong children (fun _ hmem => hmem) h

end Node

namespace SourceFile

variable {file : SourceFile} {binding : Binding}

/-- What carries a name is the declaring node or one of its children. -/
theorem part_of_carrier (h : binding ∈ file.bindings) :
    Node.Part binding.site.node binding.carrier := by
  obtain ⟨index, hbinds⟩ := exists_binds h
  obtain ⟨site, carrier, kind, name⟩ := binding
  simp only at hbinds
  cases hbinds with
  | field _ _ _ => exact .root
  | nested _ _ hchild _ _ => exact Node.part_of_mem_children (List.mem_of_getElem? hchild)

/-- The value that a carrier is given is below the declaring node. -/
theorem part_of_value? (h : binding ∈ file.bindings) {value : Node}
    (hvalue : binding.value? = some value) : Node.Part binding.site.node value := by
  rcases Option.or_eq_some_iff.1 hvalue with hfield | ⟨-, hassigned⟩
  · exact (part_of_carrier h).trans (Node.childByField?_part hfield)
  · have hafter := List.mem_of_mem_tail (List.mem_of_find?_eq_some hassigned)
    exact Node.part_of_mem_children ((List.dropWhile_sublist _).subset hafter)

/-- **The object that a property holds is below its node.** -/
theorem part_of_object? (h : binding ∈ file.bindings) {language : Language} {object : Node}
    (hobject : binding.object? language = some object) : Node.Part binding.site.node object := by
  obtain ⟨value, hvalue, hfound⟩ := Option.bind_eq_some_iff.1 hobject
  exact (part_of_value? h hvalue).trans (Node.objectAt?_part hfound rfl).1

end SourceFile

/-! ## Placed declarations -/

/-- **The tokens of a declaration are where its nodes are.**  They stand in order in the stream, the
first at or after the start of the decorated declaration, the last at the end of the whole one; the
body of a type or function and the object of a property open between them, or right behind. -/
structure Declaration.IsPlaced (stream : TokenStream) (language : Language) (binding : Binding)
    (d : Declaration) : Prop extends d.Fits stream where
  /-- The kind is that of the binding. -/
  kind : d.kind = binding.kind
  /-- The name is that of the binding. -/
  name : d.name = binding.name
  /-- The first token does not start before the decorated declaration. -/
  le_start : ∃ token : Token, stream.tokens[d.start]? = some token ∧
    binding.start language ≤ token.start
  /-- The last token stops where the whole declaration does. -/
  stop_eq : ∃ token : Token, stream.tokens[d.stop]? = some token ∧
    token.stop = (binding.outer language).node.stop
  /-- Only properties hold an object. -/
  kind_of_object : ∀ object, d.object? = some object → d.kind = .property
  /-- A body does not open before the declaration. -/
  start_le_body : ∀ body, d.body? = some body → d.start ≤ body
  /-- An object does not open before the declaration. -/
  start_le_object : ∀ object, d.object? = some object → d.start ≤ object
  /-- An object opens at most one token behind the declaration. -/
  object_le : ∀ object, d.object? = some object → object ≤ d.stop + 1

namespace SourceFile

variable {path : Path} {language : Language} {source : String} {root : Node} {binding : Binding}

/-- A token that is looked up at the start of a part of the declaring node is one of the
declaration's, or the next one behind them. -/
theorem tokenAt?_of_part {d : Declaration}
    (hmem : binding ∈ (ofTree path language source root).bindings)
    (hroot : root.WellNested source.utf8ByteSize)
    (houter : Node.EndsAtLeaf root (binding.outer language).node)
    (hd : (ofTree path language source root).declare binding = .ok d) {part : Node}
    (hpart : Node.Part binding.site.node part) {byte i : Nat}
    (hbyte : part.start ≤ byte ∧ byte ≤ part.stop)
    (hi : (TokenStream.ofTree source root).tokenAt? byte = some i) :
    d.start ≤ i ∧ i ≤ d.stop + 1 := by
  obtain ⟨hunder, hsite⟩ := outer_under hmem
  have hinside := (hsite.trans hpart).inside (hroot.part hunder.part)
  exact tokenAt?_inside hmem hroot houter hd (Nat.le_trans hinside.1 hbyte.1)
    (Nat.le_trans hbyte.2 hinside.2) hi

/-- **What becomes of a binding whose whole declaration ends with a leaf is placed.** -/
theorem isPlaced_of_declare {d : Declaration}
    (hmem : binding ∈ (ofTree path language source root).bindings)
    (hroot : root.WellNested source.utf8ByteSize)
    (houter : Node.EndsAtLeaf root (binding.outer language).node)
    (hd : (ofTree path language source root).declare binding = .ok d) :
    d.IsPlaced (TokenStream.ofTree source root) language binding := by
  obtain ⟨d', x, y, hd', hx, hy, hstart, hstop, -⟩ := exists_declare hmem hroot houter
  obtain rfl : d = d' := Except.ok.inj (hd.symm.trans hd')
  have hsite : Node.Part root binding.site.node :=
    (Node.Site.under_of_mem_sites (site_mem_sites hmem)).part
  obtain ⟨-, -, hkind, hname, -, hbody, hobject⟩ := declare_eq_ok_iff.1 hd
  have hopens : ∀ object, d.object? = some object →
      d.kind = .property ∧ d.start ≤ object ∧ object ≤ d.stop + 1 := by
    intro object hsome
    rw [hsome] at hobject
    split at hobject
    · next hproperty =>
        obtain ⟨node, hnode, hat⟩ := Option.bind_eq_some_iff.1 hobject.symm
        have hpart := part_of_object? hmem hnode
        have hspan := (hroot.part (hsite.trans hpart)).start_le_stop
        exact ⟨hkind.trans hproperty,
          tokenAt?_of_part hmem hroot houter hd hpart ⟨Nat.le_refl _, hspan⟩ hat⟩
    · exact nomatch hobject
  have hstartBody : ∀ body, d.body? = some body → d.start ≤ body := by
    intro body hsome
    rw [hsome] at hbody
    split at hbody
    · exact nomatch hbody
    · obtain ⟨byte, hbyte, hat⟩ := Option.bind_eq_some_iff.1 hbody.symm
      have hinside := Node.bodyStart?_inside (hroot.part hsite) hbyte
      exact (tokenAt?_of_part hmem hroot houter hd .root hinside hat).1
  exact
    { fits_of_declare hmem hroot houter hd with
      kind := hkind
      name := hname
      le_start := ⟨x, hx, hstart⟩
      stop_eq := ⟨y, hy, hstop⟩
      kind_of_object := fun object h => (hopens object h).1
      start_le_body := hstartBody
      start_le_object := fun object h => (hopens object h).2.1
      object_le := fun object h => (hopens object h).2.2 }

/-- **All declarations of a file are listed, and located, with consistent tokens.**  In a
well-nested tree in which every whole declaration holds a leaf and ends with one, the list is
complete: it has one declaration for each binding, which is placed.  A name that is bound is located
as the first binding of that name, which is placed; any other name is not found, and nothing else
ever fails. -/
theorem declarations_isPlaced (path : Path) (language : Language) (source : String) (root : Node)
    (hroot : root.WellNested source.utf8ByteSize)
    (houter : ∀ binding ∈ (ofTree path language source root).bindings,
      Node.EndsAtLeaf root (binding.outer language).node) :
    (∃ listed, (ofTree path language source root).declarations = .ok listed ∧
      List.Forall₂ (fun binding d => Declaration.IsPlaced (TokenStream.ofTree source root) language
        binding d) (ofTree path language source root).bindings listed) ∧
    ∀ identifier,
      (∃ binding d, (ofTree path language source root).bindings.find?
          (fun b => b.name == identifier) = some binding ∧
        (ofTree path language source root).locate identifier = .ok d ∧
        d.IsPlaced (TokenStream.ofTree source root) language binding) ∨
      identifier ∉ (ofTree path language source root).bindings.map Binding.name ∧
        (ofTree path language source root).locate identifier = .error (.declarationNotFound
          (ofTree path language source root).availableNames path identifier) := by
  have hdeclared : ∀ binding ∈ (ofTree path language source root).bindings,
      ∃ d, (ofTree path language source root).declare binding = .ok d ∧
        d.IsPlaced (TokenStream.ofTree source root) language binding := by
    intro binding hmem
    obtain ⟨d, -, -, hd, -⟩ := exists_declare hmem hroot (houter binding hmem)
    exact ⟨d, hd, isPlaced_of_declare hmem hroot (houter binding hmem) hd⟩
  constructor
  · obtain ⟨listed, hlisted⟩ := exists_forall₂_of_forall_mem hdeclared
    exact ⟨listed, declarations_eq_ok_iff.2 (hlisted.imp fun _ _ h => h.1),
      hlisted.imp fun _ _ h => h.2⟩
  · intro identifier
    cases hfound : (ofTree path language source root).bindings.find?
        fun b => b.name == identifier with
    | some binding =>
        obtain ⟨d, hd, hplaced⟩ := hdeclared binding (List.mem_of_find?_eq_some hfound)
        exact .inl ⟨binding, d, rfl, (locate_of_find? hfound).trans hd, hplaced⟩
    | none =>
        refine .inr ⟨find?_bindings_eq_none_iff.1 hfound, ?_⟩
        rw [locate, hfound]
        rfl

end SourceFile

/-- An exported statement that binds two objects, and a function. -/
def exportedText : String :=
  "export const o: \x7b\x7d = \x7b\x7d as T, p = \x7b\x7d;\nfunction f() \x7b\x7d"

/-- The tree of `exportedText`. -/
def exported : Node :=
  ⟨"program", true, none, 0, 53, [
    ⟨"export_statement", true, none, 0, 37, [
      ⟨"export", false, none, 0, 6, []⟩,
      ⟨"lexical_declaration", true, some "declaration", 7, 37, [
        ⟨"const", false, some "kind", 7, 12, []⟩,
        ⟨"variable_declarator", true, none, 13, 28, [
          ⟨"identifier", true, some "name", 13, 14, []⟩,
          ⟨"type_annotation", true, some "type", 14, 18, [
            ⟨":", false, none, 14, 15, []⟩,
            ⟨"object_type", true, none, 16, 18, [
              ⟨Node.openBrace, false, none, 16, 17, []⟩,
              ⟨"\x7d", false, none, 17, 18, []⟩]⟩]⟩,
          ⟨"=", false, none, 19, 20, []⟩,
          ⟨"as_expression", true, some "value", 21, 28, [
            ⟨"object", true, none, 21, 23, [
              ⟨Node.openBrace, false, none, 21, 22, []⟩,
              ⟨"\x7d", false, none, 22, 23, []⟩]⟩,
            ⟨"as", false, none, 24, 26, []⟩,
            ⟨"type_identifier", true, none, 27, 28, []⟩]⟩]⟩,
        ⟨",", false, none, 28, 29, []⟩,
        ⟨"variable_declarator", true, none, 30, 36, [
          ⟨"identifier", true, some "name", 30, 31, []⟩,
          ⟨"=", false, none, 32, 33, []⟩,
          ⟨"object", true, some "value", 34, 36, [
            ⟨Node.openBrace, false, none, 34, 35, []⟩,
            ⟨"\x7d", false, none, 35, 36, []⟩]⟩]⟩,
        ⟨";", false, none, 36, 37, []⟩]⟩]⟩,
    ⟨"function_declaration", true, none, 38, 53, [
      ⟨"function", false, none, 38, 46, []⟩,
      ⟨"identifier", true, some "name", 47, 48, []⟩,
      ⟨"formal_parameters", true, some "parameters", 48, 50, [
        ⟨"(", false, none, 48, 49, []⟩,
        ⟨")", false, none, 49, 50, []⟩]⟩,
      ⟨"statement_block", true, some "body", 51, 53, [
        ⟨Node.openBrace, false, none, 51, 52, []⟩,
        ⟨"\x7d", false, none, 52, 53, []⟩]⟩]⟩]⟩

/-- The file of `exportedText`. -/
def exportedFile : SourceFile := .ofTree ⟨"a.ts"⟩ .typeScript exportedText exported

theorem wellFormed_exported : exported.WellFormed exportedText := by decide +kernel

/-- In `exportedText`, two properties with objects and a function with a body are listed, and the
second property is located. -/
theorem declarations_isPlaced_exported :
    exported.WellNested exportedText.utf8ByteSize ∧
    (∀ binding ∈ exportedFile.bindings,
      Node.EndsAtLeaf exported (binding.outer .typeScript).node) ∧
    (∃ listed, exportedFile.declarations = .ok listed ∧
      listed.map Declaration.name = ["o", "p", "f"] ∧
      List.Forall₂ (fun binding d => Declaration.IsPlaced
        (TokenStream.ofTree exportedText exported) .typeScript binding d)
        exportedFile.bindings listed) ∧
    ∃ binding d, binding ∈ exportedFile.bindings ∧ exportedFile.locate "p" = .ok d ∧
      d.IsPlaced (TokenStream.ofTree exportedText exported) .typeScript binding := by
  have houter : ∀ binding ∈ exportedFile.bindings,
      Node.EndsAtLeaf exported (binding.outer .typeScript).node := by decide +kernel
  have hnames : exportedFile.bindings.map Binding.name = ["o", "p", "f"] := by decide +kernel
  obtain ⟨⟨listed, hlisted, hplaced⟩, hlocated⟩ := SourceFile.declarations_isPlaced ⟨"a.ts"⟩
    .typeScript exportedText exported wellFormed_exported.toWellNested houter
  refine ⟨wellFormed_exported.toWellNested, houter, ⟨listed, hlisted, ?_, hplaced⟩, ?_⟩
  · rw [← hnames]
    exact SourceFile.map_name_of_declare (SourceFile.declarations_eq_ok_iff.1 hlisted)
  · rcases hlocated "p" with ⟨binding, d, hfound, hd, hp⟩ | ⟨hnot, -⟩
    · exact ⟨binding, d, List.mem_of_find?_eq_some hfound, hd, hp⟩
    · exact absurd (show "p" ∈ exportedFile.bindings.map Binding.name by rw [hnames]; decide) hnot

end LiveExcerpts
