import LiveExcerpts.SourceFile
/-!
# Declarations

The declarations of a source file, found by walking its tree in pre-order, and the one that carries
a given name.  Names are bare: where a declaration is nested, and what its parameters are, is not
asked; of several with one name the first counts.

Main definitions: `SourceFile.bindings`, `SourceFile.declarations`, `SourceFile.locate`.  Main
statements: `locate` answers by the first binding with the name (`locate_of_find?`), and fails for
want of one exactly when no binding has it (`find?_bindings_eq_none_iff`).
-/

namespace LiveExcerpts

/-- A declaration in terms of its file's tokens. -/
structure Declaration where
  /-- What it declares. -/
  kind : DeclarationKind
  /-- Its name. -/
  name : String
  /-- The line of its first token, counted from one. -/
  line : Nat
  /-- Its first token, decorations and wrappers included. -/
  start : Nat
  /-- Its last token. -/
  stop : Nat
  /-- The first token of the body of a type or function. -/
  body? : Option Nat
  /-- The first token of the object that a property holds. -/
  object? : Option Nat
deriving DecidableEq, Repr

/-! ## Names bound in a tree -/

/-- A name that a node declares. -/
structure Binding where
  /-- The declaring node and where it stands. -/
  site : Node.Site
  /-- The node that carries the name: the declaring node, or one of its children. -/
  carrier : Node
  /-- What is declared. -/
  kind : DeclarationKind
  /-- The name. -/
  name : String
deriving Repr

/-- The kinds of nodes that are names where the grammar gives a name no field. -/
def nameKinds : List String := ["identifier", "simple_identifier", "type_identifier"]

/-- The name in `field` of a node, or in its first child that is a name. -/
def Node.nameIn? (source field : String) (node : Node) : Option String :=
  ((node.childByField? field).or (node.childOfKind? nameKinds)).bind (Node.text? source)

/-- The names that a node declares by a rule, each with the node that carries it. -/
def DeclarationRule.names (rule : DeclarationRule) (source : String) (node : Node) :
    List (String × Node) :=
  match rule.name with
  | .field field => (node.nameIn? source field).toList.map (·, node)
  | .nested childKind field =>
    node.children.filterMap fun child =>
      if child.kind = childKind then (child.nameIn? source field).map (·, child) else none

/-- The names declared at a site. -/
def Node.Site.bindings (language : Language) (source : String) (site : Node.Site) :
    List Binding :=
  match language.rule? site.node.kind with
  | none => []
  | some rule =>
    (rule.names source site.node).map fun (name, carrier) => ⟨site, carrier, rule.kind, name⟩

/-- All names declared in a file, an outer declaration before those inside it. -/
def SourceFile.bindings (file : SourceFile) : List Binding :=
  file.root.sites.flatMap (Node.Site.bindings file.language file.source)

/-! ## From nodes to tokens -/

/-- The first byte of a declaration that starts at `start`, below the given siblings, the nearest
first: decorations right above it belong to it, and comments between them do not part them. -/
def decoratedStart (decorations : List String) (start : Nat) : List Node → Nat
  | [] => start
  | sibling :: rest =>
    if decorations.contains sibling.kind then decoratedStart decorations sibling.start rest
    else if sibling.isComment then decoratedStart decorations start rest
    else start

/-- The byte where a node's body opens: the body is the `body` field or the first body below the
node, and opens at its own brace if it has one. -/
def Node.bodyStart? (language : Language) (node : Node) : Option Nat :=
  ((node.childByField? "body").or (node.descendant? language.bodyKinds)).map fun body =>
    (body.childOfKind? [Node.openBrace]).elim body.start Node.start

/-- The value that a declaring node gives a carrier: the carrier's `value` field, or what follows
the first `=` among the node's children. -/
def Binding.value? (binding : Binding) : Option Node :=
  (binding.carrier.childByField? "value").or
    ((binding.site.node.children.dropWhile (·.kind != "=")).tail.find? Node.isNamed)

mutual

/-- The object of one of `kinds` that a node is, or that its first named children lead to as long
as they start at `start`. -/
def Node.objectAt? (kinds : List String) (start : Nat) : Node → Option Node
  | node@⟨kind, _, _, _, _, children⟩ =>
    if kinds.contains kind then some node else objectAmong? kinds start children

/-- The object that the first named node in a row leads to. -/
def Node.objectAmong? (kinds : List String) (start : Nat) : List Node → Option Node
  | [] => none
  | node :: rest =>
    if node.isNamed then
      if node.start = start then node.objectAt? kinds start else none
    else objectAmong? kinds start rest

end

/-- The object that a property holds. -/
def Binding.object? (language : Language) (binding : Binding) : Option Node :=
  binding.value?.bind fun value => value.objectAt? language.objectKinds value.start

/-- The site of the whole declaration: the declaring node in all its wrappers. -/
def Binding.outer (language : Language) (binding : Binding) : Node.Site :=
  binding.site.climb language.wrapperKinds

/-- The first byte of the whole declaration with its decorations. -/
def Binding.start (language : Language) (binding : Binding) : Nat :=
  let outer := binding.outer language
  decoratedStart language.decorationKinds outer.node.start outer.before

/-- The declaration of a name in terms of tokens.  It fails if no token starts at or after the
declaration, or none ends at or before its end. -/
def SourceFile.declare (file : SourceFile) (binding : Binding) : Except Error Declaration :=
  let outside := Error.parseFailed file.path
    s!"declaration `{binding.name}` lies outside the token stream"
  match file.tokens.tokenAt? (binding.start file.language),
      file.tokens.lastEndingAt? (binding.outer file.language).node.stop with
  | some start, some stop =>
    let line := (file.tokens.tokens[start]?).elim 1 Token.line
    let body? := (binding.site.node.bodyStart? file.language).bind file.tokens.tokenAt?
    let object? := (binding.object? file.language).bind fun o => file.tokens.tokenAt? o.start
    match binding.kind with
    | .type | .function => .ok ⟨binding.kind, binding.name, line, start, stop, body?, none⟩
    | .property => .ok ⟨binding.kind, binding.name, line, start, stop, none, object?⟩
  | _, _ => .error outside

/-! ## Listing and locating -/

/-- All declarations of a file, in pre-order. -/
def SourceFile.declarations (file : SourceFile) : Except Error (List Declaration) :=
  file.bindings.mapM file.declare

/-- The names that a file offers when a name is not found.  A name that follows itself is given
once. -/
def SourceFile.availableNames (file : SourceFile) : List String :=
  (file.bindings.map Binding.name).eraseReps

/-- The first declaration with this name. -/
def SourceFile.locate (file : SourceFile) (identifier : String) : Except Error Declaration :=
  match file.bindings.find? fun binding => binding.name == identifier with
  | some binding => file.declare binding
  | none => .error (.declarationNotFound file.availableNames file.path identifier)

/-! ## Laws -/

/-- A binding of a name settles where it is located. -/
theorem SourceFile.locate_of_find? {file : SourceFile} {identifier : String} {binding : Binding}
    (h : file.bindings.find? (fun b => b.name == identifier) = some binding) :
    file.locate identifier = file.declare binding := by
  rw [locate, h]

/-- Nothing is found exactly for the names that are not bound. -/
theorem SourceFile.find?_bindings_eq_none_iff {file : SourceFile} {identifier : String} :
    file.bindings.find? (fun b => b.name == identifier) = none ↔
      identifier ∉ file.bindings.map Binding.name := by
  simp only [List.find?_eq_none, List.mem_map, beq_iff_eq, not_exists, not_and]

/-- A declaration keeps the name it was found by. -/
theorem SourceFile.name_of_declare {file : SourceFile} {binding : Binding} {d : Declaration}
    (h : file.declare binding = .ok d) : d.name = binding.name := by
  rw [declare] at h
  simp only at h
  split at h
  · split at h <;> (injection h with h; subst h; rfl)
  · simp at h

end LiveExcerpts
