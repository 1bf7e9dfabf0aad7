import LiveExcerpts.Path
/-!
# Source languages

What the declaration finder knows of each language: which files are written in it, which nodes of
its trees declare something and how such a node is named, and the few node kinds that mark bodies,
decorations, wrappers and object values.  Nothing else in the library tells languages apart.

Main definitions: `Language`, `Language.ofExtension?`, `Language.rules`, `Language.rule?`.
-/

namespace LiveExcerpts

/-- The kinds of declaration that an excerpt can show. -/
inductive DeclarationKind where
  /-- A struct, enum, trait, class, interface, module or named type. -/
  | type
  /-- A function or method, with or without a body. -/
  | function
  /-- A constant, static, variable or field. -/
  | property
deriving DecidableEq, Repr

/-- The name of a kind in listings. -/
def DeclarationKind.label : DeclarationKind → String
  | .type => "class"
  | .function => "function"
  | .property => "property"

/-- Where the name of a declaring node is found. -/
inductive NameRule where
  /-- In a field of the node itself. -/
  | field (name : String)
  /-- In a field of each child of the kind `childKind`, so that one node declares many names. -/
  | nested (childKind name : String)
deriving DecidableEq, Repr

/-- A kind of node that declares something. -/
structure DeclarationRule where
  /-- What it declares. -/
  kind : DeclarationKind
  /-- The kind of the node. -/
  nodeKind : String
  /-- Where its names are. -/
  name : NameRule
deriving DecidableEq, Repr

/-- The languages of source files. -/
inductive Language where
  | go | javaScript | jsx | kotlin | rust | tsx | typeScript
deriving DecidableEq, Repr, Inhabited

namespace Language

/-! ## Files -/

/-- The languages by file extension, in lower case only. -/
def extensions : List (String × Language) :=
  [("go", go), ("js", javaScript), ("mjs", javaScript), ("cjs", javaScript), ("jsx", jsx),
   ("kt", kotlin), ("kts", kotlin), ("rs", rust), ("ts", typeScript), ("mts", typeScript),
   ("cts", typeScript), ("tsx", tsx)]

/-- The language of the files with this extension. -/
def ofExtension? (extension : String) : Option Language := extensions.lookup extension

/-- The label of a fenced block of code in this language. -/
def fence : Language → String
  | go => "go"
  | javaScript => "javascript"
  | jsx => "jsx"
  | kotlin => "kotlin"
  | rust => "rust"
  | tsx => "tsx"
  | typeScript => "typescript"

/-! ## Declarations -/

/-- The declaring nodes of Go. -/
def goRules : List DeclarationRule :=
  [⟨.type, "type_declaration", .nested "type_spec" "name"⟩,
   ⟨.function, "function_declaration", .field "name"⟩,
   ⟨.function, "method_declaration", .field "name"⟩,
   ⟨.property, "const_declaration", .nested "const_spec" "name"⟩,
   ⟨.property, "var_declaration", .nested "var_spec" "name"⟩]

/-- The declaring nodes of Kotlin. -/
def kotlinRules : List DeclarationRule :=
  [⟨.type, "class_declaration", .field "name"⟩,
   ⟨.type, "object_declaration", .field "name"⟩,
   ⟨.function, "function_declaration", .field "name"⟩,
   ⟨.property, "property_declaration", .nested "variable_declaration" "name"⟩]

/-- The declaring nodes of Rust. -/
def rustRules : List DeclarationRule :=
  [⟨.type, "enum_item", .field "name"⟩,
   ⟨.type, "mod_item", .field "name"⟩,
   ⟨.type, "struct_item", .field "name"⟩,
   ⟨.type, "trait_item", .field "name"⟩,
   ⟨.type, "union_item", .field "name"⟩,
   ⟨.function, "function_item", .field "name"⟩,
   ⟨.function, "function_signature_item", .field "name"⟩,
   ⟨.property, "const_item", .field "name"⟩,
   ⟨.property, "static_item", .field "name"⟩]

/-- The declaring nodes of the four languages of the TypeScript family. -/
def scriptRules : List DeclarationRule :=
  [⟨.type, "abstract_class_declaration", .field "name"⟩,
   ⟨.type, "class_declaration", .field "name"⟩,
   ⟨.type, "enum_declaration", .field "name"⟩,
   ⟨.type, "interface_declaration", .field "name"⟩,
   ⟨.function, "function_declaration", .field "name"⟩,
   ⟨.function, "generator_function_declaration", .field "name"⟩,
   ⟨.function, "method_definition", .field "name"⟩,
   ⟨.property, "lexical_declaration", .nested "variable_declarator" "name"⟩,
   ⟨.property, "public_field_definition", .field "name"⟩,
   ⟨.property, "variable_declaration", .nested "variable_declarator" "name"⟩]

/-- The declaring nodes of a language. -/
def rules : Language → List DeclarationRule
  | go => goRules
  | kotlin => kotlinRules
  | rust => rustRules
  | javaScript | jsx | tsx | typeScript => scriptRules

/-- The rule for nodes of this kind, if they declare something. -/
def rule? (language : Language) (nodeKind : String) : Option DeclarationRule :=
  language.rules.find? fun rule => rule.nodeKind == nodeKind

/-! ## Node kinds around a declaration -/

/-- The nodes that hold a type's or function's body where it has no `body` field. -/
def bodyKinds : Language → List String
  | go => ["field_declaration_list", "interface_type"]
  | kotlin => ["class_body", "enum_class_body", "function_body"]
  | javaScript | jsx | rust | tsx | typeScript => []

/-- The siblings right above a declaration that belong to it. -/
def decorationKinds : Language → List String
  | rust => ["attribute_item"]
  | go | javaScript | jsx | kotlin | tsx | typeScript => []

/-- The parents around a declaration that belong to it. -/
def wrapperKinds : Language → List String
  | javaScript | jsx | tsx | typeScript => ["export_statement"]
  | go | kotlin | rust => []

/-- The values that make a property one of an anonymous object. -/
def objectKinds : Language → List String
  | javaScript | jsx | tsx | typeScript => ["object"]
  | kotlin => ["object_literal"]
  | go | rust => []

/-- One language has at most one rule for a kind of node. -/
theorem nodup_nodeKind (language : Language) :
    (language.rules.map DeclarationRule.nodeKind).Nodup := by
  cases language <;> decide

end Language

end LiveExcerpts
