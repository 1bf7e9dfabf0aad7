import LiveExcerpts.Proofs.Bodies
import LiveExcerpts.Proofs.Excerpts.Range
import LiveExcerpts.Proofs.Placement
/-!
# Signatures of properties that hold objects

The object that a property holds is found in the tree, and its brace is looked for again among the
tokens, from the object's first token on.  Where the object begins with a brace of its own, both are
the same token, whatever braces the type of the property or its neighbours have, and the signature
ends two tokens before it.

Main definition: `Node.InBraces`.  Main statements:
`Declaration.range_signature_of_own_brace`, and `SourceFile.signature_ends_before_object`.
-/

namespace LiveExcerpts

/-! ## Objects in braces -/

/-- The kind of a closing brace. -/
def Node.closeBrace : String := "\x7d"

/-- An object in braces: its first leaf is an opening brace, with which it starts, and it stops with
a closing brace that comes later.  Both are leaves of the whole tree, so nothing inside a comment is
in braces. -/
structure Node.InBraces (root object opening : Node) : Prop where
  /-- The opening brace is the object's own first leaf. -/
  head : object.leaves.head? = some opening
  /-- It is a leaf of the tree. -/
  mem : opening ∈ root.leaves
  /-- It is a brace. -/
  kind : opening.kind = Node.openBrace
  /-- The object starts with it. -/
  start : opening.start = object.start
  /-- The object stops with a closing brace. -/
  closed : ∃ closing ∈ root.leaves, closing.kind = Node.closeBrace ∧
    opening.stop ≤ closing.start ∧ closing.stop = object.stop

/-- **An object in braces begins with the token of its own brace**, and another token of it
follows. -/
theorem Node.InBraces.exists_tokens {source : String} {root object opening : Node}
    (h : Node.InBraces root object opening) (hroot : root.WellNested source.utf8ByteSize) :
    ∃ (brace last : Nat) (token close : Token), brace < last ∧
      (TokenStream.ofTree source root).tokens[brace]? = some token ∧ token.IsOf opening ∧
      token.Within object ∧
      (TokenStream.ofTree source root).tokens[last]? = some close ∧ close.Within object ∧
      (TokenStream.ofTree source root).tokenAt? object.start = some brace := by
  have htiled := TokenStream.tiled_ofTree hroot.spans
  obtain ⟨closing, hclosing, -, hafter, hend⟩ := h.closed
  obtain ⟨brace, token, htoken, hof⟩ := TokenStream.exists_token_of_mem_leaves hroot h.mem
  obtain ⟨last, close, hclose, hofClose⟩ := TokenStream.exists_token_of_mem_leaves hroot hclosing
  have hstart : token.start = object.start := hof.start.trans h.start
  have hstop : close.stop = object.stop := hofClose.stop.trans hend
  have horder : token.stop ≤ close.start := by rw [hof.stop, hofClose.start]; exact hafter
  have hopen := htiled.start_lt_stop htoken
  have hshut := htiled.start_lt_stop hclose
  have hat := htiled.tokenAt?_start htoken
  rw [hstart] at hat
  exact ⟨brace, last, token, close, htiled.lt_of_stop_le_start htoken hclose horder, htoken, hof,
    ⟨Nat.le_of_eq hstart.symm, by omega⟩, hclose, ⟨by omega, Nat.le_of_eq hstop⟩, hat⟩

/-! ## Signatures that end before an object -/

namespace Declaration

variable {stream : TokenStream} {file : Path} {d : Declaration}

/-- An object that begins with a brace is where its brace is found, if it comes after the
declaration's first token and before its last. -/
theorem brace?_of_own_brace {object : Nat} {token : Token}
    (htoken : stream.tokens[object]? = some token) (hbrace : token.kind = Node.openBrace)
    (hstart : d.start < object) (hstop : object < d.stop) :
    d.brace? stream object = some object := by
  have hlow : max object (d.start + 1) = object := Nat.max_eq_left hstart
  rw [brace?_eq_some_iff, hlow]
  exact ⟨⟨token, htoken, hbrace⟩, Nat.le_refl _, hstop,
    fun i t hi hlt => absurd hi (Nat.not_le_of_lt hlt)⟩

/-- **The signature of a property that holds an object in braces ends two tokens before it**, if
there are as many. -/
theorem range_signature_of_own_brace {object : Nat} {token : Token} (hkind : d.kind = .property)
    (hobject : d.object? = some object) (htoken : stream.tokens[object]? = some token)
    (hbrace : token.kind = Node.openBrace) (hstart : d.start + 2 ≤ object)
    (hstop : object < d.stop) :
    d.range stream file .signature = .ok ⟨stream.firstToken d.start, object - 2⟩ := by
  have hfound := brace?_of_own_brace htoken hbrace (by omega : d.start < object) hstop
  have hfirst := stream.firstToken_le d.start
  have hmax : max (object - 2) (stream.firstToken d.start) = object - 2 := by omega
  rw [range_signature, signatureEnd_of_brace? hkind hobject hfound]
  show Except.ok (TokenRange.mk _ (max (object - 2) (stream.firstToken d.start))) = _
  rw [hmax]

end Declaration

/-! ## Objects of located properties -/

namespace SourceFile

variable {path : Path} {language : Language} {source : String} {root : Node} {binding : Binding}

/-- **A property that holds an object in braces is a declaration**, with the brace as the first
token of the object, and more behind it. -/
theorem exists_declare_of_inBraces {object opening : Node}
    (hmem : binding ∈ (ofTree path language source root).bindings)
    (hroot : root.WellNested source.utf8ByteSize) (hkind : binding.kind = .property)
    (hobject : binding.object? language = some object)
    (hbraces : Node.InBraces root object opening) :
    ∃ (d : Declaration) (brace : Nat) (token : Token),
      (ofTree path language source root).declare binding = .ok d ∧ d.kind = .property ∧
      (TokenStream.ofTree source root).tokens[brace]? = some token ∧ token.IsOf opening ∧
      d.object? = some brace ∧ brace < d.stop := by
  have hpart := part_of_object? hmem hobject
  have hnode := wellNested_site hmem hroot
  obtain ⟨brace, last, token, close, hlt, htoken, hof, hopen, hclose, hshut, hat⟩ :=
    hbraces.exists_tokens hroot
  obtain ⟨d, hd, -, -⟩ := exists_declare_of_within hmem hroot htoken (hopen.of_part hpart hnode)
  obtain ⟨-, hlast⟩ :=
    start_le_and_le_stop_of_within hmem hroot hd hclose (hshut.of_part hpart hnode)
  obtain ⟨-, -, hdkind, -, -, -, hheld⟩ := declare_eq_ok_iff.1 hd
  refine ⟨d, brace, token, hd, hdkind.trans hkind, htoken, hof, ?_, Nat.lt_of_lt_of_le hlt hlast⟩
  rw [hheld, if_pos hkind]
  show (binding.object? language).bind _ = some brace
  rw [hobject]
  exact hat

/-- **The signature of a property ends before the object that it holds.**  In a well-nested tree,
let a name that is bound by a property lead to an object in braces, directly or through wrappers
that start where it does, with at least two tokens between the start of the decorated declaration
and the object.  Then the property is located, its object's first token is the object's own opening
brace, the same token is found again as the brace, and the signature ends two tokens before it.  So
no token of the signature reaches into the object. -/
theorem signature_ends_before_object (identifier : String) (object opening : Node)
    (hroot : root.WellNested source.utf8ByteSize)
    (hfound : (ofTree path language source root).bindings.find?
      (fun b => b.name == identifier) = some binding)
    (hkind : binding.kind = .property) (hobject : binding.object? language = some object)
    (hbraces : Node.InBraces root object opening)
    (hbetween : ∃ (i j : Nat) (a b : Token), i < j ∧
      (TokenStream.ofTree source root).tokens[i]? = some a ∧
      (TokenStream.ofTree source root).tokens[j]? = some b ∧
      binding.start language ≤ a.start ∧ b.stop ≤ object.start) :
    ∃ (d : Declaration) (brace : Nat) (token : Token) (s : TokenRange),
      (ofTree path language source root).locate identifier = .ok d ∧
      (TokenStream.ofTree source root).tokens[brace]? = some token ∧ token.IsOf opening ∧
      d.object? = some brace ∧
      d.brace? (TokenStream.ofTree source root) brace = some brace ∧
      d.range (TokenStream.ofTree source root) path .signature = .ok s ∧
      s.first ≤ d.start ∧ d.start ≤ s.last ∧ s.last + 2 = brace ∧
      ∀ (k : Nat) (t : Token), (TokenStream.ofTree source root).tokens[k]? = some t →
        s.first ≤ k → k ≤ s.last → t.stop ≤ object.start := by
  have htiled := TokenStream.tiled_ofTree hroot.spans
  have hmem : binding ∈ (ofTree path language source root).bindings :=
    List.mem_of_find?_eq_some hfound
  obtain ⟨d, brace, token, hd, hproperty, htoken, hof, hheld, hstop⟩ :=
    exists_declare_of_inBraces hmem hroot hkind hobject hbraces
  have hbegin : token.start = object.start := hof.start.trans hbraces.start
  have hbrace : token.kind = Node.openBrace := hof.kind.trans hbraces.kind
  -- The two tokens in between come after the declaration's first one, and before the brace.
  obtain ⟨i, j, a, b, hij, ha, hb, hstart, hbefore⟩ := hbetween
  obtain ⟨first, hle, hfirst⟩ := htiled.exists_tokenAt?_le ha hstart
  obtain rfl : first = d.start := Option.some.inj (hfirst.symm.trans (declare_eq_ok_iff.1 hd).1)
  have hjb : j < brace := htiled.lt_of_stop_le_start hb htoken (by rw [hbegin]; exact hbefore)
  have htwo : d.start + 2 ≤ brace := by omega
  refine ⟨d, brace, token, ⟨(TokenStream.ofTree source root).firstToken d.start, brace - 2⟩,
    (locate_of_find? hfound).trans hd, htoken, hof, hheld,
    Declaration.brace?_of_own_brace htoken hbrace (Nat.lt_of_succ_lt htwo) hstop,
    Declaration.range_signature_of_own_brace hproperty hheld htoken hbrace htwo hstop,
    TokenStream.firstToken_le _ _, Nat.le_sub_of_add_le htwo,
    Nat.sub_add_cancel (Nat.le_of_add_left_le htwo), ?_⟩
  intro k t ht _ (hk : k ≤ brace - 2)
  rw [← hbegin]
  exact htiled.stop_le_start ht htoken (by omega)

end SourceFile

/-- The opening brace of the first object in `exportedText`. -/
def exportedBrace : Node := ⟨Node.openBrace, false, none, 21, 22, []⟩

/-- The first object in `exportedText`. -/
def exportedObject : Node :=
  ⟨"object", true, none, 21, 23, [exportedBrace, ⟨Node.closeBrace, false, none, 22, 23, []⟩]⟩

theorem inBraces_exported : Node.InBraces exported exportedObject exportedBrace where
  head := rfl
  mem := List.mem_of_getElem? (rfl : exported.leaves[7]? = some exportedBrace)
  kind := rfl
  start := rfl
  closed := ⟨_, List.mem_of_getElem?
    (rfl : exported.leaves[8]? = some ⟨Node.closeBrace, false, none, 22, 23, []⟩),
    rfl, by decide, rfl⟩

/-- In `exportedText`, the signature of the first property ends before its object, which is inside a
wrapper and comes after the braces of a type. -/
theorem signature_ends_before_object_exported :
    exported.WellNested exportedText.utf8ByteSize ∧
    Node.InBraces exported exportedObject exportedBrace ∧
    ∃ (binding : Binding) (d : Declaration) (s : TokenRange),
      exportedFile.bindings.find? (fun b => b.name == "o") = some binding ∧
      binding.kind = .property ∧ binding.object? .typeScript = some exportedObject ∧
      exportedFile.locate "o" = .ok d ∧ d.object? = some 12 ∧
      d.range (TokenStream.ofTree exportedText exported) ⟨"a.ts"⟩ .signature = .ok s ∧
      s.last = 10 := by
  have hroot := wellFormed_exported.toWellNested
  obtain ⟨binding, hfound, hobject⟩ := Option.bind_eq_some_iff.1
    (rfl : (exportedFile.bindings.find? fun b => b.name == "o").bind (Binding.object? .typeScript) =
      some exportedObject)
  have hbinding : ∀ b ∈ exportedFile.bindings.find? (fun b => b.name == "o"),
      b.kind = .property ∧ b.start .typeScript = 0 := by decide +kernel
  obtain ⟨hkind, hstart⟩ := hbinding binding hfound
  obtain ⟨d, brace, token, s, hd, -, -, hheld, -, hs, -, -, hlast, -⟩ :=
    SourceFile.signature_ends_before_object "o" exportedObject exportedBrace hroot hfound hkind
      hobject inBraces_exported ⟨0, 11, ⟨"export", 0, 6, 1, .significant⟩,
        ⟨"whitespace", 20, 21, 1, .hidden⟩, by decide, by decide +kernel, by decide +kernel,
        Nat.le_of_eq hstart, by decide⟩
  have hlocated : (exportedFile.locate "o").toOption =
      some ⟨.property, "o", 1, 0, 26, none, some 12⟩ := by decide +kernel
  obtain rfl := Except.ok.inj (hd.symm.trans (eq_ok_of_toOption hlocated))
  obtain rfl : 12 = brace := Option.some.inj hheld
  exact ⟨hroot, inBraces_exported, binding, _, s, hfound, hkind, hobject, hd, rfl, hs,
    Nat.add_right_cancel hlast⟩

end LiveExcerpts
