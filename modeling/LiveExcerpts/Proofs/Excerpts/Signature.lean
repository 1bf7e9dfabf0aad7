import LiveExcerpts.Proofs.Excerpts.Definition
/-!
# The text of a signature

An excerpt of a signature begins where the excerpt of the whole definition does and ends no later.
It ends in one of four ways: before the body, before the object that a property holds, with the
declaration where there is neither, and never before its own first token.

Main statements: a signature ends within its declaration (`Declaration.Fits.signatureEnd_le`), so
its text is a prefix of that of the definition, and where there is a body, the body is the whole
rest (`textOf_definition_eq_append`).
-/

namespace LiveExcerpts

variable {stream : TokenStream} {file : Path}

/-! ## Neighbouring runs of a well-formed tree -/

namespace TokenStream

variable {source : String} {root : Node}

/-- In a well-formed tree, a run of tokens may be cut after any of them. -/
theorem textOf_append (hroot : root.WellFormed source) {a b c : Nat} (hab : a ≤ b) (hbc : b < c)
    (hc : c < (ofTree source root).size) :
    (ofTree source root).textOf a b ++ (ofTree source root).textOf (b + 1) c =
      (ofTree source root).textOf a c := by
  have hb : b < (ofTree source root).size := Nat.lt_trans hbc hc
  obtain ⟨x, hx⟩ := exists_getElem?_of_lt_size (Nat.lt_of_le_of_lt hab hb)
  obtain ⟨y, hy⟩ := exists_getElem?_of_lt_size hb
  obtain ⟨z, hz⟩ := exists_getElem?_of_lt_size hc
  have hxedge := (isEdge_of_getElem? hroot hx).1
  have hyedge := (isEdge_of_getElem? hroot hy).2
  have hzedge := (isEdge_of_getElem? hroot hz).2
  exact (tiled_ofTree hroot.spans).textOf_append hab hbc hx hy hz hxedge hyedge hzedge

/-- A run of tokens that ends no later has a text that the longer run's begins with. -/
theorem exists_textOf_eq_append (hroot : root.WellFormed source) {a b c : Nat} (hab : a ≤ b)
    (hbc : b ≤ c) (hc : c < (ofTree source root).size) :
    ∃ rest, (ofTree source root).textOf a c = (ofTree source root).textOf a b ++ rest := by
  rcases Nat.lt_or_eq_of_le hbc with hlt | rfl
  · exact ⟨_, (textOf_append hroot hab hlt hc).symm⟩
  · exact ⟨"", by rw [String.append_empty]⟩

end TokenStream

/-! ## Where a signature ends -/

namespace Declaration

/-- **A signature ends within its declaration.** -/
theorem Fits.signatureEnd_le {d : Declaration} (hd : d.Fits stream) {last : Nat}
    (h : d.signatureEnd stream file = .ok last) : last ≤ d.stop :=
  Declaration.signatureEnd_le (Nat.le_refl _) hd.body_le h

/-- With a body, a signature ends right before it. -/
theorem Fits.signatureEnd_of_body {d : Declaration} (hd : d.Fits stream) {body : Nat}
    (hbody : d.body? = some body) : d.signatureEnd stream file = .ok (body - 1) := by
  rw [signatureEnd, hbody]
  cases hkind : d.kind with
  | type => rfl
  | function => rfl
  | property => exact absurd hkind (hd.kind_of_body body hbody)

/-- A signature that there is begins and ends within the definition's excerpt. -/
theorem Fits.exists_textOf_definition {source : String} {root : Node} {d : Declaration}
    (hd : d.Fits (TokenStream.ofTree source root)) (hroot : root.WellFormed source) {s : TokenRange}
    (hs : d.range (TokenStream.ofTree source root) file .signature = .ok s) :
    ∃ (r : TokenRange) (rest : String),
      d.range (TokenStream.ofTree source root) file .definition = .ok r ∧
      (TokenStream.ofTree source root).textOf r.first r.last =
        (TokenStream.ofTree source root).textOf s.first s.last ++ rest := by
  obtain ⟨last, hend, rfl⟩ := range_signature_eq_ok_iff.1 hs
  have hlast := hd.signatureEnd_le hend
  have hle := hd.start_le_stop
  have hfirst := (TokenStream.ofTree source root).firstToken_le d.start
  have hmax : max last ((TokenStream.ofTree source root).firstToken d.start) ≤ d.stop := by omega
  obtain ⟨rest, hrest⟩ := TokenStream.exists_textOf_eq_append hroot (Nat.le_max_right _ _) hmax
    hd.stop_lt_size
  exact ⟨_, rest, hd.range_definition file, hrest⟩

/-- A body that opens inside its declaration is the whole rest of the definition. -/
theorem Fits.textOf_definition_of_body {source : String} {root : Node} {d : Declaration}
    (hd : d.Fits (TokenStream.ofTree source root)) (hroot : root.WellFormed source) {body : Nat}
    (hbody : d.body? = some body) (hlt : d.start < body) (hle : body ≤ d.stop) :
    ∃ s r : TokenRange,
      d.range (TokenStream.ofTree source root) file .signature = .ok s ∧
      d.range (TokenStream.ofTree source root) file .definition = .ok r ∧
      s.first = r.first ∧ s.last + 1 = body ∧ r.last = d.stop ∧
      (TokenStream.ofTree source root).textOf r.first r.last =
        (TokenStream.ofTree source root).textOf s.first s.last ++
          (TokenStream.ofTree source root).textOf body d.stop := by
  have hfirst := (TokenStream.ofTree source root).firstToken_le d.start
  have hmax : max (body - 1) ((TokenStream.ofTree source root).firstToken d.start) = body - 1 := by
    omega
  have hsucc : body - 1 + 1 = body := by omega
  have hend : d.signatureEnd (TokenStream.ofTree source root) file = .ok (body - 1) :=
    hd.signatureEnd_of_body hbody
  have hsignature := range_signature_eq_ok_iff.2 ⟨_, hend, rfl⟩
  rw [hmax] at hsignature
  refine ⟨_, _, hsignature, hd.range_definition file, rfl, hsucc, rfl, ?_⟩
  -- The signature stops one token before the body.
  have hcut : (TokenStream.ofTree source root).firstToken d.start ≤ body - 1 := by omega
  have happend := TokenStream.textOf_append hroot hcut (by omega) hd.stop_lt_size
  rw [hsucc] at happend
  exact happend.symm

end Declaration

/-! ## Signature and definition -/

/-- **The signature is a prefix of the definition.**  In a well-formed tree, where the whole
declaration holds a leaf and ends with one, the text of the signature of what is located, if there
is one, begins the text of its definition; and where a type or function has a body that opens after
the declaration's first token and not after its last, the two run side by side up to the body, and
the definition goes on with exactly the text from the body to the end. -/
theorem textOf_definition_eq_append (path : Path) (language : Language) (source : String)
    (root : Node) (identifier : String) (binding : Binding) (d : Declaration)
    (hroot : root.WellFormed source)
    (hfound : (SourceFile.ofTree path language source root).bindings.find?
      (fun b => b.name == identifier) = some binding)
    (hlocate : (SourceFile.ofTree path language source root).locate identifier = .ok d)
    (houter : Node.EndsAtLeaf root (binding.outer language).node) :
    (∀ s, d.range (TokenStream.ofTree source root) path .signature = .ok s →
      ∃ (r : TokenRange) (rest : String),
        d.range (TokenStream.ofTree source root) path .definition = .ok r ∧
        (TokenStream.ofTree source root).textOf r.first r.last =
          (TokenStream.ofTree source root).textOf s.first s.last ++ rest) ∧
    (∀ body, d.body? = some body → d.start < body → body ≤ d.stop →
      ∃ s r : TokenRange,
        d.range (TokenStream.ofTree source root) path .signature = .ok s ∧
        d.range (TokenStream.ofTree source root) path .definition = .ok r ∧
        s.first = r.first ∧ s.last + 1 = body ∧ r.last = d.stop ∧
        (TokenStream.ofTree source root).textOf r.first r.last =
          (TokenStream.ofTree source root).textOf s.first s.last ++
            (TokenStream.ofTree source root).textOf body d.stop) := by
  have hmem : binding ∈ (SourceFile.ofTree path language source root).bindings :=
    List.mem_of_find?_eq_some hfound
  have hd : (SourceFile.ofTree path language source root).declare binding = .ok d :=
    (SourceFile.locate_of_find? hfound).symm.trans hlocate
  have hfits := SourceFile.fits_of_declare hmem hroot.toWellNested houter hd
  constructor
  · intro s hs
    exact hfits.exists_textOf_definition hroot hs
  · intro body hbody hlt hle
    exact hfits.textOf_definition_of_body hroot hbody hlt hle

/-- The declaration of the function in `decoratedText`. -/
def decoratedFunction : Declaration := ⟨.function, "f", 3, 7, 21, some 20, none⟩

theorem locate_decorated :
    (SourceFile.ofTree ⟨"a.rs"⟩ .rust decoratedText decorated).locate "f" =
      .ok decoratedFunction := by
  have hfound : ((SourceFile.ofTree ⟨"a.rs"⟩ .rust decoratedText decorated).locate "f").toOption =
      some decoratedFunction := by decide +kernel
  cases h : (SourceFile.ofTree ⟨"a.rs"⟩ .rust decoratedText decorated).locate "f" with
  | error e => rw [h] at hfound; simp [Except.toOption] at hfound
  | ok d => rw [h] at hfound; exact congrArg Except.ok (Option.some.inj hfound)

theorem textOf_definition_eq_append_decorated :
    decorated.WellFormed decoratedText ∧
    (SourceFile.ofTree ⟨"a.rs"⟩ .rust decoratedText decorated).locate "f" =
      .ok decoratedFunction ∧
    ∃ (binding : Binding) (s r : TokenRange),
      (SourceFile.ofTree ⟨"a.rs"⟩ .rust decoratedText decorated).bindings.find?
        (fun b => b.name == "f") = some binding ∧
      Node.EndsAtLeaf decorated (binding.outer .rust).node ∧
      decoratedFunction.range (TokenStream.ofTree decoratedText decorated) ⟨"a.rs"⟩
        .signature = .ok s ∧
      decoratedFunction.range (TokenStream.ofTree decoratedText decorated) ⟨"a.rs"⟩
        .definition = .ok r ∧
      s.last + 1 = 20 ∧
      (TokenStream.ofTree decoratedText decorated).textOf r.first r.last =
        (TokenStream.ofTree decoratedText decorated).textOf s.first s.last ++ "\x7b\x7d" := by
  have hroot : decorated.WellFormed decoratedText := by decide +kernel
  obtain ⟨binding, hfound, hsnug, -, -⟩ := exists_binding_decorated
  have houter := (hsnug _ List.mem_cons_self).endsAtLeaf
  obtain ⟨-, hrest⟩ := textOf_definition_eq_append ⟨"a.rs"⟩ .rust decoratedText decorated "f"
    binding decoratedFunction hroot hfound locate_decorated houter
  obtain ⟨s, r, hs, hr, -, hlast, -, htext⟩ := hrest 20 rfl (by decide) (by decide)
  refine ⟨hroot, locate_decorated, binding, s, r, hfound, houter, hs, hr, hlast, ?_⟩
  have hbody : (TokenStream.ofTree decoratedText decorated).textOf 20 decoratedFunction.stop =
      "\x7b\x7d" := by decide +kernel
  rw [htext, hbody]

end LiveExcerpts
