import LiveExcerpts.Declaration
/-!
# Excerpts

The run of tokens that is shown of a declaration.  It begins with the comments above the
declaration and ends before the body, or with it.

Main definitions: `Extent`, `Declaration.range`.  Main statements: a run is never empty
(`range_first_le_last`), and everything from its first token to the declaration's is trivia
(`isTrivia_of_firstToken_le`).
-/

namespace LiveExcerpts

/-- How much of a declaration is shown. -/
inductive Extent where
  /-- The signature, without the body. -/
  | signature
  /-- All of it. -/
  | definition
deriving DecidableEq, Repr

/-- A run of tokens by its first and last index. -/
structure TokenRange where
  /-- The first token. -/
  first : Nat
  /-- The last token. -/
  last : Nat
deriving DecidableEq, Repr

/-- The token that an excerpt begins with whose declaration begins at token `index`: the one after
the last significant token above, or the first of the file. -/
def TokenStream.firstToken (stream : TokenStream) : Nat → Nat
  | 0 => 0
  | index + 1 => if stream.isTrivia index then stream.firstToken index else index + 1

/-- The opening brace of the object that a property holds: the first one from the object on, after
the property's first token and before its last. -/
def Declaration.brace? (stream : TokenStream) (d : Declaration) (object : Nat) : Option Nat :=
  let low := max object (d.start + 1)
  (List.range' low (min d.stop stream.size - low)).find? fun index =>
    stream.tokens[index]?.any fun token => token.kind == Node.openBrace

/-- The last token of a declaration's signature. -/
def Declaration.signatureEnd (stream : TokenStream) (file : Path) (d : Declaration) :
    Except Error Nat :=
  match d.kind, d.body?, d.object? with
  | .type, some body, _ | .function, some body, _ => .ok (body - 1)
  | .property, _, some object =>
    match d.brace? stream object with
    | some brace => .ok (brace - 2)
    | none => .error (.bodyNotFound file d.name)
  | _, _, _ => .ok d.stop

/-- The tokens that are shown of a declaration. -/
def Declaration.range (stream : TokenStream) (file : Path) (extent : Extent) (d : Declaration) :
    Except Error TokenRange := do
  let first := stream.firstToken (min d.start stream.size)
  let last ← match extent with
    | .signature => d.signatureEnd stream file
    | .definition => pure d.stop
  return ⟨first, max last first⟩

/-! ## Laws -/

theorem TokenStream.firstToken_le (stream : TokenStream) (index : Nat) :
    stream.firstToken index ≤ index := by
  induction index with
  | zero => exact Nat.le_refl 0
  | succ index ih =>
      rw [firstToken]
      split
      · omega
      · exact Nat.le_refl _

/-- Between the first token of an excerpt and its declaration there is nothing significant. -/
theorem TokenStream.isTrivia_of_firstToken_le (stream : TokenStream) {index i : Nat}
    (h : stream.firstToken index ≤ i) (hi : i < index) : stream.isTrivia i = true := by
  induction index with
  | zero => omega
  | succ index ih =>
      rw [firstToken] at h
      split at h
      · next ht =>
          by_cases hii : i = index
          · rw [hii]; exact ht
          · exact ih h (by omega)
      · omega

/-- The token before an excerpt is significant. -/
theorem TokenStream.isTrivia_of_firstToken_eq_succ (stream : TokenStream) {index n : Nat}
    (h : stream.firstToken index = n + 1) : stream.isTrivia n = false := by
  induction index with
  | zero => simp [firstToken] at h
  | succ index ih =>
      rw [firstToken] at h
      split at h
      · exact ih h
      · next ht => obtain rfl : index = n := by omega
                   simpa using ht

/-- A run of tokens is never empty. -/
theorem Declaration.range_first_le_last {stream : TokenStream} {file : Path} {extent : Extent}
    {d : Declaration} {r : TokenRange} (h : d.range stream file extent = .ok r) :
    r.first ≤ r.last := by
  cases extent with
  | definition =>
      obtain rfl : _ = r := Except.ok.inj h
      exact Nat.le_max_right _ _
  | signature =>
      cases hs : d.signatureEnd stream file with
      | error e => simp [range, hs, bind, Except.bind] at h
      | ok last =>
          simp only [range, hs, bind, Except.bind, pure, Except.pure, Except.ok.injEq] at h
          subst h
          exact Nat.le_max_right _ _

end LiveExcerpts
