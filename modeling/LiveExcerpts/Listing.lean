import LiveExcerpts.Declaration
/-!
# Listings

The declarations of a file as a reader is shown them: a line for each, or a JSON array.

Main definitions: `Listing.line`, `Listing.json`.  Main statement: a quoted text holds no control
character, so a listing's lines are its own (`le_toNat_of_mem_quote`).
-/

namespace LiveExcerpts.Listing

/-! ## Lines -/

/-- The kind of a declaration, filled up with spaces so that names stand below one another. -/
def kindColumn (kind : DeclarationKind) : String :=
  let label := kind.label
  label ++ String.ofList (List.replicate (8 - label.length) ' ')

/-- The line for a declaration of a file. -/
def line (file : Path) (declaration : Declaration) : String :=
  s!"{file}:{declaration.line}  {kindColumn declaration.kind}  {declaration.name}"

/-! ## JSON -/

/-- The characters that are escaped by a letter or sign, with that letter or sign. -/
def letterEscapes : List (Char × Char) :=
  [('"', '"'), ('\\', '\\'), ('\x08', 'b'), ('\x0c', 'f'), ('\n', 'n'), ('\r', 'r'), ('\t', 't')]

/-- How a character is written between quotes.  Control characters are escaped, by a letter where
there is one; characters beyond ASCII stand as they are. -/
def quoteChar (c : Char) : List Char :=
  match letterEscapes.lookup c with
  | some letter => ['\\', letter]
  | none =>
    if c.toNat < 32 then
      ['\\', 'u', '0', '0', Nat.digitChar (c.toNat / 16), Nat.digitChar (c.toNat % 16)]
    else [c]

/-- A text between quotes. -/
def quote (cs : List Char) : List Char := '"' :: cs.flatMap quoteChar ++ ['"']

/-- The JSON object for a declaration, indented by one step. -/
def object (declaration : Declaration) : List Char :=
  "  \x7b\n    \"kind\": ".toList ++ quote declaration.kind.label.toList
    ++ ",\n    \"line\": ".toList ++ (toString declaration.line).toList
    ++ ",\n    \"name\": ".toList ++ quote declaration.name.toList
    ++ "\n  \x7d".toList

/-- The JSON array for the declarations of a file. -/
def json (declarations : List Declaration) : String :=
  if declarations.isEmpty then "[]"
  else String.ofList <|
    "[\n".toList ++ ",\n".toList.intercalate (declarations.map object) ++ "\n]".toList

/-! ## Laws -/

theorem le_toNat_of_letterEscapes {c letter : Char}
    (h : letterEscapes.lookup c = some letter) : 32 ≤ letter.toNat := by
  have all : ∀ pair ∈ letterEscapes, 32 ≤ pair.2.toNat := by decide
  obtain ⟨before, after, hsplit, -⟩ := List.lookup_eq_some_iff.1 h
  exact all (c, letter) (hsplit ▸ List.mem_append_right _ List.mem_cons_self)

theorem le_toNat_digitChar {n : Nat} (h : n < 16) : 32 ≤ (Nat.digitChar n).toNat := by
  have all : ∀ k : Fin 16, 32 ≤ (Nat.digitChar k).toNat := by decide
  exact all ⟨n, h⟩

theorem le_toNat_of_mem_quoteChar {c d : Char} (h : d ∈ quoteChar c) : 32 ≤ d.toNat := by
  unfold quoteChar at h
  split at h
  · next letter hl =>
      simp only [List.mem_cons, List.not_mem_nil, or_false] at h
      rcases h with rfl | rfl
      · decide
      · exact le_toNat_of_letterEscapes hl
  · split at h
    · next hc =>
        simp only [List.mem_cons, List.not_mem_nil, or_false] at h
        rcases h with rfl | rfl | rfl | rfl | rfl | rfl
        · decide
        · decide
        · decide
        · decide
        · exact le_toNat_digitChar (by omega)
        · exact le_toNat_digitChar (by omega)
    · next hc =>
        obtain rfl := List.mem_singleton.1 h
        omega

/-- A quoted text holds no control character. -/
theorem le_toNat_of_mem_quote {cs : List Char} {d : Char} (h : d ∈ quote cs) : 32 ≤ d.toNat := by
  rw [quote, List.cons_append, List.mem_cons, List.mem_append, List.mem_flatMap] at h
  rcases h with rfl | ⟨c, -, hc⟩ | hd
  · decide
  · exact le_toNat_of_mem_quoteChar hc
  · obtain rfl := List.mem_singleton.1 hd
    decide

end LiveExcerpts.Listing
