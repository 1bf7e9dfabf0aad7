import LiveExcerpts.Table
/-!
# Caches of parsers

One parser is kept for each key.  It is built when the key is first used, or first used with
success, and rewound before every use.

The effects of building, rewinding and using are those of a monad `m`, so that it can be said which
of them take place; where there are none, `m` is `Id`.

Main definition: `Cache.use`.  Main statements: using one key leaves the parsers of all others as
they were (`find?_use_of_ne`).
-/

namespace LiveExcerpts

/-- The parsers built so far, by their keys. -/
structure Cache (κ π : Type) where
  /-- The keys and their parsers. -/
  slots : List (κ × π) := []
deriving Repr

namespace Cache

variable {κ π ε α : Type} [DecidableEq κ]

/-- The parser of a key, if it has been built. -/
def find? (key : κ) (cache : Cache κ π) : Option π := cache.slots.lookup key

/-- The cache with this parser for a key. -/
def put (key : κ) (parser : π) (cache : Cache κ π) : Cache κ π :=
  ⟨Table.put key parser cache.slots⟩

/-- Uses the parser of a key.  If there is none yet it is built, and if that fails there is still
none afterwards.  The parser is rewound, then used, and kept as the use leaves it, whether it
succeeds or not. -/
def use {m : Type → Type} [Monad m] (key : κ) (build : Unit → m (Except ε π)) (rewind : π → m π)
    (action : π → m (Except ε α × π)) (cache : Cache κ π) : m (Except ε α × Cache κ π) := do
  let built ← match cache.find? key with
    | some parser => pure (.ok parser)
    | none => build ()
  match built with
  | .error e => return (.error e, cache)
  | .ok parser =>
    let (result, parser) ← action (← rewind parser)
    return (result, cache.put key parser)

/-! ## Laws -/

@[simp] theorem find?_put_self (key : κ) (parser : π) (cache : Cache κ π) :
    (cache.put key parser).find? key = some parser := Table.lookup_put_self key parser cache.slots

theorem find?_put_of_ne {key other : κ} (h : other ≠ key) (parser : π) (cache : Cache κ π) :
    (cache.put key parser).find? other = cache.find? other :=
  Table.lookup_put_of_ne h parser cache.slots

/-- Using one key leaves the parsers of all others as they were. -/
theorem find?_use_of_ne {key other : κ} (h : other ≠ key) (build : Unit → Except ε π)
    (rewind : π → π) (action : π → Except ε α × π) (cache : Cache κ π) :
    ((use (m := Id) key build rewind action cache).2).find? other = cache.find? other := by
  simp only [use, bind, pure]
  cases hb : cache.find? key with
  | some parser => exact find?_put_of_ne h _ _
  | none =>
      cases build () with
      | error e => rfl
      | ok parser => exact find?_put_of_ne h _ _

end Cache

end LiveExcerpts
