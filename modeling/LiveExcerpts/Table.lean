/-!
# Tables

A table is a list of pairs, read by the first pair with a key; `put` leaves one such pair, `erase`
none.

Main statements: a key reads what was put under it last (`lookup_put_self`), and nothing else
changes (`lookup_put_of_ne`, `lookup_erase_of_ne`).
-/

namespace LiveExcerpts.Table

variable {κ ν : Type} [BEq κ]

/-- The table without a key. -/
def erase (key : κ) (table : List (κ × ν)) : List (κ × ν) := table.filter fun pair => pair.1 != key

/-- The table with a value under a key. -/
def put (key : κ) (value : ν) (table : List (κ × ν)) : List (κ × ν) :=
  (key, value) :: erase key table

theorem lookup_erase_of_ne [LawfulBEq κ] {key other : κ} (h : other ≠ key) (table : List (κ × ν)) :
    (erase key table).lookup other = table.lookup other := by
  induction table with
  | nil => rfl
  | cons pair table ih =>
      obtain ⟨k, v⟩ := pair
      rw [erase] at ih ⊢
      by_cases hk : k = key
      · subst hk
        have : (other == k) = false := by simpa using h
        simp [List.lookup_cons, this, ih]
      · by_cases ho : other = k
        · subst ho; simp [hk]
        · have : (other == k) = false := by simpa using ho
          simp [List.lookup_cons, hk, this, ih]

@[simp] theorem lookup_put_self [LawfulBEq κ] (key : κ) (value : ν) (table : List (κ × ν)) :
    (put key value table).lookup key = some value := by
  simp [put]

theorem lookup_put_of_ne [LawfulBEq κ] {key other : κ} (h : other ≠ key) (value : ν)
    (table : List (κ × ν)) :
    (put key value table).lookup other = table.lookup other := by
  have hb : (other == key) = false := by simpa using h
  rw [put, List.lookup_cons, hb]
  exact lookup_erase_of_ne h table

end LiveExcerpts.Table
