import LiveExcerpts.Text.Split
/-!
# Occurrences of a pattern

Where a pattern stands in a text, said without the search for it.

Main statements: a text has a pattern somewhere in it exactly if it is made of the pattern and what
stands around it (`contains_iff_infix`), and the cut at the first occurrence is the one with the
least before it (`splitFirst?_eq_some_iff`).
-/

namespace LiveExcerpts.Text

/-- The search for a pattern finds it in every text around it, and in no other. -/
theorem contains_iff_infix {pattern cs : List Char} :
    contains pattern cs = true ↔ pattern <:+: cs := by
  induction cs with
  | nil => rw [contains, List.isEmpty_iff, List.infix_nil]
  | cons c cs ih =>
      rw [contains, Bool.or_eq_true, List.isPrefixOf_iff_prefix, ih, List.infix_cons_iff]

/-- Before the first occurrence of a pattern there is no other. -/
theorem length_le_of_splitFirst? {pattern cs before after p q : List Char}
    (h : splitFirst? pattern cs = some (before, after)) (hpq : cs = p ++ pattern ++ q) :
    before.length ≤ p.length := by
  induction cs generalizing before p with
  | nil =>
      rw [splitFirst?] at h
      split at h
      · obtain ⟨rfl, -⟩ := Prod.mk.inj (Option.some.inj h)
        exact Nat.zero_le _
      · cases h
  | cons c cs ih =>
      rw [splitFirst?] at h
      split at h
      · obtain ⟨rfl, -⟩ := Prod.mk.inj (Option.some.inj h)
        exact Nat.zero_le _
      · next hnot =>
          obtain ⟨⟨b, a⟩, hb, hpair⟩ := Option.map_eq_some_iff.1 h
          obtain ⟨rfl, rfl⟩ := Prod.mk.inj hpair
          cases p with
          | nil => exact absurd (List.isPrefixOf_iff_prefix.2 ⟨q, hpq.symm⟩) hnot
          | cons d p =>
              obtain ⟨rfl, hcs⟩ := List.cons.inj hpq
              exact Nat.succ_le_succ (ih hb hcs)

/-- **The cut at the first occurrence of a pattern is the one with the least before it.** -/
theorem splitFirst?_eq_some_iff {pattern cs before after : List Char} :
    splitFirst? pattern cs = some (before, after) ↔
      cs = before ++ pattern ++ after ∧
        ∀ p q, cs = p ++ pattern ++ q → before.length ≤ p.length := by
  constructor
  · intro h
    exact ⟨eq_append_of_splitFirst? h, fun p q hpq => length_le_of_splitFirst? h hpq⟩
  · rintro ⟨hcs, hleast⟩
    have hfound : (splitFirst? pattern cs).isSome = true := by
      rw [isSome_splitFirst?, contains_iff_infix]
      exact ⟨before, after, hcs.symm⟩
    obtain ⟨⟨b, a⟩, hba⟩ := Option.isSome_iff_exists.1 hfound
    have heq := eq_append_of_splitFirst? hba
    -- Neither of the two cuts has less before it than the other.
    have hlength : before.length = b.length :=
      Nat.le_antisymm (hleast b a heq) (length_le_of_splitFirst? hba hcs)
    rw [hcs, List.append_assoc, List.append_assoc] at heq
    obtain ⟨rfl, hrest⟩ := List.append_inj heq hlength
    rw [hba, List.append_cancel_left hrest]

end LiveExcerpts.Text
