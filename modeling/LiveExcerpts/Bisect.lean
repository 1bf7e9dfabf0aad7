/-!
# Search by halving

`bisect p lo n` looks for the place in the interval from `lo` of length `n` where `p` stops
holding.

Main statement: if `p` never holds again after it has failed, `p` holds exactly before that place
(`holds_iff_lt_bisect`).
-/

namespace LiveExcerpts

/-- The place in `lo, …, lo + n - 1` where `p` fails first, or `lo + n`, found by halving. -/
def bisect (p : Nat → Bool) (lo n : Nat) : Nat :=
  if n = 0 then lo
  else if p (lo + n / 2) then bisect p (lo + n / 2 + 1) (n - n / 2 - 1)
  else bisect p lo (n / 2)
termination_by n

/-- `p` never holds again after it has failed. -/
def HoldsUpTo (p : Nat → Bool) : Prop := ∀ i j, i ≤ j → p j = true → p i = true

theorem le_bisect (p : Nat → Bool) (lo n : Nat) : lo ≤ bisect p lo n := by
  fun_induction bisect p lo n with
  | case1 lo => exact Nat.le_refl lo
  | case2 lo n hn hp ih => omega
  | case3 lo n hn hp ih => exact ih

theorem bisect_le (p : Nat → Bool) (lo n : Nat) : bisect p lo n ≤ lo + n := by
  fun_induction bisect p lo n with
  | case1 lo => exact Nat.le_refl lo
  | case2 lo n hn hp ih => omega
  | case3 lo n hn hp ih => omega

/-- In the interval searched, `p` holds exactly before the place found. -/
theorem holds_iff_lt_bisect {p : Nat → Bool} (h : HoldsUpTo p) (lo n i : Nat) (hlo : lo ≤ i)
    (hi : i < lo + n) : p i = true ↔ i < bisect p lo n := by
  fun_induction bisect p lo n with
  | case1 lo => omega
  | case2 lo n hn hp ih =>
      by_cases hmid : i ≤ lo + n / 2
      · have := le_bisect p (lo + n / 2 + 1) (n - n / 2 - 1)
        exact ⟨fun _ => by omega, fun _ => h i _ hmid hp⟩
      · exact ih (by omega) (by omega)
  | case3 lo n hn hp ih =>
      by_cases hmid : i < lo + n / 2
      · exact ih hlo hmid
      · have := bisect_le p lo (n / 2)
        exact ⟨fun hpi => absurd (h _ i (by omega) hpi) hp, fun _ => by omega⟩

end LiveExcerpts
