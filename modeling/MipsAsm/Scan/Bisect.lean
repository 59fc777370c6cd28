/-!
# Bisection

An array in which what is low stands in front of what is not has one index where the low elements
end. `bisect` finds it by halving, as `bisect_eq` states; the bounds of a number in a sorted array
are two such indices.
-/

namespace MipsAsm.Scan

/-- Halve the indices `[lo, hi)` down to the first one at which an array is no longer low. -/
def bisect (low : Nat → Bool) (a : Array Nat) (lo hi : Nat) : Nat :=
  if lo < hi then
    if low (a.getD ((lo + hi) / 2) 0) then
      bisect low a ((lo + hi) / 2 + 1) hi
    else
      bisect low a lo ((lo + hi) / 2)
  else lo
termination_by hi - lo

/-- The search finds the index below which elements are low and from which on they are not. -/
theorem bisect_eq {low : Nat → Bool} {a : Array Nat} {k lo hi : Nat}
    (hbelow : ∀ i < k, low (a.getD i 0)) (habove : ∀ i, k ≤ i → i < hi → ¬ low (a.getD i 0))
    (hlo : lo ≤ k) (hhi : k ≤ hi) : bisect low a lo hi = k := by
  fun_induction bisect low a lo hi with
  | case1 lo hi hlt hmid ih =>
    -- the middle is low, so the low elements do not end before it
    have hk : (lo + hi) / 2 < k :=
      Nat.lt_of_not_le fun hge => habove _ hge (by omega) hmid
    exact ih habove hk hhi
  | case2 lo hi hlt hmid ih =>
    have hk : k ≤ (lo + hi) / 2 := Nat.le_of_not_lt fun hlt' => hmid (hbelow _ hlt')
    exact ih (fun i hi hlt' => habove i hi (by omega)) hlo hk
  | case3 lo hi hge => omega

/-- The first index in `[lo, hi)` at which a sorted array reaches `x`, or `hi`. -/
def lowerBound (a : Array Nat) (x lo hi : Nat) : Nat := bisect (· < x) a lo hi

/-- The first index in `[lo, hi)` at which a sorted array exceeds `x`, or `hi`. -/
def upperBound (a : Array Nat) (x lo hi : Nat) : Nat := bisect (· ≤ x) a lo hi

end MipsAsm.Scan
