import Mathlib.Order.Lattice

/-!
# Binary search

The search for a target in a list by halving an interval of positions. In a sorted
list the target is found exactly if it is an element.
-/

namespace BinarySearch

open List

variable {α : Type} [LinearOrder α]

/-- The first position of `[low, high)` whose element is not below the target, `high` if
there is none. -/
def lowerBound (xs : List α) (target : α) (low high : Nat) : Nat :=
  if low < high then
    let middle := (low + high) / 2
    match xs[middle]? with
    | none => low
    | some x =>
      if x < target then lowerBound xs target (middle + 1) high
      else lowerBound xs target low middle
  else low
termination_by high - low

def found (xs : List α) (target : α) : Bool :=
  decide (xs[lowerBound xs target 0 xs.length]? = some target)

/-- The positions that are left separate the elements below the target from the others. -/
structure Between (xs : List α) (target : α) (low high : Nat) : Prop where
  le : low ≤ high
  length : high ≤ xs.length
  below : ∀ i x, i < low → xs[i]? = some x → x < target
  above : ∀ i x, high ≤ i → xs[i]? = some x → target ≤ x

theorem Between.whole (xs : List α) (target : α) : Between xs target 0 xs.length := by
  refine ⟨Nat.zero_le _, Nat.le_refl _, fun i x hi => absurd hi (Nat.not_lt_zero i), ?_⟩
  intro i x hi hx
  rw [getElem?_eq_none_iff.mpr hi] at hx
  cases hx

variable {xs : List α} {target : α} {low high : Nat}

theorem getElem?_le (h : xs.Pairwise (· ≤ ·)) {i j : Nat} {x y : α} (hij : i ≤ j)
    (hi : xs[i]? = some x) (hj : xs[j]? = some y) : x ≤ y := by
  obtain ⟨hilt, rfl⟩ := List.getElem?_eq_some_iff.mp hi
  obtain ⟨hjlt, rfl⟩ := List.getElem?_eq_some_iff.mp hj
  rcases Nat.eq_or_lt_of_le hij with rfl | hlt
  · exact le_rfl
  · exact pairwise_iff_getElem.mp h i j hilt hjlt hlt

theorem Between.lowerBound (hsorted : xs.Pairwise (· ≤ ·)) (h : Between xs target low high) :
    Between xs target (lowerBound xs target low high) (lowerBound xs target low high) := by
  fun_induction BinarySearch.lowerBound xs target low high with
  | case1 low high hlt middle hnone =>
    have hlength := h.length
    have hmiddle : xs.length ≤ middle := getElem?_eq_none_iff.mp hnone
    omega
  | case2 low high hlt middle x hx hless ih =>
    have hlength := h.length
    refine ih ⟨by omega, hlength, ?_, h.above⟩
    intro i y hi hy
    exact lt_of_le_of_lt (getElem?_le hsorted (by omega) hy hx) hless
  | case3 low high hlt middle x hx hless ih =>
    have hlength := h.length
    refine ih ⟨by omega, by omega, h.below, ?_⟩
    intro i y hi hy
    exact le_trans (not_lt.mp hless) (getElem?_le hsorted hi hx hy)
  | case4 low high hge =>
    obtain rfl : low = high := Nat.le_antisymm h.le (Nat.not_lt.mp hge)
    exact h

theorem found_iff (hsorted : xs.Pairwise (· ≤ ·)) : found xs target = true ↔ target ∈ xs := by
  rw [found, decide_eq_true_iff]
  constructor
  · intro h
    exact mem_of_getElem? h
  · intro h
    have hlast := (Between.whole xs target).lowerBound hsorted
    obtain ⟨k, hk⟩ := getElem?_of_mem h
    have hle : BinarySearch.lowerBound xs target 0 xs.length ≤ k := by
      by_contra hlt
      exact lt_irrefl target (hlast.below k target (Nat.not_le.mp hlt) hk)
    obtain ⟨hklt, -⟩ := List.getElem?_eq_some_iff.mp hk
    have hx := List.getElem?_eq_getElem (Nat.lt_of_le_of_lt hle hklt)
    rw [hx]
    have habove := hlast.above _ _ (Nat.le_refl _) hx
    exact congrArg some (le_antisymm (getElem?_le hsorted hle hx hk) habove)

end BinarySearch
