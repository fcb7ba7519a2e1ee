import Mathlib.Init

/-!
# Bisection

The search for a great argument at which a test succeeds. The test need not be
monotone: what is found passes it, and something is found if the least argument
passes.
-/

namespace Bisect

variable (test : Nat → Bool)

/-- The last argument in `[low, high)` tried with success, `best` if there is none. -/
def search (low high : Nat) (best : Option Nat) : Option Nat :=
  if low < high then
    let middle := low + (high - 1 - low) / 2
    if test middle then search (middle + 1) high (some middle) else search low middle best
  else best
termination_by high - low

theorem search_sound {low high : Nat} {best : Option Nat} (hbest : ∀ n ∈ best, test n = true) :
    ∀ n ∈ search test low high best, test n = true := by
  fun_induction search test low high best with
  | case1 low high best hlt middle htest ih =>
    apply ih
    rintro n ⟨⟩
    exact htest
  | case2 low high best hlt middle htest ih => exact ih hbest
  | case3 low high best hge => exact hbest

theorem search_isSome_of_best {low high : Nat} {best : Option Nat} (hbest : best.isSome) :
    (search test low high best).isSome := by
  fun_induction search test low high best with
  | case1 low high best hlt middle htest ih => exact ih rfl
  | case2 low high best hlt middle htest ih => exact ih hbest
  | case3 low high best hge => exact hbest

theorem search_isSome {low high : Nat} {best : Option Nat} (hlt : low < high)
    (hlow : test low = true) : (search test low high best).isSome := by
  fun_induction search test low high best with
  | case1 low high best _ middle htest ih => exact search_isSome_of_best test rfl
  | case2 low high best _ middle htest ih =>
    refine ih ?_ hlow
    have hmiddle : low ≤ middle := Nat.le_add_right low _
    rcases Nat.eq_or_lt_of_le hmiddle with heq | hless
    · rw [← heq] at htest
      exact absurd hlow htest
    · exact hless
  | case3 low high best hge => exact absurd hlt hge

end Bisect
