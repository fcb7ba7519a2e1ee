import Mathlib.Algebra.Order.BigOperators.Group.List
import Mathlib.Algebra.Order.Group.Nat
import Mathlib.Algebra.GroupWithZero.Nat

/-!
# Fair shares of a budget

In each round those that ask for no more than an equal share get what they ask
for; when nobody does, all that are left get an equal share.
-/

namespace FairShare

open List

variable {ι : Type} [DecidableEq ι] (amount : ι → Nat)

def settled (active : List ι) (share : Nat) : List ι := active.filter fun i => amount i ≤ share

def waiting (active : List ι) (share : Nat) : List ι := active.filter fun i => ¬ amount i ≤ share

omit [DecidableEq ι] in
theorem length_waiting_lt {active : List ι} {share : Nat} (h : settled amount active share ≠ []) :
    (waiting amount active share).length < active.length := by
  obtain ⟨i, hi⟩ := exists_mem_of_ne_nil _ h
  obtain ⟨hmem, hshare⟩ := mem_filter.mp hi
  apply length_filter_lt_length_iff_exists.mpr
  exact ⟨i, hmem, by simpa using hshare⟩

def allocate (active : List ι) (available : Nat) : ι → Nat :=
  if active = [] then fun _ => 0
  else if settled amount active (available / active.length) = [] then
    fun i => if i ∈ active then available / active.length else 0
  else fun i =>
    if i ∈ settled amount active (available / active.length) then amount i
    else allocate (waiting amount active (available / active.length))
      (available - ((settled amount active (available / active.length)).map amount).sum) i
termination_by active.length
decreasing_by
  rename_i h _
  exact length_waiting_lt amount h

omit [DecidableEq ι] in
theorem sum_settled_le (active : List ι) (available : Nat) :
    ((settled amount active (available / active.length)).map amount).sum ≤ available := by
  calc ((settled amount active (available / active.length)).map amount).sum
      ≤ (settled amount active (available / active.length)).length •
          (available / active.length) := by
        rw [← @List.length_map _ _ (settled amount active _) amount]
        apply sum_le_card_nsmul
        intro n hn
        obtain ⟨i, hi, rfl⟩ := mem_map.mp hn
        simpa using (mem_filter.mp hi).2
    _ ≤ active.length * (available / active.length) := Nat.mul_le_mul_right _ (length_filter_le _ _)
    _ ≤ available := Nat.mul_div_le available active.length

theorem sum_allocate_le (active : List ι) (available : Nat) :
    (active.map (allocate amount active available)).sum ≤ available := by
  induction hlength : active.length using Nat.strong_induction_on generalizing active available with
  | _ n ih =>
    subst hlength
    unfold allocate
    split
    · rename_i hnil
      simp
    split
    · have hall : (active.map fun i => if i ∈ active then available / active.length else 0) =
          active.map fun _ => available / active.length :=
        map_congr_left fun i hi => if_pos hi
      rw [hall, map_const', sum_replicate]
      exact Nat.mul_div_le available active.length
    · rename_i hsettled
      set share := available / active.length with hshare
      have hlater := ih _ (length_waiting_lt amount hsettled) (waiting amount active share)
        (available - ((settled amount active share).map amount).sum) rfl
      have hsum := sum_settled_le amount active available
      rw [← hshare] at hsum
      -- Who is settled gets its amount, who waits what the later rounds give.
      rw [← sum_map_filter_add_sum_map_filter_not (fun i => amount i ≤ share)]
      change ((settled amount active share).map _).sum +
        ((waiting amount active share).map _).sum ≤ _
      have hdisjoint : ∀ i ∈ waiting amount active share, i ∉ settled amount active share := by
        intro i hi hmem
        have hle := (mem_filter.mp hmem).2
        have hgt := (mem_filter.mp hi).2
        simp_all
      rw [map_congr_left fun i hi => if_pos hi, map_congr_left fun i hi => if_neg (hdisjoint i hi)]
      omega

end FairShare
