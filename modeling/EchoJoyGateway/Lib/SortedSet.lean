import Mathlib.Data.Finset.Card

/-!
# Sorted sets with scores

The sorted set of a Redis key: members with a score each, and the commands that
scripts run on it.
-/

structure SortedSet (μ : Type) where
  members : Finset μ
  score : μ → Int

namespace SortedSet

variable {μ : Type}

def empty : SortedSet μ where
  members := ∅
  score := fun _ => 0

def above (z : SortedSet μ) (now : Int) : Finset μ := z.members.filter fun m => now < z.score m

/-- `ZREMRANGEBYSCORE` from minus infinity. -/
def zremrangebyscore (z : SortedSet μ) (now : Int) : SortedSet μ :=
  { z with members := z.above now }

def zcard (z : SortedSet μ) : Nat := z.members.card

theorem mem_above {z : SortedSet μ} {m : μ} {now : Int} :
    m ∈ z.above now ↔ m ∈ z.members ∧ now < z.score m := Finset.mem_filter

theorem above_subset {z : SortedSet μ} {now : Int} : z.above now ⊆ z.members :=
  Finset.filter_subset _ _

theorem above_anti {z : SortedSet μ} {now later : Int} (h : now ≤ later) :
    z.above later ⊆ z.above now := by
  intro m hm
  rw [mem_above] at hm ⊢
  exact ⟨hm.1, h.trans_lt hm.2⟩

structure Refreshed (z z' : SortedSet μ) (score : Int) : Prop where
  members : z'.members = z.members
  scores : ∀ m, z'.score m = z.score m ∨ z'.score m = score

theorem Refreshed.refl (z : SortedSet μ) (score : Int) : Refreshed z z score :=
  ⟨rfl, fun _ => .inl rfl⟩

variable [DecidableEq μ]

def zadd (z : SortedSet μ) (score : Int) (m : μ) : SortedSet μ where
  members := insert m z.members
  score := Function.update z.score m score

def zrem (z : SortedSet μ) (m : μ) : SortedSet μ := { z with members := z.members.erase m }

section

variable {z : SortedSet μ} {m other : μ} {score : Int}

theorem zadd_score_self : (z.zadd score m).score m = score := Function.update_self ..

theorem zadd_score_of_ne (h : other ≠ m) : (z.zadd score m).score other = z.score other :=
  Function.update_of_ne h ..

theorem zadd_members_of_mem (h : m ∈ z.members) : (z.zadd score m).members = z.members :=
  Finset.insert_eq_of_mem h

end

def refreshOne (score : Int) (state : SortedSet μ × Nat) (m : μ) : SortedSet μ × Nat :=
  if m ∈ state.1.members then (state.1.zadd score m, state.2 + 1) else state

/-- Give every listed member of the set a new score, and count them. -/
def refresh (z : SortedSet μ) (score : Int) (ms : List μ) : SortedSet μ × Nat :=
  ms.foldl (refreshOne score) (z, 0)

theorem Refreshed.zadd {z z' : SortedSet μ} {score : Int} {m : μ} (h : Refreshed z z' score)
    (hmem : m ∈ z'.members) : Refreshed z (z'.zadd score m) score where
  members := (zadd_members_of_mem hmem).trans h.members
  scores := by
    intro other
    rcases eq_or_ne other m with rfl | hne
    · exact .inr zadd_score_self
    · rw [zadd_score_of_ne hne]
      exact h.scores other

theorem refresh_spec (z : SortedSet μ) (score : Int) (ms : List μ) :
    Refreshed z (z.refresh score ms).1 score ∧
      (z.refresh score ms).2 = (ms.countP fun m => m ∈ z.members) ∧
      ((z.refresh score ms).2 = 0 → (z.refresh score ms).1 = z) := by
  suffices h : ∀ (ms : List μ) (state : SortedSet μ × Nat), Refreshed z state.1 score →
      Refreshed z (ms.foldl (refreshOne score) state).1 score ∧
        (ms.foldl (refreshOne score) state).2 = state.2 + (ms.countP fun m => m ∈ z.members) ∧
        ((ms.foldl (refreshOne score) state).2 = state.2 →
          (ms.foldl (refreshOne score) state).1 = state.1) by
    obtain ⟨hrefreshed, hcount, hzero⟩ := h ms (z, 0) (.refl z score)
    exact ⟨hrefreshed, hcount.trans (Nat.zero_add _), hzero⟩
  intro ms
  induction ms with
  | nil => exact fun state h => ⟨h, rfl, fun _ => rfl⟩
  | cons m ms ih =>
    intro state h
    rw [List.foldl_cons, refreshOne, List.countP_cons]
    by_cases hmem : m ∈ state.1.members
    · obtain ⟨hrefreshed, hcount, -⟩ := ih (state.1.zadd score m, state.2 + 1) (h.zadd hmem)
      rw [if_pos hmem, hcount, if_pos (decide_eq_true (h.members ▸ hmem))]
      exact ⟨hrefreshed, by omega, fun heq => absurd heq (by omega)⟩
    · rw [if_neg hmem, if_neg (by rw [← h.members]; simpa using hmem)]
      exact ih state h

end SortedSet
