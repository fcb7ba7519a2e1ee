import Mathlib.Data.List.Basic

/-!
# Round robin

A queue from which each turn takes the first element that is on offer and moves it to
the end. What is on offer may change from turn to turn. An element that is offered
throughout comes one place nearer at every turn that passes it by.
-/

namespace RoundRobin

open List

variable {α : Type}

/-- One turn: the element taken and the queue after it. -/
def serve (offered : α → Bool) : List α → Option (α × List α)
  | [] => none
  | x :: rest =>
    if offered x then some (x, rest ++ [x])
    else
      match serve offered rest with
      | none => none
      | some (y, rest') => some (y, x :: rest')

variable {offered : α → Bool} {order : List α}

theorem serve_eq_none_iff : serve offered order = none ↔ ∀ x ∈ order, offered x = false := by
  induction order with
  | nil => simp [serve]
  | cons x rest ih =>
    cases hx : offered x with
    | true => simp [serve, hx]
    | false =>
      cases hrest : serve offered rest with
      | none => simpa [serve, hx, hrest] using ih.mp hrest
      | some pair => simpa [serve, hx, hrest] using ih

variable {order' : List α}

theorem serve_eq_some {x : α} (h : serve offered order = some (x, order')) :
    ∃ front back, order = front ++ x :: back ∧ order' = front ++ back ++ [x] ∧
      offered x = true ∧ ∀ y ∈ front, offered y = false := by
  induction order generalizing order' with
  | nil => cases h
  | cons z rest ih =>
    rw [serve] at h
    split at h
    · rename_i hz
      cases h
      exact ⟨[], rest, rfl, rfl, hz, nofun⟩
    · rename_i hz
      split at h
      · cases h
      · rename_i y rest' hrest
        cases h
        obtain ⟨front, back, rfl, rfl, hx, hfront⟩ := ih hrest
        refine ⟨z :: front, back, rfl, rfl, hx, ?_⟩
        intro w hw
        rcases mem_cons.mp hw with rfl | hw
        · exact Bool.eq_false_iff.mpr hz
        · exact hfront w hw

theorem serve_append {front back : List α} {x : α} (hx : offered x = true)
    (hfront : ∀ y ∈ front, offered y = false) :
    serve offered (front ++ x :: back) = some (x, front ++ back ++ [x]) := by
  induction front with
  | nil => simp [serve, hx]
  | cons y front ih =>
    have hy := hfront y (.head _)
    have hrest := ih fun z hz => hfront z (.tail _ hz)
    simp [serve, hy, hrest]

theorem serve_perm {x : α} (h : serve offered order = some (x, order')) : order'.Perm order := by
  obtain ⟨front, back, rfl, rfl, -⟩ := serve_eq_some h
  rw [append_assoc]
  exact (@List.perm_append_comm _ back [x]).append_left front

def taken (order : List α) : List (α → Bool) → List α
  | [] => []
  | offered :: offers =>
    match serve offered order with
    | none => taken order offers
    | some (x, order') => x :: taken order' offers

variable [DecidableEq α]

theorem idxOf_serve {x y : α} (h : serve offered order = some (x, order')) (hmem : y ∈ order)
    (hy : offered y = true) (hne : x ≠ y) : order'.idxOf y + 1 = order.idxOf y := by
  obtain ⟨front, back, rfl, rfl, -, hfront⟩ := serve_eq_some h
  have hout : y ∉ front := fun hin => by
    rw [hfront y hin] at hy
    cases hy
  have hback : y ∈ back := by
    rcases mem_append.mp hmem with hin | hin
    · exact absurd hin hout
    · exact (mem_cons.mp hin).resolve_left (Ne.symm hne)
  rw [append_assoc, idxOf_append_of_notMem hout, idxOf_append_of_mem hback,
    idxOf_append_of_notMem hout, idxOf_cons_ne _ hne]
  omega

variable {offers : List (α → Bool)}

theorem mem_taken {y : α} (hmem : y ∈ order) (hy : ∀ offered ∈ offers, offered y = true)
    (hlt : order.idxOf y < offers.length) :
    y ∈ taken order offers := by
  induction offers generalizing order with
  | nil => exact absurd hlt (Nat.not_lt_zero _)
  | cons offered offers ih =>
    have hfirst := hy offered (.head _)
    rw [taken]
    split
    · rename_i hnone
      rw [serve_eq_none_iff.mp hnone y hmem] at hfirst
      cases hfirst
    · rename_i x order' hserve
      by_cases hne : x = y
      · exact hne ▸ .head _
      · have hidx := idxOf_serve hserve hmem hfirst hne
        refine .tail _ (ih ((serve_perm hserve).mem_iff.mpr hmem) ?_ ?_)
        · exact fun offered hoffered => hy offered (.tail _ hoffered)
        · rw [length_cons] at hlt
          omega

omit [DecidableEq α] in
theorem taken_front {front back : List α}
    (hall : ∀ offered ∈ offers, ∀ x ∈ front ++ back, offered x = true)
    (hlength : offers.length = front.length) :
    taken (front ++ back) offers = front := by
  induction offers generalizing front back with
  | nil =>
    rw [length_eq_zero_iff.mp hlength.symm]
    rfl
  | cons offered offers ih =>
    cases front with
    | nil => cases hlength
    | cons x front =>
      have hserve : serve offered (x :: (front ++ back)) = some (x, front ++ back ++ [x]) :=
        @serve_append _ offered [] _ _ (hall offered (.head _) x (.head _)) nofun
      rw [cons_append, taken, hserve]
      simp only [List.cons.injEq, true_and]
      rw [append_assoc]
      apply ih
      · intro offered hoffered y hy
        refine hall offered (.tail _ hoffered) y ?_
        simp only [mem_append, mem_cons] at hy ⊢
        tauto
      · exact Nat.succ.inj hlength

end RoundRobin
