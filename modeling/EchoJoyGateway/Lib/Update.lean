import Mathlib.Logic.Function.Basic

/-! # Reading a table after one entry was written -/

namespace EchoJoyGateway.Update

variable {α β : Type} [DecidableEq α] {f : α → β} {j k : α} {x y : β}

theorem cases (h : Function.update f k x j = y) : j = k ∧ x = y ∨ j ≠ k ∧ f j = y := by
  rcases eq_or_ne j k with rfl | hne
  · rw [Function.update_self] at h
    exact .inl ⟨rfl, h⟩
  · rw [Function.update_of_ne hne] at h
    exact .inr ⟨hne, h⟩

end EchoJoyGateway.Update
