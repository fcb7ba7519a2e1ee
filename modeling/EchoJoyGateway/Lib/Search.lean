import Mathlib.Data.List.Infix

/-!
# Searching a text for a pattern

The first occurrence of a pattern, and the end of a text that could still become
one.
-/

namespace EchoJoyGateway.Search

open List

variable {α : Type} [DecidableEq α] {pattern text : List α}

def index (pattern : List α) : List α → Option Nat
  | [] => if pattern = [] then some 0 else none
  | x :: text =>
    if pattern <+: x :: text then some 0 else (index pattern text).map (· + 1)

/-- The longest start of the pattern, of at most the given length, that the text
ends with. -/
def heldBack (pattern text : List α) : Nat → Nat
  | 0 => 0
  | n + 1 => if pattern.take (n + 1) <:+ text then n + 1 else heldBack pattern text n

theorem index_eq_some {i : Nat} (h : index pattern text = some i) :
    pattern <+: text.drop i ∧ ∀ j < i, ¬ pattern <+: text.drop j := by
  induction text generalizing i with
  | nil =>
    unfold index at h
    split at h
    · rename_i hnil
      cases h
      exact ⟨by simp [hnil], fun j hj => absurd hj (Nat.not_lt_zero j)⟩
    · cases h
  | cons x text ih =>
    unfold index at h
    split at h
    · rename_i hstart
      cases h
      exact ⟨hstart, fun j hj => absurd hj (Nat.not_lt_zero j)⟩
    · rename_i hstart
      obtain ⟨k, hk, rfl⟩ := Option.map_eq_some_iff.mp h
      obtain ⟨hfound, hfirst⟩ := ih hk
      refine ⟨hfound, fun j hj => ?_⟩
      cases j with
      | zero => exact hstart
      | succ j => exact hfirst j (by omega)

theorem index_eq_none (h : index pattern text = none) (j : Nat) : ¬ pattern <+: text.drop j := by
  induction text generalizing j with
  | nil =>
    unfold index at h
    split at h
    · cases h
    · rename_i hnil
      simpa using hnil
  | cons x text ih =>
    unfold index at h
    split at h
    · cases h
    · rename_i hstart
      cases j with
      | zero => exact hstart
      | succ j => exact ih (Option.map_eq_none_iff.mp h) j

theorem heldBack_le (n : Nat) : heldBack pattern text n ≤ n := by
  induction n with
  | zero => exact le_rfl
  | succ n ih =>
    unfold heldBack
    split
    · exact le_rfl
    · omega

theorem heldBack_suffix (n : Nat) : pattern.take (heldBack pattern text n) <:+ text := by
  induction n with
  | zero => exact nil_suffix
  | succ n ih =>
    unfold heldBack
    split
    · assumption
    · exact ih

theorem le_heldBack {m n : Nat} (hm : m ≤ n) (hsuffix : pattern.take m <:+ text) :
    m ≤ heldBack pattern text n := by
  induction n with
  | zero => omega
  | succ n ih =>
    unfold heldBack
    split
    · exact hm
    · rename_i hnot
      have hne : m ≠ n + 1 := fun heq => hnot (heq ▸ hsuffix)
      exact ih (by omega)

omit [DecidableEq α] in
theorem exists_divergence (hpattern : ¬ pattern <+: text) (htext : ¬ text <+: pattern) :
    ∃ k x rest, k < pattern.length ∧ text = pattern.take k ++ x :: rest ∧ pattern[k]? ≠ some x := by
  induction pattern generalizing text with
  | nil => exact absurd nil_prefix hpattern
  | cons a pattern ih =>
    cases text with
    | nil => exact absurd nil_prefix htext
    | cons b text =>
      by_cases hab : a = b
      · rw [hab, cons_prefix_cons] at hpattern htext
        obtain ⟨k, x, rest, hk, rfl, hx⟩ :=
          ih (fun h => hpattern ⟨rfl, h⟩) (fun h => htext ⟨rfl, h⟩)
        exact ⟨k + 1, x, rest, Nat.succ_lt_succ hk, by rw [hab]; rfl, hx⟩
      · exact ⟨0, b, text, Nat.zero_lt_succ _, rfl, fun h => hab (Option.some.inj h)⟩

end EchoJoyGateway.Search
