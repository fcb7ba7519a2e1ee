import Mathlib.Data.List.Basic
import Mathlib.Algebra.GroupWithZero.Nat

/-!
# Lists split at a separator

One list lies below another in the hierarchy that a separator makes of lists
exactly if its parts are the first parts of the other.
-/

namespace Segments

open List

instance lawfulBEqBytes : LawfulBEq (List UInt8) := inferInstance

variable {α : Type*}

theorem intercalate_append (sep : List α) {xs ys : List (List α)} (hx : xs ≠ []) (hy : ys ≠ []) :
    sep.intercalate (xs ++ ys) = sep.intercalate xs ++ (sep ++ sep.intercalate ys) := by
  induction xs with
  | nil => exact absurd rfl hx
  | cons x xs ih =>
    cases xs with
    | nil =>
      obtain ⟨y, ys, rfl⟩ := exists_cons_of_ne_nil hy
      simp
    | cons x' xs =>
      have hrest := ih (cons_ne_nil x' xs)
      simp only [List.intercalate, cons_append, intersperse_cons_cons, flatten_cons,
        append_assoc] at hrest ⊢
      rw [hrest]

theorem length_intercalate (sep : List α) (xs : List (List α)) :
    (sep.intercalate xs).length = (xs.map List.length).sum + (xs.length - 1) * sep.length := by
  induction xs with
  | nil => simp
  | cons x xs ih =>
    cases xs with
    | nil => simp
    | cons x' xs =>
      have hsplit := intercalate_append sep (cons_ne_nil x []) (cons_ne_nil x' xs)
      rw [singleton_append] at hsplit
      have hone : sep.intercalate [x] = x := by simp
      rw [hsplit, length_append, length_append, ih, hone]
      simp only [map_cons, sum_cons, length_cons, Nat.add_sub_cancel, Nat.succ_mul]
      omega

theorem mem_intercalate (sep : List α) {xs : List (List α)} {x : List α} (hx : x ∈ xs) {a : α}
    (ha : a ∈ x) : a ∈ sep.intercalate xs := by
  induction xs with
  | nil => cases hx
  | cons y xs ih =>
    cases xs with
    | nil =>
      rw [mem_singleton.mp hx] at ha
      simpa using ha
    | cons y' xs =>
      simp only [List.intercalate, intersperse_cons_cons, flatten_cons, mem_append] at ih ⊢
      rcases mem_cons.mp hx with rfl | hx
      · exact .inl ha
      · exact .inr (.inr (ih hx))

theorem splitOn_ne_nil [BEq α] (sep : α) (x : List α) : x.splitOn sep ≠ [] :=
  splitOnP_ne_nil _ x

variable [BEq α] [LawfulBEq α]

theorem mem_of_mem_splitOn {sep : α} {x part : List α} (hpart : part ∈ x.splitOn sep) {a : α}
    (ha : a ∈ part) : a ∈ x := by
  have hmem := mem_intercalate [sep] hpart ha
  rwa [intercalate_splitOn] at hmem

theorem splitOn_append_cons (sep : α) (y z : List α) :
    (y ++ sep :: z).splitOn sep = y.splitOn sep ++ z.splitOn sep := by
  apply splitOnP_append_cons
  exact beq_self_eq_true sep

theorem splitOn_prefix_iff (sep : α) {x y : List α} :
    y.splitOn sep <+: x.splitOn sep ↔ x = y ∨ y ++ [sep] <+: x := by
  constructor
  · rintro ⟨rest, hrest⟩
    have hx : [sep].intercalate (x.splitOn sep) = x := intercalate_splitOn sep
    rw [← hrest] at hx
    cases rest with
    | nil =>
      rw [append_nil, intercalate_splitOn] at hx
      exact .inl hx.symm
    | cons s rest =>
      rw [intercalate_append _ (splitOn_ne_nil sep y) (cons_ne_nil s rest),
        intercalate_splitOn] at hx
      refine .inr ⟨[sep].intercalate (s :: rest), ?_⟩
      rw [append_assoc]
      exact hx
  · rintro (rfl | ⟨z, rfl⟩)
    · exact prefix_refl _
    · refine ⟨z.splitOn sep, ?_⟩
      rw [append_assoc, singleton_append, splitOn_append_cons]

/-! ## Cutting at the first separator -/

section Cut

variable {β : Type*} [DecidableEq β]

/-- What stands before the first separator, and what stands after it, if there is one. -/
def cut (sep : β) : List β → List β × Option (List β)
  | [] => ([], none)
  | b :: rest => if b = sep then ([], some rest) else (b :: (cut sep rest).1, (cut sep rest).2)

theorem cut_of_not_mem {sep : β} {x : List β} (h : sep ∉ x) : cut sep x = (x, none) := by
  induction x with
  | nil => rfl
  | cons b x ih =>
    rw [mem_cons, not_or] at h
    rw [cut, if_neg (Ne.symm h.1), ih h.2]

theorem cut_append {sep : β} {x : List β} (y : List β) (h : sep ∉ x) :
    cut sep (x ++ sep :: y) = (x, some y) := by
  induction x with
  | nil => exact if_pos rfl
  | cons b x ih =>
    rw [mem_cons, not_or] at h
    rw [cons_append, cut, if_neg (Ne.symm h.1), ih h.2]

theorem cut_eq (sep : β) (x : List β) :
    x = (cut sep x).1 ++ ((cut sep x).2.map (sep :: ·)).getD [] := by
  induction x with
  | nil => rfl
  | cons b x ih =>
    by_cases hb : b = sep
    · simp [cut, hb]
    · rw [cut, if_neg hb]
      exact congrArg (b :: ·) ih

end Cut

end Segments
