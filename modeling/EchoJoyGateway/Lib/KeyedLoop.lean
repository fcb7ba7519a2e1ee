import Mathlib.Data.List.Nodup

/-!
# Loops over distinct keys of a store

A loop visits items in order, each owning one key of a store. The body sees the
value at its key, replaces it and either produces an output or stops the loop;
what was written before the stop stays written.
-/

namespace KeyedLoop

open List

open Function (update update_of_ne update_self)

variable {α β ε K V : Type} [DecidableEq K]

def run (key : α → K) (body : α → V → V × Except ε β) :
    List α → (K → V) → (K → V) × Except ε (List β)
  | [], store => (store, .ok [])
  | a :: rest, store =>
    match body a (store (key a)) with
    | (v, .error e) => (Function.update store (key a) v, .error e)
    | (v, .ok b) =>
      match run key body rest (Function.update store (key a) v) with
      | (store', .error e) => (store', .error e)
      | (store', .ok bs) => (store', .ok (b :: bs))

section

variable {key : α → K} {body : α → V → V × Except ε β}

theorem run_fst_cons_ok {a : α} {rest : List α} {store : K → V} {v : V} {b : β}
    (h : body a (store (key a)) = (v, .ok b)) :
    (run key body (a :: rest) store).1 = (run key body rest (update store (key a) v)).1 := by
  simp only [run, h]
  split <;> simp_all

theorem run_snd_cons_ok {a : α} {rest : List α} {store : K → V} {v : V} {b : β} {bs : List β}
    (h : body a (store (key a)) = (v, .ok b))
    (hrest : (run key body rest (update store (key a) v)).2 = .ok bs) :
    (run key body (a :: rest) store).2 = .ok (b :: bs) := by
  simp only [run, h]
  split <;> simp_all

theorem run_of_not_mem {items : List α} {store : K → V} {k : K} (hk : ∀ a ∈ items, key a ≠ k) :
    (run key body items store).1 k = store k := by
  induction items generalizing store with
  | nil => rfl
  | cons a rest ih =>
    have ha : key a ≠ k := hk a (.head _)
    have hrest : ∀ x ∈ rest, key x ≠ k := fun x hx => hk x (.tail _ hx)
    rcases hbody : body a (store (key a)) with ⟨v, e | b⟩
    · simp only [run, hbody]
      exact update_of_ne ha.symm _ _
    · rw [run_fst_cons_ok hbody, ih hrest]
      exact update_of_ne ha.symm _ _

theorem body_of_run_ok {γ : Type} {l : List γ} {g : γ → α} {store : K → V}
    (hnodup : (l.map fun x => key (g x)).Nodup) {outs : List β}
    (hrun : (run key body (l.map g) store).2 = .ok outs) :
    ∀ x ∈ l, ∃ out, (body (g x) (store (key (g x)))).2 = .ok out := by
  induction l generalizing store outs with
  | nil => exact nofun
  | cons a rest ih =>
    obtain ⟨hfresh, hrest⟩ := nodup_cons.mp hnodup
    rcases hbody : body (g a) (store (key (g a))) with ⟨v, e | out⟩ <;>
      simp only [map_cons, run, hbody] at hrun
    · cases hrun
    · intro x hx
      rcases mem_cons.mp hx with rfl | hx
      · exact ⟨out, by rw [hbody]⟩
      · split at hrun
        · cases hrun
        · rename_i hlater
          obtain ⟨out', hout'⟩ := ih hrest (congrArg Prod.snd hlater) x hx
          rw [update_of_ne fun heq => hfresh (mem_map.mpr ⟨x, hx, heq⟩)] at hout'
          exact ⟨out', hout'⟩

/-- When no body stops on its own key's value, the loop ends: every item wrote
its key and the outputs are the items' outputs in order. -/
theorem run_map_ok {γ : Type} {l : List γ} {g : γ → α} {store : K → V}
    (hnodup : (l.map fun x => key (g x)).Nodup) {out : γ → β}
    (hok : ∀ x ∈ l, (body (g x) (store (key (g x)))).2 = .ok (out x)) :
    (run key body (l.map g) store).2 = .ok (l.map out) ∧
      ∀ x ∈ l, (run key body (l.map g) store).1 (key (g x)) =
        (body (g x) (store (key (g x)))).1 := by
  induction l generalizing store with
  | nil => exact ⟨rfl, nofun⟩
  | cons a rest ih =>
    obtain ⟨hfresh, hrest⟩ := nodup_cons.mp hnodup
    have hbody : body (g a) (store (key (g a))) =
      ((body (g a) (store (key (g a)))).1, .ok (out a)) :=
      Prod.ext rfl (hok a (.head _))
    have hne : ∀ x ∈ rest, key (g x) ≠ key (g a) :=
      fun x hx heq => hfresh (mem_map.mpr ⟨x, hx, heq⟩)
    have hsame : ∀ x ∈ rest, update store (key (g a))
        (body (g a) (store (key (g a)))).1 (key (g x)) = store (key (g x)) :=
      fun x hx => update_of_ne (hne x hx) _ _
    obtain ⟨hout, hwrote⟩ := @ih (update store (key (g a)) (body (g a) (store (key (g a)))).1) hrest
      (fun x hx => by rw [hsame x hx]; exact hok x (.tail _ hx))
    refine ⟨run_snd_cons_ok hbody hout, fun x hx => ?_⟩
    rw [map_cons, run_fst_cons_ok hbody]
    rcases mem_cons.mp hx with rfl | hx
    · rw [run_of_not_mem, update_self]
      rintro y hy
      obtain ⟨z, hz, rfl⟩ := mem_map.mp hy
      exact hne z hz
    · rw [hwrote x hx, hsame x hx]

end

end KeyedLoop
