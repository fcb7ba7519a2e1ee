import Mathlib.Init

/-!
# Lists traversed with a failing function

A traversal that succeeds gives, in order, the answer for each element.
-/

namespace Traverse

open List

variable {α β ε : Type} {f : α → Except ε β}

theorem bind_ok {γ : Type} {x : Except ε α} {g : α → Except ε γ} {c : γ} :
    (x >>= g) = .ok c ↔ ∃ a, x = .ok a ∧ g a = .ok c := by
  cases x with
  | error e =>
    constructor
    · intro h
      cases h
    · rintro ⟨a, h, -⟩
      cases h
  | ok a =>
    constructor
    · intro h
      exact ⟨a, rfl, h⟩
    · rintro ⟨_, ⟨⟩, h⟩
      exact h

variable {l : List α} {out : List β}

theorem mapM_cons_ok {a : α} (h : (a :: l).mapM f = .ok out) :
    ∃ b bs, f a = .ok b ∧ l.mapM f = .ok bs ∧ out = b :: bs := by
  rw [mapM_cons, bind_ok] at h
  obtain ⟨b, hb, h⟩ := h
  obtain ⟨bs, hbs, ⟨⟩⟩ := bind_ok.mp h
  exact ⟨b, bs, hb, hbs, rfl⟩

theorem unseen_cons {κ : Type} {key : α → κ} {a : α} {rest : List α} {seen : List κ}
    (hnew : key a ∉ seen)
    (hrest : (rest.map key).Nodup ∧ ∀ x ∈ rest, key x ∉ key a :: seen) :
    ((a :: rest).map key).Nodup ∧ ∀ x ∈ a :: rest, key x ∉ seen := by
  obtain ⟨hnodup, hseen⟩ := hrest
  constructor
  · rw [map_cons, nodup_cons]
    refine ⟨fun hmem => ?_, hnodup⟩
    obtain ⟨x, hx, heq⟩ := mem_map.mp hmem
    exact hseen x hx (heq ▸ .head _)
  · intro x hx
    rcases mem_cons.mp hx with rfl | hx
    · exact hnew
    · exact fun hmem => hseen x hx (.tail _ hmem)

theorem mem_mapM (h : l.mapM f = .ok out) {b : β} : b ∈ out ↔ ∃ a ∈ l, f a = .ok b := by
  induction l generalizing out with
  | nil =>
    cases h
    simp
  | cons a l ih =>
    obtain ⟨b', bs, ha, hl, rfl⟩ := mapM_cons_ok h
    rw [mem_cons, ih hl]
    constructor
    · rintro (rfl | ⟨x, hx, hfx⟩)
      · exact ⟨a, .head _, ha⟩
      · exact ⟨x, .tail _ hx, hfx⟩
    · rintro ⟨x, hx, hfx⟩
      rcases mem_cons.mp hx with rfl | hx
      · exact .inl (Except.ok.inj (hfx.symm.trans ha))
      · exact .inr ⟨x, hx, hfx⟩

theorem exists_mapM (h : ∀ a ∈ l, ∃ b, f a = .ok b) : ∃ out, l.mapM f = .ok out := by
  induction l with
  | nil => exact ⟨[], rfl⟩
  | cons a l ih =>
    obtain ⟨b, hb⟩ := h a (.head _)
    obtain ⟨bs, hbs⟩ := ih fun x hx => h x (.tail _ hx)
    refine ⟨b :: bs, ?_⟩
    rw [mapM_cons, hb]
    rw [hbs]
    rfl

theorem both_ok {first : Except ε Unit} {rest : Except ε α} {result : α} :
    (first >>= fun _ => rest) = .ok result ↔ first = .ok () ∧ rest = .ok result := by
  rw [bind_ok]
  constructor
  · rintro ⟨⟨⟩, hfirst, hrest⟩
    exact ⟨hfirst, hrest⟩
  · rintro ⟨hfirst, hrest⟩
    exact ⟨(), hfirst, hrest⟩

theorem forM_ok {check : α → Except ε Unit} {items : List α} :
    items.forM check = .ok () ↔ ∀ item ∈ items, check item = .ok () := by
  induction items with
  | nil =>
    simp only [not_mem_nil, false_implies, implies_true, iff_true]
    rfl
  | cons item items ih =>
    simp only [forM_eq_forM, forM_cons, forall_mem_cons] at ih ⊢
    rw [both_ok, ih]

/-- What each step of a fold makes hold of the elements done so far holds of all of
them in the end. -/
theorem foldlM_ok {step : β → α → Except ε β} (P : List α → β → Prop)
    (hstep : ∀ done a b b', P done b → step b a = .ok b' → P (done ++ [a]) b') {b b' : β}
    (hstart : P [] b) (h : l.foldlM step b = .ok b') : P l b' := by
  have hgeneral : ∀ (rest done : List α) (b : β), P done b → rest.foldlM step b = .ok b' →
      P (done ++ rest) b' := by
    intro rest
    induction rest with
    | nil =>
      intro done b hb heq
      cases heq
      rwa [append_nil]
    | cons a rest ih =>
      intro done b hb heq
      rw [foldlM_cons, bind_ok] at heq
      obtain ⟨c, hc, hrest⟩ := heq
      rw [← singleton_append, ← append_assoc]
      exact ih _ c (hstep done a b c hb hc) hrest
  exact hgeneral l [] b hstart h

end Traverse
