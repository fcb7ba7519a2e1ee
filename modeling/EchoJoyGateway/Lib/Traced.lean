import Mathlib.Init

/-!
# Computations that leave a trace

A computation runs statements one after the other, each of which leaves a state, and ends
with a result or an error. What holds of every state it leaves, of its result and of its
errors is shown step by step.
-/

structure Traced (σ ε α : Type) where
  trace : List σ
  result : Except ε α

namespace Traced

open List

variable {σ ε α β : Type}

protected def pure (a : α) : Traced σ ε α := ⟨[], .ok a⟩

protected def bind (x : Traced σ ε α) (f : α → Traced σ ε β) : Traced σ ε β :=
  match x.result with
  | .error e => ⟨x.trace, .error e⟩
  | .ok a => ⟨x.trace ++ (f a).trace, (f a).result⟩

instance : Monad (Traced σ ε) where
  pure := Traced.pure
  bind := Traced.bind

def statement (s : σ) : Traced σ ε σ := ⟨[s], .ok s⟩

def lift (x : Except ε α) : Traced σ ε α := ⟨[], x⟩

def each (f : α → σ → Traced σ ε σ) : List α → σ → Traced σ ε σ
  | [], s => pure s
  | x :: xs, s => f x s >>= each f xs

/-- Every state of the trace meets `P`, a result `Q` and an error `E`. -/
structure Sat (P : σ → Prop) (Q : α → Prop) (E : ε → Prop) (x : Traced σ ε α) : Prop where
  trace : ∀ s ∈ x.trace, P s
  ok : ∀ a, x.result = .ok a → Q a
  error : ∀ e, x.result = .error e → E e

variable {P : σ → Prop} {Q : α → Prop} {R : β → Prop} {E : ε → Prop}

theorem Sat.pure {a : α} (h : Q a) : Sat P Q E (Pure.pure a : Traced σ ε α) := by
  refine ⟨nofun, ?_, nofun⟩
  rintro _ ⟨⟩
  exact h

theorem Sat.lift {x : Except ε α} (hok : ∀ a, x = .ok a → Q a) (herror : ∀ e, x = .error e → E e) :
    Sat P Q E (lift x : Traced σ ε α) :=
  ⟨nofun, hok, herror⟩

theorem Sat.statement {s : σ} {Q : σ → Prop} (hP : P s) (hQ : Q s) :
    Sat P Q E (statement s : Traced σ ε σ) := by
  refine ⟨?_, ?_, nofun⟩
  · intro s' hs'
    rwa [mem_singleton.mp hs']
  · rintro _ ⟨⟩
    exact hQ

theorem Sat.bind {x : Traced σ ε α} {f : α → Traced σ ε β} (hx : Sat P Q E x)
    (hf : ∀ a, Q a → Sat P R E (f a)) : Sat P R E (x >>= f) := by
  change Sat P R E (.bind x f)
  unfold Traced.bind
  cases hresult : x.result with
  | error e =>
    refine ⟨hx.trace, nofun, ?_⟩
    rintro _ ⟨⟩
    exact hx.error e hresult
  | ok a =>
    have hrest := hf a (hx.ok a hresult)
    refine ⟨fun s hs => ?_, hrest.ok, hrest.error⟩
    rcases mem_append.mp hs with hs | hs
    · exact hx.trace s hs
    · exact hrest.trace s hs

theorem Sat.mono {x : Traced σ ε α} {Q' : α → Prop} {E' : ε → Prop} (hx : Sat P Q E x)
    (hQ : ∀ a, Q a → Q' a) (hE : ∀ e, E e → E' e) : Sat P Q' E' x :=
  ⟨hx.trace, fun a ha => hQ a (hx.ok a ha), fun e he => hE e (hx.error e he)⟩

theorem Sat.each {f : α → σ → Traced σ ε σ} {I : List α → σ → Prop} {xs : List α} {s : σ}
    (hstep : ∀ done x todo s, done ++ x :: todo = xs → I done s → Sat P (I (done ++ [x])) E (f x s))
    (h : I [] s) : Sat P (I xs) E (each f xs s) := by
  suffices hsuffix : ∀ todo done s, done ++ todo = xs → I done s →
      Sat P (I xs) E (.each f todo s) from hsuffix xs [] s rfl h
  intro todo
  induction todo with
  | nil =>
    intro done s hxs hdone
    rw [append_nil] at hxs
    exact .pure (hxs ▸ hdone)
  | cons x todo ih =>
    intro done s hxs hdone
    refine .bind (hstep done x todo s hxs hdone) fun s' hs' => ih (done ++ [x]) s' ?_ hs'
    rw [← hxs, append_assoc]
    rfl

end Traced
