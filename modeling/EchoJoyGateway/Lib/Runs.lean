import Mathlib.Init

/-!
# Runs of a step function

A step takes a state and an event to the next state, or is not possible. A run takes
the events of a list in order; a guarded step also meets a condition before it.
-/

namespace Runs

variable {σ ε : Type} {step : σ → ε → Option σ}

def run (step : σ → ε → Option σ) (s : σ) : List ε → Option σ
  | [] => some s
  | e :: es =>
    match step s e with
    | none => none
    | some s' => run step s' es

def guarded (ok : σ → ε → Bool) (step : σ → ε → Option σ) (s : σ) (e : ε) : Option σ :=
  if ok s e = true then step s e else none

theorem guarded_eq_some {ok : σ → ε → Bool} {s s' : σ} {e : ε} :
    guarded ok step s e = some s' ↔ ok s e = true ∧ step s e = some s' :=
  Option.ite_none_right_eq_some

theorem run_invariant_mem {P : σ → Prop} {s s' : σ} {es : List ε}
    (hstep : ∀ {s s' : σ}, ∀ e ∈ es, P s → step s e = some s' → P s')
    (h : run step s es = some s') (hs : P s) : P s' := by
  induction es generalizing s with
  | nil =>
    cases h
    exact hs
  | cons e es ih =>
    unfold run at h
    split at h
    · cases h
    · rename_i mid hmid
      exact ih (fun e hmem => hstep e (List.mem_cons_of_mem _ hmem)) h (hstep e (.head _) hs hmid)

theorem run_invariant {P : σ → Prop} {s s' : σ} {es : List ε}
    (hstep : ∀ {s s' : σ} {e : ε}, P s → step s e = some s' → P s')
    (h : run step s es = some s') (hs : P s) : P s' :=
  run_invariant_mem (fun _ _ hbefore hmid => hstep hbefore hmid) h hs

end Runs
