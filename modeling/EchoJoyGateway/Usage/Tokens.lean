import Mathlib.Init

/-!
# Token usage

`Tokens`, `State` and `Result` of `internal/usage/types.go` and the checked sums of
`arithmetic.go`.
-/

namespace EchoJoyGateway.Usage

structure Tokens where
  uncachedInput : Int
  cacheRead : Int
  cacheWrite5M : Int
  cacheWrite1H : Int
  cacheWriteUnknown : Int
  output : Int
  deriving DecidableEq

inductive State where
  | complete
  | incomplete
  | missing
  | notApplicable
  | other (text : String)
  deriving DecidableEq

structure Result where
  tokens : Tokens
  state : State
  deriving DecidableEq

def maxInt64 : Int := 9223372036854775807

/-- A sum that the source reports with `false` is `none`. -/
def checkedAdd (left right : Int) : Option Int :=
  if left < 0 ∨ right < 0 ∨ left > maxInt64 - right then none else some (left + right)

def checkedTotal (tokens : Tokens) : Option Int :=
  [tokens.uncachedInput, tokens.cacheRead, tokens.cacheWrite5M, tokens.cacheWrite1H,
    tokens.cacheWriteUnknown, tokens.output].foldlM checkedAdd 0

theorem checkedAdd_eq_some {left right sum : Int} :
    checkedAdd left right = some sum ↔
      0 ≤ left ∧ 0 ≤ right ∧ left + right ≤ maxInt64 ∧ sum = left + right := by
  simp only [checkedAdd, Option.ite_none_left_eq_some, Option.some.injEq]
  omega

theorem nonneg_of_foldlM_checkedAdd {values : List Int} {start sum : Int}
    (h : values.foldlM checkedAdd start = some sum) : ∀ value ∈ values, 0 ≤ value := by
  induction values generalizing start with
  | nil => simp
  | cons value values ih =>
    rw [List.foldlM_cons, Option.bind_eq_bind, Option.bind_eq_some_iff] at h
    obtain ⟨next, hnext, hrest⟩ := h
    rintro v (_ | ⟨_, hv⟩)
    · exact (checkedAdd_eq_some.mp hnext).2.1
    · exact ih hrest v hv

end EchoJoyGateway.Usage
