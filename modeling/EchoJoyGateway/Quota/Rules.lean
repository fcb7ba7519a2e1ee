import Mathlib.Data.Int.Basic
import Mathlib.Algebra.Group.Nat.Defs

/-!
# Cost-limit rules and their persisted state

The definitions of `internal/accessquota`: a rule, the state that is restored
for it, and the checks that a restored state has to pass. Amounts and instants
are `int64` values, revisions and counters `uint64` values.
-/

namespace EchoJoyGateway.Quota

variable {state : RestoredState}

inductive Kind where
  | total
  | periodic
  | other (name : String)
  deriving DecidableEq

structure Rule where
  id : Nat
  revision : Nat
  kind : Kind
  currency : String
  limitNano : Int
  periodSeconds : Int
  deriving DecidableEq

structure RestoredState where
  accessKeyID : Nat
  ruleID : Nat
  ruleRevision : Nat
  usedNano : Int
  windowStartedAtMS : Option Int
  windowEndsAtMS : Option Int
  windowGeneration : Nat
  snapshotVersion : Nat
  deriving DecidableEq, Inhabited

structure TicketRule where
  ruleID : Nat
  ruleRevision : Nat
  windowGeneration : Nat
  deriving DecidableEq

structure Ticket where
  accessKeyID : Nat
  rules : List TicketRule
  deriving DecidableEq

structure RuntimeRule where
  definition : Rule
  usedNano : Int
  windowStartedAtMS : Option Int
  windowEndsAtMS : Option Int
  windowGeneration : Nat
  deriving DecidableEq

def minPeriodSeconds : Int := 60

def maxPeriodSeconds : Int := 365 * 24 * 60 * 60

def periodMS (rule : Rule) : Int := rule.periodSeconds * 1000

/-- The wrap-around of `int64` arithmetic. -/
def wrapInt64 (z : Int) : Int := Int.bmod z (2 ^ 64)

def windowOrdered : Option Int → Option Int → Bool
  | some started, some ends => decide (0 ≤ started) && decide (started < ends)
  | _, _ => true

def validateRestoredState (state : RestoredState) : Except String Unit :=
  if state.accessKeyID = 0 ∨ state.ruleID = 0 ∨ state.ruleRevision = 0 ∨
      state.usedNano < 0 ∨ state.snapshotVersion = 0 then
    .error s!"restore access quota rule {state.ruleID}: invalid persisted state"
  else if state.windowStartedAtMS.isNone ≠ state.windowEndsAtMS.isNone then
    .error s!"restore access quota rule {state.ruleID}: incomplete window"
  else if windowOrdered state.windowStartedAtMS state.windowEndsAtMS = false then
    .error s!"restore access quota rule {state.ruleID}: invalid window"
  else .ok ()

def restoredRule (definition : Rule) (state : RestoredState) : RuntimeRule where
  definition := definition
  usedNano := state.usedNano
  windowStartedAtMS := state.windowStartedAtMS
  windowEndsAtMS := state.windowEndsAtMS
  windowGeneration := state.windowGeneration

def applyRestoredState (definition : Rule) (state : RestoredState) : Except String RuntimeRule :=
  match definition.kind, state.windowStartedAtMS, state.windowEndsAtMS with
  | .total, started, ends =>
    if started.isSome ∨ ends.isSome ∨ state.windowGeneration ≠ 0 then
      .error s!"restore total access quota rule {definition.id}: window state is not allowed"
    else .ok (restoredRule definition state)
  | _, none, _ =>
    if state.usedNano ≠ 0 ∨ state.windowGeneration ≠ 0 then
      .error (s!"restore periodic access quota rule {definition.id}: " ++
        "inactive state has usage or generation")
    else .ok (restoredRule definition state)
  | _, some started, ends =>
    if state.windowGeneration = 0 then
      .error s!"restore periodic access quota rule {definition.id}: active state has no generation"
    else if wrapInt64 (ends.getD 0 - started) ≠ periodMS definition then
      .error (s!"restore periodic access quota rule {definition.id}: " ++
        "window duration does not match period")
    else .ok (restoredRule definition state)

theorem validateRestoredState_ok :
    validateRestoredState state = .ok () ↔
      state.accessKeyID ≠ 0 ∧ state.ruleID ≠ 0 ∧ state.ruleRevision ≠ 0 ∧ 0 ≤ state.usedNano ∧
      state.snapshotVersion ≠ 0 ∧ state.windowStartedAtMS.isNone = state.windowEndsAtMS.isNone ∧
      windowOrdered state.windowStartedAtMS state.windowEndsAtMS = true := by
  unfold validateRestoredState
  split
  · simp only [reduceCtorEq, false_iff]
    rintro ⟨hkey, hrule, hrev, hused, hver, -⟩
    omega
  · split
    · simp_all
    · split <;> simp_all

theorem exists_ok_guard {ε α : Type} {c : Prop} [Decidable c] {message : ε} {next : Except ε α} :
    (∃ runtime, (if c then .error message else next) = .ok runtime) ↔
      ¬c ∧ ∃ runtime, next = .ok runtime := by
  split <;> simp_all

theorem applyRestoredState_total {definition : Rule} (htotal : definition.kind = .total) :
    (∃ runtime, applyRestoredState definition state = .ok runtime) ↔
      state.windowStartedAtMS = none ∧ state.windowEndsAtMS = none ∧
        state.windowGeneration = 0 := by
  simp only [applyRestoredState, htotal, exists_ok_guard]
  cases state.windowStartedAtMS <;> cases state.windowEndsAtMS <;> simp

theorem applyRestoredState_inactive {definition : Rule} (hkind : definition.kind ≠ .total)
    (hstart : state.windowStartedAtMS = none) :
    (∃ runtime, applyRestoredState definition state = .ok runtime) ↔
      state.usedNano = 0 ∧ state.windowGeneration = 0 := by
  cases hk : definition.kind with
  | total => exact absurd hk hkind
  | periodic | other name =>
    simp only [applyRestoredState, hstart, exists_ok_guard]
    simp

theorem applyRestoredState_active {definition : Rule} {started : Int}
    (hkind : definition.kind ≠ .total) (hstart : state.windowStartedAtMS = some started) :
    (∃ runtime, applyRestoredState definition state = .ok runtime) ↔
      state.windowGeneration ≠ 0 ∧
        wrapInt64 (state.windowEndsAtMS.getD 0 - started) = periodMS definition := by
  cases hk : definition.kind with
  | total => exact absurd hk hkind
  | periodic | other name =>
    simp only [applyRestoredState, hstart, exists_ok_guard]
    simp

/-- `ValidateRestoredState`: the persisted state is a legal state of the rule. -/
def validateStateOf (rule : Rule) (state : RestoredState) : Except String RuntimeRule :=
  match validateRestoredState state with
  | .error message => .error message
  | .ok () =>
    if state.ruleID ≠ rule.id ∨ state.ruleRevision ≠ rule.revision then
      .error s!"restore access quota rule {rule.id}: state identity or revision mismatch"
    else applyRestoredState rule state

def Accepted (rule : Rule) (state : RestoredState) : Prop :=
  ∃ runtime, validateStateOf rule state = .ok runtime

theorem accepted_iff {rule : Rule} :
    Accepted rule state ↔
      validateRestoredState state = .ok () ∧ state.ruleID = rule.id ∧
        state.ruleRevision = rule.revision ∧
        ∃ runtime, applyRestoredState rule state = .ok runtime := by
  unfold Accepted validateStateOf
  cases hv : validateRestoredState state with
  | error message => simp
  | ok _ =>
    simp only [exists_ok_guard]
    constructor
    · rintro ⟨hid, hruntime⟩
      exact ⟨trivial, by grind, by grind, hruntime⟩
    · rintro ⟨-, hrule, hrev, hruntime⟩
      exact ⟨by grind, hruntime⟩

def maxPeriodicRules : Nat := 10

def ruleShapeValid (rule : Rule) : Bool :=
  decide (rule.id ≠ 0) && decide (rule.revision ≠ 0) && decide (0 < rule.limitNano) &&
    (match rule.kind with
      | .total => decide (rule.periodSeconds = 0)
      | .periodic => decide (minPeriodSeconds ≤ rule.periodSeconds) &&
          decide (rule.periodSeconds ≤ maxPeriodSeconds)
      | .other _ => false)

/-- What `validateRules` accepts as the rules of one access key. -/
def validRules (rules : List Rule) : Bool :=
  rules.all ruleShapeValid && decide (rules.map Rule.id).Nodup &&
    decide ((rules.filter fun rule => rule.kind = .periodic).map Rule.periodSeconds).Nodup &&
    decide ((rules.filter fun rule => rule.kind = .total).length ≤ 1) &&
    decide ((rules.filter fun rule => rule.kind = .periodic).length ≤ maxPeriodicRules)

theorem validRules_nodup {rules : List Rule} (h : validRules rules = true) :
    (rules.map Rule.id).Nodup := by
  simp only [validRules, Bool.and_eq_true, decide_eq_true_eq] at h
  exact h.1.1.1.2

theorem validRules_shape {rules : List Rule} (h : validRules rules = true) {rule : Rule}
    (hmem : rule ∈ rules) : ruleShapeValid rule = true := by
  simp only [validRules, Bool.and_eq_true] at h
  exact List.all_eq_true.mp h.1.1.1.1 rule hmem

end EchoJoyGateway.Quota
