import EchoJoyGateway.Quota.Rules
import Mathlib.Data.List.Perm.Basic

/-!
# The decision over the rules of an access key

`DecisionFor` of `internal/accessquota`: the rules in their order, the view of each
at an instant, and the decision over the views. A rule without a state counts as
never used.
-/

namespace EchoJoyGateway.Quota

open List

inductive RuleStatus where
  | available
  | inactive
  | exhausted
  deriving DecidableEq

structure RuleView where
  rule : Rule
  usedNano : Int
  remainingNano : Int
  status : RuleStatus
  windowStartedAtMS : Option Int
  windowEndsAtMS : Option Int
  windowGeneration : Nat
  deriving DecidableEq

structure Decision where
  allowed : Bool
  recoverable : Bool
  nextAvailableAtMS : Option Int
  blockingRules : List RuleView
  deriving DecidableEq

def allowedDecision : Decision where
  allowed := true
  recoverable := true
  nextAvailableAtMS := none
  blockingRules := []

def remaining (limit used : Int) : Int := if limit ≤ used then 0 else limit - used

def periodicInactive (rule : RuntimeRule) (nowMS : Int) : Bool :=
  match rule.windowStartedAtMS, rule.windowEndsAtMS with
  | some _, some ends => decide (ends ≤ nowMS)
  | _, _ => true

def ruleViewOf (rule : RuntimeRule) (nowMS : Int) : RuleView :=
  if rule.definition.kind = .periodic ∧ periodicInactive rule nowMS = true then
    { rule := rule.definition
      usedNano := 0
      remainingNano := rule.definition.limitNano
      status := .inactive
      windowStartedAtMS := none
      windowEndsAtMS := none
      windowGeneration := rule.windowGeneration }
  else
    { rule := rule.definition
      usedNano := rule.usedNano
      remainingNano := remaining rule.definition.limitNano rule.usedNano
      status := if rule.definition.limitNano ≤ rule.usedNano then .exhausted else .available
      windowStartedAtMS := rule.windowStartedAtMS
      windowEndsAtMS := rule.windowEndsAtMS
      windowGeneration := rule.windowGeneration }

/-- The body of the loop of `decisionOf`; the number is the latest end of a blocking
window. -/
def decisionStep (nowMS : Int) (state : Decision × Int) (rule : RuntimeRule) : Decision × Int :=
  let view := ruleViewOf rule nowMS
  if view.status ≠ .exhausted then state
  else
    let decision :=
      { state.1 with allowed := false, blockingRules := state.1.blockingRules ++ [view] }
    if rule.definition.kind = .total then
      ({ decision with recoverable := false, nextAvailableAtMS := none }, state.2)
    else
      match view.windowEndsAtMS with
      | some ends =>
        (decision, if decision.recoverable = true ∧ state.2 < ends then ends else state.2)
      | none => (decision, state.2)

def decisionOf (rules : List RuntimeRule) (nowMS : Int) : Decision :=
  let (decision, next) := rules.foldl (decisionStep nowMS) (allowedDecision, 0)
  if decision.allowed = false ∧ decision.recoverable = true ∧ 0 < next then
    { decision with nextAvailableAtMS := some next }
  else decision

/-- The order of `sortRules`: the total rule, then the periods, then the identities. -/
def precedes (left right : Rule) : Bool :=
  if left.kind ≠ right.kind then decide (left.kind = .total)
  else if left.periodSeconds ≠ right.periodSeconds then
    decide (left.periodSeconds < right.periodSeconds)
  else decide (left.id < right.id)

variable (rules : List Rule)

def sortRules : List Rule := rules.mergeSort fun left right => !precedes right left

variable (states : Nat → Option RestoredState)

def runtimeRuleOf (rule : Rule) : RuntimeRule :=
  match states rule.id with
  | none =>
    { definition := rule, usedNano := 0, windowStartedAtMS := none, windowEndsAtMS := none,
      windowGeneration := 0 }
  | some state => restoredRule rule state

def entryFromStates :
    List RuntimeRule :=
  (sortRules rules).map (runtimeRuleOf states)

def decisionFor (nowMS : Int) :
    Decision :=
  decisionOf (entryFromStates rules states) nowMS

section Allowed

variable {nowMS : Int}

theorem decisionStep_allowed (state : Decision × Int) (rule : RuntimeRule) :
    (decisionStep nowMS state rule).1.allowed =
      (state.1.allowed && decide ((ruleViewOf rule nowMS).status ≠ .exhausted)) := by
  unfold decisionStep
  dsimp only
  split
  · rename_i havailable
    rw [decide_eq_true havailable, Bool.and_true]
  · rename_i hexhausted
    rw [decide_eq_false hexhausted, Bool.and_false]
    split
    · rfl
    · split <;> rfl

theorem foldl_decisionStep_allowed (rules : List RuntimeRule) (state : Decision × Int) :
    (rules.foldl (decisionStep nowMS) state).1.allowed =
      (state.1.allowed &&
        rules.all fun rule => decide ((ruleViewOf rule nowMS).status ≠ .exhausted)) := by
  induction rules generalizing state with
  | nil => rw [foldl_nil, all_nil, Bool.and_true]
  | cons rule rules ih =>
    rw [foldl_cons, ih, decisionStep_allowed, all_cons, Bool.and_assoc]

theorem decisionFor_allowed :
    (decisionFor rules states nowMS).allowed =
      rules.all fun rule =>
        decide ((ruleViewOf (runtimeRuleOf states rule) nowMS).status ≠ .exhausted) := by
  have hfold := @foldl_decisionStep_allowed nowMS (entryFromStates rules states)
    (allowedDecision, 0)
  have hperm : (sortRules rules).Perm rules := mergeSort_perm rules _
  have hallowed : ∀ result : Decision × Int,
      (if result.1.allowed = false ∧ result.1.recoverable = true ∧ 0 < result.2 then
        { result.1 with nextAvailableAtMS := some result.2 } else result.1).allowed =
          result.1.allowed := by
    intro result
    split <;> rfl
  refine (hallowed _).trans (hfold.trans ?_)
  rw [entryFromStates, all_map, hperm.all_eq]
  rfl

end Allowed

end EchoJoyGateway.Quota
