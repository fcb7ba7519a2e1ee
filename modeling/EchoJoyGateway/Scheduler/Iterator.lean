import EchoJoyGateway.Scheduler.Targets
import EchoJoyGateway.Scheduler.Select
import EchoJoyGateway.State.Rotation

/-!
# The candidate iterator

`Iterator` of `internal/scheduler/scheduler.go`: the pools of a query, the
weighted candidates of a pool at a moment, the choice by priority, route mode
and ledger, and the three calls of a request. One `Next` sees one state of the
registry and reads the clock once for each pool.
-/

namespace EchoJoyGateway.Scheduler

open State Clock

structure CandidateTarget where
  target : RouteTarget
  group : GroupView
  responsesStoreDowngraded : Bool

structure CandidatePool where
  targetsByGroup : Nat → List CandidateTarget
  groupIDsByMode : RouteMode → List Nat
  priorityLimit : Option Int
  lowerPriority : Bool

def newCandidatePool : CandidatePool := ⟨fun _ => [], fun _ => [], none, false⟩

structure CredentialIdentity where
  groupID : Nat
  identityGeneration : Nat
  deriving DecidableEq

structure Iterator where
  snapshot : Option ConfigSnapshot
  query : Query
  operation : Operation
  regular : CandidatePool
  storeDowngraded : CandidatePool
  routeModeTiers : List (List RouteMode)
  allowedCredentialIDs : Option (List Nat)
  preferredCredentialID : Nat
  tried : List Nat
  skippedGroups : List Nat
  allowedCredentialRefs : Option (Nat → Option CredentialIdentity)
  staticReason : Option ReasonCode

structure Selection where
  credentialID : Nat
  groupID : Nat
  resolvedTarget : ResolvedTarget
  routeMode : RouteMode
  upstreamModelID : Option String
  group : GroupView
  responsesStoreDowngraded : Bool

def includedTarget (snapshot : ConfigSnapshot) (decision : TargetDecision) :
    Option CandidateTarget :=
  if decision.included then
    (snapshot.group decision.target.groupID).map fun group =>
      ⟨decision.target, group, decision.responsesStoreDowngraded⟩
  else none

def filterTargetsWithReason (snapshot : Option ConfigSnapshot) (query : Query) :
    List CandidateTarget × Option ReasonCode :=
  match snapshot with
  | none => ([], none)
  | some config =>
    match evaluateTargets snapshot config.executionCandidates (normalizeQuery query) with
    | .error _ => ([], none)
    | .ok (decisions, staticReason) => (decisions.filterMap (includedTarget config), staticReason)

def CandidatePool.add (pool : CandidatePool) (target : CandidateTarget) : CandidatePool :=
  let mode := target.target.mode
  let groupID := target.target.groupID
  { pool with
    targetsByGroup := Function.update pool.targetsByGroup groupID
      (pool.targetsByGroup groupID ++ [target])
    groupIDsByMode :=
      if (pool.groupIDsByMode mode).contains groupID then pool.groupIDsByMode
      else Function.update pool.groupIDsByMode mode (pool.groupIDsByMode mode ++ [groupID]) }

def upstreamBefore (left right : CandidateTarget) : Prop :=
  left.target.upstreamModelID ≤ right.target.upstreamModelID

instance : DecidableRel upstreamBefore :=
  fun left right =>
    inferInstanceAs (Decidable (left.target.upstreamModelID ≤ right.target.upstreamModelID))

/-- The pool of the targets that are downgraded, or of those that are not. -/
def buildPool (targets : List CandidateTarget) (downgraded : Bool) : CandidatePool :=
  let pool := (targets.filter fun target => target.responsesStoreDowngraded == downgraded).foldl
    CandidatePool.add newCandidatePool
  { pool with targetsByGroup := fun groupID =>
      (pool.targetsByGroup groupID).insertionSort upstreamBefore }

def routeModeTiers (snapshot : Option ConfigSnapshot) : List (List RouteMode) :=
  match snapshot with
  | none => [[.native], [.converted]]
  | some config =>
    match config.routeStrategy with
    | .weightedMix => [[.native, .converted]]
    | .nativeFirst => [[.native], [.converted]]

/-- `newWithClock`; the publication of the groups to the ledger is the second
component. -/
def newIterator (snapshot : Option ConfigSnapshot) (ledger : SchedulingLedger) (query : Query) :
    Iterator × SchedulingLedger :=
  let filtered := filterTargetsWithReason snapshot query
  ({ snapshot := snapshot
     query := query
     operation := (normalizeQuery query).operation
     regular := buildPool filtered.1 false
     storeDowngraded := buildPool filtered.1 true
     routeModeTiers := routeModeTiers snapshot
     allowedCredentialIDs := query.allowedCredentialIDs
     preferredCredentialID := query.preferredCredentialID
     tried := []
     skippedGroups := []
     allowedCredentialRefs := query.allowedCredentialRefs.map fun refs id =>
       (refs id).map fun ref => ⟨ref.groupID, ref.identityGeneration⟩
     staticReason := filtered.2 },
   ledger.syncGroups snapshot)

/-- The entry as the scheduler is shown it, if it can be scheduled at all. -/
def credentialCandidate (excluded : Nat → Bool) (now : Time) (entry : CredentialEntry) :
    Option CredentialMeta :=
  let view := runtimeView entry
  if excluded entry.id = true then none
  else if view.runtimeState now ≠ .available ∨ entry.authState.normalize ≠ .ready then none
  else some ⟨view.id, view.groupID, view.version, view.identityGeneration, view.weightManual,
    view.modelCooldowns⟩

def collectCredentialCandidatesLocked (r : CredentialRegistry) (groupIDs : List Nat)
    (excluded : Nat → Bool) (now : Time) : List CredentialMeta :=
  groupIDs.flatMap fun groupID =>
    (Buckets.bucket r.buckets groupID).entries.filterMap fun item =>
      credentialCandidate excluded now item.2

namespace Iterator

variable (it : Iterator) (pool : CandidatePool) (modes : List RouteMode)

def targetAvailable (target : CandidateTarget) (credential : CredentialMeta)
    (modes : List RouteMode) (now : Time) : Bool :=
  modes.contains target.target.mode &&
    !after (modelCooldownUntil credential.modelCooldowns target.target.upstreamModelID
      it.operation now) now

def allows (credential : CredentialMeta) : Bool :=
  (match it.allowedCredentialIDs with
    | none => true
    | some ids => ids.contains credential.id) &&
  (match it.allowedCredentialRefs with
    | none => true
    | some refs => refs credential.id ==
      some ⟨credential.groupID, credential.identityGeneration⟩) &&
  !it.skippedGroups.contains credential.groupID

/-- Groups in the order of their modes, each once. -/
def poolGroups : List Nat :=
  (modes.flatMap pool.groupIDsByMode).foldl
    (fun groups groupID => if groups.contains groupID then groups else groups ++ [groupID]) []

/-- A credential weighs by the first of its targets that is available; one
without weight is no candidate, whatever its other targets. -/
def weigh (now : Time) (credential : CredentialMeta) : Option WeightedCredential :=
  if it.allows credential then
    match (pool.targetsByGroup credential.groupID).find?
        fun target => it.targetAvailable target credential modes now with
    | none => none
    | some target =>
      let weight := effectiveWeight target.group.weightManual credential.weightManual
      if 0 < weight then some ⟨credential, weight.toNat⟩ else none
  else none

def weightedPool (r : CredentialRegistry) (now : Time) : List WeightedCredential :=
  (collectCredentialCandidatesLocked r (poolGroups pool modes)
    (fun id => it.tried.contains id) now).filterMap (it.weigh pool modes now)

/-- `snapshot.Groups[groupID].Priority`, with the zero value for a missing one. -/
def priorityOf (groupID : Nat) : Int :=
  match it.snapshot with
  | none => 0
  | some config =>
    match config.group groupID with
    | none => 0
    | some group => group.priority

def raise (best : Option Int) (value : Int) : Option Int :=
  match best with
  | none => some value
  | some best => some (if best < value then value else best)

structure Tier where
  priority : Option Int
  lower : Option Int

def priorityStep (tier : Tier) (candidate : WeightedCredential) : Tier :=
  let value := it.priorityOf candidate.credential.groupID
  match pool.priorityLimit with
  | none => { tier with priority := raise tier.priority value }
  | some limit =>
    if limit < value then tier
    else
      { priority := raise tier.priority value
        lower := if pool.lowerPriority ∧ value < limit then raise tier.lower value else tier.lower }

def priorityCandidates (candidates : List WeightedCredential) : List WeightedCredential :=
  let tier := candidates.foldl (it.priorityStep pool) ⟨none, none⟩
  match tier.priority with
  | none => []
  | some priority =>
    candidates.filter fun candidate =>
      it.priorityOf candidate.credential.groupID == tier.lower.getD priority

/-- The model that a selection uses; without an external model it is the first. -/
def chooseModel (ledger : SchedulingLedger) (groupID : Nat) (models : List String) :
    SchedulingLedger × String :=
  match it.query.externalModel with
  | none => (ledger, models.headD "")
  | some externalModel => ledger.selectModel groupID externalModel models

def availableModels (credential : CredentialMeta) (now : Time) : List String :=
  ((pool.targetsByGroup credential.groupID).filter fun target =>
    it.targetAvailable target credential modes now).map fun target => target.target.upstreamModelID

/-- The target of a selected credential. The source indexes into a list that is
not empty here. -/
def selectTarget (ledger : SchedulingLedger) (credential : CredentialMeta) (now : Time) :
    SchedulingLedger × Option CandidateTarget :=
  let targets := pool.targetsByGroup credential.groupID
  match it.chooseModel ledger credential.groupID (it.availableModels pool modes credential now) with
  | (ledger, model) =>
    match targets.find? fun target => target.target.upstreamModelID == model with
    | some target => (ledger, some target)
    | none => (ledger, targets.head?)

def eligibleFor (now : Time) (candidates : List WeightedCredential) : List WeightedCredential :=
  candidates.filter fun candidate =>
    (pool.targetsByGroup candidate.credential.groupID).any fun target =>
      it.targetAvailable target candidate.credential modes now

/-- The route-mode tiers of a pool, up to the first that gives a credential. -/
def tryTiers (it : Iterator) (pool : CandidatePool) (now : Time)
    (candidates : List WeightedCredential) (ledger : SchedulingLedger) :
    List (List RouteMode) → SchedulingLedger × Option (CredentialMeta × CandidateTarget)
  | [] => (ledger, none)
  | modes :: tiers =>
    match selectCredential (it.snapshot.map ConfigSnapshot.revision) ledger
        (it.eligibleFor pool modes now candidates) it.preferredCredentialID with
    | (ledger, none) => it.tryTiers pool now candidates ledger tiers
    | (ledger, some selected) =>
      match it.selectTarget pool modes ledger selected now with
      | (ledger, target) => (ledger, target.map fun target => (selected, target))

def nextFrom (it : Iterator) (pool : CandidatePool) (r : CredentialRegistry)
    (ledger : SchedulingLedger) (now : Time) :
    SchedulingLedger × Option (CredentialMeta × CandidateTarget) :=
  it.tryTiers pool now (it.priorityCandidates pool
    (it.weightedPool pool [.native, .converted] r now)) ledger it.routeModeTiers

end Iterator

/-- A pool with a limit follows its selections down. -/
def CandidatePool.follow (pool : CandidatePool) (target : CandidateTarget) : CandidatePool :=
  if pool.priorityLimit.isSome then
    { pool with priorityLimit := some target.group.priority, lowerPriority := false }
  else pool

def optionalModel (value : String) : Option String := if value = "" then none else some value

def newSelection (credential : CredentialMeta) (target : CandidateTarget) : Selection where
  credentialID := credential.id
  groupID := credential.groupID
  resolvedTarget := target.target.resolvedTarget
  routeMode := target.target.mode
  upstreamModelID := optionalModel target.target.upstreamModelID
  group := target.group
  responsesStoreDowngraded := target.responsesStoreDowngraded

structure NextResult where
  iterator : Iterator
  ledger : SchedulingLedger
  /-- `none` is `ErrExhausted`. -/
  selection : Option Selection

namespace Iterator

/-- `Next` with the readings of the clock for the two pools. -/
def next (it : Iterator) (r : CredentialRegistry) (now later : Time) : NextResult :=
  match it.nextFrom it.regular r r.scheduling now with
  | (ledger, some (selected, target)) =>
    ⟨{ it with tried := selected.id :: it.tried, regular := it.regular.follow target }, ledger,
      some (newSelection selected target)⟩
  | (ledger, none) =>
    match it.nextFrom it.storeDowngraded r ledger later with
    | (ledger, some (selected, target)) =>
      ⟨{ it with
          tried := selected.id :: it.tried
          storeDowngraded := it.storeDowngraded.follow target }, ledger,
        some (newSelection selected target)⟩
    | (ledger, none) => ⟨it, ledger, none⟩

def skipGroup (it : Iterator) (groupID : Nat) : Iterator :=
  if groupID = 0 then it else { it with skippedGroups := groupID :: it.skippedGroups }

def advancePriority (it : Iterator) (selection : Selection) : Iterator :=
  if selection.responsesStoreDowngraded then
    { it with storeDowngraded :=
        { it.storeDowngraded with
          priorityLimit := some selection.group.priority
          lowerPriority := true } }
  else
    { it with regular :=
        { it.regular with priorityLimit := some selection.group.priority, lowerPriority := true } }

end Iterator

end EchoJoyGateway.Scheduler
