import EchoJoyGateway.Scheduler.Iterator

/-!
# Route inspection

`Inspect` of `internal/scheduler/inspect.go`: for a query, what the scheduler
would make of every target of the route catalog and of every credential of its
group, computed from the runtime views of the registry alone.
-/

namespace EchoJoyGateway.State

def viewBefore (left right : CredentialRuntimeView) : Prop :=
  if left.groupID ≠ right.groupID then left.groupID ≤ right.groupID else left.id ≤ right.id

instance : DecidableRel viewBefore := fun left right =>
  inferInstanceAs (Decidable
    (if left.groupID ≠ right.groupID then left.groupID ≤ right.groupID else left.id ≤ right.id))

def CredentialRegistry.snapshot (r : CredentialRegistry) : List CredentialRuntimeView :=
  (r.buckets.entries.flatMap fun bucket =>
    bucket.2.entries.map fun item => runtimeView item.2).insertionSort viewBefore

end EchoJoyGateway.State

namespace EchoJoyGateway.Scheduler

open State Clock

structure CredentialInspection where
  credentialID : Nat
  available : Bool
  reason : Option ReasonCode
  weightManual : Option Int
  effectiveWeight : Int
  cooldownUntil : Time

structure GroupInspection where
  priority : Int
  groupID : Nat
  groupName : String
  channelID : String
  routeMode : RouteMode
  routeRequirementSatisfied : Bool
  upstreamModelID : Option String
  weightManual : Option Int
  included : Bool
  routable : Bool
  reason : Option ReasonCode
  credentials : List CredentialInspection

structure Inspection where
  clientProtocol : Protocol
  operation : Operation
  routeRequirement : RouteRequirement
  externalModel : Option String
  routable : Bool
  reason : Option ReasonCode
  groups : List GroupInspection

def CredentialInspection.refused (credential : CredentialRuntimeView) (reason : ReasonCode) :
    CredentialInspection :=
  ⟨credential.id, false, some reason, credential.weightManual, 0, zeroTime⟩

def allowsID (allowedCredentialIDs : Option (List Nat)) (id : Nat) : Bool :=
  match allowedCredentialIDs with
  | none => true
  | some ids => ids.contains id

def inspectCredential (group : GroupCatalogView) (credential : CredentialRuntimeView)
    (allowedCredentialIDs : Option (List Nat)) (now : Time) (model : String)
    (operation : Operation) : CredentialInspection :=
  let cooling := modelCooldownUntil credential.modelCooldowns model operation now
  if group.weightManual = some 0 then .refused credential .groupWeightZero
  else if allowsID allowedCredentialIDs credential.id = false then
    .refused credential .credentialNotAllowed
  else if credential.status ≠ .active then .refused credential .credentialDisabled
  else if credential.authReady = false then .refused credential .credentialAuthUnavailable
  else if credential.weightManual = some 0 then .refused credential .credentialWeightZero
  else
    match credential.runtimeState now with
    | .blacklisted => .refused credential .credentialBlacklisted
    | .cooldown =>
      { CredentialInspection.refused credential .credentialCooldown with
        cooldownUntil :=
          if after cooling credential.cooldownUntil then cooling else credential.cooldownUntil }
    | .available | .disabled =>
      if after cooling now then
        { CredentialInspection.refused credential .modelCooldown with cooldownUntil := cooling }
      else
        ⟨credential.id, true, none, credential.weightManual,
          effectiveWeight group.weightManual credential.weightManual, zeroTime⟩

def credentialsByGroup (credentials : List CredentialRuntimeView) (groupID : Nat) :
    List CredentialRuntimeView :=
  (credentials.filter fun credential => credential.groupID == groupID).insertionSort
    fun left right => left.id ≤ right.id

def CredentialInspection.usable (credential : CredentialInspection) : Bool :=
  credential.available && decide (0 < credential.effectiveWeight)

def inspectGroup (credentials : List CredentialRuntimeView) (query : NormalizedQuery) (now : Time)
    (decision : TargetDecision) : GroupInspection :=
  let groupResult : GroupInspection :=
    { priority := decision.group.priority
      groupID := decision.group.id
      groupName := decision.group.name
      channelID := decision.target.resolvedTarget.channelID
      routeMode := decision.target.mode
      routeRequirementSatisfied := decision.requirementOK
      upstreamModelID := optionalModel decision.target.upstreamModelID
      weightManual := decision.group.weightManual
      included := decision.included
      routable := false
      reason := decision.reason
      credentials := [] }
  if decision.included then
    let groupCredentials := credentialsByGroup credentials decision.group.id
    let inspected := groupCredentials.map fun credential =>
      inspectCredential decision.group credential query.allowedCredentialIDs now
        decision.target.upstreamModelID query.operation
    let routable := inspected.any CredentialInspection.usable
    { groupResult with
      credentials := inspected
      routable := routable
      reason :=
        if decision.group.weightManual = some 0 then some .groupWeightZero
        else if groupCredentials.isEmpty then some .noCredentials
        else if routable = false then some .noAvailableCredential
        else decision.reason }
  else groupResult

def inspect (snapshot : Option ConfigSnapshot) (credentials : List CredentialRuntimeView)
    (query : Query) (now : Time) : Except String Inspection :=
  match snapshot with
  | none => .error "inconsistent scheduler snapshot: nil ConfigSnapshot"
  | some config =>
    let normalized := normalizeQuery query
    let result : Inspection :=
      { clientProtocol := normalized.clientProtocol
        operation := normalized.operation
        routeRequirement := normalized.routeRequirement
        externalModel := normalized.externalModel
        routable := false
        reason := none
        groups := [] }
    if normalized.accessKey.status = .disabled then
      .ok { result with reason := some .accessKeyDisabled }
    else
      match credentials.find? fun credential => (config.catalogView credential.groupID).isNone with
      | some credential =>
        .error (s!"inconsistent scheduler snapshot: registry credential {credential.id} " ++
          s!"group {credential.groupID} missing from catalog")
      | none =>
        match evaluateTargets snapshot config.executionRouteCatalog normalized with
        | .error message => .error message
        | .ok (decisions, staticReason) =>
          let groups := decisions.map (inspectGroup credentials normalized now)
          if groups.any GroupInspection.routable then
            .ok { result with routable := true, groups := groups }
          else
            .ok { result with
              reason := some (staticReason.getD .noAvailableCredential)
              groups := groups }

end EchoJoyGateway.Scheduler
