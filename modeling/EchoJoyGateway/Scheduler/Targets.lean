import EchoJoyGateway.State.Compile

/-!
# Routes of a query

`evaluateTargets` of `internal/scheduler/inspect.go` with what it rests on: the
normalised query, the requirement a route must meet, and the reasons for which
one is left out. The iterator asks it on the candidates, the inspection on the
whole catalog.
-/

namespace EchoJoyGateway.Scheduler

open State Clock

structure Query where
  clientProtocol : Protocol
  operation : Operation
  routeRequirement : RouteRequirement
  responsesStorePreference : ResponsesStorePreference
  externalModel : Option String
  accessKey : AccessKeyView
  allowedCredentialIDs : Option (List Nat)
  preferredCredentialID : Nat
  allowedCredentialRefs : Option (Nat → Option CredentialRef)
  responsesWebsocket : Option WebsocketCapabilities

structure NormalizedQuery where
  clientProtocol : Protocol
  operation : Operation
  routeRequirement : RouteRequirement
  responsesStorePreference : ResponsesStorePreference
  responsesWebsocket : Option WebsocketCapabilities
  externalModel : Option String
  accessKey : AccessKeyView
  allowedCredentialIDs : Option (List Nat)

/-- An omitted operation stays invalid for the images protocol, whose endpoints
choose between two. -/
def normalizeOperation (query : Query) : Operation :=
  match query.operation with
  | .unset =>
    match query.clientProtocol with
    | .openAIImages => .unset
    | .openAIResponses =>
      if query.externalModel.isNone then .responsesRetrieve else .responsesCreate
    | _ => .chatCompletion
  | operation => operation

def normalizeQuery (query : Query) : NormalizedQuery where
  clientProtocol := query.clientProtocol
  operation := normalizeOperation query
  routeRequirement := query.routeRequirement.normalize
  responsesStorePreference := query.responsesStorePreference
  responsesWebsocket := query.responsesWebsocket
  externalModel := query.externalModel
  accessKey := query.accessKey
  allowedCredentialIDs := query.allowedCredentialIDs

inductive ReasonCode where
  | accessKeyDisabled
  | protocolFiltered
  | modelFiltered
  | modelRequiredByFilter
  | operationUnsupported
  | nativeRouteRequired
  | noRouteTarget
  | groupDisabled
  | websocketDisabled
  | groupFiltered
  | noAvailableGroup
  | noCredentials
  | groupWeightZero
  | credentialDisabled
  | credentialAuthUnavailable
  | credentialBlacklisted
  | credentialCooldown
  | modelCooldown
  | credentialWeightZero
  | credentialNotAllowed
  | noAvailableCredential
  deriving DecidableEq

structure TargetDecision where
  target : RouteTarget
  group : GroupCatalogView
  requirementOK : Bool
  responsesStoreDowngraded : Bool
  included : Bool
  reason : Option ReasonCode

structure Requirement where
  satisfied : Bool
  storeDowngraded : Bool
  reason : Option ReasonCode

def Requirement.met : Requirement := ⟨true, false, none⟩

def Requirement.refused (reason : ReasonCode) : Requirement := ⟨false, false, some reason⟩

def routeRequirementSatisfied (query : NormalizedQuery) (route : RouteTarget) : Requirement :=
  if query.routeRequirement.allows route.mode = false then .refused .nativeRouteRequired
  else
    match query.responsesWebsocket with
    | some required =>
      if query.clientProtocol = .openAIResponses ∧ query.operation = .responsesCreate ∧
          route.mode = .native ∧
          route.resolvedTarget.responsesWebsocket.supports required = true then .met
      else .refused .nativeRouteRequired
    | none =>
      let handling := route.resolvedTarget.responsesStoreHandlings .openAIResponses .responsesCreate
      if query.operation ≠ .responsesCreate then .met
      else if query.responsesStorePreference = .requireStored then
        if route.mode = .native ∧ handling = .upstreamManaged then .met
        else .refused .nativeRouteRequired
      else if query.routeRequirement.normalize = .native then
        if route.resolvedTarget.supportsResponsesLifecycle then .met
        else .refused .nativeRouteRequired
      else if query.responsesStorePreference ≠ .preferStored then .met
      else
        match handling with
        | .upstreamManaged => .met
        | .stateless => ⟨true, true, none⟩
        | .unset => .refused .operationUnsupported

def passes {α : Type} [BEq α] (filter : List α) (value : α) : Bool :=
  filter.isEmpty || filter.contains value

def decideTarget (snapshot : ConfigSnapshot) (query : NormalizedQuery) (route : RouteTarget) :
    Except String TargetDecision :=
  match snapshot.catalogView route.groupID with
  | none =>
    .error (s!"inconsistent scheduler snapshot: route target group {route.groupID} " ++
      "missing from catalog")
  | some group =>
    let requirement := routeRequirementSatisfied query route
    let websocketEnabled := snapshot.websocketEnabled route.groupID
    let (included, reason) : Bool × Option ReasonCode :=
      if requirement.satisfied = false then (false, requirement.reason)
      else if group.enabled = false then (false, some .groupDisabled)
      else if passes query.accessKey.filters.groups route.groupID = false then
        (false, some .groupFiltered)
      else if query.responsesWebsocket.isSome ∧ websocketEnabled = false then
        (false, some .websocketDisabled)
      else (true, none)
    .ok ⟨route, group, requirement.satisfied, requirement.storeDowngraded, included, reason⟩

def commonReason : List TargetDecision → Option ReasonCode
  | [] => none
  | first :: rest =>
    if rest.all fun decision => decision.reason == first.reason then first.reason
    else some .noAvailableGroup

def accessRefusal (query : NormalizedQuery) : Option ReasonCode :=
  if query.accessKey.status = .disabled then some .accessKeyDisabled
  else if passes query.accessKey.filters.protocols query.clientProtocol = false then
    some .protocolFiltered
  else
    match query.externalModel with
    | none =>
      if query.accessKey.filters.models.isEmpty then none else some .modelRequiredByFilter
    | some model =>
      if passes query.accessKey.filters.models model then none else some .modelFiltered

/-- The routes an index has for a query, or the reason why there are none. -/
def findRoutes (index : ExecutionCandidateIndex) (query : NormalizedQuery) :
    Except ReasonCode (List RouteTarget) :=
  if query.clientProtocol.valid = false ∨ query.operation.valid = false ∨
      query.routeRequirement.valid = false ∨ query.responsesStorePreference.valid = false then
    .error .operationUnsupported
  else
    let byProtocol := index.byProtocol query.clientProtocol
    if byProtocol.isEmpty then .error .noRouteTarget
    else
      let byOperation := byProtocol.byOperation query.operation
      if byOperation.isEmpty then .error .operationUnsupported
      else
        let routes := byOperation.byModel (query.externalModel.getD noModelRouteKey)
        if routes.isEmpty then .error .noRouteTarget else .ok routes

def evaluateTargets (snapshot : Option ConfigSnapshot) (index : ExecutionCandidateIndex)
    (query : NormalizedQuery) : Except String (List TargetDecision × Option ReasonCode) :=
  match snapshot with
  | none => .error "inconsistent scheduler snapshot: nil ConfigSnapshot"
  | some snapshot =>
    match accessRefusal query with
    | some reason => .ok ([], some reason)
    | none =>
      match findRoutes index query with
      | .error reason => .ok ([], some reason)
      | .ok routes => do
        let decisions ← routes.mapM (decideTarget snapshot query)
        if decisions.any TargetDecision.included then .ok (decisions, none)
        else .ok (decisions, commonReason decisions)

def effectiveWeight (groupManual credentialManual : Option Int) : Int :=
  let groupWeight := configuredWeight groupManual
  let credentialWeight := configuredWeight credentialManual
  if groupWeight ≤ 0 ∨ credentialWeight ≤ 0 then 0 else groupWeight * credentialWeight

def modelCooldownUntil (limits : ModelCooldowns) (model : String) (operation : Operation)
    (now : Time) : Time :=
  if operation.usesModelCooldown = false ∨ model = "" ∨ after (limits.until model) now = false then
    zeroTime
  else limits.until model

end EchoJoyGateway.Scheduler
