import EchoJoyGateway.State.Credential

/-!
# The attempt loop of one request

`executeAttempts` of `internal/gateway/handler.go` asks the scheduler for one
candidate after another, takes a slot of its group and of its credential, admits
the request to its quota once, forwards it and decides from the result whether
another round follows. Everything the loop asks for is an answer of the
environment: one `Turn` holds the answers that one round may read.

What the loop does is kept in a log. Request logs, response headers, credential
success records and the health effects of a decision are left out.
-/

namespace EchoJoyGateway.Gateway

open State (CredentialRef)

structure Reason where
  status : Nat
  code : String
  message : String
  deriving DecidableEq

def reasonNoCandidate : Reason :=
  ⟨503, "no_available_candidate", "No available upstream candidate."⟩

def reasonModelRequiredByFilter : Reason :=
  ⟨400, "model_required_by_filter", "A model is required by the access key filter."⟩

def reasonInvalidProtocolRequest : Reason :=
  ⟨400, "invalid_protocol_request", "Invalid protocol request."⟩

def reasonUpstreamRateLimited : Reason :=
  ⟨429, "upstream_rate_limited", "Upstream rate limit exceeded."⟩

def reasonCredentialConcurrencyLimited : Reason :=
  ⟨429, "credential_concurrency_limited",
    "Every upstream credential is at its concurrency limit."⟩

def reasonUpstreamConnect : Reason :=
  ⟨502, "upstream_connect_failed", "Could not connect to an upstream service."⟩

def reasonUpstreamTimeout : Reason := ⟨504, "upstream_timeout", "Upstream request timed out."⟩

def reasonUpstreamProtocol : Reason :=
  ⟨502, "upstream_protocol_error", "Upstream returned an unsupported response."⟩

def reasonResponseRedactionFailed : Reason :=
  ⟨502, "response_redaction_failed", "Response content could not be restored safely."⟩

def reasonProtocolConversionUnsupported : Reason :=
  ⟨422, "protocol_conversion_unsupported",
    "No upstream target could preserve or convert the request."⟩

def reasonRequestTooLarge : Reason := ⟨413, "request_too_large", "Request body is too large."⟩

def reasonAccessKeyCostLimitExceeded : Reason :=
  ⟨429, "access_key_cost_limit_exceeded", "Access key cost limit exceeded."⟩

def reasonConfigurationChanged : Reason :=
  ⟨503, "configuration_changed", "Configuration changed; retry the request."⟩

def reasonClusterStateUnavailable : Reason :=
  ⟨503, "cluster_state_unavailable", "Shared cluster state is unavailable."⟩

def reasonParameterOverrideUnavailable : Reason :=
  ⟨503, "parameter_override_unavailable",
    "No upstream candidate could apply the configured parameter overrides."⟩

def reasonConcurrencyLimit : Reason :=
  ⟨429, "concurrency_limit_exceeded", "Concurrency limit exceeded."⟩

def reasonAuditBlocked : Reason :=
  ⟨403, "request_audit_blocked", "Request blocked by a guardrail rule."⟩

def reasonRedactionFailed : Reason :=
  ⟨400, "request_redaction_failed", "Request content could not be redacted safely."⟩

inductive RetryDirective where
  | none
  | refreshCredential
  | nextCandidate
  deriving DecidableEq

inductive Effect where
  | none
  | cooldownCredential
  | cooldownModel
  | recordCredentialFailure
  | skipGroup
  deriving DecidableEq

structure Decision where
  retry : RetryDirective
  effect : Effect
  deriving DecidableEq

inductive DispatchState where
  | notSent
  | maybeSent
  | localResponse
  | other (name : String)
  deriving DecidableEq

def DispatchState.valid : DispatchState → Bool
  | .other _ => false
  | _ => true

inductive ErrorKind where
  | transport
  | timeout
  | canceled
  | http
  | provider
  | invalidRequest
  | conversionUnsupported
  | internal
  deriving DecidableEq

structure ErrorEvidence where
  kind : ErrorKind
  rateLimited : Bool
  deriving DecidableEq

structure UpstreamError where
  canceled : Bool
  ownershipUnavailable : Bool
  upstreamProtocol : Bool
  redaction : Bool
  timeout : Bool
  deriving DecidableEq

structure UpstreamResult where
  statusCode : Nat
  hasHeader : Bool
  hasBody : Bool
  err : Option UpstreamError
  requestWritten : Bool
  committed : Bool
  providerErrorBeforeCommit : Bool
  emptyResponseBeforeCommit : Bool
  dispatchState : DispatchState
  responseStarted : Bool
  executionError : Option ErrorEvidence
  deriving DecidableEq

def UpstreamResult.hasResponse (result : UpstreamResult) : Bool :=
  result.statusCode != 0 && result.err.isNone

def protocolError : UpstreamError :=
  { canceled := false, ownershipUnavailable := false, upstreamProtocol := true,
    redaction := false, timeout := false }

def normalizeUpstreamResultContract (result : UpstreamResult) : UpstreamResult :=
  if result.dispatchState.valid then result
  else
    let sent := result.requestWritten || result.committed || result.responseStarted ||
      result.statusCode != 0 || result.hasHeader || result.hasBody
    { statusCode := 0
      hasHeader := false
      hasBody := false
      err := some protocolError
      requestWritten := sent
      committed := result.committed
      providerErrorBeforeCommit := false
      emptyResponseBeforeCommit := false
      dispatchState := if sent then .maybeSent else .notSent
      responseStarted := false
      executionError := some ⟨.internal, false⟩ }

def isConversionUnsupportedResult (result : UpstreamResult) : Bool :=
  result.dispatchState == .notSent &&
    result.executionError.any fun evidence => evidence.kind == .conversionUnsupported

def transportReason (result : UpstreamResult) : Reason :=
  let err := result.err.getD ⟨false, false, false, false, false⟩
  if isConversionUnsupportedResult result then reasonProtocolConversionUnsupported
  else if result.dispatchState == .notSent &&
      result.executionError.any fun evidence => evidence.kind == .invalidRequest then
    reasonInvalidProtocolRequest
  else if err.ownershipUnavailable then reasonClusterStateUnavailable
  else if err.upstreamProtocol then reasonUpstreamProtocol
  else if err.redaction then reasonResponseRedactionFailed
  else if err.timeout then reasonUpstreamTimeout
  else reasonUpstreamConnect

def providerErrorReason (result : UpstreamResult) : Reason :=
  if result.executionError.any (·.rateLimited) then reasonUpstreamRateLimited
  else reasonUpstreamProtocol

structure Selection where
  credentialID : Nat
  groupID : Nat
  deriving DecidableEq

inductive Scope where
  | group
  | credential
  deriving DecidableEq

structure Attempt where
  credentialID : Nat
  committed : Bool
  retry : RetryDirective
  deriving DecidableEq

inductive Event where
  | selected (selection : Selection)
  | exhausted
  | skippedGroup (groupID : Nat)
  | advancedPriority (selection : Selection)
  | unprepared (selection : Selection) (retry : RetryDirective)
  | taken (scope : Scope) (slot : Nat)
  | freed (scope : Scope) (slot : Nat)
  | audited
  | admitted
  | notAdmitted
  | called (attempt : Attempt)
  | completed
  deriving DecidableEq

inductive Outcome where
  | canceled
  | rejected (reason : Reason)
  | streamed (result : UpstreamResult)
  | responded (result : UpstreamResult)
  | emptyResponse (result : UpstreamResult)
  | failed (result : UpstreamResult) (reason : Reason)
  deriving DecidableEq

inductive SlotAnswer where
  | acquired
  | full
  | unavailable
  deriving DecidableEq

inductive AdmitAnswer where
  | allowed
  | refused
  | staleRules
  | unavailable
  deriving DecidableEq

def limitStateFailureReason (stale : Bool) : Reason :=
  if stale then reasonConfigurationChanged else reasonClusterStateUnavailable

inductive PrepareError where
  | content
  | requestTooLarge
  | override
  deriving DecidableEq

/-- The answers one decision call of the guardrail may read. `ready` says that the
credential, the proxy and the decision request could be prepared. -/
structure JevTurn where
  canceled : Bool
  candidates : List SlotAnswer
  ready : Bool
  groupKnown : Bool
  groupSlot : SlotAnswer

/-- The answers one review of the request body may read: the review is not due, the
stored evidence blocks it or leaves it incomplete, or a decision call is due. -/
structure AuditTurn where
  due : Bool
  blocked : Bool
  incomplete : Bool
  payload : Bool
  admission : AdmitAnswer
  jev : JevTurn
  resolvedBlocked : Bool

structure Turn where
  canceled : Bool
  currentRef : Option CredentialRef
  charged : Bool
  next : Option Selection
  active : Bool
  prepared : Option PrepareError
  /-- The credential or the proxy could not be prepared: the decision on that. -/
  unprepared : Option Decision
  audit : AuditTurn
  canceledBeforeSlots : Bool
  groupKnown : Bool
  groupSlot : SlotAnswer
  credentialSlot : SlotAnswer
  admission : AdmitAnswer
  result : UpstreamResult
  /-- The error of registering the owner of a response. -/
  ownership : Option UpstreamError
  canceledAfter : Bool
  decision : Decision

structure Request where
  forwardAttemptLimit : Nat
  allowedCredentialRefs : Nat → Option CredentialRef
  stream : Bool
  responsesCancel : Bool
  /-- The request takes part in the quota of its access key. -/
  quotaAdmission : Bool

structure Loop where
  forwardAttempts : Nat
  refreshRetry : Option (Selection × CredentialRef)
  authRefreshReplayUsed : Bool
  /-- The slot that `attemptRelease` frees; none for the empty function. -/
  attemptRelease : Option Nat
  groupRelease : Option Nat
  concurrencySaturated : Bool
  parameterOverrideFailure : Option Reason
  attemptRecorded : Bool
  lastResponse : Option UpstreamResult
  lastTransport : Option UpstreamResult
  lastConversion : Option UpstreamResult
  lastProviderError : Option UpstreamResult
  lastEmptyResponse : Option UpstreamResult
  admitted : Bool
  auditCalls : Nat
  slots : Nat
  log : List Event

def Loop.start : Loop where
  forwardAttempts := 0
  refreshRetry := none
  authRefreshReplayUsed := false
  attemptRelease := none
  groupRelease := none
  concurrencySaturated := false
  parameterOverrideFailure := none
  attemptRecorded := false
  lastResponse := none
  lastTransport := none
  lastConversion := none
  lastProviderError := none
  lastEmptyResponse := none
  admitted := false
  auditCalls := 0
  slots := 0
  log := []

/-- How a round is left before its end: by `continue`, by `break` or by `return`. -/
inductive Exit where
  | next
  | leave
  | done (outcome : Outcome)
  deriving DecidableEq

abbrev Round := ExceptT Exit (StateM Loop)

def record (e : Event) : StateM Loop Unit := modify fun s => { s with log := s.log ++ [e] }

def take (scope : Scope) : StateM Loop Nat := do
  let slot := (← get).slots
  modify fun s => { s with slots := slot + 1 }
  record (.taken scope slot)
  return slot

def releasing (scope : Scope) : Option Nat → List Event
  | none => []
  | some slot => [.freed scope slot]

/-- Calling a release function: a second call finds the slot freed already. -/
def free (scope : Scope) (release : Option Nat) : StateM Loop Unit :=
  modify fun s => { s with log := s.log ++ releasing scope release }

def groupRelease : StateM Loop Unit := do
  free .group (← get).groupRelease

def attemptRelease : StateM Loop Unit := do
  free .credential (← get).attemptRelease

def accessQuotaAdmit (answer : AdmitAnswer) : StateM Loop (Option Reason) := do
  match answer with
  | .allowed =>
    record .admitted
    modify fun s => { s with admitted := true }
    return none
  | .refused =>
    record .notAdmitted
    return some reasonAccessKeyCostLimitExceeded
  | .staleRules =>
    record .notAdmitted
    return some (limitStateFailureReason true)
  | .unavailable =>
    record .notAdmitted
    return some (limitStateFailureReason false)

/-- The loop admits the request by the same lines before its first call. -/
def admitAutoQuota (request : Request) (answer : AdmitAnswer) : StateM Loop (Option Reason) := do
  if !request.quotaAdmission || (← get).admitted then return none
  else accessQuotaAdmit answer

def acquireCandidate : List SlotAnswer → StateM Loop (Option Nat)
  | [] => return none
  | .unavailable :: _ => return none
  | .full :: rest => acquireCandidate rest
  | .acquired :: _ => some <$> take .credential

/-- Says whether the call was refused for its group being full. -/
def executeJevDecision (jev : JevTurn) : StateM Loop Bool := do
  if jev.canceled then return false
  else
    match ← acquireCandidate jev.candidates with
    | none => return false
    | some credential =>
      if !jev.ready || !jev.groupKnown then
        free .credential (some credential)
        return false
      else
        match jev.groupSlot with
        | .unavailable =>
          free .credential (some credential)
          return false
        | .full =>
          free .credential (some credential)
          return true
        | .acquired =>
          let group ← take .group
          record .audited
          free .group (some group)
          -- the deferred calls free the group slot a second time
          free .group (some group)
          free .credential (some credential)
          return false

def checkRequestAudit (request : Request) (audit : AuditTurn) : StateM Loop (Option Reason) := do
  if !audit.due then return none
  else if audit.blocked then return some reasonAuditBlocked
  else if audit.incomplete || !audit.payload || (← get).auditCalls != 0 then return none
  else
    match ← admitAutoQuota request audit.admission with
    | some failure => return some failure
    | none =>
      let full ← executeJevDecision audit.jev
      modify fun s => { s with auditCalls := s.auditCalls + 1 }
      if full then return some reasonConcurrencyLimit
      else if audit.resolvedBlocked then return some reasonAuditBlocked
      else return none

variable (request : Request) (turn : Turn) (selection : Selection) (ref : CredentialRef)

/-- The replay of the last call: its credential must still be the one that was called. -/
def replayCandidate : Round (Selection × CredentialRef) := do
  modify fun s => { s with refreshRetry := none }
  match turn.currentRef with
  | none => throw .next
  | some currentRef =>
    if currentRef.groupID ≠ selection.groupID ∨
        currentRef.identityGeneration ≠ ref.identityGeneration ∨
        currentRef.encryptedProxy ≠ ref.encryptedProxy ∨
        currentRef.proxyFingerprint ≠ ref.proxyFingerprint then
      throw .next
    else
      modify fun s => { s with authRefreshReplayUsed := true }
      if turn.charged then return (selection, currentRef) else throw .next

def nextCandidate : Round (Selection × CredentialRef) := do
  match turn.next with
  | none =>
    record .exhausted
    throw .leave
  | some selection =>
    record (.selected selection)
    match request.allowedCredentialRefs selection.credentialID with
    | none => throw .next
    | some ref =>
      if ref.groupID ≠ selection.groupID then throw .next
      else return (selection, ref)

def selectCandidate : Round (Selection × CredentialRef) := do
  match (← get).refreshRetry with
  | some (selection, ref) => replayCandidate turn selection ref
  | none => nextCandidate request turn

def skipping (effect : Effect) (selection : Selection) : List Event :=
  if effect = .skipGroup then [.skippedGroup selection.groupID] else []

def advancing (retry : RetryDirective) (selection : Selection) : List Event :=
  if retry = .none then [] else [.advancedPriority selection]

def recordCandidatePreparationFailure (decision : Decision) : StateM Loop Unit := do
  record (.unprepared selection decision.retry)
  modify fun s => { s with
    log := s.log ++ skipping decision.effect selection
    attemptRecorded := true
    lastTransport := some
      { statusCode := 0, hasHeader := false, hasBody := false, err := some protocolError,
        requestWritten := false, committed := false, providerErrorBeforeCommit := false,
        emptyResponseBeforeCommit := false, dispatchState := .notSent,
        responseStarted := false, executionError := some ⟨.internal, false⟩ } }

def prepareCandidate : Round Unit := do
  if !turn.active then throw .next
  else
    match turn.prepared with
    | some .content => throw (.done (.rejected reasonRedactionFailed))
    | some .requestTooLarge =>
      modify fun s => { s with
        parameterOverrideFailure := s.parameterOverrideFailure <|> some reasonRequestTooLarge }
      record (.skippedGroup selection.groupID)
      throw .next
    | some .override =>
      modify fun s => { s with
        parameterOverrideFailure := some reasonParameterOverrideUnavailable }
      record (.skippedGroup selection.groupID)
      throw .next
    | none =>
      match turn.unprepared with
      | none => return
      | some decision =>
        recordCandidatePreparationFailure selection decision
        if decision.retry = .none then throw .leave else throw .next

/-- The review of the request; a cancellation of a response is not reviewed. -/
def auditCandidate : Round Unit := do
  if request.responsesCancel then return
  else
    match ← checkRequestAudit request turn.audit with
    | some failure => throw (.done (.rejected failure))
    | none => return

def acquireGroupConcurrency : Round Unit := do
  if request.responsesCancel then return
  else if !turn.groupKnown then throw (.done (.rejected reasonConfigurationChanged))
  else
    match turn.groupSlot with
    | .unavailable => throw (.done (.rejected (limitStateFailureReason false)))
    | .full => throw (.done (.rejected reasonConcurrencyLimit))
    | .acquired =>
      let slot ← take .group
      modify fun s => { s with groupRelease := some slot }

def acquireCredential : Round Unit := do
  match turn.credentialSlot with
  | .unavailable => throw (.done (.rejected (limitStateFailureReason false)))
  | .full =>
    groupRelease
    modify fun s => { s with concurrencySaturated := true }
    throw .next
  | .acquired =>
    let slot ← take .credential
    modify fun s => { s with attemptRelease := some slot }

def admitAttempt : Round Unit := do
  match ← admitAutoQuota request turn.admission with
  | some failure => throw (.done (.rejected failure))
  | none => return

/-- A response of a unary call is given an owner, which may fail. -/
def bindResponse (result : UpstreamResult) : UpstreamResult :=
  if !request.stream && result.hasResponse && !result.providerErrorBeforeCommit &&
      result.dispatchState != .localResponse &&
      decide (200 ≤ result.statusCode) && decide (result.statusCode < 300) then
    match turn.ownership with
    | none => result
    | some err => { result with err := some err, executionError := some ⟨.internal, false⟩ }
  else result

def forward : StateM Loop UpstreamResult := do
  let result := normalizeUpstreamResultContract turn.result
  modify fun s => { s with forwardAttempts := s.forwardAttempts + 1 }
  record (.called ⟨selection.credentialID, result.committed, turn.decision.retry⟩)
  attemptRelease
  groupRelease
  return result

/-- What the decision on an uncommitted result means for the next candidate. -/
def applyDecision (decision : Decision) : StateM Loop Unit :=
  modify fun s => { s with
    attemptRecorded := true
    refreshRetry :=
      if decision.retry = .refreshCredential ∧ s.authRefreshReplayUsed = false ∧
          s.forwardAttempts < request.forwardAttemptLimit then some (selection, ref)
      else s.refreshRetry
    log := s.log ++ (advancing decision.retry selection ++ skipping decision.effect selection) }

/-- What is kept of the result for later, and whether another round follows. -/
def conclude (decision : Decision) (result : UpstreamResult) : Round Unit := do
  if 100 ≤ result.statusCode ∧ result.statusCode < 200 then
    throw (.done (.failed result reasonUpstreamProtocol))
  else if result.emptyResponseBeforeCommit then
    if decision.retry ≠ .none ∧ (← get).forwardAttempts < request.forwardAttemptLimit then
      modify fun s => { s with lastEmptyResponse := some result }
    else throw (.done (.emptyResponse result))
  else if result.providerErrorBeforeCommit then
    if decision.retry ≠ .none then modify fun s => { s with lastProviderError := some result }
    else throw (.done (.failed result (providerErrorReason result)))
  else if result.hasResponse then
    modify fun s => { s with lastResponse := some result }
    if decision.retry ≠ .none then return else throw (.done (.responded result))
  else if result.err.any (·.canceled) then throw (.done .canceled)
  else if decision.retry ≠ .none then
    if isConversionUnsupportedResult result then
      modify fun s => { s with lastConversion := some result }
    else modify fun s => { s with lastTransport := some result }
  else throw (.done (.failed result (transportReason result)))

def settle (result : UpstreamResult) : Round Unit := do
  if result.committed then throw (.done (.streamed result))
  else if turn.canceledAfter then throw (.done .canceled)
  else
    applyDecision request selection ref turn.decision
    conclude request turn.decision result

def dispatch : Round Unit := do
  acquireGroupConcurrency request turn
  acquireCredential turn
  admitAttempt request turn
  let result ← forward turn selection
  settle request turn selection ref (bindResponse request turn result)

def proceed : Round Unit := do
  prepareCandidate turn selection
  auditCandidate request turn
  if turn.canceledBeforeSlots then throw (.done .canceled)
  else dispatch request turn selection ref

def attempt : Round Unit := do
  if turn.canceled then throw (.done .canceled)
  else
    let (selection, ref) ← selectCandidate request turn
    proceed request turn selection ref

/-- How a round ends; reaching its end is `continue`. -/
def attemptExit : StateM Loop Exit := do
  match ← (attempt request turn).run with
  | .ok () => return .next
  | .error exit => return exit

/-- The loop over the answers the environment has given so far; `none` while it waits
for more of them. -/
def rounds (request : Request) : List Turn → StateM Loop (Option Exit)
  | [] => do
    if (← get).forwardAttempts < request.forwardAttemptLimit then return none
    else return some .leave
  | turn :: turns => do
    if (← get).forwardAttempts < request.forwardAttemptLimit then
      match ← attemptExit request turn with
      | .next => rounds request turns
      | .leave => return some .leave
      | .done outcome => return some (.done outcome)
    else return some .leave

/-- The answers that choosing an automatic model may read. `decision` is its decision
call, where one is made, and `failure` a rejection after the admission. -/
structure AutoTurn where
  admission : AdmitAnswer
  decision : Option JevTurn
  failure : Option Reason
  canceled : Bool

structure Surroundings where
  automatic : Option AutoTurn
  cipherReady : Bool
  modelRequiredByFilter : Bool
  cooldownLimited : Bool

def finish (surroundings : Surroundings) (s : Loop) : Outcome :=
  match s.lastEmptyResponse, s.lastProviderError, s.lastResponse, s.lastTransport,
    s.lastConversion with
  | some result, _, _, _, _ => .emptyResponse result
  | none, some result, _, _, _ => .failed result (providerErrorReason result)
  | none, none, some result, _, _ => .responded result
  | none, none, none, some result, _ => .failed result (transportReason result)
  | none, none, none, none, some result =>
    .failed result reasonProtocolConversionUnsupported
  | none, none, none, none, none =>
    if surroundings.modelRequiredByFilter then .rejected reasonModelRequiredByFilter
    else
      match s.parameterOverrideFailure, s.attemptRecorded with
      | some failure, false => .rejected failure
      | _, _ =>
        if surroundings.cooldownLimited then .rejected reasonUpstreamRateLimited
        else if s.concurrencySaturated then .rejected reasonCredentialConcurrencyLimited
        else .rejected reasonNoCandidate

/-- `none` while the loop waits for the environment. -/
def executeAttempts (request : Request) (surroundings : Surroundings) (turns : List Turn) :
    StateM Loop (Option Outcome) := do
  if !surroundings.cipherReady then return some (.rejected reasonRedactionFailed)
  else
    match ← rounds request turns with
    | none => return none
    | some exit =>
      let s ← get
      groupRelease
      attemptRelease
      match exit with
      | .done outcome => return some outcome
      | _ => return some (finish surroundings s)

def executeAutoDecision : Option JevTurn → StateM Loop Bool
  | none => return false
  | some jev => executeJevDecision jev

/-- What ends the request before its loop. -/
def prepareAutoModel (request : Request) (auto : AutoTurn) : StateM Loop (Option Outcome) := do
  match ← admitAutoQuota request auto.admission with
  | some failure => return some (.rejected failure)
  | none =>
    if ← executeAutoDecision auto.decision then return some (.rejected reasonConcurrencyLimit)
    else
      match auto.failure with
      | some failure => return some (.rejected failure)
      | none => return if auto.canceled then some .canceled else none

def respond (request : Request) (surroundings : Surroundings) (turns : List Turn) :
    StateM Loop (Option Outcome) := do
  match surroundings.automatic with
  | none => executeAttempts request surroundings turns
  | some auto =>
    match ← prepareAutoModel request auto with
    | some outcome => return some outcome
    | none => executeAttempts request surroundings turns

/-- The part of `Handle` around the loop for a forwarded endpoint: the choice of an
automatic model, and the deferred completion of the quota. -/
def handle (request : Request) (surroundings : Surroundings) (turns : List Turn) :
    StateM Loop (Option Outcome) := do
  let outcome ← respond request surroundings turns
  -- only a request with a quota is ever admitted
  if outcome.isSome && (← get).admitted then
    record .completed
    return outcome
  else return outcome

end EchoJoyGateway.Gateway
