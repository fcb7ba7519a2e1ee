import EchoJoyGateway.Judge.Evidence

/-!
# The execution judge

`JudgeExecution` of `internal/health/execution_judge.go`: the retry and the effect that
follow from one attempt. The helpers take the evidence of the attempt next to the attempt;
they are called only where there is some.
-/

namespace EchoJoyGateway.Judge

open Clock State

def emptyResponseCode : String := "upstream_empty_response"

def decision (category : FailureCategory) (origin : ErrorOrigin) (scope : ErrorScope)
    (retry : RetryDirective) (effect : Effect) (ruleID : String) : Decision where
  category := category
  origin := origin
  scope := scope
  retry := retry
  effect := effect
  cooldownUntil := zeroTime
  ruleID := ruleID

def normalizeDecisionContext (value : DecisionContext) : DecisionContext :=
  if value.defaultRateLimitCooldown ≤ 0 then
    { value with defaultRateLimitCooldown := 60 * second }
  else value

def isSuccessStatus (statusCode : Int) : Bool := decide (200 ≤ statusCode ∧ statusCode < 300)

def originForDispatch : DispatchState → ErrorOrigin
  | .locally => .internal
  | .maybeSent | .notSent => .upstream
  | .other _ => .unset

def scopeOrDefault (value fallback : ErrorScope) : ErrorScope :=
  if value ≠ .unset then value else fallback

def originForEvidence (evidence : ErrorEvidence) : ErrorOrigin :=
  if evidence.originHint ≠ .unset then evidence.originHint
  else
    match evidence.kind with
    | .transport | .timeout | .http | .provider => .upstream
    | .canceled => .downstream
    | .conversionUnsupported | .internal => .internal
    | .invalidRequest => .client
    | .other _ => .unset

def responseStarted (attempt : ExecutionAttempt) (evidence : ErrorEvidence) : Bool :=
  attempt.statusCode != 0 || evidence.statusCode != 0

def statusOf (attempt : ExecutionAttempt) (evidence : ErrorEvidence) : Int :=
  if attempt.statusCode = 0 then evidence.statusCode else attempt.statusCode

def retryUnlessExplicitlyUnknown (evidence : ErrorEvidence) : RetryDirective :=
  if evidence.replaySafety = .unknown then .none else .nextCandidate

def ambiguousRuleID (evidence : ErrorEvidence) : String :=
  match evidence.code with
  | "upstream_sse_error" => "stream.provider_error"
  | "upstream_stream_terminated" => "stream.upstream_terminated"
  | "upstream_protocol_error" => "stream.protocol_error"
  | "upstream_stream_idle_timeout" => "stream.idle_timeout"
  | "upstream_response_incomplete" => "stream.provider_incomplete"
  | _ => "fallback.ambiguous"

section Rules

variable (lib : Library) (attempt : ExecutionAttempt) (evidence : ErrorEvidence)
  (context : DecisionContext)

def containsAny (value : String) (markers : List String) : Bool := markers.any (hasText value)

def rejectionCode (value : String) : Bool :=
  ["context_length_exceeded", "invalid_parameter", "content_policy_violation"].contains
    (lib.toLower (trimSpace value))

def explicitRequestRejection (typeValue codeValue message : String) : Bool :=
  if rejectionCode lib typeValue || rejectionCode lib codeValue then true
  else if lib.equalFold (trimSpace typeValue) "invalid_request_error" = false ∨
      trimSpace codeValue ≠ "" then false
  else
    let message := lib.toLower (trimSpace message)
    message == "prompt is too long" || message == "prompt is too long." ||
      startsText message "prompt is too long:"

def classifyHint : FailureHint → Option FailureCategory
  | .invalidCredential => some .invalidKey
  | .refreshRequired | .reauthorizationRequired => some .authenticationRequired
  | .rateLimited => some .rateLimited
  | .requestRejected => some .clientError
  | .candidateUnavailable | .modelUnavailable => some .modelUnavailable
  | .hostError => some .upstreamHostError
  | .unset | .refreshUnavailable | .other _ => none

def classifyMarkers (statusCode : Int) (kind : ErrorKind) (markers : String) : FailureCategory :=
  if statusCode = 429 ∨ containsAny markers ["rate_limit", "rate limit", "too_many_requests",
      "quota_exceeded", "resource_exhausted", "throttl"] = true then .rateLimited
  else if statusCode = 401 then .invalidKey
  else if containsAny markers ["model_not_found", "model not found", "model_not_available",
      "model unavailable", "deployment_not_found", "unsupported_model"] then .modelUnavailable
  else if containsAny markers ["invalid_api_key", "api_key_invalid", "authentication_error",
      "authentication failed", "invalid credential", "api key not valid"] then .invalidKey
  else if 500 ≤ statusCode ∧ statusCode ≤ 599 then .upstreamHostError
  else if kind = .invalidRequest then .clientError
  else .ambiguous

def classifyExecutionEvidence : FailureCategory :=
  let statusCode := statusOf attempt evidence
  if statusCode = 401 ∧ evidence.replaySafety = .unknown ∧ evidence.hint = .unset then .ambiguous
  else
    match classifyHint evidence.hint with
    | some category => category
    | none =>
      if explicitRequestRejection lib evidence.type evidence.code evidence.summary then
        .clientError
      else classifyMarkers statusCode evidence.kind (lib.toLower
        (evidence.type ++ " " ++ evidence.code ++ " " ++ evidence.summary))

/-- An error response was received, as against a failure whose outcome is unknown. -/
def retryableUpstreamResponse : Bool :=
  if originForEvidence evidence ≠ .upstream ∨ evidence.replaySafety = .unknown then false
  else
    match evidence.kind with
    | .http =>
      let status := statusOf attempt evidence
      isSuccessStatus status || decide (400 ≤ status ∧ status ≤ 599)
    | .provider =>
      if evidence.code = "upstream_protocol_error" ∨
          evidence.code = "upstream_response_incomplete" then false
      else responseStarted attempt evidence
    | _ => false

def requestMayReplayAfterResponse (value : DecisionContext) : Bool :=
  if lib.equalFold value.method "GET" || lib.equalFold value.method "HEAD" then true
  else
    match value.operation with
    | .chatCompletion | .responsesCreate | .responsesCompact | .responsesRetrieve
    | .responsesInputItems | .responsesInputTokens | .countTokens | .listModels => true
    | _ => false

def transientCapacityDecision : Option Decision :=
  if attempt.dispatchState ≠ .maybeSent ∨
      evidence.replaySafety ≠ .rejectedBeforeProcessing ∨
      originForEvidence evidence ≠ .upstream ∨
      (evidence.kind ≠ .http ∧ evidence.kind ≠ .provider) then none
  else
    let codeValue := lib.toLower (trimSpace evidence.code)
    let overloaded := codeValue == "server_is_overloaded"
    let rateLimited := codeValue == "rate_limit_exceeded"
    if overloaded = rateLimited then none
    else
      some (decision (if rateLimited then .rateLimited else .upstreamHostError) .upstream
        evidence.scopeHint .nextCandidate .none "candidate.transient_capacity")

/-- The deadline of a rate limit and the rule that gives it. -/
def rateLimitDeadline (modelScoped : Bool) (ruleID : String) : Time × String :=
  if 0 < evidence.retryAfter then (attempt.now + evidence.retryAfter, "rate_limit.retry_after")
  else
    let header := if attempt.header.isEmpty then evidence.header else attempt.header
    let fallback := (attempt.now + context.defaultRateLimitCooldown, ruleID)
    if modelScoped then
      match parseExplicitRetryAfter lib header attempt.now with
      | some reset => (reset, "rate_limit.retry_after")
      | none => fallback
    else
      match parseRateLimitReset lib header attempt.now with
      | some reset => (reset, "rate_limit.reset_header")
      | none => fallback

def rateLimitDecision : Decision :=
  let scope := evidence.scopeHint
  let retry := retryUnlessExplicitlyUnknown evidence
  let origin := originForEvidence evidence
  let modelScoped := context.operation.usesModelCooldown && (scope == .unset || scope == .model)
  if scope = .unset ∧ context.operation.valid = true ∧ context.operation.usesModelCooldown = false
  then decision .rateLimited origin .request retry .none "rate_limit.operation_no_cooldown"
  else if scope = .request ∨ scope = .model ∧ modelScoped = false then
    decision .rateLimited origin scope .none .none "rate_limit.scoped"
  else
    let ruleID :=
      if modelScoped then "rate_limit.model.default_cooldown"
      else if scope = .credential then "rate_limit.credential.default_cooldown"
      else "legacy.http_429_credential_cooldown"
    let deadline := rateLimitDeadline lib attempt evidence context modelScoped ruleID
    { decision .rateLimited origin (if modelScoped then .model else scope) retry
        (if modelScoped then .cooldownModel else .cooldownCredential) deadline.2 with
      cooldownUntil := deadline.1 }

def authenticationDecision : Decision :=
  let answer := decision .authenticationRequired .upstream .credential
  if attempt.dispatchState = .maybeSent ∧ evidence.replaySafety ≠ .rejectedBeforeProcessing then
    answer .none .none "auth.replay_unsafe"
  else if evidence.hint = .refreshRequired then
    if context.credentialRefreshable = true ∧ evidence.replaySafety = .rejectedBeforeProcessing
    then answer .refreshCredential .none "auth.refresh_required"
    else answer .nextCandidate .none "auth.refresh_unavailable"
  else answer .nextCandidate .none "auth.reauthorization_required"

def unavailableRuleID (operation : Operation) : String :=
  if replayPolicy operation = .requireRejectedBeforeProcessing then
    match operation with
    | .embeddingsCreate => "embeddings.model_unavailable"
    | .rerank => "rerank.model_unavailable"
    | .decisionsCreate => "decisions.model_unavailable"
    | _ => "images.model_unavailable"
  else "model.unavailable"

def resourceOperation : Operation → Bool
  | .responsesRetrieve | .responsesDelete | .responsesCancel | .responsesInputItems
  | .responsesPassthrough => true
  | _ => false

def hostErrorDecision : Decision :=
  let answer := decision .upstreamHostError (originForEvidence evidence)
    (scopeOrDefault evidence.scopeHint .group)
  if evidence.replaySafety = .rejectedBeforeProcessing then
    answer .nextCandidate .skipGroup "upstream.host_error.rejected_before_processing"
  else if retryableUpstreamResponse attempt evidence && requestMayReplayAfterResponse lib context
  then answer .nextCandidate .skipGroup "upstream.host_error.response_retry"
  else answer .none .skipGroup "upstream.host_error.replay_unsafe"

def ambiguousDecision (category : FailureCategory) (attempt : ExecutionAttempt)
    (evidence : ErrorEvidence) (context : DecisionContext) : Decision :=
  let answer := decision category (originForEvidence evidence) evidence.scopeHint
  let ruleID := ambiguousRuleID evidence
  if retryableUpstreamResponse attempt evidence then
    if requestMayReplayAfterResponse lib context = false ∧
        evidence.replaySafety ≠ .rejectedBeforeProcessing then
      answer .none .none "safety.operation_replay_unsafe"
    else
      answer .nextCandidate .none
        (if ruleID = "fallback.ambiguous" then "fallback.upstream_response" else ruleID)
  else answer .none .none ruleID

def decisionForExecutionCategory (category : FailureCategory) (attempt : ExecutionAttempt)
    (evidence : ErrorEvidence) (context : DecisionContext) : Decision :=
  match transientCapacityDecision lib attempt evidence with
  | some result => result
  | none =>
    let origin := originForEvidence evidence
    let scope := evidence.scopeHint
    if category = .modelUnavailable ∧ resourceOperation context.operation = true then
      decision category origin scope .none .none "model.resource_unavailable"
    else if evidence.hint = .candidateUnavailable then
      if evidence.replaySafety = .unknown then
        decision category origin scope .none .none "safety.replay_unknown"
      else
        decision category origin (scopeOrDefault scope .model) .nextCandidate .none
          "candidate.unavailable"
    else
      match category with
      | .rateLimited => rateLimitDecision lib attempt evidence context
      | .modelUnavailable =>
        decision category origin (scopeOrDefault scope .model)
          (retryUnlessExplicitlyUnknown evidence) .none (unavailableRuleID context.operation)
      | .invalidKey =>
        decision category origin (scopeOrDefault scope .credential)
          (retryUnlessExplicitlyUnknown evidence) .recordCredentialFailure
          "auth.invalid_credential"
      | .authenticationRequired => authenticationDecision attempt evidence context
      | .upstreamHostError => hostErrorDecision lib attempt evidence context
      | .conversionUnsupported =>
        decision category .internal (scopeOrDefault scope .group) .none .skipGroup
          "conversion.unsupported"
      | .clientError =>
        decision category origin (scopeOrDefault scope .request) .none .none
          "fallback.http_client_error"
      | .ok => decision category origin scope .none .none "success.upstream_response"
      | .ambiguous | .downstreamCancel | .other _ =>
        ambiguousDecision lib category attempt evidence context

def constrainOperationReplay (result : Decision) (attempt : ExecutionAttempt)
    (evidence : ErrorEvidence) (context : DecisionContext) : Decision :=
  if result.retry = .none ∨ attempt.dispatchState ≠ .maybeSent ∨
      replayPolicy context.operation ≠ .requireRejectedBeforeProcessing then result
  else if evidence.replaySafety = .rejectedBeforeProcessing then result
  else { result with retry := .none, ruleID := "safety.operation_replay_unsafe" }

def trustedCommittedCredentialEffect (result : Decision) (evidence : ErrorEvidence) : Bool :=
  if result.scope ≠ .credential then false
  else if evidence.scopeHint = .credential then true
  else result.effect == .recordCredentialFailure && evidence.hint == .invalidCredential

/-- What remains of an effect once the response is committed. -/
def keepsCommittedEffect (result : Decision) (evidence : ErrorEvidence) : Bool :=
  match result.effect with
  | .cooldownModel =>
    evidence.hint == .rateLimited && evidence.originHint != .internal &&
      evidence.originHint != .downstream
  | .cooldownCredential | .recordCredentialFailure =>
    trustedCommittedCredentialEffect result evidence
  | _ => false

def constrainCommittedDecision (result : Decision) (attempt : ExecutionAttempt)
    (evidence : ErrorEvidence) : Decision :=
  if attempt.downstreamCommitted = false then result
  else
    let kept := keepsCommittedEffect result evidence
    let constrained : Decision :=
      { result with
        retry := .none
        effect := if kept then result.effect else .none
        cooldownUntil := if kept then result.cooldownUntil else zeroTime }
    { constrained with
      ruleID :=
        if constrained.category = .rateLimited ∧ constrained.effect = .cooldownCredential then
          "rate_limit.credential.committed"
        else if result.retry ≠ constrained.retry ∨ result.effect ≠ constrained.effect then
          "safety.committed"
        else result.ruleID }

def canceledModelCooldown : Option Decision :=
  match attempt.evidence with
  | none => none
  | some evidence =>
    if attempt.dispatchState ≠ .maybeSent ∨ context.operation.usesModelCooldown = false ∨
        evidence.hint ≠ .rateLimited ∨ (evidence.kind ≠ .http ∧ evidence.kind ≠ .provider) ∨
        (evidence.scopeHint ≠ .unset ∧ evidence.scopeHint ≠ .model) ∨
        (evidence.originHint ≠ .unset ∧ evidence.originHint ≠ .upstream) then none
    else
      let result := { decisionForExecutionCategory lib .rateLimited attempt evidence context with
        retry := .none }
      if result.effect = .cooldownModel then some result else none

def refreshTemporarilyUnavailableDecision : Decision :=
  let limited := evidence.statusCode = 429
  let cooldown :=
    if 0 < evidence.retryAfter then evidence.retryAfter
    else if context.defaultRateLimitCooldown ≤ 0 then 60 * second
    else context.defaultRateLimitCooldown
  { decision (if limited then .rateLimited else .upstreamHostError) .upstream .credential
      .nextCandidate .cooldownCredential
      (if limited then "auth.refresh_rate_limited"
        else "auth.refresh_temporarily_unavailable") with
    cooldownUntil := attempt.now + cooldown }

def candidatePreparationDecision : Option Decision :=
  let answer := fun effect =>
    some (decision .ambiguous .internal evidence.scopeHint .nextCandidate effect
      ("candidate." ++ evidence.code))
  if evidence.originHint ≠ .internal then none
  else if evidence.code = "credential_decrypt_failed" ∨
      evidence.code = "credential_normalization_failed" ∨
      evidence.code = "credential_proxy_prepare_failed" then
    if evidence.scopeHint ≠ .credential then none else answer .none
  else if evidence.code = "group_proxy_prepare_failed" then
    if evidence.scopeHint ≠ .group then none else answer .skipGroup
  else none

def notSentDecision : Decision :=
  match candidatePreparationDecision evidence with
  | some result => result
  | none =>
    let fallback := decision .ambiguous (originForEvidence evidence) evidence.scopeHint .none .none
      "fallback.not_sent"
    match evidence.hint with
    | .refreshRequired => authenticationDecision attempt evidence context
    | .refreshUnavailable => refreshTemporarilyUnavailableDecision attempt evidence context
    | .reauthorizationRequired =>
      decision .authenticationRequired .upstream .credential .nextCandidate .none
        "auth.reauthorization_required"
    | _ =>
      match evidence.kind with
      | .http =>
        if originForEvidence evidence = .upstream ∧ 400 ≤ evidence.statusCode ∧
            evidence.statusCode ≤ 599 then
          -- A refused handshake: the request itself was never sent.
          let refused := { evidence with replaySafety := .rejectedBeforeProcessing }
          constrainCommittedDecision (decisionForExecutionCategory lib
            (classifyExecutionEvidence lib attempt refused) attempt refused context)
            attempt refused
        else fallback
      | .transport | .timeout =>
        decision .upstreamHostError .upstream .group .nextCandidate .skipGroup "transport.not_sent"
      | .conversionUnsupported =>
        decision .conversionUnsupported .internal .group .nextCandidate .skipGroup
          "conversion.not_sent"
      | .invalidRequest =>
        decision .clientError (originForEvidence evidence)
          (scopeOrDefault evidence.scopeHint .request) .none .none
          "request.invalid_before_dispatch"
      | _ => fallback

def maybeSentDecision : Decision :=
  if responseStarted attempt evidence = false ∧
      (evidence.kind = .transport ∨ evidence.kind = .timeout) then
    decision .ambiguous .upstream evidence.scopeHint .none .none "transport.outcome_unknown"
  else if 100 ≤ attempt.statusCode ∧ attempt.statusCode < 200 then
    decision .ambiguous .upstream .request .none .none "safety.final_informational_response"
  else
    let result := decisionForExecutionCategory lib (classifyExecutionEvidence lib attempt evidence)
      attempt evidence context
    let result :=
      if evidence.replaySafety = .unknown ∧ result.ruleID = "fallback.ambiguous" then
        { result with ruleID := "safety.replay_unknown" }
      else result
    constrainCommittedDecision (constrainOperationReplay result attempt evidence context)
      attempt evidence

def judgeExecution : Decision :=
  let context := normalizeDecisionContext context
  match attempt.downstreamErr with
  | some err =>
    if err.isCanceled || err.isDeadlineExceeded then
      (canceledModelCooldown lib attempt context).getD
        (decision .downstreamCancel .downstream .request .none .none "safety.downstream_cancel")
    else
      (canceledModelCooldown lib attempt context).getD
        (decision .ambiguous .downstream .request .none .none "safety.downstream_write_failed")
  | none =>
    match attempt.evidence with
    | none =>
      if attempt.downstreamCommitted && isSuccessStatus attempt.statusCode then
        decision .ok .upstream .unset .none .none "success.committed_stream"
      else if attempt.dispatchState.valid && isSuccessStatus attempt.statusCode then
        decision .ok .upstream .unset .none .none "success.upstream_response"
      else
        decision .ambiguous (originForDispatch attempt.dispatchState) .unset .none .none
          "fallback.missing_evidence"
    | some evidence =>
      if evidence.kind = .canceled then
        decision .downstreamCancel .downstream .request .none .none "safety.execution_canceled"
      else if evidence.code = emptyResponseCode then
        constrainCommittedDecision
          (decision .ambiguous .upstream .request .nextCandidate .none "content.empty_response")
          attempt evidence
      else
        match attempt.dispatchState with
        | .notSent => notSentDecision lib attempt evidence context
        | .maybeSent => maybeSentDecision lib attempt evidence context
        | .locally | .other _ =>
          decision .ambiguous (originForEvidence evidence) evidence.scopeHint .none .none
            "fallback.invalid_dispatch_state"

end Rules

end EchoJoyGateway.Judge
