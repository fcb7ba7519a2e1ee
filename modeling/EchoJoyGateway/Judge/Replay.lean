import EchoJoyGateway.Judge.Execution

/-!
# Replay safety of the judge

A request that may have reached an upstream is sent again only if the evidence does not
say that its fate is unknown, and the judge hands out no decision that its own check
refuses. Both are shown rule by rule, before the two constraints at the end of the
judgement are applied.
-/

namespace EchoJoyGateway.Judge

open Clock State

variable {d : Decision}

/-- The hints that a decision takes over are of the contract, and the clock is not before
the zero time. -/
structure Hinted (attempt : ExecutionAttempt) (evidence : ErrorEvidence) : Prop where
  origin : evidence.originHint.valid = true
  scope : evidence.scopeHint.valid = true
  now : zeroTime ≤ attempt.now

structure Ruled (attempt : ExecutionAttempt) (evidence : ErrorEvidence) (d : Decision) : Prop where
  known : d.retry ≠ .none → evidence.replaySafety ≠ .unknown
  refresh : d.retry = .refreshCredential → evidence.replaySafety = .rejectedBeforeProcessing
  wellFormed : Hinted attempt evidence → d.WellFormed

def ruleIDs : List String :=
  ["auth.invalid_credential", "auth.reauthorization_required", "auth.refresh_rate_limited",
    "auth.refresh_required", "auth.refresh_temporarily_unavailable", "auth.refresh_unavailable",
    "auth.replay_unsafe", "candidate.transient_capacity", "candidate.unavailable",
    "content.empty_response", "conversion.not_sent", "conversion.unsupported",
    "decisions.model_unavailable", "embeddings.model_unavailable", "fallback.ambiguous",
    "fallback.http_client_error", "fallback.invalid_dispatch_state", "fallback.missing_evidence",
    "fallback.not_sent", "fallback.upstream_response", "images.model_unavailable",
    "legacy.http_429_credential_cooldown", "model.resource_unavailable", "model.unavailable",
    "rate_limit.credential.committed", "rate_limit.credential.default_cooldown",
    "rate_limit.model.default_cooldown", "rate_limit.operation_no_cooldown",
    "rate_limit.reset_header", "rate_limit.retry_after", "rate_limit.scoped",
    "request.invalid_before_dispatch", "rerank.model_unavailable", "safety.committed",
    "safety.downstream_cancel", "safety.downstream_write_failed", "safety.execution_canceled",
    "safety.final_informational_response", "safety.operation_replay_unsafe",
    "safety.replay_unknown", "stream.idle_timeout", "stream.protocol_error",
    "stream.provider_error", "stream.provider_incomplete", "stream.upstream_terminated",
    "success.committed_stream", "success.upstream_response", "transport.not_sent",
    "transport.outcome_unknown", "upstream.host_error.rejected_before_processing",
    "upstream.host_error.replay_unsafe", "upstream.host_error.response_retry",
    "candidate.credential_decrypt_failed", "candidate.credential_normalization_failed",
    "candidate.credential_proxy_prepare_failed", "candidate.group_proxy_prepare_failed"]

theorem ruleIDs_ok : ∀ ruleID ∈ ruleIDs, ruleOK ruleID = true := by
  decide +kernel

section Parts

variable {attempt : ExecutionAttempt} {evidence : ErrorEvidence}

theorem originForEvidence_valid (h : evidence.originHint.valid = true) :
    (originForEvidence evidence).valid = true := by
  unfold originForEvidence
  split
  · exact h
  · cases evidence.kind <;> rfl

theorem scopeOrDefault_valid {value fallback : ErrorScope} (h : value.valid = true)
    (hfallback : fallback.valid = true) : (scopeOrDefault value fallback).valid = true := by
  unfold scopeOrDefault
  split
  · exact h
  · exact hfallback

variable {category : FailureCategory} {origin : ErrorOrigin} {scope : ErrorScope}
  {retry : RetryDirective} {effect : Effect} {ruleID : String}

theorem wellFormed_plain (hcategory : category.valid = true) (horigin : origin.valid = true)
    (hscope : scope.valid = true) (hretry : retry.valid = true) (heffect : effect.valid = true)
    (hcools : effect.cools = false) (hrule : ruleID ∈ ruleIDs) :
    (decision category origin scope retry effect ruleID).WellFormed where
  category := hcategory
  origin := horigin
  scope := hscope
  retry := hretry
  effect := heffect
  rule := ruleIDs_ok _ hrule
  cooldown := by simp [decision, hcools]

theorem Ruled.of_none (hretry : d.retry = .none) (hwell : Hinted attempt evidence → d.WellFormed) :
    Ruled attempt evidence d where
  known hne := absurd hretry hne
  refresh heq := by
    rw [hretry] at heq
    cases heq
  wellFormed := hwell

theorem Ruled.of_next (hretry : d.retry = .nextCandidate)
    (hknown : evidence.replaySafety ≠ .unknown) (hwell : Hinted attempt evidence → d.WellFormed) :
    Ruled attempt evidence d where
  known _ := hknown
  refresh heq := by
    rw [hretry] at heq
    cases heq
  wellFormed := hwell

theorem Ruled.of_unless (hretry : d.retry = retryUnlessExplicitlyUnknown evidence)
    (hwell : Hinted attempt evidence → d.WellFormed) : Ruled attempt evidence d := by
  unfold retryUnlessExplicitlyUnknown at hretry
  split at hretry
  · exact .of_none hretry hwell
  · rename_i hknown
    exact .of_next hretry hknown hwell

theorem retryUnlessExplicitlyUnknown_valid (evidence : ErrorEvidence) :
    (retryUnlessExplicitlyUnknown evidence).valid = true := by
  unfold retryUnlessExplicitlyUnknown
  split <;> rfl

theorem known_of_rejected (h : evidence.replaySafety = .rejectedBeforeProcessing) :
    evidence.replaySafety ≠ .unknown := by
  rw [h]
  exact ReplaySafety.noConfusion

theorem known_of_retryable (h : retryableUpstreamResponse attempt evidence = true) :
    evidence.replaySafety ≠ .unknown := by
  intro hunknown
  rw [retryableUpstreamResponse, if_pos (.inr hunknown)] at h
  cases h

theorem ambiguousRuleID_ok (evidence : ErrorEvidence) : (ambiguousRuleID evidence) ∈ ruleIDs := by
  unfold ambiguousRuleID
  split <;> simp [ruleIDs]

theorem unavailableRuleID_ok (operation : Operation) : (unavailableRuleID operation) ∈ ruleIDs := by
  unfold unavailableRuleID
  split
  · split <;> simp [ruleIDs]
  · simp [ruleIDs]

end Parts

section Rules

variable (lib : Library) {attempt : ExecutionAttempt} {evidence : ErrorEvidence}
  {context : DecisionContext}

theorem transientCapacity_ruled (h : transientCapacityDecision lib attempt evidence = some d) :
    Ruled attempt evidence d := by
  unfold transientCapacityDecision at h
  split at h
  · cases h
  · rename_i hguard
    simp only at h
    split at h
    · cases h
    · cases h
      have hrejected : evidence.replaySafety = .rejectedBeforeProcessing := by
        by_contra hne
        exact hguard (.inr (.inl hne))
      refine .of_next rfl (known_of_rejected hrejected) fun hints => ?_
      refine wellFormed_plain ?_ rfl hints.scope rfl rfl rfl (by simp [ruleIDs])
      split <;> rfl

theorem later_ne {now : Time} (hnow : zeroTime ≤ now) {delay : Int} (hdelay : 0 < delay) :
    now + delay ≠ zeroTime :=
  Int.ne_of_gt (Int.lt_of_le_of_lt hnow (Int.lt_add_of_pos_right _ hdelay))

theorem rateLimitDeadline_spec (hnow : zeroTime ≤ attempt.now)
    (hcooldown : 0 < context.defaultRateLimitCooldown) {modelScoped : Bool} {ruleID : String}
    (hrule : ruleID ∈ ruleIDs) :
    (rateLimitDeadline lib attempt evidence context modelScoped ruleID).1 ≠ zeroTime ∧
      (rateLimitDeadline lib attempt evidence context modelScoped ruleID).2 ∈ ruleIDs := by
  have hretryAfter : "rate_limit.retry_after" ∈ ruleIDs := by simp [ruleIDs]
  have hresetHeader : "rate_limit.reset_header" ∈ ruleIDs := by simp [ruleIDs]
  unfold rateLimitDeadline
  split
  · rename_i hafter
    exact ⟨later_ne hnow hafter, hretryAfter⟩
  · simp only
    split
    · split
      · rename_i reset hreset
        exact ⟨unlessZero_ne hreset, hretryAfter⟩
      · exact ⟨later_ne hnow hcooldown, hrule⟩
    · split
      · rename_i reset hreset
        exact ⟨parseRateLimitReset_ne lib hreset, hresetHeader⟩
      · exact ⟨later_ne hnow hcooldown, hrule⟩

theorem rateLimit_ruled (hcooldown : 0 < context.defaultRateLimitCooldown) :
    Ruled attempt evidence (rateLimitDecision lib attempt evidence context) := by
  unfold rateLimitDecision
  simp only
  split
  · refine .of_unless rfl fun hints => ?_
    exact wellFormed_plain rfl (originForEvidence_valid hints.origin) rfl
      (retryUnlessExplicitlyUnknown_valid evidence) rfl rfl (by simp [ruleIDs])
  · split
    · refine .of_none rfl fun hints => ?_
      exact wellFormed_plain rfl (originForEvidence_valid hints.origin) hints.scope rfl rfl rfl
        (by simp [ruleIDs])
    · refine .of_unless rfl fun hints => ?_
      generalize (context.operation.usesModelCooldown &&
        (evidence.scopeHint == .unset || evidence.scopeHint == .model)) = modelScoped
      generalize hrule : (if modelScoped = true then "rate_limit.model.default_cooldown"
        else if evidence.scopeHint = .credential then "rate_limit.credential.default_cooldown"
        else "legacy.http_429_credential_cooldown") = ruleID
      have hruleOK : ruleID ∈ ruleIDs := by
        rw [← hrule]
        split
        · simp [ruleIDs]
        · split <;> simp [ruleIDs]
      obtain ⟨hdeadline, hnamed⟩ :=
        @rateLimitDeadline_spec lib _ evidence _ hints.now hcooldown modelScoped _ hruleOK
      refine ⟨rfl, originForEvidence_valid hints.origin, ?_,
        retryUnlessExplicitlyUnknown_valid evidence, ?_, ruleIDs_ok _ hnamed, ?_⟩
      · cases modelScoped with
        | true => rfl
        | false => exact hints.scope
      · cases modelScoped <;> rfl
      · refine ⟨fun _ => hdeadline, fun _ => ?_⟩
        cases modelScoped <;> rfl

theorem authentication_wellFormed :
    (authenticationDecision attempt evidence context).WellFormed := by
  unfold authenticationDecision
  split
  · exact wellFormed_plain rfl rfl rfl rfl rfl rfl (by simp [ruleIDs])
  · split
    · split
      · exact wellFormed_plain rfl rfl rfl rfl rfl rfl (by simp [ruleIDs])
      · exact wellFormed_plain rfl rfl rfl rfl rfl rfl (by simp [ruleIDs])
    · exact wellFormed_plain rfl rfl rfl rfl rfl rfl (by simp [ruleIDs])

theorem authentication_retry
    (h : attempt.dispatchState = .maybeSent ∨ evidence.replaySafety = .rejectedBeforeProcessing)
    (hretry : (authenticationDecision attempt evidence context).retry ≠ .none) :
    evidence.replaySafety = .rejectedBeforeProcessing := by
  by_contra hne
  have hsent : attempt.dispatchState = .maybeSent := h.resolve_right hne
  unfold authenticationDecision at hretry
  simp only [if_pos (And.intro hsent hne)] at hretry
  exact hretry rfl

theorem authentication_ruled
    (h : attempt.dispatchState = .maybeSent ∨ evidence.replaySafety = .rejectedBeforeProcessing) :
    Ruled attempt evidence (authenticationDecision attempt evidence context) where
  known hretry := known_of_rejected (authentication_retry h hretry)
  refresh hretry := authentication_retry h (by rw [hretry]; exact RetryDirective.noConfusion)
  wellFormed _ := authentication_wellFormed

theorem hostError_ruled :
    Ruled attempt evidence (hostErrorDecision lib attempt evidence context) := by
  unfold hostErrorDecision
  have hwell : ∀ retry ruleID, retry.valid = true → ruleID ∈ ruleIDs →
      Hinted attempt evidence → (decision .upstreamHostError (originForEvidence evidence)
        (scopeOrDefault evidence.scopeHint .group) retry .skipGroup ruleID).WellFormed :=
    fun retry ruleID hretry hrule hints =>
      wellFormed_plain rfl (originForEvidence_valid hints.origin)
        (scopeOrDefault_valid hints.scope rfl) hretry rfl rfl hrule
  split
  · rename_i hrejected
    exact .of_next rfl (known_of_rejected hrejected) (hwell _ _ rfl (by simp [ruleIDs]))
  · split
    · rename_i hresponse
      exact .of_next rfl (known_of_retryable (Bool.and_eq_true_iff.mp hresponse).1)
        (hwell _ _ rfl (by simp [ruleIDs]))
    · exact .of_none rfl (hwell _ _ rfl (by simp [ruleIDs]))

theorem ambiguous_ruled {category : FailureCategory} (hcategory : category.valid = true) :
    Ruled attempt evidence (ambiguousDecision lib category attempt evidence context) := by
  have hwell : ∀ retry ruleID, retry.valid = true → ruleID ∈ ruleIDs →
      Hinted attempt evidence → (decision category (originForEvidence evidence)
        evidence.scopeHint retry .none ruleID).WellFormed :=
    fun retry ruleID hretry hrule hints =>
      wellFormed_plain hcategory (originForEvidence_valid hints.origin) hints.scope hretry rfl rfl
        hrule
  unfold ambiguousDecision
  split
  · rename_i hresponse
    split
    · exact .of_none rfl (hwell _ _ rfl (by simp [ruleIDs]))
    · refine .of_next rfl (known_of_retryable hresponse) (hwell _ _ rfl ?_)
      split
      · simp [ruleIDs]
      · exact ambiguousRuleID_ok evidence
  · exact .of_none rfl (hwell _ _ rfl (ambiguousRuleID_ok evidence))

theorem category_ruled {category : FailureCategory} (hcategory : category.valid = true)
    (h : attempt.dispatchState = .maybeSent ∨ evidence.replaySafety = .rejectedBeforeProcessing)
    (hcooldown : 0 < context.defaultRateLimitCooldown) :
    Ruled attempt evidence
      (decisionForExecutionCategory lib category attempt evidence context) := by
  have hwell : ∀ {fallback : ErrorScope} {retry : RetryDirective} {effect : Effect}
      {ruleID : String}, fallback.valid = true → retry.valid = true → effect.valid = true →
      effect.cools = false → ruleID ∈ ruleIDs → Hinted attempt evidence →
      (decision category (originForEvidence evidence) (scopeOrDefault evidence.scopeHint fallback)
        retry effect ruleID).WellFormed :=
    fun hfallback hretry heffect hcools hrule hints =>
      wellFormed_plain hcategory (originForEvidence_valid hints.origin)
        (scopeOrDefault_valid hints.scope hfallback) hretry heffect hcools hrule
  have hscoped : ∀ {ruleID : String}, ruleID ∈ ruleIDs → Hinted attempt evidence →
      (decision category (originForEvidence evidence) evidence.scopeHint .none .none
        ruleID).WellFormed :=
    fun hrule hints => wellFormed_plain hcategory (originForEvidence_valid hints.origin)
      hints.scope rfl rfl rfl hrule
  unfold decisionForExecutionCategory
  split
  · rename_i d htransient
    exact transientCapacity_ruled lib htransient
  · split
    · exact .of_none rfl (hscoped (by simp [ruleIDs]))
    · split
      · split
        · exact .of_none rfl (hscoped (by simp [ruleIDs]))
        · rename_i hknown
          exact .of_next rfl hknown (hwell rfl rfl rfl rfl (by simp [ruleIDs]))
      · cases category with
        | rateLimited => exact rateLimit_ruled lib hcooldown
        | modelUnavailable =>
          exact .of_unless rfl (hwell rfl (retryUnlessExplicitlyUnknown_valid evidence) rfl rfl
            (unavailableRuleID_ok context.operation))
        | invalidKey =>
          exact .of_unless rfl (hwell rfl (retryUnlessExplicitlyUnknown_valid evidence) rfl rfl
            (by simp [ruleIDs]))
        | authenticationRequired => exact authentication_ruled h
        | upstreamHostError => exact hostError_ruled lib
        | conversionUnsupported =>
          refine .of_none rfl fun hints => ?_
          exact wellFormed_plain rfl rfl (scopeOrDefault_valid hints.scope rfl) rfl rfl rfl
            (by simp [ruleIDs])
        | clientError => exact .of_none rfl (hwell rfl rfl rfl rfl (by simp [ruleIDs]))
        | ok => exact .of_none rfl (hscoped (by simp [ruleIDs]))
        | ambiguous | downstreamCancel => exact ambiguous_ruled lib rfl
        | other code => cases hcategory

theorem classifyExecutionEvidence_valid (attempt : ExecutionAttempt) (evidence : ErrorEvidence) :
    (classifyExecutionEvidence lib attempt evidence).valid = true := by
  unfold classifyExecutionEvidence
  simp only
  split
  · rfl
  · split
    · rename_i category hcategory
      unfold classifyHint at hcategory
      split at hcategory <;> cases hcategory <;> rfl
    · split
      · rfl
      · unfold classifyMarkers
        repeat' split
        all_goals rfl

end Rules

section Constraints

variable {attempt : ExecutionAttempt} {evidence : ErrorEvidence} {context : DecisionContext}
  {d : Decision}

theorem Ruled.operationReplay (h : Ruled attempt evidence d) :
    Ruled attempt evidence (constrainOperationReplay d attempt evidence context) := by
  unfold constrainOperationReplay
  split
  · exact h
  · split
    · exact h
    · refine .of_none rfl fun hints => ?_
      have hwell := h.wellFormed hints
      have hrule : "safety.operation_replay_unsafe" ∈ ruleIDs := by simp [ruleIDs]
      exact ⟨hwell.category, hwell.origin, hwell.scope, rfl, hwell.effect, ruleIDs_ok _ hrule,
        hwell.cooldown⟩

theorem operationReplay_rejected (hsent : attempt.dispatchState = .maybeSent)
    (hpolicy : replayPolicy context.operation = .requireRejectedBeforeProcessing)
    (hretry : (constrainOperationReplay d attempt evidence context).retry ≠ .none) :
    evidence.replaySafety = .rejectedBeforeProcessing := by
  by_contra hne
  unfold constrainOperationReplay at hretry
  split at hretry
  · rename_i hcases
    rcases hcases with hnone | hother | hlegacy
    · exact hretry hnone
    · exact hother hsent
    · exact hlegacy hpolicy
  · exact hretry rfl

theorem committed_wellFormed (h : d.WellFormed) :
    (constrainCommittedDecision d attempt evidence).WellFormed := by
  unfold constrainCommittedDecision
  split
  · exact h
  · have hrule : ∀ c e : Prop, [Decidable c] → [Decidable e] → ruleOK
        (if c then "rate_limit.credential.committed" else if e then "safety.committed"
          else d.ruleID) = true := by
      intro c e _ _
      split
      · exact ruleIDs_ok _ (by simp [ruleIDs])
      · split
        · exact ruleIDs_ok _ (by simp [ruleIDs])
        · exact h.rule
    cases hkept : keepsCommittedEffect d evidence with
    | true => exact ⟨h.category, h.origin, h.scope, rfl, h.effect, hrule _ _, h.cooldown⟩
    | false => exact ⟨h.category, h.origin, h.scope, rfl, rfl, hrule _ _, by simp [Effect.cools]⟩

theorem committed_retry (h : (constrainCommittedDecision d attempt evidence).retry ≠ .none) :
    attempt.downstreamCommitted = false ∧ constrainCommittedDecision d attempt evidence = d := by
  unfold constrainCommittedDecision at h ⊢
  split at h
  · rename_i hcommitted
    exact ⟨hcommitted, if_pos hcommitted⟩
  · exact absurd rfl h

end Constraints

section Judgement

variable (lib : Library) {attempt : ExecutionAttempt} {evidence : ErrorEvidence}
  {context : DecisionContext}

theorem normalizeDecisionContext_pos (context : DecisionContext) :
    0 < (normalizeDecisionContext context).defaultRateLimitCooldown := by
  unfold normalizeDecisionContext
  split
  · change 0 < 60 * second
    decide
  · rename_i hpos
    exact Int.not_le.mp hpos

theorem normalizeDecisionContext_operation (context : DecisionContext) :
    (normalizeDecisionContext context).operation = context.operation := by
  unfold normalizeDecisionContext
  split <;> rfl

theorem classified_ruled
    (h : attempt.dispatchState = .maybeSent ∨ evidence.replaySafety = .rejectedBeforeProcessing)
    (hcooldown : 0 < context.defaultRateLimitCooldown) :
    Ruled attempt evidence (decisionForExecutionCategory lib
      (classifyExecutionEvidence lib attempt evidence) attempt evidence context) :=
  category_ruled lib (classifyExecutionEvidence_valid lib attempt evidence) h hcooldown

theorem renamed_ruled (h : Ruled attempt evidence d) :
    Ruled attempt evidence
      (if evidence.replaySafety = .unknown ∧ d.ruleID = "fallback.ambiguous" then
        { d with ruleID := "safety.replay_unknown" }
      else d) := by
  split
  · refine ⟨h.known, h.refresh, fun hints => ?_⟩
    have hwell := h.wellFormed hints
    have hrule : "safety.replay_unknown" ∈ ruleIDs := by simp [ruleIDs]
    exact ⟨hwell.category, hwell.origin, hwell.scope, hwell.retry, hwell.effect, ruleIDs_ok _ hrule,
      hwell.cooldown⟩
  · exact h

theorem maybeSent_wellFormed (hsent : attempt.dispatchState = .maybeSent)
    (hcooldown : 0 < context.defaultRateLimitCooldown) (hints : Hinted attempt evidence) :
    (maybeSentDecision lib attempt evidence context).WellFormed := by
  unfold maybeSentDecision
  split
  · exact wellFormed_plain rfl rfl hints.scope rfl rfl rfl (by simp [ruleIDs])
  · split
    · exact wellFormed_plain rfl rfl rfl rfl rfl rfl (by simp [ruleIDs])
    · have hruled := @classified_ruled lib attempt evidence context (.inl hsent) hcooldown
      exact committed_wellFormed ((renamed_ruled hruled).operationReplay.wellFormed hints)

theorem maybeSent_retry (hsent : attempt.dispatchState = .maybeSent)
    (hcooldown : 0 < context.defaultRateLimitCooldown)
    (hretry : (maybeSentDecision lib attempt evidence context).retry ≠ .none) :
    attempt.downstreamCommitted = false ∧ evidence.replaySafety ≠ .unknown ∧
      (replayPolicy context.operation = .requireRejectedBeforeProcessing →
        evidence.replaySafety = .rejectedBeforeProcessing) ∧
      ((maybeSentDecision lib attempt evidence context).retry = .refreshCredential →
        evidence.replaySafety = .rejectedBeforeProcessing) := by
  unfold maybeSentDecision at hretry ⊢
  split at hretry
  · exact absurd rfl hretry
  · rename_i hstarted
    rw [if_neg hstarted]
    split at hretry
    · exact absurd rfl hretry
    · rename_i hfinal
      rw [if_neg hfinal]
      have hruled := @classified_ruled lib attempt evidence context (.inl hsent) hcooldown
      have hconstrained := @Ruled.operationReplay _ _ context _ (renamed_ruled hruled)
      obtain ⟨hcommitted, hsame⟩ := committed_retry hretry
      rw [hsame] at hretry ⊢
      exact ⟨hcommitted, hconstrained.known hretry,
        fun hpolicy => operationReplay_rejected hsent hpolicy hretry, hconstrained.refresh⟩

theorem canceled_spec (hcooldown : 0 < context.defaultRateLimitCooldown)
    (h : canceledModelCooldown lib attempt context = some d) :
    d.retry = .none ∧
      ∃ evidence, attempt.evidence = some evidence ∧ (Hinted attempt evidence → d.WellFormed) := by
  unfold canceledModelCooldown at h
  split at h
  · cases h
  · rename_i evidence hevidence
    split at h
    · cases h
    · rename_i hguard
      simp only at h
      split at h
      · cases h
        have hsent : attempt.dispatchState = .maybeSent := by
          by_contra hne
          exact hguard (.inl hne)
        refine ⟨rfl, evidence, hevidence, fun hints => ?_⟩
        have hwell := (@category_ruled lib attempt evidence context .rateLimited rfl (.inl hsent)
          hcooldown).wellFormed hints
        exact ⟨hwell.category, hwell.origin, hwell.scope, rfl, hwell.effect, hwell.rule,
          hwell.cooldown⟩
      · cases h

theorem candidatePreparation_wellFormed (h : candidatePreparationDecision evidence = some d) :
    d.WellFormed := by
  unfold candidatePreparationDecision at h
  split at h
  · cases h
  · split at h
    · rename_i hcode
      split at h
      · cases h
      · rename_i hscope
        cases h
        have hscope : evidence.scopeHint = .credential := not_not.mp hscope
        refine wellFormed_plain rfl rfl (hscope ▸ rfl) rfl rfl rfl ?_
        rcases hcode with hcode | hcode | hcode <;> rw [hcode] <;> simp [ruleIDs]
    · split at h
      · rename_i hcode
        split at h
        · cases h
        · rename_i hscope
          cases h
          have hscope : evidence.scopeHint = .group := not_not.mp hscope
          refine wellFormed_plain rfl rfl (hscope ▸ rfl) rfl rfl rfl ?_
          rw [hcode]
          simp [ruleIDs]
      · cases h

theorem refreshUnavailable_wellFormed (hcooldown : 0 < context.defaultRateLimitCooldown)
    (hnow : zeroTime ≤ attempt.now) :
    (refreshTemporarilyUnavailableDecision attempt evidence context).WellFormed := by
  refine ⟨?_, rfl, rfl, rfl, rfl, ?_, fun _ => later_ne hnow ?_, fun _ => rfl⟩
  · change FailureCategory.valid (if evidence.statusCode = 429 then _ else _) = true
    split <;> rfl
  · refine ruleIDs_ok (if evidence.statusCode = 429 then _ else _) ?_
    split <;> simp [ruleIDs]
  · split
    · rename_i hafter
      exact hafter
    · rw [if_neg (Int.not_le.mpr hcooldown)]
      exact hcooldown

theorem notSent_wellFormed (hcooldown : 0 < context.defaultRateLimitCooldown)
    (hints : Hinted attempt evidence) :
    (notSentDecision lib attempt evidence context).WellFormed := by
  have hfallback : (decision .ambiguous (originForEvidence evidence) evidence.scopeHint .none .none
      "fallback.not_sent").WellFormed :=
    wellFormed_plain rfl (originForEvidence_valid hints.origin) hints.scope rfl rfl rfl
      (by simp [ruleIDs])
  unfold notSentDecision
  split
  · rename_i d hprepared
    exact candidatePreparation_wellFormed hprepared
  · split
    · exact authentication_wellFormed
    · exact refreshUnavailable_wellFormed hcooldown hints.now
    · exact wellFormed_plain rfl rfl rfl rfl rfl rfl (by simp [ruleIDs])
    · split
      · split
        · have hrefused : Hinted attempt
              { evidence with replaySafety := .rejectedBeforeProcessing } :=
            ⟨hints.origin, hints.scope, hints.now⟩
          exact committed_wellFormed ((classified_ruled lib (.inr rfl) hcooldown).wellFormed
            hrefused)
        · exact hfallback
      · exact wellFormed_plain rfl rfl rfl rfl rfl rfl (by simp [ruleIDs])
      · exact wellFormed_plain rfl rfl rfl rfl rfl rfl (by simp [ruleIDs])
      · exact wellFormed_plain rfl rfl rfl rfl rfl rfl (by simp [ruleIDs])
      · exact wellFormed_plain rfl (originForEvidence_valid hints.origin)
          (scopeOrDefault_valid hints.scope rfl) rfl rfl rfl (by simp [ruleIDs])
      · exact hfallback

theorem judge_wellFormed (hints : ∀ evidence, attempt.evidence = some evidence →
      evidence.originHint.valid = true ∧ evidence.scopeHint.valid = true)
    (hnow : zeroTime ≤ attempt.now) : (judgeExecution lib attempt context).WellFormed := by
  have hcooldown := normalizeDecisionContext_pos context
  have hhinted : ∀ evidence, attempt.evidence = some evidence → Hinted attempt evidence :=
    fun evidence hevidence =>
      ⟨(hints evidence hevidence).1, (hints evidence hevidence).2, hnow⟩
  have hcanceled : ∀ fallback : Decision, fallback.WellFormed →
      ((canceledModelCooldown lib attempt (normalizeDecisionContext context)).getD
        fallback).WellFormed := by
    intro fallback hfallback
    cases hresult : canceledModelCooldown lib attempt (normalizeDecisionContext context) with
    | none => exact hfallback
    | some d =>
      obtain ⟨-, evidence, hevidence, hwell⟩ := canceled_spec lib hcooldown hresult
      exact hwell (hhinted evidence hevidence)
  unfold judgeExecution
  split
  · split
    · exact hcanceled _ (wellFormed_plain rfl rfl rfl rfl rfl rfl (by simp [ruleIDs]))
    · exact hcanceled _ (wellFormed_plain rfl rfl rfl rfl rfl rfl (by simp [ruleIDs]))
  · split
    · split
      · exact wellFormed_plain rfl rfl rfl rfl rfl rfl (by simp [ruleIDs])
      · split
        · exact wellFormed_plain rfl rfl rfl rfl rfl rfl (by simp [ruleIDs])
        · refine wellFormed_plain rfl ?_ rfl rfl rfl rfl (by simp [ruleIDs])
          cases attempt.dispatchState <;> rfl
    · rename_i evidence hevidence
      have hthese := hhinted evidence hevidence
      split
      · exact wellFormed_plain rfl rfl rfl rfl rfl rfl (by simp [ruleIDs])
      · split
        · exact committed_wellFormed (wellFormed_plain rfl rfl rfl rfl rfl rfl (by simp [ruleIDs]))
        · have hinvalid : (decision .ambiguous (originForEvidence evidence) evidence.scopeHint
              .none .none "fallback.invalid_dispatch_state").WellFormed :=
            wellFormed_plain rfl (originForEvidence_valid hthese.origin) hthese.scope rfl rfl rfl
              (by simp [ruleIDs])
          cases hsent : attempt.dispatchState with
          | notSent => exact notSent_wellFormed lib hcooldown hthese
          | maybeSent => exact maybeSent_wellFormed lib hsent hcooldown hthese
          | locally => exact hinvalid
          | other name => exact hinvalid

theorem judge_sent (hsent : attempt.dispatchState = .maybeSent)
    (hcode : ∀ evidence, attempt.evidence = some evidence → evidence.code ≠ emptyResponseCode)
    (hretry : (judgeExecution lib attempt context).retry ≠ .none) :
    attempt.downstreamErr = none ∧ ∃ evidence, attempt.evidence = some evidence ∧
      judgeExecution lib attempt context =
        maybeSentDecision lib attempt evidence (normalizeDecisionContext context) := by
  have hcanceled : ∀ fallback : Decision, fallback.retry = .none →
      ((canceledModelCooldown lib attempt (normalizeDecisionContext context)).getD
        fallback).retry = .none := by
    intro fallback hfallback
    cases hresult : canceledModelCooldown lib attempt (normalizeDecisionContext context) with
    | none => exact hfallback
    | some d => exact (canceled_spec lib (normalizeDecisionContext_pos context) hresult).1
  unfold judgeExecution at hretry ⊢
  cases herr : attempt.downstreamErr with
  | some err =>
    rw [herr] at hretry
    simp only at hretry
    split at hretry
    · exact absurd (hcanceled _ rfl) hretry
    · exact absurd (hcanceled _ rfl) hretry
  | none =>
    rw [herr] at hretry
    cases hevidence : attempt.evidence with
    | none =>
      rw [hevidence] at hretry
      simp only at hretry
      split at hretry
      · exact absurd rfl hretry
      · split at hretry
        · exact absurd rfl hretry
        · exact absurd rfl hretry
    | some evidence =>
      rw [hevidence] at hretry
      simp only [hsent] at hretry
      refine ⟨rfl, evidence, rfl, ?_⟩
      split at hretry
      · exact absurd rfl hretry
      · rename_i hkind
        simp only [hsent, if_neg (hcode evidence hevidence), if_neg hkind]

end Judgement

def refusedAttempt : ExecutionAttempt where
  dispatchState := .maybeSent
  statusCode := 503
  header := []
  evidence := some
    { kind := .http, hint := .hostError, originHint := .unset, scopeHint := .unset
      statusCode := 503, type := "", code := "", summary := "busy", retryAfter := 0
      replaySafety := .rejectedBeforeProcessing, header := [] }
  downstreamCommitted := false
  downstreamErr := none
  now := 0

def chatContext : DecisionContext where
  defaultRateLimitCooldown := 0
  credentialRefreshable := false
  method := "POST"
  operation := .chatCompletion

def plainLibrary : Library where
  toLower text := text
  equalFold left right := left == right
  parseInt _ := none
  parseHTTPTime _ := none
  parseRFC3339 _ := none
  parseDuration _ := none

/-- A request that may have reached an upstream is sent again only where nothing was
answered downstream and the evidence allows it; and every decision keeps to the contract
of decisions. -/
theorem judge_replay_safe (lib : Library) (attempt : ExecutionAttempt)
    (context : DecisionContext) :
    (attempt.dispatchState = .maybeSent →
      (∀ evidence, attempt.evidence = some evidence → evidence.code ≠ emptyResponseCode) →
      (judgeExecution lib attempt context).retry ≠ .none →
      attempt.downstreamCommitted = false ∧ attempt.downstreamErr = none ∧
        ∃ evidence, attempt.evidence = some evidence ∧ evidence.replaySafety ≠ .unknown ∧
          (replayPolicy context.operation = .requireRejectedBeforeProcessing →
            evidence.replaySafety = .rejectedBeforeProcessing) ∧
          ((judgeExecution lib attempt context).retry = .refreshCredential →
            evidence.replaySafety = .rejectedBeforeProcessing)) ∧
      ((∀ evidence, attempt.evidence = some evidence →
          evidence.originHint.valid = true ∧ evidence.scopeHint.valid = true) →
        zeroTime ≤ attempt.now → (judgeExecution lib attempt context).validate = .ok ()) := by
  refine ⟨?_, fun hints hnow => (judge_wellFormed lib hints hnow).validate⟩
  intro hsent hcode hretry
  obtain ⟨herr, evidence, hevidence, hjudged⟩ := judge_sent lib hsent hcode hretry
  rw [hjudged] at hretry ⊢
  obtain ⟨hcommitted, hknown, hpolicy, hrefresh⟩ :=
    maybeSent_retry lib hsent (normalizeDecisionContext_pos context) hretry
  rw [normalizeDecisionContext_operation] at hpolicy
  exact ⟨hcommitted, herr, evidence, hevidence, hknown, hpolicy, hrefresh⟩

theorem judge_replay_safe_refused :
    (judgeExecution plainLibrary refusedAttempt chatContext).retry = .nextCandidate ∧
      refusedAttempt.downstreamErr = none ∧
      (judgeExecution plainLibrary refusedAttempt chatContext).validate = .ok () := by
  have hretry : (judgeExecution plainLibrary refusedAttempt chatContext).retry =
      .nextCandidate := by
    decide +kernel
  obtain ⟨hsafe, hvalid⟩ := judge_replay_safe plainLibrary refusedAttempt chatContext
  have hcode : ∀ evidence, refusedAttempt.evidence = some evidence →
      evidence.code ≠ emptyResponseCode := by
    rintro evidence ⟨⟩
    decide
  have hhints : ∀ evidence, refusedAttempt.evidence = some evidence →
      evidence.originHint.valid = true ∧ evidence.scopeHint.valid = true := by
    rintro evidence ⟨⟩
    exact ⟨rfl, rfl⟩
  refine ⟨hretry, (hsafe rfl hcode ?_).2.1, hvalid hhints (by decide)⟩
  rw [hretry]
  exact RetryDirective.noConfusion

/-- An origin that the contract does not know is passed on as it is, and a cooldown that
ends at the zero time counts as none. -/
theorem judge_refused_by_check :
    (judgeExecution plainLibrary
        { refusedAttempt with
          evidence := refusedAttempt.evidence.map fun evidence =>
            { evidence with originHint := .other "elsewhere" } }
        chatContext).validate = .error "failure origin is invalid" ∧
      (judgeExecution plainLibrary
        { refusedAttempt with
          evidence := refusedAttempt.evidence.map fun evidence =>
            { evidence with hint := .rateLimited }
          now := zeroTime - 60 * second }
        chatContext).validate = .error "cooldown requires a deadline" := by
  decide +kernel

end EchoJoyGateway.Judge
