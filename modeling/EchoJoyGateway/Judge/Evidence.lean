import EchoJoyGateway.State.Snapshot
import Mathlib.Algebra.Group.Int.Defs
import Mathlib.Data.List.Infix

/-!
# Evidence and decisions

The vocabulary of `internal/execution/contracts.go` in which executors report a failure,
the decision of `internal/health/decision.go` with its check, and the reset headers of
`internal/health/ratelimit.go`. In each enumeration `unset` is the empty string and
`other` what no constant names.
-/

namespace EchoJoyGateway.Judge

open Clock State

inductive DispatchState where
  | notSent
  | maybeSent
  | locally
  | other (name : String)
  deriving DecidableEq

def DispatchState.valid : DispatchState → Bool
  | .other _ => false
  | _ => true

inductive ErrorOrigin where
  | unset
  | client
  | upstream
  | downstream
  | internal
  | other (name : String)
  deriving DecidableEq

def ErrorOrigin.valid : ErrorOrigin → Bool
  | .other _ => false
  | _ => true

inductive ErrorScope where
  | unset
  | request
  | model
  | credential
  | group
  | other (name : String)
  deriving DecidableEq

def ErrorScope.valid : ErrorScope → Bool
  | .other _ => false
  | _ => true

inductive ErrorKind where
  | transport
  | timeout
  | canceled
  | http
  | provider
  | invalidRequest
  | conversionUnsupported
  | internal
  | other (name : String)
  deriving DecidableEq

inductive FailureHint where
  | unset
  | invalidCredential
  | refreshRequired
  | refreshUnavailable
  | reauthorizationRequired
  | rateLimited
  | requestRejected
  | candidateUnavailable
  | modelUnavailable
  | hostError
  | other (name : String)
  deriving DecidableEq

inductive ReplaySafety where
  | unset
  | unknown
  | rejectedBeforeProcessing
  | other (name : String)
  deriving DecidableEq

inductive ReplayPolicy where
  | legacy
  | requireRejectedBeforeProcessing
  deriving DecidableEq

def replayPolicy : Operation → ReplayPolicy
  | .imagesGenerate | .imagesEdit | .embeddingsCreate | .rerank | .decisionsCreate =>
    .requireRejectedBeforeProcessing
  | _ => .legacy

abbrev Header := List (String × List String)

/-- In nanoseconds. -/
abbrev Duration := Int

def second : Duration := 1000000000

structure ErrorEvidence where
  kind : ErrorKind
  hint : FailureHint
  originHint : ErrorOrigin
  scopeHint : ErrorScope
  statusCode : Int
  type : String
  code : String
  summary : String
  retryAfter : Duration
  replaySafety : ReplaySafety
  header : Header

structure DownstreamError where
  isCanceled : Bool
  isDeadlineExceeded : Bool
  deriving DecidableEq

structure ExecutionAttempt where
  dispatchState : DispatchState
  statusCode : Int
  header : Header
  evidence : Option ErrorEvidence
  downstreamCommitted : Bool
  downstreamErr : Option DownstreamError
  now : Time

structure DecisionContext where
  defaultRateLimitCooldown : Duration
  credentialRefreshable : Bool
  method : String
  operation : Operation

inductive FailureCategory where
  | ambiguous
  | ok
  | rateLimited
  | modelUnavailable
  | invalidKey
  | upstreamHostError
  | clientError
  | conversionUnsupported
  | downstreamCancel
  | authenticationRequired
  | other (code : Nat)
  deriving DecidableEq

def FailureCategory.valid : FailureCategory → Bool
  | .other _ => false
  | _ => true

inductive RetryDirective where
  | none
  | refreshCredential
  | nextCandidate
  | other (name : String)
  deriving DecidableEq

def RetryDirective.valid : RetryDirective → Bool
  | .other _ => false
  | _ => true

inductive Effect where
  | none
  | cooldownCredential
  | cooldownModel
  | recordCredentialFailure
  | skipGroup
  | other (name : String)
  deriving DecidableEq

def Effect.valid : Effect → Bool
  | .other _ => false
  | _ => true

def Effect.cools (effect : Effect) : Bool :=
  effect == .cooldownCredential || effect == .cooldownModel

structure Decision where
  category : FailureCategory
  origin : ErrorOrigin
  scope : ErrorScope
  retry : RetryDirective
  effect : Effect
  cooldownUntil : Time
  ruleID : String
  deriving DecidableEq

def ruleCharacter (c : Char) : Bool :=
  ('a' ≤ c && c ≤ 'z') || ('0' ≤ c && c ≤ '9') || c == '.' || c == '_' || c == '-'

def Decision.validate (d : Decision) : Except String Unit :=
  if d.category.valid = false then .error "failure category is invalid"
  else if d.origin.valid = false then .error "failure origin is invalid"
  else if d.scope.valid = false then .error "failure scope is invalid"
  else if d.retry.valid = false then .error "retry directive is invalid"
  else if d.effect.valid = false then .error "effect is invalid"
  else if trimSpace d.ruleID = "" then .error "rule ID is required"
  else if 128 < d.ruleID.utf8ByteSize then .error "rule ID exceeds maximum length"
  else if d.ruleID.toList.all ruleCharacter = false then
    .error "rule ID contains an invalid character"
  else if d.effect.cools = true ∧ isZero d.cooldownUntil = true then
    .error "cooldown requires a deadline"
  else if d.effect.cools = false ∧ isZero d.cooldownUntil = false then
    .error "cooldown deadline requires a cooldown effect"
  else .ok ()

def ruleOK (ruleID : String) : Bool :=
  decide (trimSpace ruleID ≠ "") && decide (ruleID.utf8ByteSize ≤ 128) &&
    ruleID.toList.all ruleCharacter

structure Decision.WellFormed (d : Decision) : Prop where
  category : d.category.valid = true
  origin : d.origin.valid = true
  scope : d.scope.valid = true
  retry : d.retry.valid = true
  effect : d.effect.valid = true
  rule : ruleOK d.ruleID = true
  cooldown : d.effect.cools = true ↔ d.cooldownUntil ≠ zeroTime

theorem Decision.WellFormed.validate {d : Decision} (h : d.WellFormed) : d.validate = .ok () := by
  have hrule := h.rule
  simp only [ruleOK, Bool.and_eq_true, decide_eq_true_iff] at hrule
  obtain ⟨⟨hspace, hlength⟩, hcharacters⟩ := hrule
  have hdeadline : ¬ (d.effect.cools = true ∧ isZero d.cooldownUntil = true) := by
    rintro ⟨hcools, hzero⟩
    exact h.cooldown.mp hcools ((isZero_iff _).mp hzero)
  have hneeded : ¬ (d.effect.cools = false ∧ isZero d.cooldownUntil = false) := by
    rintro ⟨hcools, hset⟩
    have hne : d.cooldownUntil ≠ zeroTime := fun heq => by
      rw [(isZero_iff _).mpr heq] at hset
      cases hset
    rw [h.cooldown.mpr hne] at hcools
    cases hcools
  unfold Decision.validate
  rw [if_neg (by simp [h.category]), if_neg (by simp [h.origin]), if_neg (by simp [h.scope]),
    if_neg (by simp [h.retry]), if_neg (by simp [h.effect]), if_neg hspace,
    if_neg (not_lt.mpr hlength), if_neg (by simp [hcharacters]), if_neg hdeadline, if_neg hneeded]

structure Library where
  toLower : String → String
  equalFold : String → String → Bool
  parseInt : String → Option Int
  parseHTTPTime : String → Option Time
  parseRFC3339 : String → Option Time
  parseDuration : String → Option Duration

section Reset

variable (lib : Library)

def maxRateLimitResetDelay : Duration := 3600 * second

def hasText (value part : String) : Bool := decide (part.toList <:+: value.toList)

def startsText (value front : String) : Bool := front.toList.isPrefixOf value.toList

def endsText (value back : String) : Bool := back.toList.isSuffixOf value.toList

variable (header : Header) (value : String) (now : Time)

def matchingHeaderValues (accepts : String → Bool) : List String :=
  header.flatMap fun field => if accepts (lib.toLower field.1) then field.2 else []

/-- `latest, !latest.IsZero()`. -/
def unlessZero (latest : Time) : Option Time := if isZero latest then none else some latest

theorem unlessZero_ne {latest reset : Time} (h : unlessZero latest = some reset) :
    reset ≠ zeroTime := by
  unfold unlessZero at h
  split at h
  · cases h
  · rename_i hzero
    cases h
    exact fun heq => hzero ((isZero_iff _).mpr heq)

def explicitReset : Option Time :=
  let value := trimSpace value
  match lib.parseInt value with
  | some seconds =>
    if seconds ≤ 0 ∨ (2 ^ 63 - 1) / second < seconds then none else some (now + seconds * second)
  | none => lib.parseHTTPTime value

def parseExplicitRetryAfter : Option Time :=
  unlessZero ((matchingHeaderValues lib header (· == "retry-after")).foldl
    (fun latest value =>
      match explicitReset lib value now with
      | none => latest
      | some reset => if after reset now && after reset latest then reset else latest) zeroTime)

def parseRetryAfter : Option Time :=
  let trimmed := trimSpace value
  match lib.parseInt trimmed with
  | some seconds =>
    if seconds ≤ 0 ∨ maxRateLimitResetDelay / second < seconds then none
    else some (now + seconds * second)
  | none => lib.parseHTTPTime trimmed

def parseNumericReset (numeric : Int) (now : Time) : Option Time :=
  if 1000000000000 ≤ numeric then some (ofUnixMilli numeric)
  else if 1000000000 ≤ numeric then some (numeric * second)
  else if 0 < numeric ∧ numeric ≤ maxRateLimitResetDelay / second then
    some (now + numeric * second)
  else none

def parseResetValue : Option Time :=
  let trimmed := trimSpace value
  match lib.parseRFC3339 trimmed with
  | some reset => some reset
  | none =>
    match lib.parseDuration trimmed with
    | some duration =>
      if duration ≤ 0 ∨ maxRateLimitResetDelay < duration then none else some (now + duration)
    | none =>
      match lib.parseInt trimmed with
      | none => none
      | some numeric => parseNumericReset numeric now

def latestValidReset (values : List String) (now : Time) (retryAfter : Bool) : Option Time :=
  let limit := now + maxRateLimitResetDelay
  unlessZero (values.foldl (fun latest value =>
    match if retryAfter then parseRetryAfter lib value now else parseResetValue lib value now with
    | none => latest
    | some reset =>
      if after reset now = false ∨ after reset limit = true then latest
      else if isZero latest || after reset latest then reset
      else latest) zeroTime)

def parseRateLimitReset : Option Time :=
  (latestValidReset lib (matchingHeaderValues lib header (· == "retry-after")) now true).or
    ((latestValidReset lib (matchingHeaderValues lib header fun name =>
        startsText name "anthropic-ratelimit-" && endsText name "-reset") now false).or
      (latestValidReset lib (matchingHeaderValues lib header fun name =>
        name == "x-ratelimit-reset" || startsText name "x-ratelimit-reset-") now false))

theorem parseRateLimitReset_ne {header : Header} {now reset : Time}
    (h : parseRateLimitReset lib header now = some reset) : reset ≠ zeroTime := by
  rcases Option.or_eq_some_iff.mp h with hfirst | ⟨-, hrest⟩
  · exact unlessZero_ne hfirst
  · rcases Option.or_eq_some_iff.mp hrest with hsecond | ⟨-, hthird⟩
    · exact unlessZero_ne hsecond
    · exact unlessZero_ne hthird

end Reset

end EchoJoyGateway.Judge
