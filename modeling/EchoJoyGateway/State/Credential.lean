import EchoJoyGateway.Clock

/-!
# Credential entries and their runtime views

The data of `internal/state`: what the registry holds for one credential,
what the scheduler is shown of it, and the durable reference that a request
carries. Enumerated strings are inductive types; the constructor `other`
stands for the values that validation refuses.
-/

namespace EchoJoyGateway.State

open Clock

inductive CredentialStatus where
  | active
  | disabled
  | other (name : String)
  deriving DecidableEq

def CredentialStatus.text : CredentialStatus → String
  | .active => "active"
  | .disabled => "disabled"
  | .other name => name

def CredentialStatus.known : CredentialStatus → Bool
  | .active | .disabled => true
  | .other _ => false

inductive CredentialAuthState where
  | unset
  | ready
  | refreshing
  | reauthorizationRequired
  | outcomeUnknown
  | other (name : String)
  deriving DecidableEq

def CredentialAuthState.text : CredentialAuthState → String
  | .unset => ""
  | .ready => "ready"
  | .refreshing => "refreshing"
  | .reauthorizationRequired => "reauthorization_required"
  | .outcomeUnknown => "outcome_unknown"
  | .other name => name

def CredentialAuthState.normalize : CredentialAuthState → CredentialAuthState
  | .unset => .ready
  | state => state

def CredentialAuthState.valid (state : CredentialAuthState) : Bool :=
  match state.normalize with
  | .ready | .refreshing | .reauthorizationRequired | .outcomeUnknown => true
  | _ => false

/-- A Go `map[string]time.Time`; a missing key reads as the zero time. -/
abbrev ModelCooldowns := String → Option Time

def ModelCooldowns.until (limits : ModelCooldowns) (model : String) : Time :=
  (limits model).getD zeroTime

def defaultWeight : Int := 50

def maxWeight : Int := 100

def maxCredentialConcurrencyLimit : Int := 10000

def configuredWeight (weight : Option Int) : Int := weight.getD defaultWeight

def validateManualWeight (subject : String) (weight : Option Int) : Except String Unit :=
  match weight with
  | none => .ok ()
  | some value =>
    if value < 0 ∨ maxWeight < value then
      .error s!"{subject} manual weight must be between 0 and 100"
    else .ok ()

structure CredentialEntry where
  name : String
  id : Nat
  groupID : Nat
  version : Nat
  identityGeneration : Nat
  fingerprint : String
  weightManual : Option Int
  concurrencyLimit : Int
  status : CredentialStatus
  authState : CredentialAuthState
  cooldownUntil : Time
  modelCooldowns : ModelCooldowns
  modelCooldownGeneration : Nat
  blacklisted : Bool
  failureCount : Int
  failureGeneration : Nat
  encryptedValue : String
  encryptedProxy : String
  proxyFingerprint : String
  quotaRemaining : Option Rat
  quotaResetAt : Time
  sharedEpoch : String
  sharedVersion : Nat

structure CredentialMeta where
  id : Nat
  groupID : Nat
  version : Nat
  identityGeneration : Nat
  weightManual : Option Int
  modelCooldowns : ModelCooldowns

structure CredentialRef where
  name : String
  id : Nat
  groupID : Nat
  version : Nat
  identityGeneration : Nat
  fingerprint : String
  encryptedValue : String
  encryptedProxy : String
  proxyFingerprint : String
  failureGeneration : Nat
  modelCooldownGeneration : Nat
  concurrencyLimit : Int
  deriving DecidableEq

structure CredentialRuntimeView where
  id : Nat
  groupID : Nat
  version : Nat
  identityGeneration : Nat
  proxyFingerprint : String
  weightManual : Option Int
  concurrencyLimit : Int
  status : CredentialStatus
  authState : CredentialAuthState
  cooldownUntil : Time
  modelCooldowns : ModelCooldowns
  blacklisted : Bool
  failureCount : Int
  quotaRemaining : Option Rat
  quotaResetAt : Time

def runtimeView (entry : CredentialEntry) : CredentialRuntimeView where
  id := entry.id
  groupID := entry.groupID
  version := entry.version
  identityGeneration := entry.identityGeneration
  proxyFingerprint := entry.proxyFingerprint
  weightManual := entry.weightManual
  concurrencyLimit := entry.concurrencyLimit
  status := entry.status
  authState := entry.authState.normalize
  cooldownUntil := entry.cooldownUntil
  modelCooldowns := entry.modelCooldowns
  blacklisted := entry.blacklisted
  failureCount := entry.failureCount
  quotaRemaining := entry.quotaRemaining
  quotaResetAt := entry.quotaResetAt

def credentialRef (entry : CredentialEntry) : CredentialRef where
  name := entry.name
  id := entry.id
  groupID := entry.groupID
  version := entry.version
  identityGeneration := entry.identityGeneration
  fingerprint := entry.fingerprint
  encryptedValue := entry.encryptedValue
  encryptedProxy := entry.encryptedProxy
  proxyFingerprint := entry.proxyFingerprint
  failureGeneration := entry.failureGeneration
  modelCooldownGeneration := entry.modelCooldownGeneration
  concurrencyLimit := entry.concurrencyLimit

inductive CredentialRuntimeState where
  | available
  | disabled
  | blacklisted
  | cooldown
  deriving DecidableEq

def CredentialRuntimeView.authReady (view : CredentialRuntimeView) : Bool :=
  view.authState.normalize == .ready

def CredentialRuntimeView.runtimeState (view : CredentialRuntimeView) (now : Time) :
    CredentialRuntimeState :=
  if view.status ≠ .active then .disabled
  else if view.blacklisted then .blacklisted
  else if after view.cooldownUntil now then .cooldown
  else .available

def sameCredentialIdentity (entry : CredentialEntry) (ref : CredentialRef) : Bool :=
  entry.groupID == ref.groupID && entry.version == ref.version &&
    entry.identityGeneration == ref.identityGeneration &&
    entry.fingerprint == ref.fingerprint && entry.encryptedValue == ref.encryptedValue &&
    entry.encryptedProxy == ref.encryptedProxy && entry.proxyFingerprint == ref.proxyFingerprint

theorem CredentialAuthState.normalize_normalize (state : CredentialAuthState) :
    state.normalize.normalize = state.normalize := by
  cases state <;> rfl

end EchoJoyGateway.State
