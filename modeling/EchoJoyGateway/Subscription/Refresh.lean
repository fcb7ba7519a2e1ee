import EchoJoyGateway.Lib.Runs
import Mathlib.Logic.Function.Basic
import Mathlib.Algebra.Group.Nat.Defs

/-!
# Refreshing a subscription credential

`prepare` and `refreshCredentialLocked` of `internal/subscription` on one credential,
run by any number of instances over one database row, with the refresh lease of
`internal/cluster` and the sweep of interrupted refreshes of `internal/control`. What
the world answers is the choice of each step: a database call may fail before or after
it was applied, and a lease may run out at any time.
-/

namespace EchoJoyGateway.Subscription

inductive AuthState where
  | ready
  | refreshing
  | reauthorizationRequired
  | outcomeUnknown
  deriving DecidableEq

def AuthState.name : AuthState → String
  | .ready => "ready"
  | .refreshing => "refreshing"
  | .reauthorizationRequired => "reauthorization_required"
  | .outcomeUnknown => "outcome_unknown"

/-- The columns of the credential that a refresh reads and writes. -/
structure Row where
  secretVersion : Nat
  data : String
  authState : AuthState
  authErrorCode : String
  deriving DecidableEq

inductive RefreshFailure where
  | outcomeUnknown
  | retryable
  | reauthorizationRequired
  | identityChanged
  deriving DecidableEq

structure Provider (C : Type) where
  parse : String → Option C
  canonical : C → String
  preservesIdentity : C → C → Bool
  decrypt : String → Option String

def refreshRestoreState (row : Row) : AuthState × String :=
  match row.authState with
  | .refreshing => (.outcomeUnknown, "refresh_interrupted")
  | .ready => (.ready, "")
  | other => (other, row.authErrorCode)

/-- `none` when the update affects no row. -/
def setAuthState (row : Row) (version : Nat) (authState : AuthState) (code : String) :
    Option Row :=
  if row.secretVersion = version then some { row with authState, authErrorCode := code } else none

/-- The commit of a rotated secret, conditioned on the secret version alone. -/
def commitSecret (row : Row) (version : Nat) (ciphertext : String) : Option Row :=
  if row.secretVersion = version then some ⟨version + 1, ciphertext, .ready, ""⟩ else none

/-- The auth state, the code and the evidence that a failed refresh records. -/
def failureRecord (row : Row) (failure : RefreshFailure) (cooldownSet : Bool) :
    AuthState × String × String :=
  let (restoreState, restoreCode) := refreshRestoreState row
  match failure with
  | .retryable =>
    if cooldownSet then (restoreState, restoreCode, "refresh_temporarily_unavailable")
    else (.outcomeUnknown, "refresh_registry_mismatch", "refresh_registry_mismatch")
  | .identityChanged =>
    (.reauthorizationRequired, "refresh_identity_changed", "refresh_identity_changed")
  | .reauthorizationRequired => (.reauthorizationRequired, "refresh_rejected", "refresh_rejected")
  | .outcomeUnknown =>
    if restoreState ≠ .ready then (restoreState, restoreCode, "refresh_outcome_unknown")
    else (.outcomeUnknown, "refresh_outcome_unknown", "refresh_outcome_unknown")

structure Options where
  node : Nat
  expectedVersion : Nat
  forceRefresh : Bool
  respectCooldown : Bool
  allowRecovery : Bool

inductive Result (C : Type) where
  | credential (credential : C)
  | evidence (code : String)

/-- Where a call of `prepare` stands: what it has read and what it does next. -/
inductive Phase (C : Type) where
  | waiting
  | leased
  | locked
  | checked (row : Row) (current : C)
  | startFailed (row : Row)
  | refreshing (row : Row) (current : C)
  | calling (row : Row) (current : C) (call : Nat)
  | returned (row : Row) (current refreshed : C)
  | committing (row : Row) (refreshed : C) (ciphertext : String)
  | committed (version : Nat) (refreshed : C)
  | recording (version : Nat) (authState : AuthState) (code evidence : String)
  | unlocking (result : Result C)
  | releasing (result : Result C)
  | done (result : Result C)

structure Reading where
  expiring : Bool
  cooling : Bool
  served : Bool

def examine {C : Type} (provider : Provider C) (options : Options) (row : Row)
    (reading : Reading) : Phase C :=
  if row.authState = .refreshing ∧ options.allowRecovery = false then
    let (authState, code) := refreshRestoreState row
    .recording row.secretVersion authState code code
  else if row.authState ≠ .ready ∧ options.allowRecovery = false then
    .unlocking (.evidence row.authState.name)
  else
    match provider.decrypt row.data with
    | none => .unlocking (.evidence "credential_decrypt_failed")
    | some plaintext =>
      match provider.parse plaintext with
      | none => .unlocking (.evidence "credential_invalid")
      | some current =>
        if options.forceRefresh = true ∧ options.expectedVersion < row.secretVersion ∧
            row.authState = .ready then
          if reading.served then .unlocking (.credential current)
          else .unlocking (.evidence "refresh_registry_mismatch")
        else if options.forceRefresh = false ∧ reading.expiring = false then
          .unlocking (.credential current)
        else if options.respectCooldown = true ∧ reading.cooling = true then
          .unlocking (.evidence "refresh_temporarily_unavailable")
        else .checked row current

structure Refresher (C : Type) where
  options : Options
  phase : Phase C

structure Call (C : Type) where
  caller : Nat
  version : Nat
  secret : C
  outcome : Option (Except RefreshFailure C)

/-- A sweep that has seen the row refreshing, and whether it found the lease free. -/
structure Sweep where
  version : Nat
  orphaned : Bool

structure System (C : Type) where
  row : Row
  /-- The rows as they were committed, the newest first. -/
  durable : List Row
  lease : Option Nat
  locks : Nat → Option Nat
  refreshers : Nat → Option (Refresher C)
  calls : List (Call C)
  sweeps : List Sweep

inductive Choice (C : Type) where
  | succeed
  | fail (applied : Bool)
  | timeout (canceled : Bool)
  | mismatch
  | read (reading : Reading)
  | answer (answer : Except (RefreshFailure × Bool) C)
  | encrypted (ciphertext : String)

inductive Command (C : Type) where
  | prepare (i : Nat) (options : Options)
  | act (i : Nat) (choice : Choice C)
  | expire
  | sweepRead
  | sweepProbe (k : Nat)
  | sweepWrite (k : Nat)

/-- An update of the auth state and whether it is reported to have succeeded; publishing
the state is part of it. -/
def writeAuthState {C : Type} (row : Row) (version : Nat) (authState : AuthState) (code : String) :
    Choice C → Option (Row × Bool)
  | .succeed =>
    match setAuthState row version authState code with
    | some row' => some (row', true)
    | none => some (row, false)
  | .fail applied =>
    some (if applied then (setAuthState row version authState code).getD row else row, false)
  | _ => none

namespace System

variable {C : Type}

def goto (s : System C) (i : Nat) (r : Refresher C) (phase : Phase C) : System C :=
  { s with refreshers := Function.update s.refreshers i (some { r with phase }) }

/-- The database driver refuses a version that does not fit the signed column. -/
def maxVersion : Nat := 2 ^ 63

def landSecret (s : System C) (version : Nat) (ciphertext : String) : System C :=
  match commitSecret s.row version ciphertext with
  | some row => { s with row, durable := row :: s.durable }
  | none => s

def afterAnswer (row : Row) (current : C) : Except (RefreshFailure × Bool) C → Phase C
  | .ok refreshed => .returned row current refreshed
  | .error (failure, cooldownSet) =>
    let (authState, code, evidence) := failureRecord row failure cooldownSet
    .recording row.secretVersion authState code evidence

def afterReturn (provider : Provider C) (row : Row) (current refreshed : C) :
    Choice C → Option (Phase C)
  | choice =>
    if provider.preservesIdentity current refreshed = false then
      some (.recording row.secretVersion .reauthorizationRequired "refresh_identity_changed"
        "refresh_identity_changed")
    else if provider.canonical refreshed = "" then
      some (.recording row.secretVersion .outcomeUnknown "refresh_persist_failed"
        "refresh_persist_failed")
    else
      match choice with
      | .encrypted ciphertext =>
        if provider.decrypt ciphertext = some (provider.canonical refreshed) then
          some (.committing row refreshed ciphertext)
        else none
      | .fail _ =>
        some (.recording row.secretVersion .outcomeUnknown "refresh_persist_failed"
          "refresh_persist_failed")
      | _ => none

def act (provider : Provider C) (s : System C) (i : Nat) (r : Refresher C) (choice : Choice C) :
    Option (System C) :=
  match r.phase, choice with
  | .waiting, .succeed =>
    if s.lease = none then some ({ s with lease := some i }.goto i r .leased) else none
  | .waiting, .fail applied =>
    let lease := if applied = true ∧ s.lease = none then some i else s.lease
    some ({ s with lease }.goto i r (.done (.evidence "refresh_lease_unavailable")))
  | .waiting, .timeout canceled =>
    some (s.goto i r (.done (.evidence
      (if canceled then "refresh_canceled" else "refresh_in_progress"))))
  | .leased, .succeed =>
    if s.locks r.options.node = none then
      some ({ s with locks := Function.update s.locks r.options.node (some i) }.goto i r .locked)
    else none
  | .locked, .read reading => some (s.goto i r (examine provider r.options s.row reading))
  | .locked, .fail _ => some (s.goto i r (.unlocking (.evidence "credential_unavailable")))
  | .locked, .mismatch => some (s.goto i r (.unlocking (.evidence "credential_target_mismatch")))
  | .checked row current, choice =>
    match writeAuthState s.row row.secretVersion .refreshing "" choice with
    | some (row', ok) =>
      some ({ s with row := row' }.goto i r
        (if ok then .refreshing row current else .startFailed row))
    | none => none
  | .startFailed row, choice =>
    let (authState, code) := refreshRestoreState row
    match writeAuthState s.row row.secretVersion authState code choice with
    | some (row', ok) =>
      some ({ s with row := row' }.goto i r (.unlocking (.evidence
        (if ok then "refresh_start_failed" else "refresh_registry_mismatch"))))
    | none => none
  | .refreshing row current, .succeed =>
    let calls := s.calls ++ [⟨i, row.secretVersion, current, none⟩]
    some ({ s with calls }.goto i r (.calling row current s.calls.length))
  | .calling row current call, .answer answer =>
    let calls := s.calls.set call ⟨i, row.secretVersion, current, some (answer.mapError Prod.fst)⟩
    some ({ s with calls }.goto i r (afterAnswer row current answer))
  | .returned row current refreshed, choice =>
    (afterReturn provider row current refreshed choice).map (s.goto i r)
  | .committing row refreshed ciphertext, .succeed =>
    if row.secretVersion + 1 < maxVersion then
      some ((s.landSecret row.secretVersion ciphertext).goto i r
        (if s.row.secretVersion = row.secretVersion then
          .committed (row.secretVersion + 1) refreshed
        else
          .recording row.secretVersion .outcomeUnknown "refresh_commit_failed"
            "refresh_commit_failed"))
    else none
  | .committing row _ ciphertext, .fail applied =>
    let s' :=
      if applied = true ∧ row.secretVersion + 1 < maxVersion then
        s.landSecret row.secretVersion ciphertext
      else s
    some (s'.goto i r (.recording row.secretVersion .outcomeUnknown "refresh_commit_failed"
      "refresh_commit_failed"))
  | .committed _ refreshed, .succeed => some (s.goto i r (.unlocking (.credential refreshed)))
  | .committed version _, .fail _ =>
    some (s.goto i r (.recording version .outcomeUnknown "refresh_registry_mismatch"
      "refresh_registry_mismatch"))
  | .recording version authState code evidence, choice =>
    match writeAuthState s.row version authState code choice with
    | some (row', ok) =>
      some ({ s with row := row' }.goto i r (.unlocking (.evidence
        (if ok then evidence else "refresh_state_commit_failed"))))
    | none => none
  | .unlocking result, .succeed =>
    some ({ s with locks := Function.update s.locks r.options.node none }.goto i r
      (.releasing result))
  | .releasing result, .succeed =>
    let lease := if s.lease = some i then none else s.lease
    some ({ s with lease }.goto i r (.done result))
  | .releasing result, .fail applied =>
    let lease := if applied = true ∧ s.lease = some i then none else s.lease
    some ({ s with lease }.goto i r (.done result))
  | _, _ => none

def step (provider : Provider C) (s : System C) : Command C → Option (System C)
  | .prepare i options =>
    if (s.refreshers i).isNone then
      some { s with refreshers := Function.update s.refreshers i (some ⟨options, .waiting⟩) }
    else none
  | .act i choice =>
    match s.refreshers i with
    | none => none
    | some r => s.act provider i r choice
  | .expire => some { s with lease := none }
  | .sweepRead =>
    if s.row.authState = .refreshing then
      some { s with sweeps := s.sweeps ++ [⟨s.row.secretVersion, false⟩] }
    else none
  | .sweepProbe k =>
    match s.sweeps[k]? with
    | none => none
    | some sweep =>
      if s.lease = none then
        some { s with sweeps := s.sweeps.set k { sweep with orphaned := true } }
      else none
  | .sweepWrite k =>
    match s.sweeps[k]? with
    | none => none
    | some sweep =>
      if sweep.orphaned = true ∧ s.row.authState = .refreshing ∧
          s.row.secretVersion = sweep.version then
        some { s with
          row := { s.row with
            authState := .outcomeUnknown
            authErrorCode := "refresh_interrupted" } }
      else none

def initial (row : Row) : System C where
  row := row
  durable := [row]
  lease := none
  locks := fun _ => none
  refreshers := fun _ => none
  calls := []
  sweeps := []

end System

/-- Credentials that are their own canonical text, stored as they are. -/
def plainProvider : Provider String where
  parse := some
  canonical := id
  preservesIdentity := fun _ _ => true
  decrypt := some

def firstRow : Row := ⟨1, "first", .ready, ""⟩

def automatic (node : Nat) : Options := ⟨node, 1, true, true, false⟩

end EchoJoyGateway.Subscription
