import EchoJoyGateway.Lib.Buckets
import EchoJoyGateway.State.Scheduling

/-!
# The credential registry

The mutators of `internal/state/registry.go`, `model_cooldown.go` and
`shared_health.go`. Each holds the registry's lock from its first read to its
last write, so a call is one function on the registry that also returns the
answer; an early return gives back the registry as it is at that point. Entries
are shared by pointer in the source: a write to an entry is a write to its place
in its bucket. `clock` is the `time.Now()` of the ledger.
-/

namespace EchoJoyGateway.State

open Clock Buckets

structure CredentialRegistry where
  scheduling : SchedulingLedger
  buckets : Table Nat Nat CredentialEntry
  credentialGroups : Nat → Option Nat

/-- `NewCredentialRegistry`, and with a jitter `NewStaggeredCredentialRegistry`. -/
def newCredentialRegistry (jitter : Option Jitter) : CredentialRegistry where
  scheduling := SchedulingLedger.new jitter
  buckets := ∅
  credentialGroups _ := none

/-- White space of `strings.TrimSpace`. -/
def isSpace (c : Char) : Bool :=
  (9 ≤ c.toNat && c.toNat ≤ 13) || c.toNat == 32 || c.toNat == 0x85 || c.toNat == 0xA0 ||
    c.toNat == 0x1680 || (0x2000 ≤ c.toNat && c.toNat ≤ 0x200a) || c.toNat == 0x2028 ||
    c.toNat == 0x2029 || c.toNat == 0x202f || c.toNat == 0x205f || c.toNat == 0x3000

def trimSpace (s : String) : String :=
  String.ofList ((s.toList.dropWhile isSpace).reverse.dropWhile isSpace).reverse

variable (r : CredentialRegistry) (entry : CredentialEntry) (clock : Time) (groupID : Nat)
  (id : Nat) (entries : List CredentialEntry)

def validateCredentialEntry : Except String Unit :=
  if entry.id = 0 then .error "credential id is required"
  else if entry.groupID = 0 then .error s!"credential {entry.id} group id is required"
  else if entry.status.known = false then
    .error s!"credential {entry.id} has invalid status {entry.status.text.quote}"
  else if entry.authState.valid = false then
    .error s!"credential {entry.id} has invalid auth state {entry.authState.text.quote}"
  else
    match validateManualWeight s!"credential {entry.id}" entry.weightManual with
    | .error message => .error message
    | .ok () =>
      if entry.concurrencyLimit < 0 ∨ maxCredentialConcurrencyLimit < entry.concurrencyLimit then
        .error (s!"credential {entry.id} concurrency limit must be between 0 and " ++
          s!"{maxCredentialConcurrencyLimit}")
      else if entry.encryptedValue = "" then
        .error s!"credential {entry.id} encrypted value is required"
      else if (entry.encryptedProxy = "") ≠ (entry.proxyFingerprint = "") then
        .error s!"credential {entry.id} proxy identity is incomplete"
      else if entry.version = 0 then .error s!"credential {entry.id} version is required"
      else if entry.identityGeneration = 0 then
        .error s!"credential {entry.id} identity generation is required"
      else if trimSpace entry.fingerprint = "" then
        .error s!"credential {entry.id} fingerprint is required"
      else .ok ()

def validateUnseen (seen : List Nat) : List CredentialEntry → Except String Unit
  | [] => .ok ()
  | entry :: rest =>
    match validateCredentialEntry entry with
    | .error message => .error message
    | .ok () =>
      if entry.id ∈ seen then .error s!"duplicate credential id {entry.id}"
      else validateUnseen (entry.id :: seen) rest

def validateCredentialEntries : Except String Unit := validateUnseen [] entries

def cloneCredentialEntry : CredentialEntry := { entry with failureGeneration := 0 }

def preserveSharedHealth (next : CredentialEntry) (previous : Option CredentialEntry) :
    CredentialEntry :=
  let fresh : CredentialEntry :=
    { next with
      modelCooldowns := fun _ => none
      modelCooldownGeneration := 0
      failureGeneration := 0 }
  match previous with
  | none => fresh
  | some previous =>
    if next.id ≠ previous.id ∨ next.groupID ≠ previous.groupID ∨
        next.identityGeneration ≠ previous.identityGeneration then fresh
    else
      { next with
        cooldownUntil := previous.cooldownUntil
        blacklisted := previous.blacklisted
        failureCount := previous.failureCount
        failureGeneration := previous.failureGeneration
        modelCooldowns := previous.modelCooldowns
        modelCooldownGeneration := previous.modelCooldownGeneration
        sharedEpoch := previous.sharedEpoch
        sharedVersion := previous.sharedVersion
        authState := if next.version = previous.version then previous.authState
          else next.authState }

def samePersistedCredentialConfig (left right : CredentialEntry) : Bool :=
  left.id == right.id && left.groupID == right.groupID && left.version == right.version &&
    left.identityGeneration == right.identityGeneration &&
    left.fingerprint == right.fingerprint && left.status == right.status &&
    left.encryptedValue == right.encryptedValue && left.encryptedProxy == right.encryptedProxy &&
    left.proxyFingerprint == right.proxyFingerprint &&
    left.concurrencyLimit == right.concurrencyLimit && left.weightManual == right.weightManual

namespace CredentialRegistry

def place (entry : CredentialEntry) : CredentialRegistry where
  scheduling := r.scheduling.syncCredentialLocked (runtimeView entry) clock
  buckets := put r.buckets groupID entry.id entry
  credentialGroups := Function.update r.credentialGroups entry.id (some groupID)

/-- The second loop of the source carries the mirrored health over from the old
buckets; here an entry gets it when it is put into the new ones. -/
def replaceCredentials :
    Except String Unit × CredentialRegistry :=
  match validateCredentialEntries entries with
  | .error message => (.error message, r)
  | .ok () =>
    (.ok (),
      { buckets := entries.foldl (fun m entry => put m entry.groupID entry.id
          (preserveSharedHealth (cloneCredentialEntry entry)
            (find r.buckets entry.groupID entry.id))) ∅
        credentialGroups := entries.foldl
          (fun groups entry => Function.update groups entry.id (some entry.groupID)) fun _ => none
        scheduling := r.scheduling.syncCredentials 0 (entries.map runtimeView) clock })

def checkGroup (groupID : Nat) : List CredentialEntry → Except String Unit
  | [] => .ok ()
  | entry :: rest =>
    if entry.groupID ≠ groupID then
      .error s!"credential {entry.id} belongs to group {entry.groupID}, want {groupID}"
    else checkGroup groupID rest

def checkOwners (r : CredentialRegistry) (groupID : Nat) : List CredentialEntry → Except String Unit
  | [] => .ok ()
  | entry :: rest =>
    match r.credentialGroups entry.id with
    | none => checkOwners r groupID rest
    | some existing =>
      if existing ≠ groupID then
        .error s!"credential {entry.id} already belongs to group {existing}"
      else checkOwners r groupID rest

/-- The checks that the writers of one group share. -/
def checkEntries :
    Except String Unit :=
  match validateCredentialEntries entries with
  | .error message => .error message
  | .ok () =>
    match checkGroup groupID entries with
    | .error message => .error message
    | .ok () => r.checkOwners groupID entries

def applyCredentialImport : Except String Unit × CredentialRegistry :=
  if groupID = 0 then (.error "group id is required", r)
  else
    match r.checkEntries groupID entries with
    | .error message => (.error message, r)
    | .ok () =>
      (.ok (), entries.foldl (fun r entry => r.place clock groupID
        (preserveSharedHealth (cloneCredentialEntry entry) (find r.buckets groupID entry.id))) r)

def restoreGroupCredentialEntriesExact : Except String Unit × CredentialRegistry :=
  if groupID = 0 then (.error "group id is required", r)
  else if entries = [] then (.error "credential entries are required", r)
  else
    match r.checkEntries groupID entries with
    | .error message => (.error message, r)
    | .ok () => (.ok (), entries.foldl (fun r entry => r.place clock groupID entry) r)

def matchesGroupLocked :
    Bool :=
  (bucket r.buckets groupID).entries.length == entries.length &&
    entries.all fun desired =>
      match find r.buckets groupID desired.id with
      | none => false
      | some existing =>
        existing.name == desired.name && samePersistedCredentialConfig existing desired

def reconciled (existing : Option CredentialEntry) (desired : CredentialEntry) : CredentialEntry :=
  match existing with
  | some entry =>
    if samePersistedCredentialConfig entry desired then { entry with name := desired.name }
    else preserveSharedHealth (cloneCredentialEntry desired) existing
  | none => preserveSharedHealth (cloneCredentialEntry desired) none

def syncSchedulingGroupLocked :
    CredentialRegistry :=
  { r with
    scheduling := r.scheduling.syncCredentials groupID
      ((bucket r.buckets groupID).entries.map fun item => runtimeView item.2) clock }

def reconcileGroup : Except String Bool × CredentialRegistry :=
  if groupID = 0 then (.error "group id is required", r)
  else
    match r.checkEntries groupID entries with
    | .error message => (.error message, r)
    | .ok () =>
      if r.matchesGroupLocked groupID entries then (.ok false, r)
      else
        let previous := bucket r.buckets groupID
        let next : Bucket Nat CredentialEntry := entries.foldl (fun next desired =>
          next.insert desired.id (reconciled (previous.lookup desired.id) desired)) ∅
        let left := fun id => if id ∈ previous then none else r.credentialGroups id
        let r := if next.keys = [] then
            { r with buckets := r.buckets.erase groupID, credentialGroups := left }
          else
            { r with
              buckets := r.buckets.insert groupID next
              credentialGroups := fun id => if id ∈ next then some groupID else left id }
        (.ok true, r.syncSchedulingGroupLocked clock groupID)

def removeCredential : Bool × CredentialRegistry :=
  match r.credentialGroups id with
  | none => (false, r)
  | some groupID =>
    (true,
      { buckets := trim (delete r.buckets groupID id) groupID
        credentialGroups := Function.update r.credentialGroups id none
        scheduling := r.scheduling.removeLocked id })

def validateUnseenIDs (r : CredentialRegistry) (groupID : Nat) (seen : List Nat) :
    List Nat → Except String Unit
  | [] => .ok ()
  | id :: rest =>
    if id = 0 then .error "credential id is required"
    else if id ∈ seen then .error s!"duplicate credential id {id}"
    else
      match r.credentialGroups id with
      | none => .error s!"credential {id} not found"
      | some actual =>
        if actual ≠ groupID then
          .error s!"credential {id} belongs to group {actual}, want {groupID}"
        else if (find r.buckets groupID id).isNone then
          .error s!"credential {id} not found in group {groupID}"
        else validateUnseenIDs r groupID (id :: seen) rest

variable (ids : List Nat) (now : Time) (status : CredentialStatus)

def validateGroupCredentialIDsLocked :
    Except String Unit :=
  if groupID = 0 then .error "group id is required"
  else if ids = [] then .error "credential ids are required"
  else r.validateUnseenIDs groupID [] ids

def removeFrom (r : CredentialRegistry) (id : Nat) : CredentialRegistry where
  buckets := delete r.buckets groupID id
  credentialGroups := Function.update r.credentialGroups id none
  scheduling := r.scheduling.removeLocked id

def removeGroupCredentials :
    Except String Unit × CredentialRegistry :=
  match r.validateGroupCredentialIDsLocked groupID ids with
  | .error message => (.error message, r)
  | .ok () =>
    let r := ids.foldl (removeFrom groupID) r
    (.ok (), { r with buckets := trim r.buckets groupID })

def removeGroup : Bool × CredentialRegistry :=
  if groupID = 0 then (false, r)
  else
    match r.buckets.lookup groupID with
    | none => (false, r)
    | some members =>
      (true,
        { buckets := r.buckets.erase groupID
          credentialGroups := fun id => if id ∈ members then none else r.credentialGroups id
          scheduling := members.keys.foldl SchedulingLedger.removeLocked r.scheduling })

inductive Edit where
  | keep
  | write (entry : CredentialEntry)
  | sync (entry : CredentialEntry)

def edit (groupID id : Nat) : Edit → CredentialRegistry
  | .keep => r
  | .write entry => { r with buckets := put r.buckets groupID id entry }
  | .sync entry =>
    { r with
      buckets := put r.buckets groupID id entry
      scheduling := r.scheduling.syncCredentialLocked (runtimeView entry) clock }

def entryLocked : Option CredentialEntry :=
  match r.credentialGroups id with
  | none => none
  | some groupID => find r.buckets groupID id

def withEntry {α : Type} (missing : α) (body : CredentialEntry → α × Edit) :
    α × CredentialRegistry :=
  match r.credentialGroups id with
  | none => (missing, r)
  | some groupID =>
    match find r.buckets groupID id with
    | none => (missing, r)
    | some entry => ((body entry).1, r.edit clock groupID id (body entry).2)

def updateGroupCredentialStatuses :
    Except String Unit × CredentialRegistry :=
  if status.known = false then (.error s!"invalid credential status {status.text.quote}", r)
  else
    match r.validateGroupCredentialIDsLocked groupID ids with
    | .error message => (.error message, r)
    | .ok () =>
      (.ok (), ids.foldl (fun r id => (r.withEntry clock id () fun entry =>
        ((), .sync { entry with status := status })).2) r)

def updateCredentialName (groupID id : Nat) (name : String) : Bool × CredentialRegistry :=
  r.withEntry clock id false fun entry =>
    if entry.groupID ≠ groupID then (false, .keep) else (true, .write { entry with name := name })

def setCredentialStatus : Except String Unit × CredentialRegistry :=
  if status.known = false then (.error s!"invalid credential status {status.text.quote}", r)
  else
    r.withEntry clock id (.error s!"credential {id} not found") fun entry =>
      (.ok (), .sync { entry with status := status })

def updateCredentialConfig (weightManual : Option Int) :
    Except String Unit × CredentialRegistry :=
  if status.known = false then (.error s!"invalid credential status {status.text.quote}", r)
  else
    match validateManualWeight s!"credential {id}" weightManual with
    | .error message => (.error message, r)
    | .ok () =>
      r.withEntry clock id (.error s!"credential {id} not found") fun entry =>
        (.ok (), .sync { entry with status := status, weightManual := weightManual })

def replaceCredentialSecretIfMatch (id expectedVersion nextVersion : Nat)
    (fingerprint encryptedValue : String) :
    Bool × CredentialRegistry :=
  if id = 0 ∨ expectedVersion = 0 ∨ nextVersion ≤ expectedVersion ∨
      trimSpace fingerprint = "" ∨ encryptedValue = "" then (false, r)
  else
    r.withEntry clock id false fun entry =>
      if entry.version ≠ expectedVersion then (false, .keep)
      else
        (true, .write { entry with
          version := nextVersion
          fingerprint := fingerprint
          encryptedValue := encryptedValue
          authState := .ready })

def setEntryAuthStateLocked (authState : CredentialAuthState) :
    CredentialEntry :=
  { entry with
    authState := authState.normalize
    quotaRemaining := if authState.normalize ≠ .ready then none else entry.quotaRemaining
    quotaResetAt := if authState.normalize ≠ .ready then zeroTime else entry.quotaResetAt }

def setCredentialAuthState (authState : CredentialAuthState) : Bool × CredentialRegistry :=
  if authState.valid = false then (false, r)
  else
    r.withEntry clock id false fun entry => (true, .sync (setEntryAuthStateLocked entry authState))

def nextGeneration (generation : Nat) : Nat := (generation + 1) % 2 ^ 64

def nextCount (count : Int) : Int := Int.bmod (count + 1) (2 ^ 64)

def clearCooldownIfMatch (expected : Time) :
    Bool × CredentialRegistry :=
  if isZero expected then (false, r)
  else
    r.withEntry clock id false fun entry =>
      if entry.cooldownUntil ≠ expected then (false, .keep)
      else (true, .sync { entry with cooldownUntil := zeroTime })

def setCooldownWithChange (deadline : Time) :
    (Bool × Bool) × CredentialRegistry :=
  r.withEntry clock id (false, false) fun entry =>
    if after deadline entry.cooldownUntil then
      ((true, true), .sync { entry with cooldownUntil := deadline })
    else ((true, false), .keep)

def setCooldownWithChangeIfVersion (id expectedVersion : Nat) (deadline : Time) :
    (Bool × Bool) × CredentialRegistry :=
  r.withEntry clock id (false, false) fun entry =>
    if entry.version ≠ expectedVersion then ((false, false), .keep)
    else if after deadline entry.cooldownUntil then
      ((true, true), .sync { entry with cooldownUntil := deadline })
    else ((true, false), .keep)

def setBlacklistedWithChange :
    (Bool × Bool) × CredentialRegistry :=
  r.withEntry clock id (false, false) fun entry =>
    if entry.blacklisted then ((true, false), .keep)
    else
      ((true, true), .sync { entry with
        blacklisted := true
        failureGeneration := nextGeneration entry.failureGeneration })

def restoreRuntimeState :
    Bool × CredentialRegistry :=
  r.withEntry clock id false fun entry =>
    (true, .sync { entry with
      cooldownUntil := zeroTime
      blacklisted := false
      failureCount := 0
      failureGeneration := nextGeneration entry.failureGeneration })

def incrFailure :
    (Int × Bool) × CredentialRegistry :=
  r.withEntry clock id (0, false) fun entry =>
    ((nextCount entry.failureCount, true), .write { entry with
      failureCount := nextCount entry.failureCount
      failureGeneration := nextGeneration entry.failureGeneration })

def clearFailure : Bool × CredentialRegistry :=
  r.withEntry clock id false fun entry =>
    if entry.failureCount ≠ 0 then
      (true, .write { entry with
        failureCount := 0
        failureGeneration := nextGeneration entry.failureGeneration })
    else (true, .keep)

def recover : Bool × CredentialRegistry :=
  r.withEntry clock id false fun entry =>
    if entry.blacklisted ∨ entry.failureCount ≠ 0 then
      (true, .sync { entry with
        blacklisted := false
        failureCount := 0
        failureGeneration := nextGeneration entry.failureGeneration })
    else (true, .sync entry)

/-- `RecoverIfMatch`, and with a deadline `RestoreRuntimeStateIfMatch`. -/
def restoreRuntimeStateIfMatch (ref : CredentialRef) (cooldownUntil : Option Time) :
    Bool × CredentialRegistry :=
  if r.credentialGroups ref.id ≠ some ref.groupID then (false, r)
  else
    r.withEntry clock ref.id false fun entry =>
      if entry.status ≠ .active ∨ entry.blacklisted = false ∨
          sameCredentialIdentity entry ref = false ∨
          entry.failureGeneration ≠ ref.failureGeneration ∨
          cooldownUntil.any (fun expected => entry.cooldownUntil != expected) = true then
        (false, .keep)
      else
        (true, .sync { entry with
          cooldownUntil := if cooldownUntil.isSome then zeroTime else entry.cooldownUntil
          blacklisted := false
          failureCount := 0
          failureGeneration := nextGeneration entry.failureGeneration })

def pruneModelCooldowns (limits : ModelCooldowns) (now : Time) : ModelCooldowns :=
  fun model => (limits model).filter fun deadline => model != "" && after deadline now

def setModelCooldown (ref : CredentialRef) (model : String) (deadline now : Time) :
    (Bool × Bool) × CredentialRegistry :=
  if model = "" ∨ trimSpace model ≠ model ∨ after deadline now = false then ((false, false), r)
  else
    r.withEntry clock ref.id (false, false) fun entry =>
      if entry.groupID ≠ ref.groupID ∨ entry.identityGeneration ≠ ref.identityGeneration ∨
          entry.modelCooldownGeneration ≠ ref.modelCooldownGeneration then
        ((false, false), .keep)
      else
        let limits := pruneModelCooldowns entry.modelCooldowns now
        if after deadline (limits.until model) then
          ((true, true), .write { entry with
            modelCooldowns := Function.update limits model (some deadline) })
        else ((true, false), .write { entry with modelCooldowns := limits })

/-- The method `ModelCooldowns`, which prunes what it returns. -/
def readModelCooldowns :
    Option ModelCooldowns × CredentialRegistry :=
  r.withEntry clock id none fun entry =>
    (some (pruneModelCooldowns entry.modelCooldowns now),
      .write { entry with modelCooldowns := pruneModelCooldowns entry.modelCooldowns now })

def clearModelCooldowns :
    Bool × CredentialRegistry :=
  r.withEntry clock id false fun entry =>
    (true, .write { entry with
      modelCooldowns := fun _ => none
      modelCooldownGeneration := nextGeneration entry.modelCooldownGeneration })

def pruneEntry (r : CredentialRegistry) (place : Nat × Nat) : CredentialRegistry :=
  match find r.buckets place.1 place.2 with
  | none => r
  | some entry =>
    { r with
      buckets := put r.buckets place.1 place.2
        { entry with modelCooldowns := pruneModelCooldowns entry.modelCooldowns now } }

def expireModelCooldowns : CredentialRegistry :=
  (r.buckets.entries.flatMap fun item => item.2.keys.map fun id => (item.1, id)).foldl
    (pruneEntry now) r

structure SharedCredentialHealth where
  epoch : String
  version : Nat
  identityGeneration : Nat
  cooldownUntil : Time
  blacklisted : Bool
  failureCount : Int
  failureGeneration : Nat
  modelCooldownGeneration : Nat
  modelCooldowns : ModelCooldowns
  authState : CredentialAuthState
  authSecretVersion : Nat

def SharedCredentialHealth.empty (identityGeneration : Nat) : SharedCredentialHealth where
  epoch := ""
  version := 0
  identityGeneration := identityGeneration
  cooldownUntil := zeroTime
  blacklisted := false
  failureCount := 0
  failureGeneration := 0
  modelCooldownGeneration := 0
  modelCooldowns := fun _ => none
  authState := .unset
  authSecretVersion := 0

def mirrorHealth (health : SharedCredentialHealth) : CredentialEntry :=
  let mirrored : CredentialEntry :=
    { entry with
      cooldownUntil := health.cooldownUntil
      blacklisted := health.blacklisted
      failureCount := health.failureCount
      failureGeneration := health.failureGeneration
      modelCooldownGeneration := health.modelCooldownGeneration
      modelCooldowns := health.modelCooldowns
      sharedEpoch := health.epoch
      sharedVersion := health.version }
  if health.authState ≠ .unset ∧ health.authSecretVersion = entry.version ∧
      health.authState.valid = true then setEntryAuthStateLocked mirrored health.authState
  else mirrored

def applySharedHealth (health : SharedCredentialHealth) : Bool × CredentialRegistry :=
  r.withEntry clock id false fun entry =>
    if health.epoch = "" then
      if entry.sharedEpoch = "" then (false, .keep)
      else
        (true, .sync (mirrorHealth entry (SharedCredentialHealth.empty entry.identityGeneration)))
    else if health.identityGeneration ≠ entry.identityGeneration ∨
        (health.epoch = entry.sharedEpoch ∧ health.version < entry.sharedVersion) then
      (false, .keep)
    else (true, .sync (mirrorHealth entry health))

end CredentialRegistry

end EchoJoyGateway.State
