import EchoJoyGateway.Clock
import Mathlib.Data.List.Basic
import Mathlib.Algebra.Group.Nat.Defs

/-!
# Durable control operations

The row of a control operation (`internal/storage/models/control_operation.go`),
the stages that its kind requires and the checks before a recovery
(`internal/control/idempotency_operation.go`, `operation_recovery.go`).
-/

namespace EchoJoyGateway.Control

open Clock

inductive OperationStage where
  | dbCommitted
  | pricesPublished
  | registryApplied
  | snapshotPublished
  | completed
  | other (name : String)
  deriving DecidableEq

inductive OperationKind where
  | accessKeyCreate
  | accessKeyRotate
  | accessKeyUpdate
  | groupCreate
  | credentialImport
  | proxyCreate
  | proxyUpdate
  | proxyImport
  | other (name : String)
  deriving DecidableEq

def OperationKind.valid : OperationKind → Bool
  | .other _ => false
  | _ => true

/-- `requiredStages` is the plan that the stored JSON decodes to. -/
structure ControlOperation where
  commitSequence : Nat
  operationID : String
  idempotencyKey : String
  digestVersion : Nat
  requestDigest : List UInt8
  operationKind : OperationKind
  resourceIdentity : String
  canonicalResult : List UInt8
  requiredStages : Option (List OperationStage)
  lastCompletedStage : OperationStage
  failedStage : OperationStage
  completedAtMS : Option Int
  compactedAtMS : Option Int
  createdAtMS : Int
  updatedAtMS : Int
  deriving DecidableEq

inductive RecoveryError where
  | invalidComparator
  | invalidOperationID
  | invalidIdempotencyKey
  | invalidResourceIdentity
  | missingResult
  | invalidResult
  | unsupportedKind
  | invalidStagePlan
  | invalidCurrentStage
  | stageFailed (stage : OperationStage)
  | beforeAdvance
  | errInternalServer
  | errDatabase
  | durableStageChanged
  deriving DecidableEq

def operationRequiredStages : OperationKind → Option (List OperationStage)
  | .accessKeyCreate | .accessKeyRotate | .accessKeyUpdate =>
    some [.dbCommitted, .snapshotPublished, .completed]
  | .groupCreate =>
    some [.dbCommitted, .pricesPublished, .registryApplied, .snapshotPublished, .completed]
  | .proxyCreate | .proxyUpdate | .proxyImport =>
    some [.dbCommitted, .registryApplied, .snapshotPublished, .completed]
  | .credentialImport => some [.dbCommitted, .registryApplied, .completed]
  | .other _ => none

def operationStageIndex (stages : List OperationStage) (stage : OperationStage) : Int :=
  match stages.findIdx? (· == stage) with
  | none => -1
  | some index => index

def lowerHex (c : Char) : Bool := ('0' ≤ c && c ≤ '9') || ('a' ≤ c && c ≤ 'f')

def validateIdempotencyKey (value : String) : Bool :=
  let characters := value.toList
  characters.length == 36 && characters[14]? == some '4' &&
    ['8', '9', 'a', 'b'].any (fun c => characters[19]? == some c) &&
    characters.zipIdx.all fun item =>
      if item.2 = 8 ∨ item.2 = 13 ∨ item.2 = 18 ∨ item.2 = 23 then item.1 == '-'
      else lowerHex item.1

def parseDigits (digits : List Char) : Option Nat :=
  digits.foldl (fun value c =>
    match value with
    | none => none
    | some value =>
      if '0' ≤ c ∧ c ≤ '9' then some (value * 10 + (c.toNat - '0'.toNat)) else none) (some 0)

/-- The id behind `owner:`, in canonical base 10 and within a machine word. -/
def parseResourceIdentity (identity owner : String) : Option Nat :=
  let want := (owner ++ ":").toList
  if want.isPrefixOf identity.toList then
    let raw := identity.toList.drop want.length
    if raw = [] ∨ raw.head? = some '0' then none
    else
      match parseDigits raw with
      | none => none
      | some value => if value < 2 ^ 64 then some value else none
  else none

def validateOperationResourceIdentity (kind : OperationKind) (identity : String) : Bool :=
  match kind with
  | .accessKeyCreate | .accessKeyRotate | .accessKeyUpdate =>
    (parseResourceIdentity identity "access-key").isSome
  | .groupCreate | .credentialImport => (parseResourceIdentity identity "group").isSome
  | .proxyCreate | .proxyUpdate => (parseResourceIdentity identity "proxy").isSome
  | .proxyImport => identity == "proxy:catalog"
  | .other _ => false

/-- `canonicalize` is `canonicaljson.Canonicalize`. -/
def validateRecoverableOperation (canonicalize : List UInt8 → Option (List UInt8))
    (operation : ControlOperation) : Except RecoveryError Unit :=
  if operation.digestVersion ≠ 1 ∨ operation.requestDigest.length ≠ 32 ∨
      operation.operationKind.valid = false ∨ operation.compactedAtMS.isSome then
    .error .invalidComparator
  else if validateIdempotencyKey operation.operationID = false then .error .invalidOperationID
  else if validateIdempotencyKey operation.idempotencyKey = false then
    .error .invalidIdempotencyKey
  else if validateOperationResourceIdentity operation.operationKind
      operation.resourceIdentity = false then
    .error .invalidResourceIdentity
  else if operation.canonicalResult = [] then .error .missingResult
  else if canonicalize operation.canonicalResult ≠ some operation.canonicalResult then
    .error .invalidResult
  else .ok ()

/-- The plan of an operation and the position of its last completed stage. -/
def stagePlan (canonicalize : List UInt8 → Option (List UInt8)) (operation : ControlOperation) :
    Except RecoveryError (List OperationStage × Nat) :=
  match validateRecoverableOperation canonicalize operation with
  | .error e => .error e
  | .ok () =>
    match operationRequiredStages operation.operationKind with
    | none => .error .unsupportedKind
    | some wantStages =>
      if operation.requiredStages ≠ some wantStages then .error .invalidStagePlan
      else
        match wantStages.findIdx? (· == operation.lastCompletedStage) with
        | none => .error .invalidCurrentStage
        | some currentIndex => .ok (wantStages, currentIndex)

/-- `epochms.FromTime`. -/
def fromTime (now : Time) : Option Int :=
  if unixMilli now < 0 then none else some (unixMilli now)

end EchoJoyGateway.Control
