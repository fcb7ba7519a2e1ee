import EchoJoyGateway.Control.Operation
import EchoJoyGateway.Lib.Runs

/-!
# Recovery of one operation by several instances

`recoverOperationLocked` of `internal/control/idempotency_operation.go`, run by any
number of instances on copies of one row. A step is what no other instance can
interrupt: the side effect of a stage, the update of the row together with its
commit (the row is locked in between), the read of the row after an update that
found another stage, and the record of a failure. Every call may fail; a commit
that fails may have been applied or not.
-/

namespace EchoJoyGateway.Control

open Clock

inductive Phase where
  /-- The head of the loop, before the side effect of the stage. -/
  | stage (index : Nat)
  | advancing (index : Nat)
  /-- The update changed no row; the row is read next. -/
  | missed (index : Nat)
  /-- The failure is to be recorded, then returned. -/
  | failing (stage : OperationStage) (error : RecoveryError)
  | returned (result : Except RecoveryError Unit)

/-- A run of `recoverOperationLocked`: the copy it began with, the copy it works
on, and the stages whose side effects it has executed. -/
structure Instance where
  begun : ControlOperation
  operation : ControlOperation
  storedStages : List OperationStage
  phase : Phase
  executed : List OperationStage

/-- The row, all that it was so far, and the runs. -/
structure Cluster where
  row : ControlOperation
  history : List ControlOperation
  instances : Nat → Option Instance

def Cluster.initial (row : ControlOperation) : Cluster := ⟨row, [row], fun _ => none⟩

inductive TransactionOutcome where
  /-- The transaction does not begin, or its statement fails. -/
  | refused
  | committed
  /-- The commit fails and nothing is applied. -/
  | lost
  /-- The commit is applied and reported as failed. -/
  | unsure
  deriving DecidableEq

inductive Event where
  /-- A run begins on the row as it was at some time. -/
  | begin (id : Nat) (copy : Nat)
  | effect (id : Nat) (ok : Bool)
  | advance (id : Nat) (hookOK : Bool) (now : Time) (outcome : TransactionOutcome)
  | read (id : Nat) (ok : Bool) (commitOK : Bool)
  | recordFailure (id : Nat) (now : Time) (outcome : TransactionOutcome)

variable (c : Cluster) (r : Instance) (id : Nat) (index : Nat)

namespace Instance

def enter : Instance :=
  { r with phase := if index < r.storedStages.length then .stage index else .returned (.ok ()) }

def start (canonicalize : List UInt8 → Option (List UInt8)) (operation : ControlOperation) :
    Instance :=
  match stagePlan canonicalize operation with
  | .error e => ⟨operation, operation, [], .returned (.error e), []⟩
  | .ok (storedStages, currentIndex) =>
    enter ⟨operation, operation, storedStages, .stage (currentIndex + 1), []⟩ (currentIndex + 1)

def stageAt : OperationStage := r.storedStages.getD index (.other "")

/-- The side effect of a stage; `ok` is the answer of the calls it makes. -/
def stageEffect (stage : OperationStage) (ok : Bool) : Bool :=
  match stage with
  | .pricesPublished | .registryApplied | .snapshotPublished => ok
  | .completed => true
  | .dbCommitted | .other _ => false

def runEffect (ok : Bool) : Instance :=
  let stage := r.stageAt index
  if stageEffect stage ok then
    { r with executed := r.executed ++ [stage], phase := .advancing index }
  else { r with phase := .failing stage (.stageFailed stage) }

def fail (error : RecoveryError) : Instance := { r with phase := .failing (r.stageAt index) error }

def indexOf (stage : OperationStage) : Int := operationStageIndex r.storedStages stage

end Instance

def ControlOperation.complete (operation : ControlOperation) (stage : OperationStage)
    (nowMS : Int) : ControlOperation :=
  { operation with
    lastCompletedStage := stage
    failedStage := .other ""
    updatedAtMS := nowMS
    completedAtMS := if stage = .completed then some nowMS else operation.completedAtMS }

def ControlOperation.adopt (operation persisted : ControlOperation) : ControlOperation :=
  { operation with
    lastCompletedStage := persisted.lastCompletedStage
    failedStage := persisted.failedStage
    updatedAtMS := persisted.updatedAtMS
    completedAtMS := persisted.completedAtMS }

def ControlOperation.markFailed (operation : ControlOperation) (stage : OperationStage)
    (nowMS : Int) : ControlOperation :=
  { operation with failedStage := stage, updatedAtMS := nowMS }

namespace Cluster

def setInstance (r : Instance) : Cluster :=
  { c with instances := Function.update c.instances id (some r) }

def setRow (row : ControlOperation) : Cluster := { c with row := row, history := row :: c.history }

/-- `advanceOperationStageLocked`, up to the read of the row. -/
def advance (r : Instance) (index : Nat) (hookOK : Bool) (now : Time)
    (outcome : TransactionOutcome) : Cluster :=
  let stage := r.stageAt index
  if r.indexOf stage ≤ r.indexOf r.operation.lastCompletedStage then
    c.setInstance id (r.enter (index + 1))
  else if hookOK = false then c.setInstance id (r.fail index .beforeAdvance)
  else
    match fromTime now with
    | none => c.setInstance id (r.fail index .errInternalServer)
    | some nowMS =>
      if outcome = .refused then c.setInstance id (r.fail index .errDatabase)
      else if c.row.lastCompletedStage = r.operation.lastCompletedStage then
        match outcome with
        | .committed =>
          (c.setRow (c.row.complete stage nowMS)).setInstance id
            ({ r with operation := r.operation.complete stage nowMS }.enter (index + 1))
        | .unsure =>
          (c.setRow (c.row.complete stage nowMS)).setInstance id (r.fail index .errDatabase)
        | .lost | .refused => c.setInstance id (r.fail index .errDatabase)
      else c.setInstance id { r with phase := .missed index }

/-- The rest of `advanceOperationStageLocked`. Any error of the read is reported
as a changed stage. -/
def readRow (r : Instance) (index : Nat) (ok commitOK : Bool) : Cluster :=
  if ok = false then c.setInstance id (r.fail index .durableStageChanged)
  else if r.indexOf c.row.lastCompletedStage < r.indexOf (r.stageAt index) then
    c.setInstance id (r.fail index .durableStageChanged)
  else if commitOK = false then c.setInstance id (r.fail index .errDatabase)
  else c.setInstance id ({ r with operation := r.operation.adopt c.row }.enter (index + 1))

/-- `recordOperationFailureLocked`, and the return of the error that led to it. -/
def recordFailure (r : Instance) (stage : OperationStage) (error : RecoveryError) (now : Time)
    (outcome : TransactionOutcome) : Cluster :=
  let done := { r with phase := .returned (.error error) }
  match fromTime now with
  | none => c.setInstance id done
  | some nowMS =>
    match outcome with
    | .refused | .lost => c.setInstance id done
    | .unsure => (c.setRow (c.row.markFailed stage nowMS)).setInstance id done
    | .committed =>
      (c.setRow (c.row.markFailed stage nowMS)).setInstance id
        { done with operation := r.operation.markFailed stage nowMS }

def step (canonicalize : List UInt8 → Option (List UInt8)) (c : Cluster) : Event → Option Cluster
  | .begin id copy =>
    match c.instances id, c.history[copy]? with
    | none, some operation => some (c.setInstance id (.start canonicalize operation))
    | _, _ => none
  | .effect id ok =>
    match c.instances id with
    | none => none
    | some r =>
      match r.phase with
      | .stage index => some (c.setInstance id (r.runEffect index ok))
      | _ => none
  | .advance id hookOK now outcome =>
    match c.instances id with
    | none => none
    | some r =>
      match r.phase with
      | .advancing index => some (c.advance id r index hookOK now outcome)
      | _ => none
  | .read id ok commitOK =>
    match c.instances id with
    | none => none
    | some r =>
      match r.phase with
      | .missed index => some (c.readRow id r index ok commitOK)
      | _ => none
  | .recordFailure id now outcome =>
    match c.instances id with
    | none => none
    | some r =>
      match r.phase with
      | .failing stage error => some (c.recordFailure id r stage error now outcome)
      | _ => none

end Cluster

end EchoJoyGateway.Control
