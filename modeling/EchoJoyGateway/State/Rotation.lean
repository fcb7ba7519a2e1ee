import EchoJoyGateway.State.Snapshot
import Mathlib.Data.List.Sort

/-!
# Publication of groups and rotation of models

`SyncGroups` of `internal/state/scheduling.go` and the model queues of
`internal/state/model_rotation.go`. A group and an external name with several
upstream models own a queue; a selection moves the model it takes to the end.
-/

namespace EchoJoyGateway.State

def takeRemaining (acc : List String × List String) (model : String) :
    List String × List String :=
  if model ∈ acc.1 then (acc.1.filter fun other => other ≠ model, acc.2 ++ [model]) else acc

/-- Models still configured keep their order; new ones go to the end. -/
def reconcileModelOrder (previous configured : List String) : List String :=
  ((previous ++ configured).foldl takeRemaining (configured, [])).2

def modelsByName (group : GroupView) (name : String) : List String :=
  (group.models.filter fun model => externalModelName model == name).map
    fun model => trimSpace model.id

variable (d : SchedulingLedger) (snapshot : ConfigSnapshot)

namespace SchedulingLedger

def staggerModelOrder (key : GroupModelKey) (order : List String) :
    List String :=
  match d.jitter with
  | none => order
  | some jitter =>
    if order.length < 2 then order
    else
      let offset := (jitter.cursor key (UInt64.ofNat order.length)).toNat
      order.drop offset ++ order.take offset

/-- The queue of one key after a publication: groups that are switched off
keep theirs, and every other one is built from the configured models. -/
def syncedCursor (key : GroupModelKey) :
    Option (List String) :=
  let models := match snapshot.group key.groupID with
    | none => []
    | some group => modelsByName group key.externalModel
  if 1 < models.length then
    let models := models.insertionSort (· ≤ ·)
    match d.modelCursors key with
    | none => some (d.staggerModelOrder key (reconcileModelOrder [] models))
    | some previous => some (reconcileModelOrder previous models)
  else
    match snapshot.catalogView key.groupID with
    | none => none
    | some group => if group.enabled then none else d.modelCursors key

def syncModelCursorsLocked :
    SchedulingLedger :=
  { d with modelCursors := d.syncedCursor snapshot }

/-- What a publication records for a group. -/
def groupOpen (id : Nat) : Bool :=
  match snapshot.catalogView id with
  | none => false
  | some group =>
    group.enabled &&
      (match snapshot.group id with
        | none => false
        | some view => !view.models.isEmpty) &&
      (match group.weightManual with
        | none => true
        | some weight => decide (0 < weight))

def priorityChanged : Bool :=
  snapshot.groupCatalog.any fun group =>
    match d.groupPriorities group.id with
    | none => false
    | some previous => previous != group.priority

def syncGroups (snapshot : Option ConfigSnapshot) : SchedulingLedger :=
  match snapshot with
  | none => d
  | some snapshot =>
    if d.groupsKnown ∧ snapshot.revision ≤ d.groupRevision then d
    else
      let changed := d.priorityChanged snapshot
      let suspend := fun member : SchedulingMember =>
        if changed || !groupOpen snapshot member.groupID then { member with pending := true }
        else member
      { d with
        members := fun id => (d.members id).map suspend
        groups := groupOpen snapshot
        groupRevision := snapshot.revision
        groupsKnown := true
        groupPriorities := fun id =>
          (snapshot.catalogView id).map GroupCatalogView.priority }.syncModelCursorsLocked snapshot

/-- Takes the first model of the queue that is offered and moves it to the end;
`models` is sorted, so the binary search of the source is membership. -/
def selectModel (groupID : Nat) (externalModel : String) (models : List String) :
    SchedulingLedger × String :=
  match models with
  | [] => (d, "")
  | first :: _ =>
    let key : GroupModelKey := ⟨groupID, externalModel⟩
    let order := (d.modelCursors key).getD []
    match order.findIdx? fun model => models.contains model with
    | none => (d, first)
    | some index =>
      let model := order.getD index ""
      ({ d with modelCursors :=
          Function.update d.modelCursors key (some (order.eraseIdx index ++ [model])) }, model)

end SchedulingLedger

end EchoJoyGateway.State
