import EchoJoyGateway.State.Scheduling

/-!
# Choosing one credential from a pool

`Iterator.selectCredential` of `internal/scheduler/fair.go`: the pool is
aligned with the ledger, members that wait are admitted at the leading
progress, and the member with the least progress is charged. A streak cap
can divert the choice to the second least member.
-/

namespace EchoJoyGateway.Scheduler

open State

structure WeightedCredential where
  credential : CredentialMeta
  weight : Nat

structure Intake where
  ledger : SchedulingLedger
  eligible : List WeightedCredential
  baseline : SchedulingProgress
  hasBaseline : Bool

def intakeStep (acc : Intake) (candidate : WeightedCredential) : Intake :=
  match acc.ledger.members candidate.credential.id with
  | none => acc
  | some member =>
    if member.groupID ≠ candidate.credential.groupID ∨
        member.identityGeneration ≠ candidate.credential.identityGeneration then acc
    else
      let member := acc.ledger.stagger member candidate.weight
      let leads := !member.pending && (!acc.hasBaseline || acc.baseline.lt member.progress)
      { ledger := acc.ledger.setMember candidate.credential.id member
        eligible := acc.eligible ++ [candidate]
        baseline := if leads then member.progress else acc.baseline
        hasBaseline := leads || acc.hasBaseline }

variable (ledger : SchedulingLedger)

def intake (candidates : List WeightedCredential) : Intake :=
  candidates.foldl intakeStep ⟨ledger, [], ledger.watermark, false⟩

variable (snapshotRevision : Option Nat)

def mayAdmit (member : SchedulingMember) : Bool :=
  member.pending && (!ledger.groupsKnown || ledger.groups member.groupID) &&
    (match snapshotRevision with
      | none => false
      | some revision => decide (ledger.groupRevision ≤ revision))

def admitStep (baseline : SchedulingProgress) (ledger : SchedulingLedger)
    (candidate : WeightedCredential) : SchedulingLedger :=
  match ledger.members candidate.credential.id with
  | none => ledger
  | some member =>
    if mayAdmit ledger snapshotRevision member then
      ledger.setMember candidate.credential.id (member.admitAt baseline)
    else ledger

def admitPending (baseline : SchedulingProgress) (eligible : List WeightedCredential) :
    SchedulingLedger :=
  eligible.foldl (admitStep snapshotRevision baseline) ledger

def memberLess (a b : SchedulingMember) : Bool :=
  if a.progress ≠ b.progress then a.progress.lt b.progress
  else if a.lastSelected ≠ b.lastSelected then decide (a.lastSelected < b.lastSelected)
  else decide (a.id < b.id)

def less (left right : WeightedCredential) : Bool :=
  match ledger.members left.credential.id, ledger.members right.credential.id with
  | some a, some b => memberLess a b
  | _, _ => false

variable (first : WeightedCredential)

def leastCredential (rest : List WeightedCredential) : WeightedCredential :=
  rest.foldl (fun best candidate => if less ledger candidate best then candidate else best) first

def alternativeStep (best : Option WeightedCredential) (candidate : WeightedCredential) :
    Option WeightedCredential :=
  if candidate.credential.id = first.credential.id then best
  else match best with
    | none => some candidate
    | some alternative => if less ledger candidate alternative then some candidate else best

def alternativeCredential (eligible : List WeightedCredential) (first : WeightedCredential) :
    Option WeightedCredential :=
  eligible.foldl (alternativeStep ledger first) none

def streakLimit (first alternative : WeightedCredential) : Nat :=
  99 + (first.weight + alternative.weight - 1) / alternative.weight

/-- The consecutive-allocation cap, for a choice without preference. -/
def limitStreak (eligible : List WeightedCredential) (first : WeightedCredential) :
    WeightedCredential :=
  if ledger.lastMember = first.credential.id ∧ 1 < eligible.length ∧ 100 ≤ ledger.consecutive then
    match alternativeCredential ledger eligible first with
    | none => first
    | some alternative =>
      if streakLimit first alternative ≤ ledger.consecutive then alternative else first
  else first

def maxConsecutive : Nat := 99 + 100 * 100

def nextConsecutive (id : Nat) : Nat :=
  if ledger.lastMember ≠ id then 1
  else if ledger.consecutive < maxConsecutive then ledger.consecutive + 1
  else ledger.consecutive

def charge (id : Nat) (member : SchedulingMember) (next : SchedulingProgress) : SchedulingLedger :=
  { ledger.setMember id
      { member with progress := next, lastSelected := ledger.sequence + 1 } with
    sequence := ledger.sequence + 1
    started := true
    watermark := if ledger.watermark.lt next then next else ledger.watermark
    lastMember := member.id
    consecutive := nextConsecutive ledger member.id }

def chooseCredential (rest : List WeightedCredential) (preferred : Nat) : WeightedCredential :=
  match (first :: rest).find? (fun candidate => candidate.credential.id == preferred) with
  | some candidate => candidate
  | none => limitStreak ledger (first :: rest) (leastCredential ledger first rest)

def selectCredential (ledger : SchedulingLedger) (candidates : List WeightedCredential)
    (preferred : Nat) :
    SchedulingLedger × Option CredentialMeta :=
  let taken := intake ledger candidates
  match taken.eligible with
  | [] => (taken.ledger, none)
  | first :: rest =>
    if taken.ledger.sequence = -1 then (taken.ledger, none)
    else
      let ledger := admitPending taken.ledger snapshotRevision taken.baseline (first :: rest)
      let chosen := chooseCredential ledger first rest preferred
      match ledger.members chosen.credential.id with
      | none => (ledger, none)
      | some member =>
        let (next, ok) := member.progress.advance chosen.weight
        if ok then (charge ledger chosen.credential.id member next, some chosen.credential)
        else (ledger, none)

end EchoJoyGateway.Scheduler
