import EchoJoyGateway.State.Credential
import Mathlib.Algebra.Group.Nat.Defs

/-!
# The scheduling ledger

The allocation history of `internal/state/scheduling.go`. Progress is a
128-bit fixed-point coordinate in two words; a member of the ledger is kept
apart from the credential's configuration, so a replacement of the
configuration does not roll it back.
-/

namespace EchoJoyGateway.State

open Clock

structure SchedulingProgress where
  whole : UInt64
  fraction : UInt64
  deriving DecidableEq

namespace SchedulingProgress

def add64 (x y carry : UInt64) : UInt64 × UInt64 :=
  (x + y + carry, if x.toNat + y.toNat + carry.toNat < 2 ^ 64 then 0 else 1)

def div64 (weight : Nat) : UInt64 := UInt64.ofNat (2 ^ 64 / weight)

def lt (left right : SchedulingProgress) : Bool :=
  if left.whole = right.whole then decide (left.fraction < right.fraction)
  else decide (left.whole < right.whole)

def advance (p : SchedulingProgress) (weight : Nat) : SchedulingProgress × Bool :=
  if weight = 0 then (p, false)
  else
    let (fraction, carry) :=
      if weight = 1 then (p.fraction, 1) else add64 p.fraction (div64 weight) 0
    let (whole, carry) := add64 p.whole carry 0
    (⟨whole, fraction⟩, carry = 0)

def value (p : SchedulingProgress) : Nat := p.whole.toNat * 2 ^ 64 + p.fraction.toNat

def stride (weight : Nat) : Nat := 2 ^ 64 / weight

theorem add64_toNat (x y carry : UInt64) (h : carry.toNat ≤ 1) :
    (add64 x y carry).1.toNat + (add64 x y carry).2.toNat * 2 ^ 64 =
      x.toNat + y.toNat + carry.toNat := by
  have hx := x.toNat_lt
  have hy := y.toNat_lt
  simp only [add64, UInt64.toNat_add, Nat.mod_add_mod]
  split
  · rw [Nat.mod_eq_of_lt ‹_›]
    simp
  · rw [show (1 : UInt64).toNat = 1 from rfl]
    omega

theorem add64_carry_le (x y carry : UInt64) : (add64 x y carry).2.toNat ≤ 1 := by
  simp only [add64]
  split <;> decide

theorem div64_toNat {weight : Nat} (h : 1 < weight) : (div64 weight).toNat = stride weight := by
  have hlt : 2 ^ 64 / weight < 2 ^ 64 := Nat.div_lt_self (by decide) h
  exact Nat.mod_eq_of_lt hlt

theorem lt_iff (left right : SchedulingProgress) :
    left.lt right = true ↔ left.value < right.value := by
  have hl := left.fraction.toNat_lt
  have hr := right.fraction.toNat_lt
  unfold lt value
  split
  · rename_i h
    rw [h, decide_eq_true_eq, UInt64.lt_iff_toNat_lt]
    omega
  · rename_i h
    have hne : left.whole.toNat ≠ right.whole.toNat := fun he => h (UInt64.toNat_inj.mp he)
    rw [decide_eq_true_eq, UInt64.lt_iff_toNat_lt]
    omega

theorem advance_value {p : SchedulingProgress} {weight : Nat} (hw : 0 < weight)
    (hok : (p.advance weight).2 = true) :
    (p.advance weight).1.value = p.value + stride weight := by
  have hne : weight ≠ 0 := by omega
  have key : ∀ (fraction carry : UInt64), carry.toNat ≤ 1 →
      fraction.toNat + carry.toNat * 2 ^ 64 = p.fraction.toNat + stride weight →
      (add64 p.whole carry 0).2 = 0 →
      (⟨(add64 p.whole carry 0).1, fraction⟩ : SchedulingProgress).value =
        p.value + stride weight := by
    intro fraction carry _ hsum hzero
    have hadd := add64_toNat p.whole carry 0 (by decide)
    rw [hzero] at hadd
    simp only [value]
    simp only [UInt64.toNat_zero] at hadd
    omega
  simp only [advance, hne, if_false] at hok ⊢
  by_cases hone : weight = 1
  · subst hone
    simp only [decide_eq_true_eq] at hok ⊢
    exact key p.fraction 1 (by decide) (by simp [stride]) hok
  · simp only [hone, if_false, decide_eq_true_eq] at hok ⊢
    apply key _ _ (add64_carry_le _ _ _) _ hok
    rw [add64_toNat _ _ _ (by decide), div64_toNat (by omega)]
    simp

end SchedulingProgress

structure SchedulingMember where
  id : Nat
  groupID : Nat
  identityGeneration : Nat
  progress : SchedulingProgress
  lastSelected : UInt64
  pending : Bool
  suspended : Bool
  staggered : Bool
  cooldownUntil : Time
  deriving DecidableEq

def SchedulingMember.admitAt (m : SchedulingMember) (baseline : SchedulingProgress) :
    SchedulingMember :=
  { m with
    progress := if m.progress.lt baseline then baseline else m.progress
    pending := false
    suspended := false
    staggered := true }

structure GroupModelKey where
  groupID : Nat
  externalModel : String
  deriving DecidableEq

/-- The random source of a staggered ledger. A member is staggered once and a queue is cut
once, so draws are indexed by what they are for. -/
structure Jitter where
  member : Nat → UInt64 → UInt64
  cursor : GroupModelKey → UInt64 → UInt64
  member_lt : ∀ id n, 0 < n → member id n < n
  cursor_lt : ∀ key n, 0 < n → cursor key n < n

structure SchedulingLedger where
  members : Nat → Option SchedulingMember
  modelCursors : GroupModelKey → Option (List String)
  groups : Nat → Bool
  groupPriorities : Nat → Option Int
  groupRevision : Nat
  groupsKnown : Bool
  started : Bool
  watermark : SchedulingProgress
  sequence : UInt64
  lastMember : Nat
  consecutive : Nat
  jitter : Option Jitter

variable (d : SchedulingLedger) (view : CredentialRuntimeView)

namespace SchedulingLedger

def setMember (id : Nat) (m : SchedulingMember) : SchedulingLedger :=
  { d with members := Function.update d.members id (some m) }

/-- The random start of a member that was there before the first allocation.
The carry into `Whole` is not checked for overflow. -/
def stagger (member : SchedulingMember) (weight : Nat) : SchedulingMember :=
  match d.jitter with
  | none => member
  | some jitter =>
    if member.staggered ∨ member.pending ∨ weight = 0 then member
    else
      let step : UInt64 := if 1 < weight then SchedulingProgress.div64 weight else (-1)
      let (fraction, carry) :=
        SchedulingProgress.add64 member.progress.fraction (jitter.member member.id step) 0
      { member with
        progress := ⟨member.progress.whole + carry, fraction⟩
        staggered := true }

def new (jitter : Option Jitter) : SchedulingLedger where
  members _ := none
  modelCursors _ := none
  groups _ := false
  groupPriorities _ := none
  groupRevision := 0
  groupsKnown := false
  started := false
  watermark := ⟨0, 0⟩
  sequence := 0
  lastMember := 0
  consecutive := 0
  jitter := jitter

def forgetStreak (id : Nat) : SchedulingLedger :=
  if d.lastMember = id then { d with lastMember := 0, consecutive := 0 } else d

def newMember : SchedulingMember where
  id := view.id
  groupID := view.groupID
  identityGeneration := view.identityGeneration
  progress := ⟨0, 0⟩
  lastSelected := 0
  pending := d.started || (d.groupsKnown && !d.groups view.groupID)
  suspended := false
  staggered := false
  cooldownUntil := zeroTime

def authUnavailable : Bool :=
  view.authState != .ready && view.authState != .unset && view.authState != .refreshing

def viewSuspended (clock : Time) : Bool :=
  view.status != .active || view.blacklisted || authUnavailable view ||
    (match view.weightManual with
      | none => false
      | some weight => decide (weight ≤ 0)) ||
    after view.cooldownUntil clock

def markSuspension (m : SchedulingMember) (view : CredentialRuntimeView) (clock : Time) :
    SchedulingMember :=
  let suspended := viewSuspended view clock
  { m with
    pending := m.pending || suspended || m.suspended ||
      (!isZero view.cooldownUntil && view.cooldownUntil != m.cooldownUntil)
    suspended := suspended
    cooldownUntil := view.cooldownUntil }

def syncCredentialLocked (clock : Time) :
    SchedulingLedger :=
  match d.members view.id with
  | some m =>
    if m.groupID = view.groupID ∧ m.identityGeneration = view.identityGeneration then
      d.setMember view.id (markSuspension m view clock)
    else
      (d.setMember view.id (markSuspension (d.newMember view) view clock)).forgetStreak view.id
  | none =>
    (d.setMember view.id (markSuspension (d.newMember view) view clock)).forgetStreak view.id

def removeLocked (id : Nat) : SchedulingLedger :=
  { d with members := Function.update d.members id none }.forgetStreak id

/-- Aligns the member set; group zero stands for a full replacement. The loop
over `d.Members` removes each member of the group that no view names. -/
def syncCredentials (groupID : Nat) (views : List CredentialRuntimeView) (clock : Time) :
    SchedulingLedger :=
  let d := views.foldl (fun d view => d.syncCredentialLocked view clock) d
  let stale := fun id => match d.members id with
    | none => false
    | some m => (groupID == 0 || m.groupID == groupID) && !(views.any fun view => view.id == id)
  let d' := { d with members := fun id => if stale id then none else d.members id }
  if stale d.lastMember then { d' with lastMember := 0, consecutive := 0 } else d'

end SchedulingLedger

end EchoJoyGateway.State
