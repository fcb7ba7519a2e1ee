import EchoJoyGateway.Health.Steps
import EchoJoyGateway.State.Consistency

/-!
# The script against the registry

Without Redis a health call is a method of the local registry, or two. It has
the same effect on the health of the entry as the script has on the record.
-/

namespace EchoJoyGateway.Health

open Buckets Clock Decimal LuaNumber Redis State

open CredentialRegistry (Edit SharedCredentialHealth nextCount nextGeneration pruneModelCooldowns)

structure LocalResult where
  accepted : Bool
  changed : Option Bool
  becameBlacklisted : Bool
  deriving DecidableEq

def restoreModelsLocally (r : CredentialRegistry) (clock : Time) (id : Nat)
    (modelCooldowns accepted : Bool) : LocalResult × CredentialRegistry :=
  if modelCooldowns then
    match r.clearModelCooldowns clock id with
    | (cleared, r) => (⟨accepted && cleared, none, false⟩, r)
  else (⟨accepted, none, false⟩, r)

/-- The same call on the local registry. -/
def HealthCall.locally (clock : Time) (ref : CredentialRef) (r : CredentialRegistry) :
    HealthCall → LocalResult × CredentialRegistry
  | .cooldownCredential deadline =>
    match r.setCooldownWithChange clock ref.id deadline with
    | ((accepted, changed), r) => (⟨accepted, some changed, false⟩, r)
  | .recordFailure threshold =>
    match r.incrFailure clock ref.id with
    | ((count, accepted), r) =>
      if accepted = true ∧ 0 < threshold ∧ threshold ≤ count then
        match r.setBlacklistedWithChange clock ref.id with
        | ((found, became), r) => (⟨found, none, became⟩, r)
      else (⟨accepted, none, false⟩, r)
  | .clearFailure =>
    match r.clearFailure clock ref.id with
    | (accepted, r) => (⟨accepted, none, false⟩, r)
  | .cooldownModel model deadline now =>
    match r.setModelCooldown clock ref model deadline now with
    | ((accepted, changed), r) => (⟨accepted, some changed, false⟩, r)
  | .restore runtime modelCooldowns =>
    if runtime then
      match r.restoreRuntimeState clock ref.id with
      | (accepted, r) => restoreModelsLocally r clock ref.id modelCooldowns accepted
    else restoreModelsLocally r clock ref.id modelCooldowns true
  | .recoverIfMatch cooldownUntil =>
    match r.restoreRuntimeStateIfMatch clock ref cooldownUntil with
    | (accepted, r) => (⟨accepted, none, false⟩, r)
  | .clearCooldownIfMatch expected =>
    match r.clearCooldownIfMatch clock ref.id expected with
    | (accepted, r) => (⟨accepted, none, false⟩, r)

/-- The shared answer gives every flag that the local one gives. -/
def SharedHealthResult.Covers (shared : SharedHealthResult) (result : LocalResult) : Prop :=
  shared.accepted = result.accepted ∧ (∀ changed ∈ result.changed, shared.changed = changed) ∧
    shared.becameBlacklisted = result.becameBlacklisted

structure Holds (r : CredentialRegistry) (id : Nat) (entry : CredentialEntry) : Prop where
  group : r.credentialGroups id = some entry.groupID
  found : find r.buckets entry.groupID id = some entry

structure Mirrors (entry : CredentialEntry) (s : HealthState) : Prop where
  cooldown : entry.cooldownUntil = parseHealthMS s.cooldown
  blacklisted : entry.blacklisted = s.blacklisted
  failures : entry.failureCount = s.failures
  failureGeneration : entry.failureGeneration = s.failureGeneration
  modelGeneration : entry.modelCooldownGeneration = s.modelGeneration
  models : entry.modelCooldowns = fun name => (s.models name).map fun n : Nat => parseHealthMS n

structure Agrees (health : SharedCredentialHealth) (entry : CredentialEntry) : Prop where
  cooldown : health.cooldownUntil = entry.cooldownUntil
  blacklisted : health.blacklisted = entry.blacklisted
  failures : health.failureCount = entry.failureCount
  failureGeneration : health.failureGeneration = entry.failureGeneration
  modelGeneration : health.modelCooldownGeneration = entry.modelCooldownGeneration
  models : health.modelCooldowns = entry.modelCooldowns

variable {entry : CredentialEntry}

theorem Describes.agrees_iff {health : SharedCredentialHealth} {s : HealthState}
    (h : Describes health s) :
    Agrees health entry ↔ Mirrors entry s := by
  constructor
  · intro hagree
    exact ⟨hagree.cooldown ▸ h.cooldown, hagree.blacklisted ▸ h.blacklisted,
      hagree.failures ▸ h.failures, hagree.failureGeneration ▸ h.failureGeneration,
      hagree.modelGeneration ▸ h.modelGeneration, hagree.models ▸ h.models⟩
  · intro hmirror
    exact ⟨h.cooldown.trans hmirror.cooldown.symm, h.blacklisted.trans hmirror.blacklisted.symm,
      h.failures.trans hmirror.failures.symm,
      h.failureGeneration.trans hmirror.failureGeneration.symm,
      h.modelGeneration.trans hmirror.modelGeneration.symm, h.models.trans hmirror.models.symm⟩

variable {r : CredentialRegistry}

theorem Holds.entryLocked {id : Nat} (h : Holds r id entry) : r.entryLocked id = some entry := by
  unfold CredentialRegistry.entryLocked
  rw [h.group]
  exact h.found

theorem Holds.withEntry {id : Nat} (h : Holds r id entry) (clock : Time) {α : Type}
    {missing value : α} {body : CredentialEntry → α × Edit} (edit : Edit)
    (hbody : body entry = (value, edit)) (hgroup : (edit.result entry).groupID = entry.groupID) :
    ∃ r', r.withEntry clock id missing body = (value, r') ∧ Holds r' id (edit.result entry) := by
  refine ⟨r.edit clock entry.groupID id edit, ?_, ?_⟩
  · unfold CredentialRegistry.withEntry
    rw [h.group]
    simp only [h.found, hbody]
  · cases edit with
    | keep => exact h
    | write next | sync next =>
      exact ⟨hgroup ▸ h.group, hgroup ▸ find_put.trans (if_pos ⟨rfl, rfl⟩)⟩

/-- The registry has answered and holds an entry with the health of the state. -/
def Settles (id : Nat) (outcome : LocalResult × CredentialRegistry)
    (answer : SharedHealthResult × HealthState) : Prop :=
  ∃ entry, Holds outcome.2 id entry ∧ Mirrors entry answer.2 ∧ answer.1.Covers outcome.1

theorem SharedHealthResult.covers_self (accepted changed became : Bool) :
    SharedHealthResult.Covers ⟨accepted, changed, became⟩ ⟨accepted, some changed, became⟩ :=
  ⟨rfl, fun _ h => Option.some.inj h, rfl⟩

theorem SharedHealthResult.covers_none (accepted changed became : Bool) :
    SharedHealthResult.Covers ⟨accepted, changed, became⟩ ⟨accepted, none, became⟩ :=
  ⟨rfl, fun _ h => absurd h (Option.not_mem_none _), rfl⟩

section Local

variable {r : CredentialRegistry} {ref : CredentialRef} {entry : CredentialEntry}
  {s : HealthState} (hholds : Holds r ref.id entry) (hmirror : Mirrors entry s)
  (hrange : s.InRange) (clock : Time)

theorem nextGeneration_of_lt {n : Nat} (h : n + 1 < 2 ^ 64) : nextGeneration n = n + 1 :=
  Nat.mod_eq_of_lt h

theorem nextCount_of_lt {n : Nat} (h : n + 1 < 2 ^ 63) : nextCount (n : Int) = (n + 1 : Nat) := by
  unfold nextCount
  rw [Int.bmod_eq_of_le (by omega) (by omega)]
  rfl

include hholds hmirror

open SharedHealthResult (covers_none covers_self)

open HealthCall (clearCooldownIfMatch clearFailure cooldownCredential cooldownModel effect locally
  recoverIfMatch restore)

theorem locally_cooldownCredential {deadline : Time} (hdeadline : IsDeadline deadline) :
    Settles ref.id ((cooldownCredential deadline).locally clock ref r)
      ((cooldownCredential deadline).effect (credentialMatchesRef r ref) ref s) := by
  have hafter : after deadline entry.cooldownUntil = decide (s.cooldown < deadlineMS deadline) := by
    rw [hmirror.cooldown, ← after_parseHealthMS, hdeadline.parse]
  unfold locally effect HealthState.coolUntil
  rcases Nat.lt_or_ge s.cooldown (deadlineMS deadline) with hlt | hge
  · obtain ⟨r', hrun, hholds'⟩ : ∃ r', r.setCooldownWithChange clock ref.id deadline =
        ((true, true), r') ∧ Holds r' ref.id _ :=
      hholds.withEntry clock (.sync _) (if_pos (by rw [hafter]; exact decide_eq_true hlt)) rfl
    simp only [hrun, decide_eq_true hlt, Nat.max_eq_right hlt.le]
    exact ⟨_, hholds', { hmirror with cooldown := hdeadline.parse.symm },
      covers_self true true false⟩
  · have hle : ¬ s.cooldown < deadlineMS deadline := Nat.not_lt.mpr hge
    obtain ⟨r', hrun, hholds'⟩ : ∃ r', r.setCooldownWithChange clock ref.id deadline =
        ((true, false), r') ∧ Holds r' ref.id entry :=
      hholds.withEntry clock .keep (if_neg (by rw [hafter]; simpa using hge)) rfl
    simp only [hrun, decide_eq_false hle, Nat.max_eq_left hge]
    exact ⟨_, hholds', hmirror, covers_self true false false⟩

omit hholds in
theorem Mirrors.cooldown_iff {expected : Time} (hdeadline : IsDeadline expected) :
    entry.cooldownUntil = expected ↔ s.cooldown = deadlineMS expected := by
  rw [hmirror.cooldown, ← parseHealthMS_inj, hdeadline.parse]

theorem locally_clearCooldownIfMatch {expected : Time} (hdeadline : IsDeadline expected) :
    Settles ref.id ((clearCooldownIfMatch expected).locally clock ref r)
      ((clearCooldownIfMatch expected).effect (credentialMatchesRef r ref) ref s) := by
  have hcooldown := hmirror.cooldown_iff hdeadline
  simp only [locally, effect]
  cases hzero : isZero expected with
  | true =>
    have hrun : r.clearCooldownIfMatch clock ref.id expected = (false, r) := if_pos hzero
    rw [hrun]
    exact ⟨entry, hholds, hmirror, covers_none false false false⟩
  | false =>
    have hwith : ∀ {accepted : Bool} (edit : Edit),
        (if entry.cooldownUntil ≠ expected then (false, .keep)
          else (true, .sync { entry with cooldownUntil := zeroTime })) = (accepted, edit) →
        (edit.result entry).groupID = entry.groupID →
        ∃ r', r.clearCooldownIfMatch clock ref.id expected = (accepted, r') ∧
          Holds r' ref.id (edit.result entry) := by
      intro accepted edit hbody hgroup
      rw [CredentialRegistry.clearCooldownIfMatch, hzero]
      exact hholds.withEntry clock edit hbody hgroup
    rcases eq_or_ne s.cooldown (deadlineMS expected) with heq | hne
    · obtain ⟨r', hrun, hholds'⟩ := hwith _ (if_neg (not_not.mpr (hcooldown.mpr heq))) rfl
      rw [hrun, if_neg (not_not.mpr heq)]
      exact ⟨_, hholds', { hmirror with cooldown := rfl }, covers_none true true false⟩
    · obtain ⟨r', hrun, hholds'⟩ := hwith _ (if_pos (hcooldown.not.mpr hne)) rfl
      rw [hrun, if_pos hne]
      exact ⟨_, hholds', hmirror, covers_none false false false⟩

omit hholds in
theorem Mirrors.pruned (hnamed : s.models "" = none) (now : Time) :
    pruneModelCooldowns entry.modelCooldowns now =
      fun name => ((s.pruneModels now).models name).map fun n : Nat => parseHealthMS n := by
  funext name
  have hmodel := congrFun hmirror.models name
  change (entry.modelCooldowns name).filter _ = ((s.models name).filter _).map _
  rw [hmodel]
  cases hname : s.models name with
  | none => rfl
  | some n =>
    have hne : name ≠ "" := by
      rintro rfl
      rw [hnamed] at hname
      cases hname
    simp only [Option.map_some, Option.filter, bne_iff_ne.mpr hne, Bool.true_and]
    split <;> rfl

omit hholds in
theorem Mirrors.after_until (hnamed : s.models "" = none) {deadline now : Time}
    (hdeadline : IsDeadline deadline) (model : String) :
    after deadline ((pruneModelCooldowns entry.modelCooldowns now).until model) =
      decide ((s.pruneModels now).modelUntil model < deadlineMS deadline) := by
  rw [hmirror.pruned hnamed, ← after_parseHealthMS, hdeadline.parse]
  change after deadline ((((s.pruneModels now).models model).map _).getD zeroTime) =
    after deadline (parseHealthMS ((((s.pruneModels now).models model).getD 0 : Nat) : Int))
  cases (s.pruneModels now).models model <;> rfl

variable {model : String}

theorem setModelCooldown_pruned (hnamed : s.models "" = none)
    (hidentity : entry.identityGeneration = ref.identityGeneration)
    (hgroup : entry.groupID = ref.groupID)
    (hgeneration : s.modelGeneration = ref.modelCooldownGeneration) {deadline now : Time}
    (hdeadline : IsDeadline deadline)
    (hguard : ¬ (model = "" ∨ trimSpace model ≠ model ∨ after deadline now = false)) :
    ∃ r' entry', r.setModelCooldown clock ref model deadline now =
        ((true, decide ((s.pruneModels now).modelUntil model < deadlineMS deadline)), r') ∧
      Holds r' ref.id entry' ∧
      Mirrors entry' ((s.pruneModels now).extendModel model (deadlineMS deadline)) := by
  have hcurrent : ¬ (entry.groupID ≠ ref.groupID ∨
      entry.identityGeneration ≠ ref.identityGeneration ∨
      entry.modelCooldownGeneration ≠ ref.modelCooldownGeneration) := by
    rw [hmirror.modelGeneration]
    simp [hgroup, hidentity, hgeneration]
  have hafter := @Mirrors.after_until entry s hmirror hnamed deadline now hdeadline model
  have hpruned := hmirror.pruned hnamed now
  unfold HealthState.extendModel
  rcases Nat.lt_or_ge ((s.pruneModels now).modelUntil model) (deadlineMS deadline) with hlt | hge
  · rw [decide_eq_true hlt] at hafter ⊢
    obtain ⟨r', hrun, hholds'⟩ : ∃ r', r.setModelCooldown clock ref model deadline now =
        ((true, true), r') ∧ Holds r' ref.id _ := by
      rw [CredentialRegistry.setModelCooldown, if_neg hguard]
      exact hholds.withEntry clock (.write _) ((if_neg hcurrent).trans (if_pos hafter)) rfl
    refine ⟨r', _, hrun, hholds', ?_⟩
    rw [if_pos hlt]
    refine { hmirror with models := ?_ }
    funext name
    rcases eq_or_ne name model with rfl | hne
    · simp [HealthState.coolModel, Edit.result, hdeadline.parse]
    · simp [HealthState.coolModel, Edit.result, hne, hpruned]
  · have hnot := Nat.not_lt.mpr hge
    rw [decide_eq_false hnot] at hafter ⊢
    obtain ⟨r', hrun, hholds'⟩ : ∃ r', r.setModelCooldown clock ref model deadline now =
        ((true, false), r') ∧ Holds r' ref.id _ := by
      rw [CredentialRegistry.setModelCooldown, if_neg hguard]
      refine hholds.withEntry clock (.write _) ((if_neg hcurrent).trans (if_neg ?_)) rfl
      rw [hafter]
      exact Bool.false_ne_true
    refine ⟨r', _, hrun, hholds', ?_⟩
    rw [if_neg hnot]
    exact { hmirror with models := hpruned }

theorem locally_cooldownModel (hidentity : entry.identityGeneration = ref.identityGeneration)
    (hgroup : entry.groupID = ref.groupID) (hnamed : s.models "" = none) {deadline now : Time}
    (hdeadline : IsDeadline deadline) :
    Settles ref.id ((cooldownModel model deadline now).locally clock ref r)
      ((cooldownModel model deadline now).effect (credentialMatchesRef r ref) ref s) := by
  simp only [locally, effect]
  by_cases hguard : model = "" ∨ trimSpace model ≠ model ∨ after deadline now = false
  · have hrun : r.setModelCooldown clock ref model deadline now = ((false, false), r) :=
      if_pos hguard
    rw [hrun, if_pos hguard]
    exact ⟨entry, hholds, hmirror, covers_self false false false⟩
  · rw [if_neg hguard]
    rcases eq_or_ne s.modelGeneration ref.modelCooldownGeneration with heq | hne
    · obtain ⟨r', entry', hrun, hholds', hmirror'⟩ :=
        setModelCooldown_pruned hholds hmirror clock hnamed hidentity hgroup heq hdeadline hguard
      rw [hrun, if_neg (not_not.mpr heq)]
      exact ⟨entry', hholds', hmirror', covers_self true _ false⟩
    · have hstale : entry.groupID ≠ ref.groupID ∨
          entry.identityGeneration ≠ ref.identityGeneration ∨
          entry.modelCooldownGeneration ≠ ref.modelCooldownGeneration :=
        .inr (.inr (by rw [hmirror.modelGeneration]; exact hne))
      obtain ⟨r', hrun, hholds'⟩ : ∃ r', r.setModelCooldown clock ref model deadline now =
          ((false, false), r') ∧ Holds r' ref.id entry := by
        rw [CredentialRegistry.setModelCooldown, if_neg hguard]
        exact hholds.withEntry clock .keep (if_pos hstale) rfl
      rw [hrun, if_pos hne]
      exact ⟨_, hholds', hmirror, covers_self false false false⟩

include hrange

omit hholds in
theorem Mirrors.nextGeneration_eq :
    nextGeneration entry.failureGeneration = s.failureGeneration + 1 := by
  have hgeneration := hrange.failureGeneration
  rw [hmirror.failureGeneration, nextGeneration_of_lt (by omega)]

theorem locally_clearFailure :
    Settles ref.id (clearFailure.locally clock ref r)
      (clearFailure.effect (credentialMatchesRef r ref) ref s) := by
  have hcount : entry.failureCount = 0 ↔ s.failures = 0 := by
    rw [hmirror.failures]
    exact Int.natCast_eq_zero
  simp only [locally, effect, HealthState.forgetFailures]
  rcases eq_or_ne s.failures 0 with hzero | hne
  · obtain ⟨r', hrun, hholds'⟩ : ∃ r', r.clearFailure clock ref.id = (true, r') ∧
        Holds r' ref.id entry :=
      hholds.withEntry clock .keep (if_neg (not_not.mpr (hcount.mpr hzero))) rfl
    rw [hrun, if_pos hzero]
    exact ⟨_, hholds', hmirror, covers_none true _ false⟩
  · obtain ⟨r', hrun, hholds'⟩ : ∃ r', r.clearFailure clock ref.id = (true, r') ∧
        Holds r' ref.id _ :=
      hholds.withEntry clock (.write _) (if_pos (hcount.not.mpr hne)) rfl
    rw [hrun, if_neg hne]
    exact ⟨_, hholds',
      { hmirror with failures := rfl, failureGeneration := hmirror.nextGeneration_eq hrange },
      covers_none true _ false⟩

theorem locally_recordFailure (threshold : Int) :
    Settles ref.id ((HealthCall.recordFailure threshold).locally clock ref r)
      ((HealthCall.recordFailure threshold).effect (credentialMatchesRef r ref) ref s) := by
  have hgeneration := hrange.failureGeneration
  have hfailures := hrange.failures
  have hcount : nextCount entry.failureCount = ((s.failures + 1 : Nat) : Int) := by
    rw [hmirror.failures, nextCount_of_lt (by omega)]
  obtain ⟨r₁, hcounted, hholds₁⟩ : ∃ r', r.incrFailure clock ref.id =
      ((nextCount entry.failureCount, true), r') ∧ Holds r' ref.id { entry with
        failureCount := nextCount entry.failureCount
        failureGeneration := nextGeneration entry.failureGeneration } :=
    hholds.withEntry clock (.write _) rfl rfl
  have hmirror₁ : Mirrors { entry with
      failureCount := nextCount entry.failureCount
      failureGeneration := nextGeneration entry.failureGeneration } s.fail :=
    { hmirror with failures := hcount, failureGeneration := hmirror.nextGeneration_eq hrange }
  simp only [locally, effect, hcounted, HealthState.recordFailure,
    HealthState.reaches, hcount, true_and]
  by_cases hreach : 0 < threshold ∧ threshold ≤ ((s.failures + 1 : Nat) : Int)
  · simp only [if_pos hreach, decide_eq_true hreach]
    cases hlisted : s.blacklisted with
    | true =>
      obtain ⟨r₂, hrun, hholds₂⟩ : ∃ r', r₁.setBlacklistedWithChange clock ref.id =
          ((true, false), r') ∧ Holds r' ref.id _ :=
        hholds₁.withEntry clock .keep (if_pos (hmirror.blacklisted.trans hlisted)) rfl
      simp only [hrun]
      exact ⟨_, hholds₂, hmirror₁, covers_none true true false⟩
    | false =>
      have hunlisted : ¬ entry.blacklisted = true := by
        rw [hmirror.blacklisted, hlisted]
        exact Bool.false_ne_true
      obtain ⟨r₂, hrun, hholds₂⟩ : ∃ r', r₁.setBlacklistedWithChange clock ref.id =
          ((true, true), r') ∧ Holds r' ref.id _ :=
        hholds₁.withEntry clock (.sync _) (if_neg hunlisted) rfl
      simp only [hrun]
      refine ⟨_, hholds₂, { hmirror₁ with blacklisted := rfl, failureGeneration := ?_ },
        covers_none true true true⟩
      change nextGeneration (nextGeneration entry.failureGeneration) = s.failureGeneration + 1 + 1
      rw [hmirror.nextGeneration_eq hrange, nextGeneration_of_lt (by omega)]
  · simp only [if_neg hreach, decide_eq_false hreach]
    exact ⟨_, hholds₁, hmirror₁, covers_none true true false⟩

omit hrange in
theorem restoreModelsLocally_settles (hgeneration : s.modelGeneration + 1 < 2 ^ 63)
    (modelCooldowns : Bool) :
    Settles ref.id (restoreModelsLocally r clock ref.id modelCooldowns true)
      (⟨true, true, false⟩, if modelCooldowns then s.clearModels else s) := by
  unfold restoreModelsLocally
  cases modelCooldowns with
  | true =>
    obtain ⟨r', hrun, hholds'⟩ : ∃ r', r.clearModelCooldowns clock ref.id = (true, r') ∧
        Holds r' ref.id _ :=
      hholds.withEntry clock (.write _) rfl rfl
    simp only [hrun]
    refine ⟨_, hholds', { hmirror with models := rfl, modelGeneration := ?_ },
      covers_none true true false⟩
    change nextGeneration entry.modelCooldownGeneration = s.modelGeneration + 1
    rw [hmirror.modelGeneration, nextGeneration_of_lt (by omega)]
  | false => exact ⟨entry, hholds, hmirror, covers_none true true false⟩

theorem locally_restore (runtime modelCooldowns : Bool) :
    Settles ref.id ((restore runtime modelCooldowns).locally clock ref r)
      ((restore runtime modelCooldowns).effect (credentialMatchesRef r ref) ref s) := by
  simp only [locally]
  cases runtime with
  | true =>
    obtain ⟨r', hrun, hholds'⟩ : ∃ r', r.restoreRuntimeState clock ref.id = (true, r') ∧
        Holds r' ref.id _ :=
      hholds.withEntry clock (.sync _) rfl rfl
    simp only [hrun]
    refine restoreModelsLocally_settles (s := s.clearCooldown.recover) hholds' ?_ clock
      hrange.modelGeneration modelCooldowns
    exact { hmirror with
      cooldown := rfl
      blacklisted := rfl
      failures := rfl
      failureGeneration := hmirror.nextGeneration_eq hrange }
  | false =>
    exact restoreModelsLocally_settles hholds hmirror clock hrange.modelGeneration modelCooldowns

omit hholds hrange in
theorem Mirrors.cooledUntil_eq_false {cooldownUntil : Option Time}
    (hdeadline : ∀ deadline ∈ cooldownUntil, IsDeadline deadline) :
    cooldownUntil.any (fun expected => entry.cooldownUntil != expected) = true ↔
      s.cooledUntil cooldownUntil = false := by
  cases cooldownUntil with
  | none => exact iff_of_false Bool.false_ne_true Bool.noConfusion
  | some deadline =>
    change (entry.cooldownUntil != deadline) = true ↔
      decide (s.cooldown = deadlineMS deadline) = false
    rw [bne_iff_ne, decide_eq_false_iff_not, ne_eq, hmirror.cooldown_iff (hdeadline deadline rfl)]

omit hrange in
theorem recovery_refused_iff {cooldownUntil : Option Time}
    (hdeadline : ∀ deadline ∈ cooldownUntil, IsDeadline deadline) :
    (entry.status ≠ .active ∨ entry.blacklisted = false ∨
        sameCredentialIdentity entry ref = false ∨
        entry.failureGeneration ≠ ref.failureGeneration ∨
        cooldownUntil.any (fun expected => entry.cooldownUntil != expected) = true) ↔
      (credentialMatchesRef r ref && s.blacklisted &&
        decide (s.failureGeneration = ref.failureGeneration) &&
        s.cooledUntil cooldownUntil) = false := by
  have hmatches : credentialMatchesRef r ref =
      (entry.status == .active && sameCredentialIdentity entry ref) := by
    unfold credentialMatchesRef
    rw [hholds.entryLocked]
  rw [hmirror.cooledUntil_eq_false hdeadline, hmirror.blacklisted, hmirror.failureGeneration,
    hmatches]
  simp only [Bool.and_eq_false_iff, beq_eq_false_iff_ne, decide_eq_false_iff_not]
  tauto

theorem locally_recoverIfMatch (hgroup : entry.groupID = ref.groupID)
    {cooldownUntil : Option Time}
    (hdeadline : ∀ deadline ∈ cooldownUntil, IsDeadline deadline) :
    Settles ref.id ((recoverIfMatch cooldownUntil).locally clock ref r)
      ((recoverIfMatch cooldownUntil).effect (credentialMatchesRef r ref) ref s) := by
  have hfiled : ¬ r.credentialGroups ref.id ≠ some ref.groupID := by
    rw [hholds.group, hgroup]
    exact fun hne => hne rfl
  have hrefused := recovery_refused_iff hholds hmirror hdeadline
  simp only [locally, effect]
  cases hmatch : credentialMatchesRef r ref && s.blacklisted &&
      decide (s.failureGeneration = ref.failureGeneration) && s.cooledUntil cooldownUntil with
  | false =>
    obtain ⟨r', hrun, hholds'⟩ : ∃ r', r.restoreRuntimeStateIfMatch clock ref cooldownUntil =
        (false, r') ∧ Holds r' ref.id entry := by
      rw [CredentialRegistry.restoreRuntimeStateIfMatch, if_neg hfiled]
      exact hholds.withEntry clock .keep (if_pos (hrefused.mpr hmatch)) rfl
    simp only [hrun]
    exact ⟨_, hholds', hmirror, covers_none false false false⟩
  | true =>
    obtain ⟨r', hrun, hholds'⟩ : ∃ r', r.restoreRuntimeStateIfMatch clock ref cooldownUntil =
        (true, r') ∧ Holds r' ref.id _ := by
      rw [CredentialRegistry.restoreRuntimeStateIfMatch, if_neg hfiled]
      refine hholds.withEntry clock (.sync _) (if_neg fun hor => ?_) rfl
      rw [hrefused.mp hor] at hmatch
      cases hmatch
    simp only [hrun]
    refine ⟨_, hholds', ?_, covers_none true true false⟩
    have hnext := hmirror.nextGeneration_eq hrange
    cases cooldownUntil with
    | none =>
      exact { hmirror with blacklisted := rfl, failures := rfl, failureGeneration := hnext }
    | some deadline =>
      exact { hmirror with
        cooldown := rfl
        blacklisted := rfl
        failures := rfl
        failureGeneration := hnext }

theorem locally_refines (hidentity : entry.identityGeneration = ref.identityGeneration)
    (hgroup : entry.groupID = ref.groupID) {call : HealthCall} (hdeadlines : call.Deadlines) :
    Settles ref.id (call.locally clock ref r) (call.effect (credentialMatchesRef r ref) ref s) := by
  cases call with
  | cooldownCredential deadline =>
    exact locally_cooldownCredential hholds hmirror clock hdeadlines
  | recordFailure threshold => exact locally_recordFailure hholds hmirror hrange clock threshold
  | clearFailure => exact locally_clearFailure hholds hmirror hrange clock
  | cooldownModel model deadline now =>
    exact locally_cooldownModel hholds hmirror clock hidentity hgroup hrange.named hdeadlines
  | restore runtime modelCooldowns =>
    exact locally_restore hholds hmirror hrange clock runtime modelCooldowns
  | recoverIfMatch cooldownUntil =>
    exact locally_recoverIfMatch hholds hmirror hrange clock hgroup hdeadlines
  | clearCooldownIfMatch expected =>
    exact locally_clearCooldownIfMatch hholds hmirror clock hdeadlines

end Local

/-- A record in the texts that the script writes and in the ranges it keeps. -/
def Canonical (h : Hash) : Prop := ∃ s, Encodes h s ∧ s.InRange

/-- The health of a credential with no record. -/
def HealthState.fresh (epoch : Text) (identityGeneration : Nat) : HealthState where
  epoch := epoch
  version := 0
  identityGeneration := identityGeneration
  cooldown := 0
  blacklisted := false
  failures := 0
  failureGeneration := 0
  modelGeneration := 0
  models := fun _ => none

theorem openRecord_fresh (epoch : Text) (identityGeneration : Nat) :
    Encodes (openRecord ∅ (digits identityGeneration) epoch).1
      (.fresh epoch identityGeneration) := by
  intro key
  cases key with
  | model name =>
    have hne : ∀ field, Field.isModel field = false → Field.model name.toList ≠ field := by
      rintro field hfield rfl
      cases hfield
    change ((openRecord ∅ (digits identityGeneration) epoch).1).lookup
      (Field.model name.toList) = none
    simp only [openRecord, AList.lookup_empty]
    rw [AList.lookup_insert_ne (hne Field.mg rfl), AList.lookup_insert_ne (hne Field.fg rfl),
      AList.lookup_insert_ne (hne Field.idg rfl), AList.lookup_insert_ne (hne Field.ver rfl),
      AList.lookup_insert_ne (hne Field.ep rfl), AList.lookup_empty]
  | cd => exact Eq.refl (digits 0)
  | fc => exact Eq.refl (digits 0)
  | asv => exact fun _ h => nomatch h
  | bl => exact iff_of_false (fun h => nomatch h) Bool.false_ne_true
  | _ => rfl

theorem fresh_inRange {epoch : Text} {identityGeneration : Nat} (hepoch : epoch ≠ [])
    (hidentity : identityGeneration < 2 ^ 64) :
    (HealthState.fresh epoch identityGeneration).InRange where
  epoch := hepoch
  version := by norm_num [HealthState.fresh]
  identity := hidentity
  cooldown := Nat.zero_le _
  failures := by norm_num [HealthState.fresh]
  failureGeneration := by norm_num [HealthState.fresh]
  modelGeneration := by norm_num [HealthState.fresh]
  models := fun _ _ h => nomatch h
  named := rfl

/-- The script and the registry methods leave the same health and answer the same
flags, for a record and an entry that agree. -/
theorem script_refines_registry {h : Hash} {health : SharedCredentialHealth}
    {r : CredentialRegistry} {entry : CredentialEntry} {ref : CredentialRef}
    (hrecord : Canonical h) (hdecode : decodeCredentialHealth h = .ok health)
    (hholds : Holds r ref.id entry) (hagrees : Agrees health entry)
    (hshared : health.identityGeneration = ref.identityGeneration)
    (hidentity : entry.identityGeneration = ref.identityGeneration)
    (hgroup : entry.groupID = ref.groupID) {call : HealthCall} (hdeadlines : call.Deadlines)
    (clock : Time) (epoch : Text) :
    ∃ result h' health' entry', call.shared h r ref epoch = (.ok result, h') ∧
      decodeCredentialHealth h' = .ok health' ∧
      Holds (call.locally clock ref r).2 ref.id entry' ∧ Agrees health' entry' ∧
      result.Covers (call.locally clock ref r).1 := by
  obtain ⟨s, henc, hrange⟩ := hrecord
  obtain ⟨health₁, hdecode₁, hdescribes⟩ := henc.decode hrange.readable
  obtain rfl : health₁ = health := Except.ok.inj (hdecode₁.symm.trans hdecode)
  have hmirror := hdescribes.agrees_iff.mp hagrees
  obtain ⟨h', version, hrun, henc', hversion⟩ :=
    shared_refines henc hrange (hdescribes.identity.symm.trans hshared) r epoch hdeadlines
  obtain ⟨entry', hholds', hmirror', hcovers⟩ :=
    locally_refines hholds hmirror hrange clock hidentity hgroup hdeadlines
  have hreadable := hrange.readable_effect (credentialMatchesRef r ref) ref hdeadlines
  obtain ⟨health', hdecode', hdescribes'⟩ := henc'.decode
    { hreadable with version := hversion.trans (by norm_num) }
  refine ⟨_, h', health', entry', hrun, hdecode', hholds', ?_, hcovers⟩
  have hdescribed : Describes health' (call.effect (credentialMatchesRef r ref) ref s).2 :=
    { hdescribes' with }
  exact hdescribed.agrees_iff.mpr hmirror'

/-- A credential that has had no health call yet. -/
def idleEntry : CredentialEntry where
  name := "main"
  id := 7
  groupID := 3
  version := 1
  identityGeneration := 5
  fingerprint := "f"
  weightManual := none
  concurrencyLimit := 0
  status := .active
  authState := .ready
  cooldownUntil := zeroTime
  modelCooldowns := fun _ => none
  modelCooldownGeneration := 0
  blacklisted := false
  failureCount := 0
  failureGeneration := 0
  encryptedValue := "v"
  encryptedProxy := ""
  proxyFingerprint := ""
  quotaRemaining := none
  quotaResetAt := zeroTime
  sharedEpoch := ""
  sharedVersion := 0

def idleRef : CredentialRef where
  name := "main"
  id := 7
  groupID := 3
  version := 1
  identityGeneration := 5
  fingerprint := "f"
  encryptedValue := "v"
  encryptedProxy := ""
  proxyFingerprint := ""
  failureGeneration := 0
  modelCooldownGeneration := 0
  concurrencyLimit := 0

def idleRegistry : CredentialRegistry where
  scheduling := SchedulingLedger.new none
  buckets := put ∅ 3 7 idleEntry
  credentialGroups := Function.update (fun _ => none) 7 (some 3)

def idleRecord : Hash := (openRecord ∅ (digits 5) "e".toList).1

theorem idleRecord_encodes : Encodes idleRecord (.fresh "e".toList 5) :=
  openRecord_fresh "e".toList 5

theorem idle_inRange : (HealthState.fresh "e".toList 5).InRange :=
  fresh_inRange (by decide) (by norm_num)

theorem idleRegistry_holds : Holds idleRegistry 7 idleEntry :=
  ⟨rfl, find_put.trans (if_pos ⟨rfl, rfl⟩)⟩

theorem idleEntry_mirrors : Mirrors idleEntry (.fresh "e".toList 5) :=
  ⟨rfl, rfl, rfl, rfl, rfl, rfl⟩

theorem idleRecord_agrees :
    ∃ health, decodeCredentialHealth idleRecord = .ok health ∧ health.identityGeneration = 5 ∧
      Agrees health idleEntry := by
  obtain ⟨health, hdecode, hdescribes⟩ := idleRecord_encodes.decode idle_inRange.readable
  exact ⟨health, hdecode, hdescribes.identity, hdescribes.agrees_iff.mpr idleEntry_mirrors⟩

/-- The first failure at threshold one blacklists on both sides. -/
theorem script_refines_registry_first_failure :
    ((HealthCall.recordFailure 1).locally 0 idleRef idleRegistry).1 = ⟨true, none, true⟩ ∧
    ∃ result h' health' entry',
      (HealthCall.recordFailure 1).shared idleRecord idleRegistry idleRef [] =
        (.ok result, h') ∧
      decodeCredentialHealth h' = .ok health' ∧
      Holds ((HealthCall.recordFailure 1).locally 0 idleRef idleRegistry).2 7 entry' ∧
      Agrees health' entry' ∧
      result.Covers ((HealthCall.recordFailure 1).locally 0 idleRef idleRegistry).1 := by
  obtain ⟨health, hdecode, hidentity, hagrees⟩ := idleRecord_agrees
  have hdeadlines : (HealthCall.recordFailure 1).Deadlines := trivial
  exact ⟨rfl, script_refines_registry ⟨_, idleRecord_encodes, idle_inRange⟩ hdecode
    idleRegistry_holds hagrees hidentity rfl rfl hdeadlines 0 []⟩

/-- A deadline in the last millisecond before the Unix epoch extends the cooldown of
the entry and not that of the record. -/
theorem cooldown_before_epoch :
    (∃ health, decodeCredentialHealth idleRecord = .ok health ∧ health.identityGeneration = 5 ∧
        Agrees health idleEntry) ∧
      Holds idleRegistry idleRef.id idleEntry ∧
      ((HealthCall.cooldownCredential (ofUnixMilli (-1))).shared idleRecord idleRegistry idleRef
        []).1 = .ok ⟨true, false, false⟩ ∧
      ((HealthCall.cooldownCredential (ofUnixMilli (-1))).locally 0 idleRef idleRegistry).1 =
        ⟨true, some true, false⟩ :=
  ⟨idleRecord_agrees, idleRegistry_holds, by decide, rfl⟩

end EchoJoyGateway.Health
