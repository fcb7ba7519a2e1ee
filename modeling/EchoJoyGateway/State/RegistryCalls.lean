import EchoJoyGateway.State.Consistency

/-!
# Runs of the registry

Any sequence of calls, from the empty registry, keeps the buckets, the index of
groups and the ledger in step; a call that fails or reports a rejection changes
nothing.
-/

namespace EchoJoyGateway.State

open Clock Buckets CredentialRegistry Option

variable {r : CredentialRegistry} {f : Nat → Option CredentialEntry}

inductive RegistryCall where
  | replaceCredentials (entries : List CredentialEntry)
  | applyCredentialImport (groupID : Nat) (entries : List CredentialEntry)
  | restoreGroupCredentialEntriesExact (groupID : Nat) (entries : List CredentialEntry)
  | reconcileGroup (groupID : Nat) (entries : List CredentialEntry)
  | removeCredential (id : Nat)
  | removeGroupCredentials (groupID : Nat) (ids : List Nat)
  | removeGroup (groupID : Nat)
  | updateGroupCredentialStatuses (groupID : Nat) (ids : List Nat) (status : CredentialStatus)
  | updateCredentialName (groupID id : Nat) (name : String)
  | setCredentialStatus (id : Nat) (status : CredentialStatus)
  | updateCredentialConfig (id : Nat) (status : CredentialStatus) (weightManual : Option Int)
  | replaceCredentialSecretIfMatch (id expectedVersion nextVersion : Nat)
      (fingerprint encryptedValue : String)
  | setCredentialAuthState (id : Nat) (authState : CredentialAuthState)
  | clearCooldownIfMatch (id : Nat) (expected : Time)
  | setCooldownWithChange (id : Nat) (deadline : Time)
  | setCooldownWithChangeIfVersion (id expectedVersion : Nat) (deadline : Time)
  | setBlacklistedWithChange (id : Nat)
  | restoreRuntimeState (id : Nat)
  | incrFailure (id : Nat)
  | clearFailure (id : Nat)
  | recover (id : Nat)
  | restoreRuntimeStateIfMatch (ref : CredentialRef) (cooldownUntil : Option Time)
  | setModelCooldown (ref : CredentialRef) (model : String) (deadline now : Time)
  | readModelCooldowns (id : Nat) (now : Time)
  | clearModelCooldowns (id : Nat)
  | expireModelCooldowns (now : Time)
  | applySharedHealth (id : Nat) (health : SharedCredentialHealth)

inductive Reply where
  | failed (message : String)
  | done
  | accepted (ok : Bool)
  | changed (ok change : Bool)
  | counted (count : Int) (ok : Bool)
  | cooldowns (limits : Option ModelCooldowns)

/-- An error, or a report that the call was rejected. -/
def Reply.refused : Reply → Bool
  | .failed _ => true
  | .done => false
  | .accepted ok => !ok
  | .changed ok _ => !ok
  | .counted _ ok => !ok
  | .cooldowns limits => limits.isNone

def Reply.ofExcept : Except String Unit → Reply
  | .error message => .failed message
  | .ok () => .done

def Reply.ofReconciliation : Except String Bool → Reply
  | .error message => .failed message
  | .ok change => .accepted change

def Reply.ofPair (answer : Bool × Bool) : Reply := .changed answer.1 answer.2

def Reply.ofCount (answer : Int × Bool) : Reply := .counted answer.1 answer.2

def RegistryCall.apply (r : CredentialRegistry) (clock : Time) :
    RegistryCall → Reply × CredentialRegistry
  | .replaceCredentials entries => (r.replaceCredentials clock entries).map .ofExcept id
  | .applyCredentialImport groupID entries =>
    (r.applyCredentialImport clock groupID entries).map .ofExcept id
  | .restoreGroupCredentialEntriesExact groupID entries =>
    (r.restoreGroupCredentialEntriesExact clock groupID entries).map .ofExcept id
  | .reconcileGroup groupID entries =>
    (r.reconcileGroup clock groupID entries).map .ofReconciliation id
  | .removeCredential id => (r.removeCredential id).map .accepted fun r => r
  | .removeGroupCredentials groupID ids => (r.removeGroupCredentials groupID ids).map .ofExcept id
  | .removeGroup groupID => (r.removeGroup groupID).map .accepted id
  | .updateGroupCredentialStatuses groupID ids status =>
    (r.updateGroupCredentialStatuses clock groupID ids status).map .ofExcept id
  | .updateCredentialName groupID id name =>
    (r.updateCredentialName clock groupID id name).map .accepted fun r => r
  | .setCredentialStatus id status =>
    (r.setCredentialStatus clock id status).map .ofExcept fun r => r
  | .updateCredentialConfig id status weightManual =>
    (r.updateCredentialConfig clock id status weightManual).map .ofExcept fun r => r
  | .replaceCredentialSecretIfMatch id expected next fingerprint encryptedValue =>
    (r.replaceCredentialSecretIfMatch clock id expected next fingerprint encryptedValue).map
      .accepted fun r => r
  | .setCredentialAuthState id authState =>
    (r.setCredentialAuthState clock id authState).map .accepted fun r => r
  | .clearCooldownIfMatch id expected =>
    (r.clearCooldownIfMatch clock id expected).map .accepted fun r => r
  | .setCooldownWithChange id deadline =>
    (r.setCooldownWithChange clock id deadline).map .ofPair fun r => r
  | .setCooldownWithChangeIfVersion id version deadline =>
    (r.setCooldownWithChangeIfVersion clock id version deadline).map .ofPair fun r => r
  | .setBlacklistedWithChange id =>
    (r.setBlacklistedWithChange clock id).map .ofPair fun r => r
  | .restoreRuntimeState id => (r.restoreRuntimeState clock id).map .accepted fun r => r
  | .incrFailure id => (r.incrFailure clock id).map .ofCount fun r => r
  | .clearFailure id => (r.clearFailure clock id).map .accepted fun r => r
  | .recover id => (r.recover clock id).map .accepted fun r => r
  | .restoreRuntimeStateIfMatch ref cooldownUntil =>
    (r.restoreRuntimeStateIfMatch clock ref cooldownUntil).map .accepted id
  | .setModelCooldown ref model deadline now =>
    (r.setModelCooldown clock ref model deadline now).map .ofPair id
  | .readModelCooldowns id now => (r.readModelCooldowns clock id now).map .cooldowns fun r => r
  | .clearModelCooldowns id => (r.clearModelCooldowns clock id).map .accepted fun r => r
  | .expireModelCooldowns now => (.done, r.expireModelCooldowns now)
  | .applySharedHealth id health =>
    (r.applySharedHealth clock id health).map .accepted fun r => r

/-- The call keeps the three structures views of one map, and leaves the registry
as it is if it is refused. -/
structure Sound {α : Type} (say : α → Reply) (r : CredentialRegistry)
    (result : α × CredentialRegistry) : Prop where
  represents : ∀ f, Represents r f → ∃ f', Represents result.2 f'
  unchanged : (say result.1).refused = true → result.2 = r

/-- The decision of a mutator of one entry: it keeps the identity, and it does
nothing if it refuses. -/
structure Honest {α : Type} (say : α → Reply) (entry : CredentialEntry) (decision : α × Edit) :
    Prop where
  keeps : decision.2.Keeps entry
  refusal : (say decision.1).refused = true → decision.2 = .keep

section Sound

variable {α : Type} {say : α → Reply} {r : CredentialRegistry}

theorem Sound.same (answer : α) : Sound say r (answer, r) where
  represents f h := ⟨f, h⟩
  unchanged _ := rfl

variable {result : α × CredentialRegistry}

theorem Sound.accepted (hsay : (say result.1).refused = false)
    (h : ∀ f, Represents r f → ∃ f', Represents result.2 f') : Sound say r result where
  represents := h
  unchanged hrefused := by
    rw [hsay] at hrefused
    cases hrefused

theorem Sound.map (h : Sound say r result) : Sound id r (result.map say id) where
  represents := h.represents
  unchanged := h.unchanged

variable {entry : CredentialEntry}

theorem Honest.keep (answer : α) : Honest say entry (answer, .keep) where
  keeps := rfl
  refusal _ := rfl

variable {answer : α}

theorem Honest.accepted {edit : Edit} (hsay : (say answer).refused = false)
    (hkeeps : edit.Keeps entry) :
    Honest say entry (answer, edit) where
  keeps := hkeeps
  refusal hrefused := by
    rw [hsay] at hrefused
    cases hrefused

theorem Sound.guard {c : Prop} [Decidable c] (h : Sound say r result) :
    Sound say r (if c then (answer, r) else result) := by
  split
  · exact .same answer
  · exact h

theorem Honest.ite {c : Prop} [Decidable c] {first second : α × Edit}
    (hfirst : Honest say entry first) (hsecond : Honest say entry second) :
    Honest say entry (if c then first else second) := by
  split
  · exact hfirst
  · exact hsecond

theorem Sound.withEntry (clock : Time) (id : Nat) (missing : α)
    {body : CredentialEntry → α × Edit} (hbody : ∀ entry, Honest say entry (body entry)) :
    Sound say r (r.withEntry clock id missing body) where
  represents f h := ⟨_, h.withEntry clock id missing fun entry => (hbody entry).keeps⟩
  unchanged hrefused := by
    unfold CredentialRegistry.withEntry at hrefused ⊢
    cases hgroup : r.credentialGroups id with
    | none => rfl
    | some groupID =>
      cases hentry : find r.buckets groupID id with
      | none => simp only [hentry]
      | some entry =>
        simp only [hgroup, hentry] at hrefused ⊢
        rw [(hbody entry).refusal hrefused]
        rfl

end Sound

theorem mirrorHealth_identity (entry : CredentialEntry) (health : SharedCredentialHealth) :
    (mirrorHealth entry health).identity = entry.identity := by
  unfold mirrorHealth
  split <;> rfl

theorem Represents.foldl {α : Type} {step : CredentialRegistry → α → CredentialRegistry}
    (hstep : ∀ {r f}, Represents r f → ∀ x, ∃ f', Represents (step r x) f') (xs : List α)
    (h : Represents r f) : ∃ f', Represents (xs.foldl step r) f' := by
  induction xs generalizing r f with
  | nil => exact ⟨f, h⟩
  | cons x rest ih =>
    obtain ⟨f', h'⟩ := hstep h x
    exact ih h'

theorem Represents.pruneEntry (h : Represents r f) (now : Time) (place : Nat × Nat) :
    ∃ f', Represents (.pruneEntry now r place) f' := by
  unfold CredentialRegistry.pruneEntry
  split
  · exact ⟨f, h⟩
  · rename_i entry hfind
    obtain ⟨hentry, hgroup⟩ := h.filed.find_iff.mp hfind
    have hid := h.filed.ids _ _ hentry
    rw [← hid, ← hgroup]
    exact ⟨_, h.write (hid ▸ hentry) rfl⟩

theorem Represents.importEntries (clock : Time) (h : Represents r f) {groupID : Nat}
    {entries : List CredentialEntry} (hadmissible : r.Admissible groupID entries)
    {next : CredentialRegistry → CredentialEntry → CredentialEntry}
    (hnext : ∀ r entry, (next r entry).identity = entry.identity) :
    ∃ f', Represents
      (entries.foldl (fun r entry => r.place clock groupID (next r entry)) r) f' := by
  refine h.placeAll clock (fun r entry => ?_) hadmissible.group fun entry hmem old hold => ?_
  · exact ⟨congrArg Prod.fst (hnext r entry), congrArg (fun x : Identity => x.2.1) (hnext r entry)⟩
  · exact hadmissible.owner entry hmem _ (h.filed.group_of_some hold)

namespace CredentialRegistry

variable (r : CredentialRegistry) (clock : Time)

variable (id : Nat) (groupID : Nat) (entries : List CredentialEntry)

theorem replaceCredentials_sound : Sound .ofExcept r (r.replaceCredentials clock entries) := by
  cases hvalid : validateCredentialEntries entries with
  | error message =>
    have hsame : r.replaceCredentials clock entries = (.error message, r) := by
      simp only [replaceCredentials, hvalid]
    rw [hsame]
    exact .same _
  | ok _ =>
    refine .accepted ?_ fun f h => h.replaceCredentials clock hvalid
    simp only [replaceCredentials, hvalid]
    rfl

theorem applyCredentialImport_sound :
    Sound .ofExcept r (r.applyCredentialImport clock groupID entries) := by
  unfold applyCredentialImport
  split
  · exact .same _
  · split
    · exact .same _
    · rename_i hchecked
      exact .accepted rfl fun f h => h.importEntries clock (admissible_of_checkEntries hchecked)
        fun r entry => preserveSharedHealth_identity _ _

theorem restoreGroupCredentialEntriesExact_sound :
    Sound .ofExcept r (r.restoreGroupCredentialEntriesExact clock groupID entries) := by
  unfold restoreGroupCredentialEntriesExact
  split
  · exact .same _
  · split
    · exact .same _
    · split
      · exact .same _
      · rename_i hchecked
        exact .accepted rfl fun f h => h.importEntries clock
          (admissible_of_checkEntries hchecked) fun _ _ => rfl

theorem reconcileGroup_sound :
    Sound .ofReconciliation r (r.reconcileGroup clock groupID entries) where
  represents f h := h.reconcileGroup clock groupID entries
  unchanged := by
    unfold reconcileGroup
    split
    · exact fun _ => rfl
    · split
      · exact fun _ => rfl
      · split
        · exact fun _ => rfl
        · intro hrefused
          cases hrefused

theorem removeCredential_sound : Sound .accepted r (r.removeCredential id) := by
  cases hg : r.credentialGroups id with
  | none =>
    have hsame : r.removeCredential id = (false, r) := by simp only [removeCredential, hg]
    rw [hsame]
    exact .same _
  | some g =>
    refine .accepted ?_ fun f h => ⟨_, h.remove hg⟩
    simp only [removeCredential, hg]
    rfl

theorem removeGroupCredentials_sound (ids : List Nat) :
    Sound .ofExcept r (r.removeGroupCredentials groupID ids) := by
  unfold removeGroupCredentials
  split
  · exact .same _
  · rename_i hvalid
    have howned := owned_of_validateGroupCredentialIDsLocked hvalid
    refine .accepted rfl fun f h => ?_
    obtain ⟨f', hindexed, hnonempty⟩ := h.toIndexed.removeAll h.nonempty.but
      fun id hid old hold =>
        Option.some.inj ((h.filed.group_of_some hold).symm.trans (howned id hid))
    exact ⟨f', ⟨hindexed.filed.trim, hindexed.members⟩, hnonempty.trim⟩

theorem removeGroup_sound : Sound .accepted r (r.removeGroup groupID) := by
  unfold removeGroup
  split
  · exact .same _
  · split
    · exact .same _
    · rename_i members hmembers
      exact .accepted rfl fun f h => ⟨_, h.removeGroup hmembers⟩

theorem updateGroupCredentialStatuses_sound (ids : List Nat) (status : CredentialStatus) :
    Sound .ofExcept r (r.updateGroupCredentialStatuses clock groupID ids status) := by
  unfold updateGroupCredentialStatuses
  split
  · exact .same _
  · split
    · exact .same _
    · refine .accepted rfl fun f h => Represents.foldl (fun h id => ?_) ids h
      exact ⟨_, h.withEntry clock id () fun _ => rfl⟩

end CredentialRegistry

theorem RegistryCall.sound (r : CredentialRegistry) (clock : Time) (call : RegistryCall) :
    Sound id r (call.apply r clock) := by
  cases call with
  | replaceCredentials entries => exact (r.replaceCredentials_sound clock entries).map
  | applyCredentialImport groupID entries =>
    exact (r.applyCredentialImport_sound clock groupID entries).map
  | restoreGroupCredentialEntriesExact groupID entries =>
    exact (r.restoreGroupCredentialEntriesExact_sound clock groupID entries).map
  | reconcileGroup groupID entries => exact (r.reconcileGroup_sound clock groupID entries).map
  | removeCredential id => exact (r.removeCredential_sound id).map
  | removeGroupCredentials groupID ids => exact (r.removeGroupCredentials_sound groupID ids).map
  | removeGroup groupID => exact (r.removeGroup_sound groupID).map
  | updateGroupCredentialStatuses groupID ids status =>
    exact (r.updateGroupCredentialStatuses_sound clock groupID ids status).map
  | restoreRuntimeState id | incrFailure id | readModelCooldowns id now | clearModelCooldowns id =>
    exact .map (.withEntry clock id _ fun _ => .accepted rfl rfl)
  | updateCredentialName groupID id name | setBlacklistedWithChange id =>
    exact .map (.withEntry clock id _ fun _ => .ite (.keep _) (.accepted rfl rfl))
  | setCooldownWithChange id deadline | clearFailure id =>
    exact .map (.withEntry clock id _ fun _ => .ite (.accepted rfl rfl) (.keep _))
  | recover id =>
    exact .map (.withEntry clock id _ fun _ => .ite (.accepted rfl rfl) (.accepted rfl rfl))
  | setCooldownWithChangeIfVersion id version deadline =>
    exact .map (.withEntry clock id _ fun _ =>
      .ite (.keep _) (.ite (.accepted rfl rfl) (.keep _)))
  | setCredentialStatus id status | setCredentialAuthState id authState =>
    exact .map (.guard (.withEntry clock id _ fun _ => .accepted rfl rfl))
  | updateCredentialConfig id status weightManual =>
    refine .map (.guard ?_)
    split
    · exact .same _
    · exact .withEntry clock id _ fun _ => .accepted rfl rfl
  | replaceCredentialSecretIfMatch id expected next fingerprint encryptedValue
  | clearCooldownIfMatch id expected =>
    exact .map (.guard (.withEntry clock id _ fun _ => .ite (.keep _) (.accepted rfl rfl)))
  | restoreRuntimeStateIfMatch ref cooldownUntil =>
    exact .map (.guard (.withEntry clock ref.id _ fun _ => .ite (.keep _) (.accepted rfl rfl)))
  | setModelCooldown ref model deadline now =>
    exact .map (.guard (.withEntry clock ref.id _ fun _ =>
      .ite (.keep _) (.ite (.accepted rfl rfl) (.accepted rfl rfl))))
  | expireModelCooldowns now =>
    exact .accepted rfl fun f h => Represents.foldl (fun h place => h.pruneEntry now place) _ h
  | applySharedHealth id health =>
    refine .map (.withEntry clock id _ fun entry => ?_)
    split
    · exact .ite (.keep _) (.accepted rfl (mirrorHealth_identity entry (.empty _)))
    · exact .ite (.keep _) (.accepted rfl (mirrorHealth_identity entry health))

def runCalls (jitter : Option Jitter) (calls : List (Time × RegistryCall)) : CredentialRegistry :=
  calls.foldl (fun r call => (call.2.apply r call.1).2) (newCredentialRegistry jitter)

theorem runCalls_represents (jitter : Option Jitter) (calls : List (Time × RegistryCall)) :
    ∃ f, Represents (runCalls jitter calls) f :=
  Represents.foldl (fun h call => (call.2.sound _ call.1).represents _ h) calls
    (represents_new jitter)

/-- The index of groups names exactly the entries of the buckets, no bucket is
empty, and the ledger has exactly one member for each entry. -/
structure CredentialRegistry.Consistent (r : CredentialRegistry) : Prop where
  groups : ∀ id g, r.credentialGroups id = some g ↔
    ∃ entry, find r.buckets g id = some entry ∧ entry.id = id ∧ entry.groupID = g
  entries : ∀ g id entry, find r.buckets g id = some entry → entry.id = id ∧ entry.groupID = g
  nonempty : ∀ g members, r.buckets.lookup g = some members → members.keys ≠ []
  members : ∀ id m, r.scheduling.members id = some m →
    ∃ g entry, find r.buckets g id = some entry ∧ m.id = id ∧ m.groupID = entry.groupID ∧
      m.identityGeneration = entry.identityGeneration
  membership : ∀ g id entry, find r.buckets g id = some entry →
    ∃ m, r.scheduling.members id = some m ∧ m.groupID = entry.groupID ∧
      m.identityGeneration = entry.identityGeneration

theorem Represents.consistent (h : Represents r f) : r.Consistent where
  groups id g := by
    rw [h.filed.groups, map_eq_some_iff]
    constructor
    · rintro ⟨entry, hentry, rfl⟩
      exact ⟨entry, h.filed.find_iff.mpr ⟨hentry, rfl⟩, h.filed.ids id entry hentry, rfl⟩
    · rintro ⟨entry, hfind, -, hgroup⟩
      exact ⟨entry, (h.filed.find_iff.mp hfind).1, hgroup⟩
  entries g id entry hfind := by
    obtain ⟨hentry, hgroup⟩ := h.filed.find_iff.mp hfind
    exact ⟨h.filed.ids id entry hentry, hgroup⟩
  nonempty := h.nonempty
  members id m hm := by
    have hmembers := h.members id
    rw [SchedulingLedger.identities, hm, map_some, eq_comm, map_eq_some_iff] at hmembers
    obtain ⟨entry, hentry, hidentity⟩ := hmembers
    obtain ⟨hid, hgroup, hgeneration⟩ : entry.id = m.id ∧ entry.groupID = m.groupID ∧
        entry.identityGeneration = m.identityGeneration := by
      simpa [CredentialEntry.identity, SchedulingMember.identity] using hidentity
    exact ⟨entry.groupID, entry, h.filed.find_iff.mpr ⟨hentry, rfl⟩,
      hid.symm.trans (h.filed.ids id entry hentry), hgroup.symm, hgeneration.symm⟩
  membership g id entry hfind := by
    obtain ⟨hentry, hgroup⟩ := h.filed.find_iff.mp hfind
    have hmembers := h.members id
    rw [SchedulingLedger.identities, hentry, map_some, map_eq_some_iff] at hmembers
    obtain ⟨m, hm, hidentity⟩ := hmembers
    obtain ⟨-, hgroup', hgeneration⟩ : m.id = entry.id ∧ m.groupID = entry.groupID ∧
        m.identityGeneration = entry.identityGeneration := by
      simpa [CredentialEntry.identity, SchedulingMember.identity] using hidentity
    exact ⟨m, hm, hgroup', hgeneration⟩

/-- After any calls the registry is consistent, and a refused call changes
nothing. -/
theorem runCalls_consistent (jitter : Option Jitter) (calls : List (Time × RegistryCall)) :
    (runCalls jitter calls).Consistent ∧
      ∀ (clock : Time) (call : RegistryCall),
        (call.apply (runCalls jitter calls) clock).1.refused = true →
          (call.apply (runCalls jitter calls) clock).2 = runCalls jitter calls := by
  obtain ⟨f, h⟩ := runCalls_represents jitter calls
  exact ⟨h.consistent, fun clock call => (call.sound _ clock).unchanged⟩

end EchoJoyGateway.State
