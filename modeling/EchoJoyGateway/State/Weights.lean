import EchoJoyGateway.State.Compiled
import EchoJoyGateway.State.RegistryCalls

/-!
# Weights

The compiler refuses groups, and the registry refuses credentials, whose manual weight
is negative. So a weight that is not zero is positive wherever scheduling reads one.
-/

namespace EchoJoyGateway.State

open Clock Buckets CredentialRegistry List

def WeightOK (weight : Option Int) : Prop := 0 ≤ configuredWeight weight

variable {weight : Option Int}

theorem WeightOK.pos (h : WeightOK weight) (hne : weight ≠ some 0) :
    0 < configuredWeight weight := by
  cases weight with
  | none => decide
  | some value =>
    have hle : 0 ≤ value := h
    have hvalue : value ≠ 0 := fun hzero => hne (congrArg some hzero)
    change 0 < value
    omega

theorem weightOK_of_validate {subject : String} (h : validateManualWeight subject weight = .ok ()) :
    WeightOK weight := by
  cases weight with
  | none =>
    change 0 ≤ defaultWeight
    decide
  | some value =>
    unfold validateManualWeight at h
    simp only at h
    split at h
    · cases h
    · change 0 ≤ value
      omega

section Groups

variable {registry : ChannelRegistry} {seen : List Nat}

theorem validateGroup_weight {group : GroupConfig}
    (h : validateGroup registry seen group = .ok ()) : WeightOK group.weightManual := by
  cases hweight : validateManualWeight s!"group {group.id}" group.weightManual with
  | ok _ => exact weightOK_of_validate hweight
  | error message =>
    unfold validateGroup at h
    simp only [hweight] at h
    repeat' split at h
    all_goals cases h

theorem validateGroups_weight {groups : List GroupConfig}
    (h : validateGroups registry seen groups = .ok ()) :
    ∀ group ∈ groups, WeightOK group.weightManual := by
  induction groups generalizing seen with
  | nil => exact nofun
  | cons group rest ih =>
    unfold validateGroups at h
    split at h
    · cases h
    · rename_i hgroup
      intro other hother
      rcases mem_cons.mp hother with rfl | hother
      · exact validateGroup_weight hgroup
      · exact ih h other hother

theorem compile_weight {input : CompileInput} {revision : Nat} {snapshot : ConfigSnapshot}
    (h : compile input revision = .ok snapshot) {id : Nat} {catalog : GroupCatalogView}
    (hcatalog : snapshot.catalogView id = some catalog) : WeightOK catalog.weightManual := by
  obtain ⟨hvalid, hbuilds⟩ := compile_builds h
  obtain ⟨-, hnodup, -⟩ := validateGroups_ok hvalid
  obtain ⟨group, hgroup, -, rfl⟩ := (hbuilds.catalogView_iff hnodup).mp hcatalog
  exact validateGroups_weight hvalid group hgroup

end Groups

section Entries

def CredentialEntry.Weighed (entry : CredentialEntry) : Prop := WeightOK entry.weightManual

theorem weighed_of_valid {entry : CredentialEntry} (h : validateCredentialEntry entry = .ok ()) :
    entry.Weighed := by
  cases hweight : validateManualWeight s!"credential {entry.id}" entry.weightManual with
  | ok _ => exact weightOK_of_validate hweight
  | error message =>
    unfold validateCredentialEntry at h
    simp only [hweight] at h
    repeat' split at h
    all_goals cases h

variable {entries : List CredentialEntry}

theorem weighed_of_validateUnseen {seen : List Nat} (h : validateUnseen seen entries = .ok ()) :
    ∀ entry ∈ entries, entry.Weighed := by
  induction entries generalizing seen with
  | nil => exact fun _ hmem => absurd hmem not_mem_nil
  | cons entry rest ih =>
    unfold validateUnseen at h
    split at h
    · cases h
    · rename_i hentry
      split at h
      · cases h
      · intro other hother
        rcases mem_cons.mp hother with rfl | hother
        · exact weighed_of_valid hentry
        · exact ih h other hother

theorem weighed_of_checkEntries {r : CredentialRegistry} {groupID : Nat}
    (h : r.checkEntries groupID entries = .ok ()) :
    ∀ entry ∈ entries, entry.Weighed := by
  unfold checkEntries at h
  split at h
  · cases h
  · rename_i hvalid
    exact weighed_of_validateUnseen hvalid

theorem preserveSharedHealth_weight (next : CredentialEntry)
    (previous : Option CredentialEntry) :
    (preserveSharedHealth next previous).weightManual = next.weightManual := by
  unfold preserveSharedHealth
  cases previous with
  | none => rfl
  | some previous =>
    dsimp only
    split <;> rfl

theorem mirrorHealth_weight (entry : CredentialEntry) (health : SharedCredentialHealth) :
    (mirrorHealth entry health).weightManual = entry.weightManual := by
  unfold mirrorHealth
  split <;> rfl

end Entries

def CredentialRegistry.Weighed (r : CredentialRegistry) : Prop :=
  Buckets.All CredentialEntry.Weighed r.buckets

section Calls

variable {r : CredentialRegistry} {clock : Time}

variable {α : Type}

theorem Weighed.foldl {step : CredentialRegistry → α → CredentialRegistry} {xs : List α}
    (hstep : ∀ r, ∀ x ∈ xs, r.Weighed → (step r x).Weighed) (h : r.Weighed) :
    (xs.foldl step r).Weighed := by
  induction xs generalizing r with
  | nil => exact h
  | cons x rest ih =>
    exact ih (fun r y hy => hstep r y (mem_cons_of_mem _ hy)) (hstep r x (.head _) h)

theorem Weighed.guard {p : Prop} [Decidable p] {x : α} {y : α × CredentialRegistry} (h : r.Weighed)
    (hy : y.2.Weighed) :
    (if p then (x, r) else y).2.Weighed := by
  split
  · exact h
  · exact hy

theorem Weighed.withEntry (h : r.Weighed) {id : Nat} {missing : α}
    {body : CredentialEntry → α × Edit}
    (hbody : ∀ entry, entry.Weighed → ((body entry).2.result entry).Weighed) :
    (r.withEntry clock id missing body).2.Weighed := by
  unfold CredentialRegistry.withEntry
  cases hgroup : r.credentialGroups id with
  | none => exact h
  | some groupID =>
    cases hfind : find r.buckets groupID id with
    | none =>
      simp only [hfind]
      exact h
    | some entry =>
      simp only [hfind]
      have hentry := hbody entry (h groupID id entry hfind)
      cases hedit : (body entry).2 with
      | keep => exact h
      | write next =>
        rw [hedit] at hentry
        exact h.put hentry
      | sync next =>
        rw [hedit] at hentry
        exact h.put hentry

theorem Weighed.placeAll {groupID : Nat} {entries : List CredentialEntry}
    {next : CredentialRegistry → CredentialEntry → CredentialEntry}
    (hnext : ∀ r entry, (next r entry).weightManual = entry.weightManual)
    (hentries : ∀ entry ∈ entries, entry.Weighed) (h : r.Weighed) :
    (entries.foldl (fun r entry => r.place clock groupID (next r entry)) r).Weighed := by
  refine Weighed.foldl (fun r entry hmem hr => ?_) h
  refine hr.put ?_
  unfold CredentialEntry.Weighed
  rw [hnext]
  exact hentries entry hmem

theorem Weighed.replaceCredentials (h : r.Weighed) (entries : List CredentialEntry) :
    (r.replaceCredentials clock entries).2.Weighed := by
  unfold CredentialRegistry.replaceCredentials
  split
  · exact h
  · rename_i hvalid
    have hentries := weighed_of_validateUnseen hvalid
    have hfold : ∀ (rest : List CredentialEntry) (m : Table Nat Nat CredentialEntry),
        (∀ entry ∈ rest, entry.Weighed) → Buckets.All CredentialEntry.Weighed m →
        Buckets.All CredentialEntry.Weighed (rest.foldl (fun m entry =>
          Buckets.put m entry.groupID entry.id (preserveSharedHealth (cloneCredentialEntry entry)
            (find r.buckets entry.groupID entry.id))) m) := by
      intro rest
      induction rest with
      | nil => exact fun m _ hm => hm
      | cons entry rest ih =>
        intro m hrest hm
        refine ih _ (fun other hother => hrest other (mem_cons_of_mem _ hother)) (hm.put ?_)
        unfold CredentialEntry.Weighed
        rw [preserveSharedHealth_weight]
        exact hrest entry (.head _)
    exact hfold entries ∅ hentries Buckets.All.empty

theorem reconciled_weighed {existing : Option CredentialEntry} {desired : CredentialEntry}
    (hexisting : ∀ entry, existing = some entry → entry.Weighed) (hdesired : desired.Weighed) :
    (reconciled existing desired).Weighed := by
  have hfresh : (preserveSharedHealth (cloneCredentialEntry desired) existing).Weighed := by
    unfold CredentialEntry.Weighed
    rw [preserveSharedHealth_weight]
    exact hdesired
  cases existing with
  | none => exact hfresh
  | some entry =>
    unfold reconciled
    simp only
    split
    · exact hexisting entry rfl
    · exact hfresh

theorem Weighed.reconcileGroup (h : r.Weighed) (groupID : Nat) (entries : List CredentialEntry) :
    (r.reconcileGroup clock groupID entries).2.Weighed := by
  unfold CredentialRegistry.reconcileGroup
  split
  · exact h
  · split
    · exact h
    · rename_i hchecked
      split
      · exact h
      · have hnext : ∀ id entry, (entries.foldl (fun (next : Bucket Nat CredentialEntry) desired =>
            next.insert desired.id
              (reconciled ((bucket r.buckets groupID).lookup desired.id) desired)) ∅).lookup id =
            some entry → entry.Weighed := by
          intro id entry hlookup
          have hadmissible := admissible_of_checkEntries hchecked
          obtain ⟨desired, hmem, -, rfl⟩ :=
            (lookup_fill_eq_some CredentialEntry.id _ hadmissible.nodup).mp hlookup
          exact reconciled_weighed (fun old hold => h groupID desired.id old hold)
            (weighed_of_checkEntries hchecked desired hmem)
        dsimp only
        split
        · exact h.erase
        · exact h.insert hnext

theorem Weighed.pruneEntry (h : r.Weighed) (now : Time) (place : Nat × Nat) :
    (CredentialRegistry.pruneEntry now r place).Weighed := by
  unfold CredentialRegistry.pruneEntry
  split
  · exact h
  · rename_i entry hfind
    have hentry : entry.Weighed := h _ _ _ hfind
    exact h.put hentry

theorem RegistryCall.weighed (h : r.Weighed) (call : RegistryCall) :
    (call.apply r clock).2.Weighed := by
  cases call with
  | replaceCredentials entries => exact Weighed.replaceCredentials h entries
  | applyCredentialImport groupID entries =>
    change (r.applyCredentialImport clock groupID entries).2.Weighed
    unfold CredentialRegistry.applyCredentialImport
    split
    · exact h
    · split
      · exact h
      · rename_i hchecked
        exact Weighed.placeAll (fun r entry => preserveSharedHealth_weight _ _)
          (weighed_of_checkEntries hchecked) h
  | restoreGroupCredentialEntriesExact groupID entries =>
    change (r.restoreGroupCredentialEntriesExact clock groupID entries).2.Weighed
    unfold CredentialRegistry.restoreGroupCredentialEntriesExact
    split
    · exact h
    · split
      · exact h
      · split
        · exact h
        · rename_i hchecked
          exact Weighed.placeAll (fun _ _ => rfl) (weighed_of_checkEntries hchecked) h
  | reconcileGroup groupID entries => exact Weighed.reconcileGroup h groupID entries
  | removeCredential id =>
    change (r.removeCredential id).2.Weighed
    unfold CredentialRegistry.removeCredential
    split
    · exact h
    · exact h.delete.trim
  | removeGroupCredentials groupID ids =>
    change (r.removeGroupCredentials groupID ids).2.Weighed
    unfold CredentialRegistry.removeGroupCredentials
    split
    · exact h
    · have hremoved : (ids.foldl (removeFrom groupID) r).Weighed :=
        Weighed.foldl (fun r id _ hr => hr.delete) h
      exact hremoved.trim
  | removeGroup groupID =>
    change (r.removeGroup groupID).2.Weighed
    unfold CredentialRegistry.removeGroup
    split
    · exact h
    · split
      · exact h
      · exact h.erase
  | updateGroupCredentialStatuses groupID ids status =>
    change (r.updateGroupCredentialStatuses clock groupID ids status).2.Weighed
    unfold CredentialRegistry.updateGroupCredentialStatuses
    split
    · exact h
    · split
      · exact h
      · exact Weighed.foldl (fun r id _ hr => Weighed.withEntry hr fun entry hentry => hentry) h
  | setCredentialStatus id status | setCredentialAuthState id authState =>
    exact Weighed.guard h (Weighed.withEntry h fun entry hentry => hentry)
  | updateCredentialConfig id status weightManual =>
    change (r.updateCredentialConfig clock id status weightManual).2.Weighed
    unfold CredentialRegistry.updateCredentialConfig
    split
    · exact h
    · split
      · exact h
      · rename_i hweight
        exact Weighed.withEntry h fun entry _ => weightOK_of_validate hweight
  | replaceCredentialSecretIfMatch id expected next fingerprint encryptedValue
  | clearCooldownIfMatch id expected | restoreRuntimeStateIfMatch ref cooldownUntil =>
    refine Weighed.guard h (Weighed.withEntry h fun entry hentry => ?_)
    split <;> exact hentry
  | setCooldownWithChangeIfVersion id version deadline =>
    refine Weighed.withEntry h fun entry hentry => ?_
    split
    · exact hentry
    · split <;> exact hentry
  | restoreRuntimeState id => exact Weighed.withEntry h fun entry hentry => hentry
  | incrFailure id => exact Weighed.withEntry h fun entry hentry => hentry
  | setModelCooldown ref model deadline now =>
    refine Weighed.guard h (Weighed.withEntry h fun entry hentry => ?_)
    split
    · exact hentry
    · dsimp only
      split <;> exact hentry
  | readModelCooldowns id now => exact Weighed.withEntry h fun entry hentry => hentry
  | clearModelCooldowns id => exact Weighed.withEntry h fun entry hentry => hentry
  | expireModelCooldowns now =>
    exact Weighed.foldl (fun r place _ hr => Weighed.pruneEntry hr now place) h
  | applySharedHealth id health =>
    have hmirror : ∀ (entry : CredentialEntry) (health : SharedCredentialHealth),
        entry.Weighed → (mirrorHealth entry health).Weighed := by
      intro entry health hentry
      unfold CredentialEntry.Weighed
      rw [mirrorHealth_weight]
      exact hentry
    refine Weighed.withEntry h fun entry hentry => ?_
    split
    · split
      · exact hentry
      · exact hmirror entry (.empty entry.identityGeneration) hentry
    · split
      · exact hentry
      · exact hmirror entry health hentry
  | _ =>
    refine Weighed.withEntry h fun entry hentry => ?_
    split <;> exact hentry

theorem runCalls_weighed (jitter : Option Jitter) (calls : List (Time × RegistryCall)) :
    (runCalls jitter calls).Weighed :=
  Weighed.foldl (fun _ call _ hr => RegistryCall.weighed hr call.2) Buckets.All.empty

end Calls

end EchoJoyGateway.State
