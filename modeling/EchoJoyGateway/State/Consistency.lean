import EchoJoyGateway.Lib.Traverse
import EchoJoyGateway.State.Registry
import EchoJoyGateway.Lib.Update

/-!
# The registry and its ledger as one structure

What a registry is for is one map from credential ids to entries. The buckets,
the index of groups and the ledger are three views of that map, and every
mutator changes the three together, or none of them.
-/

namespace EchoJoyGateway.State

open Clock Buckets List
open Function (comp_def update update_eq_self update_of_ne update_self)

variable {entries : List CredentialEntry} {entry : CredentialEntry}
  {next : Bucket Nat CredentialEntry} {buckets : Table Nat Nat CredentialEntry}

abbrev Identity := Nat × Nat × Nat

def SchedulingMember.identity (m : SchedulingMember) : Identity :=
  (m.id, m.groupID, m.identityGeneration)

def CredentialEntry.identity (entry : CredentialEntry) : Identity :=
  (entry.id, entry.groupID, entry.identityGeneration)

def CredentialRuntimeView.identity (view : CredentialRuntimeView) : Identity :=
  (view.id, view.groupID, view.identityGeneration)

section Ledger

variable {d : SchedulingLedger} (clock : Time) {id : Nat}

def SchedulingLedger.identities (d : SchedulingLedger) (id : Nat) : Option Identity :=
  (d.members id).map SchedulingMember.identity

def SchedulingLedger.Keyed (d : SchedulingLedger) : Prop :=
  ∀ id x, d.identities id = some x → x.1 = id

open SchedulingLedger (forgetStreak identities markSuspension members removeLocked setMember
  syncCredentials)

@[simp] theorem forgetStreak_members (id : Nat) : (d.forgetStreak id).members = d.members := by
  unfold forgetStreak
  split <;> rfl

theorem identities_removeLocked (target : Nat) :
    (d.removeLocked target).identities = update d.identities target none := by
  funext id
  unfold identities removeLocked
  rcases eq_or_ne id target with rfl | hne
  · simp
  · simp [update_of_ne hne]

theorem identities_setMember (target : Nat) (m : SchedulingMember) :
    (d.setMember target m).identities = update d.identities target (some m.identity) := by
  funext id
  unfold identities setMember
  rcases eq_or_ne id target with rfl | hne
  · simp
  · simp [update_of_ne hne]

theorem identities_forgetStreak (target : Nat) :
    (d.forgetStreak target).identities = d.identities := by
  funext id
  unfold identities
  rw [forgetStreak_members]

theorem identities_syncView (hkeyed : d.Keyed) (view : CredentialRuntimeView) :
    (d.syncCredentialLocked view clock).identities =
      update d.identities view.id (some view.identity) := by
  unfold SchedulingLedger.syncCredentialLocked
  cases hm : d.members view.id with
  | none =>
    simp only
    rw [identities_forgetStreak, identities_setMember]
    rfl
  | some m =>
    simp only
    split
    · rename_i hsame
      have hid : m.id = view.id := hkeyed view.id m.identity (by simp [identities, hm])
      rw [identities_setMember]
      have hidentity : (markSuspension m view clock).identity =
          view.identity := Prod.ext hid (Prod.ext hsame.1 hsame.2)
      rw [hidentity]
    · rw [identities_forgetStreak, identities_setMember]
      rfl

theorem identities_syncCredentialLocked (hkeyed : d.Keyed) (entry : CredentialEntry) :
    (d.syncCredentialLocked (runtimeView entry) clock).identities =
      update d.identities entry.id (some entry.identity) :=
  identities_syncView clock hkeyed (runtimeView entry)

theorem SchedulingLedger.Keyed.syncView (hkeyed : d.Keyed) (view : CredentialRuntimeView) :
    (d.syncCredentialLocked view clock).Keyed := by
  intro id x hx
  rw [identities_syncView clock hkeyed] at hx
  rcases Update.cases hx with ⟨rfl, heq⟩ | ⟨-, hx⟩
  · cases heq
    rfl
  · exact hkeyed id x hx

theorem SchedulingLedger.Keyed.sync (hkeyed : d.Keyed) (entry : CredentialEntry) :
    (d.syncCredentialLocked (runtimeView entry) clock).Keyed :=
  hkeyed.syncView clock (runtimeView entry)

theorem identities_syncAll_of_not_mem (hkeyed : d.Keyed)
    (hid : id ∉ entries.map CredentialEntry.id) :
    ((entries.map runtimeView).foldl (fun d view => d.syncCredentialLocked view clock)
      d).identities id = d.identities id := by
  induction entries generalizing d with
  | nil => rfl
  | cons entry rest ih =>
    rw [map_cons, mem_cons, not_or] at hid
    rw [map_cons, foldl_cons, ih (hkeyed.sync clock entry) hid.2,
      identities_syncCredentialLocked clock hkeyed, update_of_ne hid.1]

theorem identities_syncAll_of_mem (hkeyed : d.Keyed)
    (hnodup : (entries.map CredentialEntry.id).Nodup) (hmem : entry ∈ entries) :
    ((entries.map runtimeView).foldl (fun d view => d.syncCredentialLocked view clock)
      d).identities entry.id = some entry.identity := by
  induction entries generalizing d with
  | nil => cases hmem
  | cons head rest ih =>
    rw [map_cons, nodup_cons] at hnodup
    rw [map_cons, foldl_cons]
    rcases mem_cons.mp hmem with rfl | hmem
    · rw [identities_syncAll_of_not_mem clock (hkeyed.sync clock entry) hnodup.1,
        identities_syncCredentialLocked clock hkeyed, update_self]
    · exact ih (hkeyed.sync clock head) hnodup.2 hmem

theorem any_runtimeView :
    ((entries.map runtimeView).any fun view => view.id == id) = true ↔
      id ∈ entries.map CredentialEntry.id := by
  rw [any_map, any_eq_true, mem_map]
  constructor
  · rintro ⟨entry, hmem, hid⟩
    exact ⟨entry, hmem, eq_of_beq hid⟩
  · rintro ⟨entry, hmem, rfl⟩
    exact ⟨entry, hmem, beq_self_eq_true _⟩

theorem members_syncCredentials (groupID : Nat) {views : List CredentialRuntimeView} {id : Nat}
    {o : Option SchedulingMember}
    (h : (views.foldl (fun d view => d.syncCredentialLocked view clock) d).members id = o) :
    (d.syncCredentials groupID views clock).members id = o.filter fun m =>
      !((groupID == 0 || m.groupID == groupID) && !views.any fun view => view.id == id) := by
  unfold syncCredentials
  simp only [apply_ite members, ite_self, h]
  cases o with
  | none => rfl
  | some m => simp only [Option.filter, Bool.not_eq_true', ← Bool.not_eq_true, ite_not]

theorem identities_syncCredentials (hkeyed : d.Keyed) (groupID : Nat)
    (hnodup : (entries.map CredentialEntry.id).Nodup) :
    (∀ entry ∈ entries, (d.syncCredentials groupID (entries.map runtimeView) clock).identities
      entry.id = some entry.identity) ∧
    ∀ id, id ∉ entries.map CredentialEntry.id →
      (d.syncCredentials groupID (entries.map runtimeView) clock).identities id =
        (d.identities id).filter fun x => groupID != 0 && x.2.1 != groupID := by
  constructor
  · intro entry hmem
    have hany := any_runtimeView.mpr (mem_map.mpr ⟨entry, hmem, rfl⟩)
    have hsync := identities_syncAll_of_mem clock hkeyed hnodup hmem
    obtain ⟨m, hm, hidentity⟩ := Option.map_eq_some_iff.mp hsync
    rw [identities, members_syncCredentials clock groupID hm, hany]
    simpa using hidentity
  · intro id hid
    have hany := Bool.eq_false_iff.mpr fun h => hid (any_runtimeView.mp h)
    rw [← identities_syncAll_of_not_mem clock hkeyed hid, identities,
      identities, members_syncCredentials clock groupID rfl, hany,
      Option.filter_map]
    simp [comp_def, SchedulingMember.identity, bne]

theorem identities_removeAll (ids : List Nat) (id : Nat) :
    (ids.foldl .removeLocked d).identities id =
      if id ∈ ids then none else d.identities id := by
  induction ids generalizing d with
  | nil => simp
  | cons target rest ih =>
    rw [foldl_cons, ih, identities_removeLocked]
    rcases eq_or_ne id target with rfl | hne
    · simp
    · simp [hne]

end Ledger

section Checks

theorem nodup_of_validateUnseen {seen : List Nat} (h : validateUnseen seen entries = .ok ()) :
    (entries.map CredentialEntry.id).Nodup ∧ ∀ entry ∈ entries, entry.id ∉ seen := by
  induction entries generalizing seen with
  | nil => exact ⟨nodup_nil, fun _ h => absurd h not_mem_nil⟩
  | cons entry rest ih =>
    unfold validateUnseen at h
    split at h
    · cases h
    · split at h
      · cases h
      · rename_i hseen
        exact Traverse.unseen_cons hseen (ih h)

theorem nodup_of_valid (h : validateCredentialEntries entries = .ok ()) :
    (entries.map CredentialEntry.id).Nodup :=
  (nodup_of_validateUnseen h).1

namespace CredentialRegistry

variable {r : CredentialRegistry} {groupID : Nat}

theorem group_of_checkGroup (h : checkGroup groupID entries = .ok ()) :
    ∀ entry ∈ entries, entry.groupID = groupID := by
  induction entries with
  | nil => exact fun _ h => absurd h not_mem_nil
  | cons entry rest ih =>
    unfold checkGroup at h
    split at h
    · cases h
    · rename_i hgroup
      intro other hother
      rcases mem_cons.mp hother with rfl | hother
      · exact not_not.mp hgroup
      · exact ih h other hother

theorem owner_of_checkOwners (h : r.checkOwners groupID entries = .ok ()) :
    ∀ entry ∈ entries, ∀ g, r.credentialGroups entry.id = some g → g = groupID := by
  induction entries with
  | nil => exact fun _ h => absurd h not_mem_nil
  | cons entry rest ih =>
    unfold checkOwners at h
    intro other hother g hg
    rcases mem_cons.mp hother with rfl | hother
    · rw [hg] at h
      simp only at h
      split at h
      · cases h
      · rename_i hsame
        exact not_not.mp hsame
    · refine ih ?_ other hother g hg
      split at h
      · exact h
      · split at h
        · cases h
        · exact h

/-- What the writers of one group know of the entries they write. -/
structure Admissible (r : CredentialRegistry) (groupID : Nat) (entries : List CredentialEntry) :
    Prop where
  nodup : (entries.map CredentialEntry.id).Nodup
  group : ∀ entry ∈ entries, entry.groupID = groupID
  owner : ∀ entry ∈ entries, ∀ g, r.credentialGroups entry.id = some g → g = groupID

theorem admissible_of_checkEntries (h : r.checkEntries groupID entries = .ok ()) :
    r.Admissible groupID entries := by
  unfold checkEntries at h
  split at h
  · cases h
  · rename_i hvalid
    split at h
    · cases h
    · rename_i hgroup
      exact ⟨nodup_of_valid hvalid, group_of_checkGroup hgroup, owner_of_checkOwners h⟩

theorem owned_of_validateUnseenIDs {seen ids : List Nat}
    (h : r.validateUnseenIDs groupID seen ids = .ok ()) :
    ∀ id ∈ ids, r.credentialGroups id = some groupID := by
  induction ids generalizing seen with
  | nil => exact nofun
  | cons id rest ih =>
    unfold validateUnseenIDs at h
    split at h
    · cases h
    · split at h
      · cases h
      · split at h
        · cases h
        · rename_i actual hactual
          split at h
          · cases h
          · rename_i hgroup
            split at h
            · cases h
            · intro other hother
              rcases mem_cons.mp hother with rfl | hother
              · rw [hactual, not_not.mp hgroup]
              · exact ih h other hother

theorem owned_of_validateGroupCredentialIDsLocked {ids : List Nat}
    (h : r.validateGroupCredentialIDsLocked groupID ids = .ok ()) :
    ∀ id ∈ ids, r.credentialGroups id = some groupID := by
  unfold validateGroupCredentialIDsLocked at h
  split at h
  · cases h
  · split at h
    · cases h
    · exact owned_of_validateUnseenIDs h

end CredentialRegistry

end Checks

section Views

/-- The buckets and the index of groups are two views of one map. -/
structure Filed (buckets : Table Nat Nat CredentialEntry) (groups : Nat → Option Nat)
    (f : Nat → Option CredentialEntry) : Prop where
  groups : ∀ id, groups id = (f id).map CredentialEntry.groupID
  held : ∀ g id, find buckets g id = (f id).filter fun entry => entry.groupID == g
  ids : ∀ id entry, f id = some entry → entry.id = id

variable {buckets : Table Nat Nat CredentialEntry} {groups : Nat → Option Nat}
  {f : Nat → Option CredentialEntry} {entry : CredentialEntry} {id g : Nat}

theorem filed_empty : Filed ∅ (fun _ => none) fun _ => none where
  groups _ := rfl
  held _ _ := rfl
  ids _ _ h := by cases h

theorem Filed.find_iff (h : Filed buckets groups f) :
    find buckets g id = some entry ↔ f id = some entry ∧ entry.groupID = g := by
  rw [h.held, Option.filter_eq_some_iff, beq_iff_eq]

theorem Filed.group_of_some (h : Filed buckets groups f) (hid : f id = some entry) :
    groups id = some entry.groupID := by
  rw [h.groups, hid, Option.map_some]

theorem Filed.put (h : Filed buckets groups f)
    (hgroup : ∀ old, f entry.id = some old → old.groupID = entry.groupID) :
    Filed (Buckets.put buckets entry.groupID entry.id entry)
      (update groups entry.id (some entry.groupID))
      (update f entry.id (some entry)) where
  groups id := by
    rcases eq_or_ne id entry.id with rfl | hne
    · simp
    · simp [update_of_ne hne, h.groups]
  held g id := by
    rw [find_put]
    rcases eq_or_ne id entry.id with rfl | hne
    · rw [update_self]
      rcases eq_or_ne g entry.groupID with rfl | hg
      · simp [Option.filter]
      · rw [if_neg fun hand => hg hand.1, h.held]
        have hentry : ((some entry).filter fun e => e.groupID == g) = none := by
          simp [hg.symm]
        rw [hentry]
        cases hold : f entry.id with
        | none => rfl
        | some old => simp [hgroup old hold, hg.symm]
    · rw [if_neg fun hand => hne hand.2, update_of_ne hne, h.held]
  ids id old hold := by
    rcases Update.cases hold with ⟨rfl, heq⟩ | ⟨-, hold⟩
    · cases heq
      rfl
    · exact h.ids id old hold

theorem Filed.delete (h : Filed buckets groups f)
    (hgroup : ∀ old, f id = some old → old.groupID = g) :
    Filed (Buckets.delete buckets g id) (update groups id none) (update f id none) where
  groups other := by
    rcases eq_or_ne other id with rfl | hne
    · simp
    · simp [update_of_ne hne, h.groups]
  held g' other := by
    rw [find_delete]
    rcases eq_or_ne other id with rfl | hne
    · rw [update_self]
      rcases eq_or_ne g' g with rfl | hg
      · simp
      · rw [if_neg fun hand => hg hand.1, h.held]
        cases hold : f other with
        | none => rfl
        | some old => simp [hgroup old hold, hg.symm]
    · rw [if_neg fun hand => hne hand.2, update_of_ne hne, h.held]
  ids other old hold := by
    rcases Update.cases hold with ⟨rfl, heq⟩ | ⟨-, hold⟩
    · cases heq
    · exact h.ids other old hold

theorem Filed.filter_ne (h : Filed buckets groups f) (g id : Nat) :
    ((f id).filter fun entry => entry.groupID != g) =
      if id ∈ bucket buckets g then none else f id := by
  have hmem : id ∈ bucket buckets g ↔ ∃ entry, f id = some entry ∧ entry.groupID = g := by
    rw [mem_bucket_iff]
    simp only [h.find_iff]
  cases hf : f id with
  | none => simp
  | some entry =>
    simp only [hf, Option.some.injEq, exists_eq_left'] at hmem
    rcases eq_or_ne entry.groupID g with heq | hne
    · rw [if_pos (hmem.mpr heq)]
      simp [heq]
    · rw [if_neg fun hin => hne (hmem.mp hin)]
      simp [hne]

theorem Filed.regroup (h : Filed buckets groups f) {groupID : Nat}
    {next : Bucket Nat CredentialEntry}
    (hids : ∀ id entry, next.lookup id = some entry → entry.id = id ∧ entry.groupID = groupID)
    (howner : ∀ id ∈ next, ∀ old, f id = some old → old.groupID = groupID)
    {buckets' : Table Nat Nat CredentialEntry} {groups' : Nat → Option Nat}
    (hbucket : bucket buckets' groupID = next)
    (hothers : ∀ g id, g ≠ groupID → find buckets' g id = find buckets g id)
    (hgroups : ∀ id, groups' id = if id ∈ next then some groupID
      else if id ∈ bucket buckets groupID then none else groups id) :
    Filed buckets' groups' fun id =>
      if id ∈ next then next.lookup id else (f id).filter fun entry =>
        entry.groupID != groupID := by
  have hlookup : ∀ id, id ∈ next → ∃ entry, next.lookup id = some entry := fun id hid =>
    Option.isSome_iff_exists.mp (AList.lookup_isSome.mpr hid)
  refine ⟨fun id => ?_, fun g id => ?_, fun id entry hentry => ?_⟩
  · rw [hgroups]
    split
    · rename_i hmem
      obtain ⟨entry, hentry⟩ := hlookup id hmem
      rw [hentry, Option.map_some, (hids id entry hentry).2]
    · rw [h.filter_ne, h.groups]
      split <;> rfl
  · rcases eq_or_ne g groupID with rfl | hg
    · have hfind : find buckets' g id = next.lookup id := by rw [find, hbucket]
      rw [hfind]
      split
      · rename_i hmem
        obtain ⟨entry, hentry⟩ := hlookup id hmem
        rw [hentry]
        simp [Option.filter, (hids id entry hentry).2]
      · rename_i hmem
        rw [AList.lookup_eq_none.mpr hmem]
        cases hf : f id with
        | none => rfl
        | some entry =>
          rcases eq_or_ne entry.groupID g with heq | hne
          · simp [Option.filter, heq]
          · simp [Option.filter, hne]
    · rw [hothers g id hg, h.held]
      split
      · rename_i hmem
        obtain ⟨entry, hentry⟩ := hlookup id hmem
        rw [hentry]
        have hnone : ((some entry).filter fun e => e.groupID == g) = none := by
          simp [(hids id entry hentry).2, hg.symm]
        rw [hnone]
        cases hf : f id with
        | none => rfl
        | some old => simp [howner id hmem old hf, hg.symm]
      · cases hf : f id with
        | none => rfl
        | some entry =>
          rcases eq_or_ne entry.groupID groupID with heq | hne
          · simp [Option.filter, heq, hg.symm]
          · simp [Option.filter, hne]
  · split at hentry
    · exact (hids id entry hentry).1
    · rw [Option.filter_eq_some_iff] at hentry
      exact h.ids id entry hentry.1

theorem Filed.trim (h : Filed buckets groups f) : Filed (Buckets.trim buckets g) groups f where
  groups := h.groups
  held g' id := by rw [find_trim, h.held]
  ids := h.ids

end Views

/-- The ledger is a third view of the map. -/
structure Indexed (r : CredentialRegistry) (f : Nat → Option CredentialEntry) : Prop where
  filed : Filed r.buckets r.credentialGroups f
  members : ∀ id, r.scheduling.identities id = (f id).map CredentialEntry.identity

/-- The registry is the map, and no bucket is left empty. -/
structure Represents (r : CredentialRegistry) (f : Nat → Option CredentialEntry) : Prop
    extends Indexed r f where
  nonempty : NoEmpty r.buckets

section Operations

variable {r : CredentialRegistry} {f : Nat → Option CredentialEntry} (clock : Time)

theorem Indexed.keyed (h : Indexed r f) : r.scheduling.Keyed := by
  intro id x hx
  rw [h.members, Option.map_eq_some_iff] at hx
  obtain ⟨entry, hentry, rfl⟩ := hx
  exact h.filed.ids id entry hentry

theorem represents_new (jitter : Option Jitter) :
    Represents (newCredentialRegistry jitter) fun _ => none where
  filed := filed_empty
  members _ := rfl
  nonempty := noEmpty_empty

theorem Represents.place (h : Represents r f)
    (hgroup : ∀ old, f entry.id = some old → old.groupID = entry.groupID) :
    Represents (r.place clock entry.groupID entry) (update f entry.id (some entry)) where
  filed := h.filed.put hgroup
  members id := by
    change (r.scheduling.syncCredentialLocked (runtimeView entry) clock).identities id = _
    rw [identities_syncCredentialLocked clock h.keyed]
    rcases eq_or_ne id entry.id with rfl | hne
    · simp
    · simp [update_of_ne hne, h.members]
  nonempty := h.nonempty.put

theorem Represents.placeAll {groupID : Nat}
    {next : CredentialRegistry → CredentialEntry → CredentialEntry}
    (hnext : ∀ r entry, (next r entry).id = entry.id ∧ (next r entry).groupID = entry.groupID)
    (h : Represents r f) (hentries : ∀ entry ∈ entries, entry.groupID = groupID)
    (howner : ∀ entry ∈ entries, ∀ old, f entry.id = some old → old.groupID = groupID) :
    ∃ f', Represents
      (entries.foldl (fun r entry => r.place clock groupID (next r entry)) r) f' := by
  induction entries generalizing r f with
  | nil => exact ⟨f, h⟩
  | cons entry rest ih =>
    obtain ⟨hid, hgroup⟩ := hnext r entry
    have hplaced : (next r entry).groupID = groupID := hgroup.trans (hentries entry (.head _))
    have hold : ∀ old, f (next r entry).id = some old → old.groupID = (next r entry).groupID := by
      rw [hid, hplaced]
      exact howner entry (.head _)
    have hstep := h.place clock hold
    rw [hplaced] at hstep
    refine ih hstep (fun e he => hentries e (.tail _ he)) fun e he old hf => ?_
    rcases eq_or_ne e.id (next r entry).id with heq | hne
    · rw [heq, update_self] at hf
      cases hf
      exact hplaced
    · rw [update_of_ne hne] at hf
      exact howner e (.tail _ he) old hf

theorem Filed.replace {groups : Nat → Option Nat} (h : Filed buckets groups f)
    {old : CredentialEntry} (hold : f old.id = some old) (hid : entry.id = old.id)
    (hgroup : entry.groupID = old.groupID) :
    Filed (Buckets.put buckets old.groupID old.id entry) groups (update f old.id (some entry)) := by
  have hput : ∀ e, f entry.id = some e → e.groupID = entry.groupID := by
    intro e he
    rw [hid, hold] at he
    cases he
    exact hgroup.symm
  have hresult := h.put hput
  have hsame : update groups entry.id (some entry.groupID) = groups := by
    rw [hid, hgroup, ← h.group_of_some hold, update_eq_self]
  rwa [hsame, hid, hgroup] at hresult

theorem Represents.write (h : Represents r f) {old : CredentialEntry} (hold : f old.id = some old)
    (hidentity : entry.identity = old.identity) :
    Represents { r with buckets := Buckets.put r.buckets old.groupID old.id entry }
      (update f old.id (some entry)) where
  filed := h.filed.replace hold (congrArg Prod.fst hidentity)
    (congrArg (fun x : Identity => x.2.1) hidentity)
  members id := by
    rcases eq_or_ne id old.id with rfl | hne
    · rw [update_self, Option.map_some, hidentity]
      exact (h.members old.id).trans (by rw [hold, Option.map_some])
    · rw [update_of_ne hne]
      exact h.members id
  nonempty := h.nonempty.put

theorem Represents.sync (h : Represents r f) (hentry : f entry.id = some entry) :
    Represents { r with
      scheduling := r.scheduling.syncCredentialLocked (runtimeView entry) clock } f where
  filed := h.filed
  members id := by
    rw [identities_syncCredentialLocked clock h.keyed]
    rcases eq_or_ne id entry.id with rfl | hne
    · rw [update_self, hentry, Option.map_some]
    · rw [update_of_ne hne, h.members]
  nonempty := h.nonempty

namespace CredentialRegistry

def Edit.result (entry : CredentialEntry) : Edit → CredentialEntry
  | .keep => entry
  | .write next => next
  | .sync next => next

def Edit.Keeps (entry : CredentialEntry) (edit : Edit) : Prop :=
  (edit.result entry).identity = entry.identity

end CredentialRegistry

open CredentialRegistry

theorem Represents.edit (h : Represents r f) (hentry : f entry.id = some entry) {e : Edit}
    (hkeeps : e.Keeps entry) :
    Represents (r.edit clock entry.groupID entry.id e)
      (update f entry.id (some (e.result entry))) := by
  cases e with
  | keep =>
    change Represents r (update f entry.id (some entry))
    rw [← hentry, update_eq_self]
    exact h
  | write next => exact h.write hentry hkeeps
  | sync next =>
    have hid : next.id = entry.id := congrArg Prod.fst hkeeps
    refine (h.write hentry hkeeps).sync clock ?_
    rw [hid, update_self]
    rfl

theorem Represents.withEntry_eq (h : Represents r f) {α : Type} (id : Nat) (missing : α)
    (body : CredentialEntry → α × Edit) :
    r.withEntry clock id missing body =
      match f id with
      | none => (missing, r)
      | some entry => ((body entry).1, r.edit clock entry.groupID id (body entry).2) := by
  unfold CredentialRegistry.withEntry
  rw [h.filed.groups]
  cases hentry : f id with
  | none => rfl
  | some entry =>
    have hfind := h.filed.find_iff.mpr ⟨hentry, rfl⟩
    simp only [Option.map_some, hfind]

theorem Represents.withEntry (h : Represents r f) {α : Type} (id : Nat) (missing : α)
    {body : CredentialEntry → α × Edit} (hkeeps : ∀ entry, (body entry).2.Keeps entry) :
    Represents (r.withEntry clock id missing body).2
      (update f id ((f id).map fun entry => (body entry).2.result entry)) := by
  rw [h.withEntry_eq]
  cases hentry : f id with
  | none =>
    have hsame : update f id none = f := by rw [← hentry, update_eq_self]
    rw [Option.map_none, hsame]
    exact h
  | some entry =>
    obtain rfl := h.filed.ids id entry hentry
    exact h.edit clock hentry (hkeeps entry)

variable {g : Nat}

theorem Indexed.removeFrom (h : Indexed r f) {id : Nat}
    (hgroup : ∀ old, f id = some old → old.groupID = g) :
    Indexed (.removeFrom g r id) (update f id none) where
  filed := h.filed.delete hgroup
  members other := by
    change (r.scheduling.removeLocked id).identities other = _
    rw [identities_removeLocked]
    rcases eq_or_ne other id with rfl | hne
    · simp
    · simp [update_of_ne hne, h.members]

theorem Represents.remove (h : Represents r f) {id : Nat} (hg : r.credentialGroups id = some g) :
    Represents (r.removeCredential id).2 (update f id none) := by
  have hgroup : ∀ old, f id = some old → old.groupID = g := by
    intro old hold
    exact Option.some.inj ((h.filed.group_of_some hold).symm.trans hg)
  have hremoved := h.toIndexed.removeFrom hgroup
  unfold CredentialRegistry.removeCredential
  rw [hg]
  exact ⟨⟨hremoved.filed.trim, hremoved.members⟩, h.nonempty.but.delete.trim⟩

theorem Indexed.removeAll {ids : List Nat} (h : Indexed r f) (hnonempty : NoEmptyBut r.buckets g)
    (hgroup : ∀ id ∈ ids, ∀ old, f id = some old → old.groupID = g) :
    ∃ f', Indexed (ids.foldl (.removeFrom g) r) f' ∧
      NoEmptyBut (ids.foldl (CredentialRegistry.removeFrom g) r).buckets g := by
  induction ids generalizing r f with
  | nil => exact ⟨f, h, hnonempty⟩
  | cons id rest ih =>
    refine ih (h.removeFrom (hgroup id (.head _))) hnonempty.delete ?_
    intro other hother old hold
    rcases Update.cases hold with ⟨rfl, heq⟩ | ⟨-, hold⟩
    · cases heq
    · exact hgroup other (.tail _ hother) old hold

theorem Represents.removeGroup (h : Represents r f) {members : Bucket Nat CredentialEntry}
    (hmembers : r.buckets.lookup g = some members) :
    Represents
      { buckets := r.buckets.erase g
        credentialGroups := fun id => if id ∈ members then none else r.credentialGroups id
        scheduling := members.keys.foldl .removeLocked r.scheduling }
      fun id => (f id).filter fun entry => entry.groupID != g := by
  have hbucket : bucket r.buckets g = members := by rw [bucket, hmembers, Option.getD_some]
  have hfiled := @Filed.regroup r.buckets r.credentialGroups f h.filed g ∅ (by simp) (by simp)
    (r.buckets.erase g) (fun id => if id ∈ members then none else r.credentialGroups id)
    bucket_erase_self (fun g' id hg => by rw [find, bucket_erase_of_ne hg, find])
    (by simp [hbucket])
  refine ⟨⟨hfiled, fun id => ?_⟩, h.nonempty.but.erase⟩
  rw [identities_removeAll, h.filed.filter_ne, hbucket, h.members]
  simp only [← AList.mem_keys]
  split <;> rfl

theorem Filed.fill {groups : Nat → Option Nat} (val : CredentialEntry → CredentialEntry)
    (hval : ∀ e, (val e).identity = e.identity) (hnodup : (entries.map CredentialEntry.id).Nodup)
    (h : Filed buckets groups f) (hfresh : ∀ entry ∈ entries, f entry.id = none) :
    ∃ f', Filed
        (entries.foldl (fun m entry => Buckets.put m entry.groupID entry.id (val entry)) buckets)
        (entries.foldl
          (fun groups entry => update groups entry.id (some entry.groupID)) groups) f' ∧
      (∀ entry ∈ entries, f' entry.id = some (val entry)) ∧
      ∀ id, id ∉ entries.map CredentialEntry.id → f' id = f id := by
  induction entries generalizing buckets groups f with
  | nil => exact ⟨f, h, fun _ hmem => absurd hmem not_mem_nil, fun _ _ => rfl⟩
  | cons entry rest ih =>
    rw [map_cons, nodup_cons] at hnodup
    have hid : (val entry).id = entry.id := congrArg Prod.fst (hval entry)
    have hgroup : (val entry).groupID = entry.groupID :=
      congrArg (fun x : Identity => x.2.1) (hval entry)
    have hput := @Filed.put _ _ _ (val entry) h fun old hold => by
      rw [hid, hfresh entry (.head _)] at hold
      cases hold
    rw [hid, hgroup] at hput
    have hne : ∀ other ∈ rest, other.id ≠ entry.id := fun other hother heq =>
      hnodup.1 (heq ▸ mem_map.mpr ⟨other, hother, rfl⟩)
    obtain ⟨f', hfiled, hin, hout⟩ := ih hnodup.2 hput fun other hother => by
      rw [update_of_ne (hne other hother)]
      exact hfresh other (.tail _ hother)
    refine ⟨f', hfiled, fun other hother => ?_, fun id hmem => ?_⟩
    · rcases mem_cons.mp hother with rfl | hother
      · rw [hout _ hnodup.1, update_self]
      · exact hin other hother
    · rw [map_cons, mem_cons, not_or] at hmem
      rw [hout id hmem.2, update_of_ne hmem.1]

theorem noEmpty_foldl_put {val : CredentialEntry → CredentialEntry} (h : NoEmpty buckets)
    (entries : List CredentialEntry) :
    NoEmpty (entries.foldl
      (fun m entry => Buckets.put m entry.groupID entry.id (val entry)) buckets) := by
  induction entries generalizing buckets with
  | nil => exact h
  | cons entry rest ih => exact ih h.put

theorem preserveSharedHealth_identity (next : CredentialEntry)
    (previous : Option CredentialEntry) :
    (preserveSharedHealth next previous).identity = next.identity := by
  unfold preserveSharedHealth
  cases previous with
  | none => rfl
  | some previous =>
    dsimp only
    split <;> rfl

theorem Represents.replaceCredentials (h : Represents r f)
    (hvalid : validateCredentialEntries entries = .ok ()) :
    ∃ f', Represents (r.replaceCredentials clock entries).2 f' := by
  have hnodup := nodup_of_valid hvalid
  obtain ⟨f', hfiled, hin, hout⟩ := Filed.fill
    (fun entry => preserveSharedHealth (cloneCredentialEntry entry)
      (find r.buckets entry.groupID entry.id))
    (fun entry => preserveSharedHealth_identity _ _) hnodup filed_empty fun _ _ => rfl
  obtain ⟨hsynced, hothers⟩ := identities_syncCredentials clock h.keyed 0 hnodup
  unfold CredentialRegistry.replaceCredentials
  rw [hvalid]
  refine ⟨f', ⟨hfiled, fun id => ?_⟩, noEmpty_foldl_put noEmpty_empty entries⟩
  by_cases hid : id ∈ entries.map CredentialEntry.id
  · obtain ⟨entry, hentry, rfl⟩ := mem_map.mp hid
    rw [hsynced entry hentry, hin entry hentry, Option.map_some, preserveSharedHealth_identity]
    rfl
  · rw [hothers id hid, hout id hid]
    simp

variable {groupID : Nat}

theorem reconciled_identity {existing : Option CredentialEntry} {desired : CredentialEntry}
    (hgroup : desired.groupID = groupID) :
    (reconciled existing desired).id = desired.id ∧
      (reconciled existing desired).groupID = groupID := by
  unfold reconciled
  cases existing with
  | none =>
    have hidentity := preserveSharedHealth_identity (cloneCredentialEntry desired) none
    exact ⟨congrArg Prod.fst hidentity,
      (congrArg (fun x : Identity => x.2.1) hidentity).trans hgroup⟩
  | some entry =>
    dsimp only
    split
    · rename_i hsame
      simp only [samePersistedCredentialConfig, Bool.and_eq_true, beq_iff_eq] at hsame
      obtain ⟨⟨⟨⟨⟨⟨⟨⟨⟨⟨hid, hgroup'⟩, -⟩, -⟩, -⟩, -⟩, -⟩, -⟩, -⟩, -⟩, -⟩ := hsame
      exact ⟨hid, hgroup'.trans hgroup⟩
    · have hidentity := preserveSharedHealth_identity (cloneCredentialEntry desired) (some entry)
      exact ⟨congrArg Prod.fst hidentity,
        (congrArg (fun x : Identity => x.2.1) hidentity).trans hgroup⟩

theorem syncSchedulingGroupLocked_entries (hnext : bucket r.buckets groupID = next) :
    (r.syncSchedulingGroupLocked clock groupID).scheduling =
      r.scheduling.syncCredentials groupID
        ((next.entries.map fun item => item.2).map runtimeView) clock := by
  rw [← hnext, map_map]
  rfl

theorem entries_ids (hids : ∀ id entry, next.lookup id = some entry → entry.id = id) :
    (next.entries.map fun item => item.2).map CredentialEntry.id = next.keys := by
  rw [map_map]
  refine map_congr_left fun item hitem => ?_
  exact hids item.1 item.2 (AList.mem_lookup_iff.mpr hitem)

theorem mem_entries_iff (hids : ∀ id entry, next.lookup id = some entry → entry.id = id) :
    (entry ∈ next.entries.map fun item => item.2) ↔ next.lookup entry.id = some entry := by
  rw [mem_map]
  constructor
  · rintro ⟨⟨id, e⟩, hitem, rfl⟩
    have hlookup := AList.mem_lookup_iff.mpr hitem
    rw [hids id e hlookup]
    exact hlookup
  · intro hlookup
    exact ⟨⟨entry.id, entry⟩, AList.mem_lookup_iff.mp hlookup, rfl⟩

theorem Represents.regroup (h : Represents r f) (hzero : groupID ≠ 0)
    (hids : ∀ id entry, next.lookup id = some entry → entry.id = id ∧ entry.groupID = groupID)
    (howner : ∀ id ∈ next, ∀ old, f id = some old → old.groupID = groupID) {r' : CredentialRegistry}
    (hscheduling : r'.scheduling = r.scheduling) (hbucket : bucket r'.buckets groupID = next)
    (hothers : ∀ g id, g ≠ groupID → find r'.buckets g id = find r.buckets g id)
    (hgroups : ∀ id, r'.credentialGroups id =
      if id ∈ next then some groupID
      else if id ∈ bucket r.buckets groupID then none else r.credentialGroups id)
    (hnonempty : NoEmpty r'.buckets) :
    Represents (r'.syncSchedulingGroupLocked clock groupID) fun id =>
      if id ∈ next then next.lookup id else (f id).filter fun entry =>
        entry.groupID != groupID := by
  refine ⟨⟨h.filed.regroup hids howner hbucket hothers hgroups, fun id => ?_⟩, hnonempty⟩
  · have hkeys := entries_ids fun id entry hentry => (hids id entry hentry).1
    have hkeyed : r'.scheduling.Keyed := by
      rw [hscheduling]
      exact h.keyed
    obtain ⟨hsynced, hkept⟩ := identities_syncCredentials clock hkeyed groupID
      (hkeys ▸ next.keys_nodup)
    rw [syncSchedulingGroupLocked_entries clock hbucket]
    split
    · rename_i hmem
      obtain ⟨entry, hentry⟩ := Option.isSome_iff_exists.mp (AList.lookup_isSome.mpr hmem)
      obtain rfl := (hids id entry hentry).1
      rw [hentry]
      exact hsynced entry ((mem_entries_iff fun id e he => (hids id e he).1).mpr hentry)
    · rename_i hmem
      rw [hkept id (by rw [hkeys]; exact hmem), hscheduling, h.members]
      cases hf : f id with
      | none => rfl
      | some entry =>
        rcases eq_or_ne entry.groupID groupID with heq | hne
        · simp [Option.filter, CredentialEntry.identity, heq]
        · simp [Option.filter, CredentialEntry.identity, hne, hzero]

theorem Represents.reconcileGroup (h : Represents r f) (groupID : Nat)
    (entries : List CredentialEntry) :
    ∃ f', Represents (r.reconcileGroup clock groupID entries).2 f' := by
  unfold CredentialRegistry.reconcileGroup
  split
  · exact ⟨f, h⟩
  · rename_i hzero
    split
    · exact ⟨f, h⟩
    · rename_i hchecked
      split
      · exact ⟨f, h⟩
      · have hadmissible := admissible_of_checkEntries hchecked
        dsimp only
        generalize hnext : entries.foldl (fun (next : Bucket Nat CredentialEntry) desired =>
          next.insert desired.id
            (reconciled ((bucket r.buckets groupID).lookup desired.id) desired)) ∅ = next
        have hlookup : ∀ id entry, next.lookup id = some entry ↔ ∃ desired ∈ entries,
            desired.id = id ∧
              reconciled ((bucket r.buckets groupID).lookup desired.id) desired = entry := by
          rw [← hnext]
          exact fun id entry => lookup_fill_eq_some CredentialEntry.id _ hadmissible.nodup
        have hids : ∀ id entry, next.lookup id = some entry →
            entry.id = id ∧ entry.groupID = groupID := by
          intro id entry hentry
          obtain ⟨desired, hmem, rfl, rfl⟩ := (hlookup id entry).mp hentry
          exact reconciled_identity (hadmissible.group desired hmem)
        have howner : ∀ id ∈ next, ∀ old, f id = some old → old.groupID = groupID := by
          intro id hid old hold
          obtain ⟨entry, hentry⟩ := Option.isSome_iff_exists.mp (AList.lookup_isSome.mpr hid)
          obtain ⟨desired, hmem, rfl, -⟩ := (hlookup id entry).mp hentry
          exact hadmissible.owner desired hmem _ (h.filed.group_of_some hold)
        refine ⟨_, h.regroup clock hzero hids howner ?_ ?_ ?_ ?_ ?_⟩
        · split <;> rfl
        · split
          · rename_i hkeys
            have hempty : next = ∅ := AList.ext (map_eq_nil_iff.mp hkeys)
            rw [hempty]
            exact bucket_erase_self
          · exact bucket_insert_self next
        · intro g id hg
          unfold find
          split
          · rw [bucket_erase_of_ne hg]
          · rw [bucket_insert_of_ne hg]
        · intro id
          split
          · rename_i hkeys
            have hmem : id ∉ next := by
              rw [AList.mem_keys, hkeys]
              exact not_mem_nil
            rw [if_neg hmem]
          · rfl
        · split
          · exact h.nonempty.but.erase
          · rename_i hkeys
            exact noEmpty_insert h.nonempty.but hkeys

end Operations

end EchoJoyGateway.State
