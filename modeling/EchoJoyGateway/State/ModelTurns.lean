import EchoJoyGateway.Lib.BinarySearch
import EchoJoyGateway.Lib.RoundRobin
import EchoJoyGateway.State.Rotation
import Mathlib.Data.List.Dedup
import Mathlib.Data.String.Basic

/-!
# Turns of the models of a name

`SelectModel` and `SyncGroups` call after call. Next to the ledger a run keeps the
models that were configured for each queue when it was last synchronised; a queue is
always an arrangement of them, and a selection is a turn of a round robin.
-/

namespace EchoJoyGateway.State

open List

open BinarySearch (found found_iff)

/-- `SelectModel` with the binary search of the source. -/
def SchedulingLedger.searchModel (d : SchedulingLedger) (key : GroupModelKey)
    (models : List String) : SchedulingLedger × String :=
  match models with
  | [] => (d, "")
  | first :: _ =>
    match RoundRobin.serve (BinarySearch.found models) ((d.modelCursors key).getD []) with
    | none => (d, first)
    | some (model, order) =>
      ({ d with modelCursors := Function.update d.modelCursors key (some order) }, model)

variable {models : List String}

theorem found_eq_contains (h : models.Pairwise (· ≤ ·)) :
    found models = fun model => models.contains model := by
  funext model
  rw [Bool.eq_iff_iff, found_iff h, contains_iff_mem]

/-- On sorted models both embeddings of `SelectModel` agree. -/
theorem searchModel_eq (d : SchedulingLedger) (key : GroupModelKey) (h : models.Pairwise (· ≤ ·)) :
    d.searchModel key models = d.selectModel key.groupID key.externalModel models := by
  cases models with
  | nil => rfl
  | cons first rest =>
    rw [SchedulingLedger.searchModel, SchedulingLedger.selectModel, found_eq_contains h]
    cases hserve : RoundRobin.serve (fun model => (first :: rest).contains model)
        ((d.modelCursors key).getD []) with
    | none =>
      have hnone := findIdx?_eq_none_iff.mpr (RoundRobin.serve_eq_none_iff.mp hserve)
      simp only [hnone]
    | some pair =>
      obtain ⟨model, order⟩ := pair
      obtain ⟨front, back, heq, rfl, hmodel, hfront⟩ := RoundRobin.serve_eq_some hserve
      have hindex : (front ++ model :: back).findIdx?
          (fun model => (first :: rest).contains model) = some front.length := by
        rw [findIdx?_append, findIdx?_eq_none_iff.mpr hfront, findIdx?_cons, if_pos hmodel]
        simp
      have hget : (front ++ model :: back).getD front.length "" = model := by simp
      have herase : (front ++ model :: back).eraseIdx front.length = front ++ back := by
        simp [eraseIdx_append_of_length_le]
      simp only [heq, hindex, hget, herase]

def configuredModels (snapshot : ConfigSnapshot) (key : GroupModelKey) : List String :=
  match snapshot.group key.groupID with
  | none => []
  | some group => modelsByName group key.externalModel

/-- The queue of a group that is switched off stays as it is. -/
def heldBack (snapshot : ConfigSnapshot) (key : GroupModelKey) : Bool :=
  decide ((configuredModels snapshot key).length ≤ 1) &&
    match snapshot.catalogView key.groupID with
    | none => false
    | some group => !group.enabled

/-- Snapshots that are not newer than the last one are not taken over. -/
def SchedulingLedger.publishes (d : SchedulingLedger) (snapshot : ConfigSnapshot) : Bool :=
  !d.groupsKnown || decide (d.groupRevision < snapshot.revision)

structure Rotation where
  ledger : SchedulingLedger
  configured : GroupModelKey → List String

/-- Every publication draws anew from the random source. -/
inductive RotationCall where
  | syncGroups (draws : Option Jitter) (snapshot : Option ConfigSnapshot)
  | selectModel (key : GroupModelKey) (models : List String)

namespace Rotation

def start (jitter : Option Jitter) : Rotation where
  ledger := SchedulingLedger.new jitter
  configured _ := []

def publish (s : Rotation) (snapshot : Option ConfigSnapshot) (key : GroupModelKey) :
    List String :=
  match snapshot with
  | none => s.configured key
  | some snapshot =>
    if s.ledger.publishes snapshot && !heldBack snapshot key then configuredModels snapshot key
    else s.configured key

def apply (s : Rotation) : RotationCall → Rotation
  | .syncGroups draws snapshot =>
    { ledger := { s.ledger with jitter := draws }.syncGroups snapshot
      configured := s.publish snapshot }
  | .selectModel key models => { s with ledger := (s.ledger.searchModel key models).1 }

def run (s : Rotation) (calls : List RotationCall) : Rotation := calls.foldl apply s

def Reachable (s : Rotation) : Prop := ∃ jitter calls, s = (start jitter).run calls

def returned (key : GroupModelKey) (s : Rotation) : List RotationCall → List String
  | [] => []
  | .selectModel key' models :: calls =>
    if key' = key then
      (s.ledger.searchModel key' models).2 :: returned key
        (s.apply (.selectModel key' models)) calls
    else returned key (s.apply (.selectModel key' models)) calls
  | .syncGroups draws snapshot :: calls =>
    returned key (s.apply (.syncGroups draws snapshot)) calls

end Rotation

def offers (key : GroupModelKey) (calls : List RotationCall) : List (List String) :=
  calls.filterMap fun
    | .selectModel key' models => if key' = key then some models else none
    | .syncGroups _ _ => none

/-- The availability lists are sorted and drawn from the configured models. -/
def RotationCall.Admissible (s : Rotation) : RotationCall → Prop
  | .syncGroups _ _ => True
  | .selectModel key models =>
    models.Pairwise (· ≤ ·) ∧ ∀ model ∈ models, model ∈ s.configured key

def Admissible (s : Rotation) : List RotationCall → Prop
  | [] => True
  | call :: calls => call.Admissible s ∧ Admissible (s.apply call) calls

def RotationCall.Quiet (d : SchedulingLedger) : RotationCall → Prop
  | .syncGroups _ (some snapshot) => d.publishes snapshot = false
  | _ => True

section Reconcile

structure Reconciling (configured : List String) (acc : List String × List String) : Prop where
  nodup : acc.2.Nodup
  apart : ∀ model ∈ acc.2, model ∉ acc.1
  whole : ∀ model, model ∈ acc.1 ∨ model ∈ acc.2 ↔ model ∈ configured

variable {configured : List String} {acc : List String × List String}

theorem Reconciling.take (h : Reconciling configured acc) (model : String) :
    Reconciling configured (takeRemaining acc model) ∧
      model ∉ (takeRemaining acc model).1 ∧
      ∀ other, other ∉ acc.1 → other ∉ (takeRemaining acc model).1 := by
  rw [takeRemaining]
  split
  · rename_i hmem
    have hnew : model ∉ acc.2 := fun hin => h.apart model hin hmem
    refine ⟨⟨?_, ?_, ?_⟩, ?_, ?_⟩
    · exact h.nodup.append (nodup_singleton model) (by simpa using hnew)
    · intro other hother hin
      obtain ⟨hin, hne⟩ := mem_filter.mp hin
      rcases mem_append.mp hother with hother | hother
      · exact h.apart other hother hin
      · exact of_decide_eq_true hne (mem_singleton.mp hother)
    · intro other
      rw [← h.whole other]
      by_cases heq : other = model
      · subst heq
        simp [hmem]
      · simp [heq]
    · simp
    · intro other hother hin
      exact hother (mem_filter.mp hin).1
  · rename_i hmem
    exact ⟨h, hmem, fun other hother => hother⟩

theorem Reconciling.fold (h : Reconciling configured acc) (models : List String) :
    Reconciling configured (models.foldl takeRemaining acc) ∧
      (∀ model ∈ models, model ∉ (models.foldl takeRemaining acc).1) ∧
      ∀ other, other ∉ acc.1 → other ∉ (models.foldl takeRemaining acc).1 := by
  induction models generalizing acc with
  | nil => exact ⟨h, nofun, fun other hother => hother⟩
  | cons model models ih =>
    obtain ⟨htaken, hmodel, hkeep⟩ := h.take model
    obtain ⟨hlast, hmodels, hrest⟩ := ih htaken
    refine ⟨hlast, ?_, fun other hother => hrest other (hkeep other hother)⟩
    intro other hother
    rcases mem_cons.mp hother with rfl | hother
    · exact hrest other hmodel
    · exact hmodels other hother

theorem reconcileModelOrder_spec (previous configured : List String) :
    (reconcileModelOrder previous configured).Nodup ∧
      ∀ model, model ∈ reconcileModelOrder previous configured ↔ model ∈ configured := by
  have hstart : Reconciling configured (configured, []) := ⟨nodup_nil, nofun, by simp⟩
  obtain ⟨hlast, hmodels, -⟩ := hstart.fold (previous ++ configured)
  refine ⟨hlast.nodup, fun model => ?_⟩
  rw [← hlast.whole model]
  constructor
  · exact .inr
  · rintro (hmem | hmem)
    · have hconfigured := (hlast.whole model).mp (.inl hmem)
      exact absurd hmem (hmodels model (mem_append_right _ hconfigured))
    · exact hmem

end Reconcile

theorem staggerModelOrder_perm (d : SchedulingLedger) (key : GroupModelKey)
    (order : List String) : (d.staggerModelOrder key order).Perm order := by
  rw [SchedulingLedger.staggerModelOrder]
  split
  · exact .refl _
  · split
    · exact .refl _
    · rename_i jitter hjitter hlength
      set offset := (jitter.cursor key (UInt64.ofNat order.length)).toNat
      have hperm : (order.drop offset ++ order.take offset).Perm
          (order.take offset ++ order.drop offset) := perm_append_comm
      rwa [take_append_drop] at hperm

/-- A stored queue is an arrangement of the models configured for it. -/
structure Arranged (configured order : List String) : Prop where
  nonempty : order ≠ []
  nodup : order.Nodup
  mem_iff : ∀ model, model ∈ order ↔ model ∈ configured

theorem Arranged.perm {configured order order' : List String} (h : Arranged configured order)
    (hperm : order'.Perm order) : Arranged configured order' where
  nonempty heq := h.nonempty (perm_nil.mp (heq ▸ hperm.symm))
  nodup := hperm.nodup_iff.mpr h.nodup
  mem_iff model := hperm.mem_iff.trans (h.mem_iff model)

/-- Each stored queue is an arrangement of what was configured at its synchronisation. -/
def Rotating (s : Rotation) : Prop :=
  ∀ key order, s.ledger.modelCursors key = some order → Arranged (s.configured key) order

theorem rotating_start (jitter : Option Jitter) : Rotating (.start jitter) := by
  intro key order h
  cases h

theorem arranged_reconciled {previous configured models : List String}
    (hlength : 1 < models.length) (hperm : configured.Perm models) :
    Arranged models (reconcileModelOrder previous configured) := by
  obtain ⟨hnodup, hmem⟩ := reconcileModelOrder_spec previous configured
  have hiff : ∀ model, model ∈ reconcileModelOrder previous configured ↔ model ∈ models :=
    fun model => (hmem model).trans hperm.mem_iff
  refine ⟨?_, hnodup, hiff⟩
  intro hnil
  obtain ⟨first, hfirst⟩ := exists_mem_of_length_pos (Nat.lt_trans Nat.zero_lt_one hlength)
  rw [← hiff first, hnil] at hfirst
  exact not_mem_nil hfirst

theorem syncedCursor_eq (d : SchedulingLedger) (snapshot : ConfigSnapshot)
    (key : GroupModelKey) :
    d.syncedCursor snapshot key =
      if 1 < (configuredModels snapshot key).length then
        let models := (configuredModels snapshot key).insertionSort (· ≤ ·)
        match d.modelCursors key with
        | none => some (d.staggerModelOrder key (reconcileModelOrder [] models))
        | some previous => some (reconcileModelOrder previous models)
      else
        match snapshot.catalogView key.groupID with
        | none => none
        | some group => if group.enabled then none else d.modelCursors key :=
  rfl

theorem syncedCursor_cases {d : SchedulingLedger} {snapshot : ConfigSnapshot}
    {key : GroupModelKey} {order : List String} (h : d.syncedCursor snapshot key = some order) :
    heldBack snapshot key = false ∧ Arranged (configuredModels snapshot key) order ∨
      heldBack snapshot key = true ∧ d.modelCursors key = some order := by
  rw [syncedCursor_eq] at h
  split at h
  · rename_i hlength
    have hsorted := perm_insertionSort (· ≤ ·) (configuredModels snapshot key)
    refine .inl ⟨by simp [heldBack, hlength], ?_⟩
    cases hcursor : d.modelCursors key with
    | none =>
      simp only [hcursor, Option.some.injEq] at h
      exact h ▸ (arranged_reconciled hlength hsorted).perm (staggerModelOrder_perm d key _)
    | some previous =>
      simp only [hcursor, Option.some.injEq] at h
      exact h ▸ arranged_reconciled hlength hsorted
  · rename_i hlength
    split at h
    · cases h
    · rename_i group hgroup
      split at h
      · cases h
      · rename_i henabled
        exact .inr ⟨by simp [heldBack, hgroup, henabled, Nat.not_lt.mp hlength], h⟩

theorem syncGroups_modelCursors (d : SchedulingLedger) (snapshot : ConfigSnapshot) :
    (d.syncGroups (some snapshot)).modelCursors =
      if d.publishes snapshot then d.syncedCursor snapshot else d.modelCursors := by
  rw [SchedulingLedger.syncGroups]
  split
  · rename_i hold
    have hstale : d.publishes snapshot = false := by
      simp [SchedulingLedger.publishes, hold.1, hold.2]
    simp [hstale]
  · rename_i hnew
    have hfresh : d.publishes snapshot = true := by
      simp only [SchedulingLedger.publishes, Bool.or_eq_true, Bool.not_eq_true',
        decide_eq_true_iff]
      by_cases hknown : d.groupsKnown = true
      · exact .inr (Nat.not_le.mp fun hle => hnew ⟨hknown, hle⟩)
      · exact .inl (Bool.eq_false_iff.mpr hknown)
    rw [if_pos hfresh]
    rfl

section Select

variable {d : SchedulingLedger} {key : GroupModelKey} {models : List String}

theorem searchModel_cases (d : SchedulingLedger) (key : GroupModelKey) (models : List String) :
    (d.searchModel key models).1 = d ∨
      ∃ order model order', d.modelCursors key = some order ∧
        RoundRobin.serve (found models) order = some (model, order') ∧
        d.searchModel key models =
          ({ d with modelCursors := Function.update d.modelCursors key (some order') }, model) := by
  cases models with
  | nil => exact .inl rfl
  | cons first rest =>
    rw [SchedulingLedger.searchModel]
    split
    · exact .inl rfl
    · rename_i model order' hserve
      cases hcursor : d.modelCursors key with
      | none =>
        rw [hcursor] at hserve
        cases hserve
      | some order =>
        rw [hcursor] at hserve
        exact .inr ⟨order, model, order', rfl, hserve, rfl⟩

theorem searchModel_serve {order order' : List String} {model : String}
    (hnonempty : models ≠ []) (hcursor : d.modelCursors key = some order)
    (hserve : RoundRobin.serve (found models) order = some (model, order')) :
    d.searchModel key models =
      ({ d with modelCursors := Function.update d.modelCursors key (some order') }, model) := by
  obtain ⟨first, rest, rfl⟩ := exists_cons_of_ne_nil hnonempty
  simp only [SchedulingLedger.searchModel, hcursor, Option.getD_some, hserve]

theorem searchModel_mem (hsorted : models.Pairwise (· ≤ ·)) (hnonempty : models ≠ []) :
    (d.searchModel key models).2 ∈ models := by
  obtain ⟨first, rest, rfl⟩ := exists_cons_of_ne_nil hnonempty
  rw [SchedulingLedger.searchModel]
  split
  · exact .head _
  · rename_i model order' hserve
    obtain ⟨-, -, -, -, hfound, -⟩ := RoundRobin.serve_eq_some hserve
    exact (found_iff hsorted).mp hfound

theorem searchModel_groups (d : SchedulingLedger) (key : GroupModelKey) (models : List String) :
    (d.searchModel key models).1.groupsKnown = d.groupsKnown ∧
      (d.searchModel key models).1.groupRevision = d.groupRevision := by
  rcases searchModel_cases d key models with heq | ⟨order, model, order', -, -, heq⟩
  · rw [heq]
    exact ⟨rfl, rfl⟩
  · rw [heq]
    exact ⟨rfl, rfl⟩

end Select

variable {s : Rotation}

theorem Rotating.apply (h : Rotating s) (call : RotationCall) : Rotating (s.apply call) := by
  intro key order hstored
  cases call with
  | syncGroups draws snapshot =>
    cases snapshot with
    | none => exact h key order hstored
    | some snapshot =>
      have hcursors := syncGroups_modelCursors { s.ledger with jitter := draws } snapshot
      change ({ s.ledger with jitter := draws }.syncGroups snapshot).modelCursors key = _ at hstored
      change Arranged (s.publish snapshot key) order
      change _ = if s.ledger.publishes snapshot then _ else _ at hcursors
      cases hfresh : s.ledger.publishes snapshot with
      | false =>
        rw [hcursors, hfresh] at hstored
        simpa [Rotation.publish, hfresh] using h key order hstored
      | true =>
        rw [hcursors, hfresh] at hstored
        rcases syncedCursor_cases hstored with ⟨hheld, harranged⟩ | ⟨hheld, hkept⟩
        · simpa [Rotation.publish, hfresh, hheld] using harranged
        · simpa [Rotation.publish, hheld] using h key order hkept
  | selectModel key' models =>
    change (s.ledger.searchModel key' models).1.modelCursors key = some order at hstored
    rcases searchModel_cases s.ledger key' models with heq |
      ⟨queue, model, queue', hqueue, hserve, heq⟩
    · rw [heq] at hstored
      exact h key order hstored
    · rw [heq] at hstored
      by_cases hkey : key = key'
      · subst hkey
        simp only [Function.update_self, Option.some.injEq] at hstored
        subst hstored
        exact (h key queue hqueue).perm (RoundRobin.serve_perm hserve)
      · simp only [Function.update_of_ne hkey] at hstored
        exact h key order hstored

theorem Rotating.run (h : Rotating s) (calls : List RotationCall) : Rotating (s.run calls) := by
  induction calls generalizing s with
  | nil => exact h
  | cons call calls ih => exact ih (h.apply call)

section Quiet

variable {s : Rotation} {key : GroupModelKey}

theorem RotationCall.Quiet.congr {d d' : SchedulingLedger} {call : RotationCall}
    (h : call.Quiet d) (hknown : d'.groupsKnown = d.groupsKnown)
    (hrevision : d'.groupRevision = d.groupRevision) : call.Quiet d' := by
  match call with
  | .selectModel _ _ => trivial
  | .syncGroups _ none => trivial
  | .syncGroups _ (some snapshot) =>
    change d'.publishes snapshot = false
    rw [SchedulingLedger.publishes, hknown, hrevision]
    exact h

theorem apply_quiet_sync {draws : Option Jitter} {snapshot : Option ConfigSnapshot}
    (h : (RotationCall.syncGroups draws snapshot).Quiet s.ledger) :
    s.apply (.syncGroups draws snapshot) =
      { s with ledger := { s.ledger with jitter := draws } } := by
  cases snapshot with
  | none => rfl
  | some snapshot =>
    have hstale : s.ledger.publishes snapshot = false := h
    have hconfigured : s.publish (some snapshot) = s.configured := by
      funext key
      simp [Rotation.publish, hstale]
    simp only [SchedulingLedger.publishes, Bool.or_eq_false_iff, Bool.not_eq_false',
      decide_eq_false_iff_not, Nat.not_lt] at hstale
    have hledger : { s.ledger with jitter := draws }.syncGroups (some snapshot) =
        { s.ledger with jitter := draws } := if_pos hstale
    rw [Rotation.apply, hconfigured, hledger]

variable {calls : List RotationCall}

theorem returned_eq_taken {order : List String} {model : String}
    (hstored : s.ledger.modelCursors key = some order) (hmem : model ∈ order)
    (hadmissible : Admissible s calls) (hquiet : ∀ call ∈ calls, call.Quiet s.ledger)
    (hoffered : ∀ models ∈ offers key calls, model ∈ models) :
    s.returned key calls = RoundRobin.taken order ((offers key calls).map found) := by
  induction calls generalizing s order with
  | nil => rfl
  | cons call calls ih =>
    have hlater : ∀ later ∈ calls, later.Quiet s.ledger :=
      fun later hmem => hquiet later (mem_cons_of_mem _ hmem)
    obtain ⟨hcall, hrest⟩ := hadmissible
    cases call with
    | syncGroups draws snapshot =>
      have hsame := apply_quiet_sync (hquiet _ (.head _))
      rw [hsame] at hrest
      rw [Rotation.returned, hsame]
      exact ih hstored hmem hrest (fun later hin => (hlater later hin).congr rfl rfl) hoffered
    | selectModel key' models =>
      have hgroups := searchModel_groups s.ledger key' models
      have hstill : ∀ later ∈ calls, later.Quiet (s.apply (.selectModel key' models)).ledger :=
        fun later hin => (hlater later hin).congr hgroups.1 hgroups.2
      by_cases hkey : key' = key
      · subst hkey
        have hoffers : offers key' (.selectModel key' models :: calls) =
            models :: offers key' calls := by simp [offers]
        rw [hoffers] at hoffered ⊢
        have hmodel := hoffered models (.head _)
        have hfound := (found_iff hcall.1).mpr hmodel
        rw [Rotation.returned, if_pos rfl, map_cons, RoundRobin.taken]
        split
        · rename_i hnone
          rw [RoundRobin.serve_eq_none_iff.mp hnone model hmem] at hfound
          cases hfound
        · rename_i chosen order' hserve
          have hselect := searchModel_serve (ne_nil_of_mem hmodel) hstored hserve
          have hqueue : (s.apply (.selectModel key' models)).ledger.modelCursors key' =
              some order' := by
            simp [Rotation.apply, hselect]
          rw [ih hqueue ((RoundRobin.serve_perm hserve).mem_iff.mpr hmem) hrest hstill
            (fun models hin => hoffered models (.tail _ hin)), hselect]
      · have hoffers : offers key (.selectModel key' models :: calls) = offers key calls := by
          simp [offers, hkey]
        rw [hoffers] at hoffered ⊢
        rw [Rotation.returned, if_neg hkey]
        refine ih ?_ hmem hrest hstill hoffered
        rcases searchModel_cases s.ledger key' models with
          heq | ⟨queue, chosen, queue', -, -, heq⟩
        · rw [Rotation.apply, heq]
          exact hstored
        · rw [Rotation.apply, heq]
          exact (Function.update_of_ne (Ne.symm hkey) _ _).trans hstored

theorem admissible_offers (hadmissible : Admissible s calls)
    (hquiet : ∀ call ∈ calls, call.Quiet s.ledger) :
    ∀ models ∈ offers key calls,
      models.Pairwise (· ≤ ·) ∧ ∀ model ∈ models, model ∈ s.configured key := by
  induction calls generalizing s with
  | nil => exact nofun
  | cons call calls ih =>
    have hlater : ∀ later ∈ calls, later.Quiet s.ledger :=
      fun later hmem => hquiet later (mem_cons_of_mem _ hmem)
    obtain ⟨hcall, hrest⟩ := hadmissible
    cases call with
    | syncGroups draws snapshot =>
      rw [apply_quiet_sync (hquiet _ (.head _))] at hrest
      have hothers := ih hrest fun later hin => (hlater later hin).congr rfl rfl
      exact hothers
    | selectModel key' models =>
      have hgroups := searchModel_groups s.ledger key' models
      have hothers := ih hrest fun later hin => (hlater later hin).congr hgroups.1 hgroups.2
      intro offered hin
      rcases mem_filterMap.mp hin with ⟨call, hcallin, hoffered⟩
      rcases mem_cons.mp hcallin with rfl | hcallin
      · obtain ⟨rfl, heq⟩ := Option.ite_none_right_eq_some.mp hoffered
        exact Option.some.inj heq ▸ hcall
      · exact hothers offered (mem_filterMap.mpr ⟨call, hcallin, hoffered⟩)

end Quiet

theorem Arranged.perm_dedup {configured order : List String} (h : Arranged configured order) :
    order.Perm configured.dedup := by
  rw [perm_ext_iff_of_nodup h.nodup (nodup_dedup configured)]
  intro model
  rw [mem_dedup, h.mem_iff]

def twoModels : ConfigSnapshot where
  revision := 1
  routeStrategy := .nativeFirst
  executionCandidates := []
  executionRouteCatalog := []
  groups := [⟨1, 0, [⟨"b", "m"⟩, ⟨"a", "m"⟩], false, none⟩]
  groupCatalog := [⟨1, "group", 0, true, none⟩]

def published : Rotation := (Rotation.start none).run [.syncGroups none (some twoModels)]

/-- Each stored queue arranges the configured models. A selection with a model on offer
returns one on offer. A model on offer in as many selections as the queue is long is
returned in one of them, and when all are on offer each is returned once. -/
theorem models_take_turns (s : Rotation) (h : s.Reachable) :
    (∀ key order, s.ledger.modelCursors key = some order →
        order.Perm (s.configured key).dedup) ∧
      (∀ key models, (RotationCall.selectModel key models).Admissible s → models ≠ [] →
        (s.ledger.searchModel key models).2 ∈ models) ∧
      ∀ key order later, s.ledger.modelCursors key = some order → Admissible s later →
        (∀ call ∈ later, call.Quiet s.ledger) → (offers key later).length = order.length →
        (∀ model, (∀ models ∈ offers key later, model ∈ models) →
          model ∈ s.returned key later) ∧
        ((∀ models ∈ offers key later, ∀ model ∈ order, model ∈ models) →
          ∀ model ∈ order, (s.returned key later).count model = 1) := by
  obtain ⟨jitter, calls, rfl⟩ := h
  set s := (Rotation.start jitter).run calls
  have hrotating : Rotating s := (rotating_start jitter).run calls
  refine ⟨fun key order hstored => (hrotating key order hstored).perm_dedup,
    fun key models hadmissible hnonempty => searchModel_mem hadmissible.1 hnonempty, ?_⟩
  intro key order later hstored hadmissible hquiet hlength
  have harranged := hrotating key order hstored
  have hdrawn := @admissible_offers s key later hadmissible hquiet
  have hturns : ((offers key later).map found).length = order.length := by
    rw [length_map, hlength]
  constructor
  · intro model hoffered
    obtain ⟨first, hfirst⟩ : ∃ first, first ∈ offers key later := by
      apply exists_mem_of_length_pos
      rw [hlength]
      exact length_pos_iff.mpr harranged.nonempty
    have hmem := (harranged.mem_iff model).mpr
      ((hdrawn first hfirst).2 model (hoffered first hfirst))
    rw [returned_eq_taken hstored hmem hadmissible hquiet hoffered]
    refine RoundRobin.mem_taken hmem ?_ (hturns ▸ idxOf_lt_length_of_mem hmem)
    intro offered hin
    obtain ⟨models, hmodels, rfl⟩ := mem_map.mp hin
    exact (found_iff (hdrawn models hmodels).1).mpr (hoffered models hmodels)
  · intro hall model hmem
    have htaken : RoundRobin.taken (order ++ []) ((offers key later).map found) =
        order := by
      refine RoundRobin.taken_front ?_ hturns
      intro offered hin other hother
      obtain ⟨models, hmodels, rfl⟩ := mem_map.mp hin
      rw [append_nil] at hother
      exact (found_iff (hdrawn models hmodels).1).mpr (hall models hmodels other hother)
    rw [returned_eq_taken hstored hmem hadmissible hquiet
      fun models hin => hall models hin model hmem]
    rw [append_nil] at htaken
    rw [htaken]
    exact count_eq_one_of_mem harranged.nodup hmem

/-- Two selections from two models. -/
theorem models_take_turns_two :
    published.ledger.modelCursors ⟨1, "m"⟩ = some ["a", "b"] ∧
      "b" ∈ published.returned ⟨1, "m"⟩
        [.selectModel ⟨1, "m"⟩ ["a", "b"], .selectModel ⟨1, "m"⟩ ["b"]] ∧
      (published.returned ⟨1, "m"⟩
        [.selectModel ⟨1, "m"⟩ ["a", "b"], .selectModel ⟨1, "m"⟩ ["a", "b"]]).count "b" = 1 := by
  have hstored : published.ledger.modelCursors ⟨1, "m"⟩ = some ["a", "b"] := by decide +kernel
  have hconfigured : published.configured ⟨1, "m"⟩ = ["b", "a"] := by decide +kernel
  have hdrawn : ∀ models, models.Pairwise (· ≤ ·) → (∀ model ∈ models, model ∈ ["b", "a"]) →
      Admissible published [.selectModel ⟨1, "m"⟩ ["a", "b"], .selectModel ⟨1, "m"⟩ models] := by
    intro models hsorted hmodels
    refine ⟨⟨by decide, ?_⟩, ⟨hsorted, ?_⟩, trivial⟩
    · decide
    · exact fun model hmem => hconfigured ▸ hmodels model hmem
  obtain ⟨-, -, hturns⟩ := models_take_turns published ⟨none, _, rfl⟩
  refine ⟨hstored, ?_, ?_⟩
  · refine (hturns ⟨1, "m"⟩ _ _ hstored (hdrawn ["b"] (by decide) (by decide)) ?_ rfl).1 "b" ?_
    · simp [RotationCall.Quiet]
    · simp [offers]
  · refine (hturns ⟨1, "m"⟩ _ _ hstored (hdrawn ["a", "b"] (by decide) (by decide)) ?_ rfl).2
      ?_ "b" (by decide)
    · simp [RotationCall.Quiet]
    · simp [offers]

/-- Nothing on offer: the selection returns the empty name, which is no model. -/
theorem nothing_on_offer :
    (Rotation.start none).Reachable ∧
      (RotationCall.selectModel ⟨1, "m"⟩ []).Admissible (Rotation.start none) ∧
      ((Rotation.start none).ledger.searchModel ⟨1, "m"⟩ []).2 = "" ∧
      ((Rotation.start none).ledger.searchModel ⟨1, "m"⟩ []).2 ∉ ([] : List String) := by
  refine ⟨⟨none, [], rfl⟩, ⟨List.Pairwise.nil, ?_⟩, rfl, not_mem_nil⟩
  exact nofun

end EchoJoyGateway.State
