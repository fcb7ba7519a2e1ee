import EchoJoyGateway.State.Compile
import EchoJoyGateway.Lib.Traverse

/-!
# What a compiled snapshot satisfies

The two tables and the two indexes come from one list of groups with distinct
ids that are not zero. The candidates are the routes of the catalog whose group
is switched on.
-/

namespace EchoJoyGateway.State

open List

section Entries

variable {group : GroupConfig} {target : ResolvedTarget} {p : Protocol} {operation : Operation}

theorem modelEntry_group {model : ModelConfig} {entry : RouteEntry}
    (h : modelEntry group target p operation model = .ok entry) :
    entry.target.groupID = group.id := by
  unfold modelEntry at h
  split at h
  · cases h
  · cases h
    rfl

variable {entries : List RouteEntry}

theorem modelEntries_group
    (h : group.models.mapM (modelEntry group target p operation) = .ok entries) :
    ∀ entry ∈ entries, entry.target.groupID = group.id := by
  intro entry hentry
  obtain ⟨model, -, hmodel⟩ := (Traverse.mem_mapM h).mp hentry
  exact modelEntry_group hmodel

theorem operationEntries_group (h : operationEntries group target p operation = .ok entries) :
    ∀ entry ∈ entries, entry.target.groupID = group.id := by
  unfold operationEntries at h
  split at h
  case h_8 =>
    obtain ⟨models, hmodels, ⟨⟩⟩ := Traverse.bind_ok.mp h
    intro entry hentry
    rcases mem_cons.mp hentry with rfl | hentry
    · rfl
    · exact modelEntries_group hmodels entry hentry
  case h_11 => exact modelEntries_group h
  all_goals
    cases h
    try simp [noModelEntry]

theorem executionTargets_group {registry : ChannelRegistry}
    (h : executionTargets registry group = .ok entries) :
    ∀ entry ∈ entries, entry.target.groupID = group.id := by
  unfold executionTargets at h
  split at h
  · cases h
  · cases h
  · split at h
    · cases h
      intro entry hentry
      cases hentry
    · obtain ⟨lists, houter, ⟨⟩⟩ := Traverse.bind_ok.mp h
      intro entry hentry
      obtain ⟨list, hlist, hin⟩ := mem_flatten.mp hentry
      obtain ⟨p, -, hp⟩ := (Traverse.mem_mapM houter).mp hlist
      obtain ⟨inner, hinner, ⟨⟩⟩ := Traverse.bind_ok.mp hp
      obtain ⟨entries, hentries, hmem⟩ := mem_flatten.mp hin
      obtain ⟨operation, -, hoperation⟩ := (Traverse.mem_mapM hinner).mp hentries
      exact operationEntries_group hoperation entry hmem

end Entries

section Groups

variable {input : CompileInput}

structure Builds (input : CompileInput) (done : List GroupConfig) (snapshot : ConfigSnapshot) :
    Prop where
  catalog : snapshot.groupCatalog = done.map GroupConfig.catalogView
  groups : ∀ view, view ∈ snapshot.groups ↔
    ∃ group ∈ done, group.enabled = true ∧
      ∃ websocket, input.groupSettings group = .ok websocket ∧ view = group.view websocket
  settled : ∀ group ∈ done, ∃ websocket, input.groupSettings group = .ok websocket
  routes : ∀ entry, entry ∈ snapshot.executionRouteCatalog ↔
    ∃ group ∈ done, ∃ targets, executionTargets input.channelRegistry group = .ok targets ∧
      entry ∈ targets
  candidates : ∀ entry, entry ∈ snapshot.executionCandidates ↔
    ∃ group ∈ done, group.enabled = true ∧ ∃ targets,
      executionTargets input.channelRegistry group = .ok targets ∧ entry ∈ targets

theorem exists_mem_concat {α : Type} {P : α → Prop} {l : List α} {a : α} :
    (∃ x ∈ l ++ [a], P x) ↔ (∃ x ∈ l, P x) ∨ P a := by
  simp

variable {group : GroupConfig}

theorem Builds.step {done : List GroupConfig} {snapshot snapshot' : ConfigSnapshot}
    (h : Builds input done snapshot) (hgroup : compileGroup input snapshot group = .ok snapshot') :
    Builds input (done ++ [group]) snapshot' := by
  unfold compileGroup at hgroup
  split at hgroup
  · cases hgroup
  · cases hgroup
  · rename_i targets websocket htargets hwebsocket
    have hsettled : ∀ g ∈ done ++ [group], ∃ websocket, input.groupSettings g = .ok websocket := by
      intro g hg
      rcases mem_append.mp hg with hg | hg
      · exact h.settled g hg
      · rw [mem_singleton.mp hg]
        exact ⟨websocket, hwebsocket⟩
    have hroutes : ∀ entry, entry ∈ snapshot.executionRouteCatalog ++ targets ↔
        ∃ g ∈ done ++ [group], ∃ targets,
          executionTargets input.channelRegistry g = .ok targets ∧ entry ∈ targets := by
      intro entry
      rw [mem_append, h.routes, exists_mem_concat, htargets]
      simp
    split at hgroup
    · rename_i henabled
      cases hgroup
      refine ⟨by simp [h.catalog], ?_, hsettled, hroutes, ?_⟩
      · intro view
        rw [mem_append, h.groups, exists_mem_concat, hwebsocket]
        simp [henabled]
      · intro entry
        rw [mem_append, h.candidates, exists_mem_concat, htargets]
        simp [henabled]
    · rename_i henabled
      cases hgroup
      refine ⟨by simp [h.catalog], ?_, hsettled, hroutes, ?_⟩
      · intro view
        rw [h.groups]
        simp [henabled]
      · intro entry
        rw [h.candidates]
        simp [henabled]

theorem Builds.compileGroups {rest done : List GroupConfig} {snapshot snapshot' : ConfigSnapshot}
    (h : Builds input done snapshot) (hrest : compileGroups input snapshot rest = .ok snapshot') :
    Builds input (done ++ rest) snapshot' := by
  induction rest generalizing done snapshot with
  | nil =>
    cases hrest
    simpa using h
  | cons group rest ih =>
    unfold State.compileGroups at hrest
    split at hrest
    · cases hrest
    · rename_i mid hmid
      have hlist := ih (h.step hmid) hrest
      rwa [append_assoc] at hlist

variable {registry : ChannelRegistry} {seen : List Nat}

theorem validateGroup_ok (h : validateGroup registry seen group = .ok ()) :
    group.id ≠ 0 ∧ group.id ∉ seen := by
  unfold validateGroup at h
  constructor
  · intro hzero
    rw [if_pos hzero] at h
    cases h
  · intro hseen
    by_cases hzero : group.id = 0
    · rw [if_pos hzero] at h
      cases h
    · rw [if_neg hzero, if_pos hseen] at h
      cases h

theorem validateGroups_ok {groups : List GroupConfig}
    (h : validateGroups registry seen groups = .ok ()) :
    (∀ group ∈ groups, group.id ≠ 0) ∧
      (groups.map GroupConfig.id).Nodup ∧ ∀ group ∈ groups, group.id ∉ seen := by
  induction groups generalizing seen with
  | nil => simp
  | cons group rest ih =>
    unfold validateGroups at h
    split at h
    · cases h
    · rename_i hgroup
      obtain ⟨hzero, hseen⟩ := validateGroup_ok hgroup
      obtain ⟨hzeros, hrest⟩ := ih h
      exact ⟨forall_mem_cons.mpr ⟨hzero, hzeros⟩, Traverse.unseen_cons hseen hrest⟩

end Groups

structure Compiled (snapshot : ConfigSnapshot) : Prop where
  nonzero : ∀ id view, snapshot.group id = some view → id ≠ 0
  listed : ∀ id view, snapshot.group id = some view →
    ∃ catalog, snapshot.catalogView id = some catalog ∧ catalog.id = id ∧
      catalog.enabled = true ∧ catalog.priority = view.priority ∧
      catalog.weightManual = view.weightManual
  open_group : ∀ id catalog, snapshot.catalogView id = some catalog → catalog.enabled = true →
    ∃ view, snapshot.group id = some view
  cataloged : ∀ entry ∈ snapshot.executionRouteCatalog,
    ∃ catalog, snapshot.catalogView entry.target.groupID = some catalog
  candidates : ∀ entry, entry ∈ snapshot.executionCandidates ↔
    entry ∈ snapshot.executionRouteCatalog ∧ ∃ view, snapshot.group entry.target.groupID = some view

theorem find_eq_some_of_unique {α : Type} {l : List α} {key : α → Nat} {a : α} (ha : a ∈ l)
    (hunique : ∀ b ∈ l, key b = key a → b = a) :
    (l.find? fun b => key b == key a) = some a := by
  cases hfind : l.find? fun b => key b == key a with
  | none =>
    have := find?_eq_none.mp hfind a ha
    simp at this
  | some b =>
    have hkey : key b = key a := by
      simpa using find?_some hfind
    rw [hunique b (mem_of_find?_eq_some hfind) hkey]

section Tables

variable {input : CompileInput} {groups : List GroupConfig} {snapshot : ConfigSnapshot}

theorem config_unique (hnodup : (groups.map GroupConfig.id).Nodup) {a b : GroupConfig}
    (ha : a ∈ groups) (hb : b ∈ groups) (h : a.id = b.id) : a = b :=
  inj_on_of_nodup_map hnodup ha hb h

theorem Builds.catalogView_iff (h : Builds input groups snapshot)
    (hnodup : (groups.map GroupConfig.id).Nodup) {id : Nat} {catalog : GroupCatalogView} :
    snapshot.catalogView id = some catalog ↔
      ∃ group ∈ groups, group.id = id ∧ catalog = group.catalogView := by
  unfold ConfigSnapshot.catalogView
  rw [h.catalog]
  constructor
  · intro hfind
    have hid : catalog.id = id := by
      simpa using find?_some hfind
    obtain ⟨group, hgroup, rfl⟩ := mem_map.mp (mem_of_find?_eq_some hfind)
    exact ⟨group, hgroup, hid, rfl⟩
  · rintro ⟨group, hgroup, rfl, rfl⟩
    have hmem : group.catalogView ∈ groups.map GroupConfig.catalogView := mem_map_of_mem hgroup
    apply @find_eq_some_of_unique _ _ GroupCatalogView.id _ hmem
    intro other hother hid
    obtain ⟨group', hgroup', rfl⟩ := mem_map.mp hother
    rw [config_unique hnodup hgroup' hgroup hid]

theorem Builds.group_iff (h : Builds input groups snapshot)
    (hnodup : (groups.map GroupConfig.id).Nodup) {id : Nat} {view : GroupView} :
    snapshot.group id = some view ↔
      ∃ group ∈ groups, group.id = id ∧ group.enabled = true ∧
        ∃ websocket, input.groupSettings group = .ok websocket ∧ view = group.view websocket := by
  constructor
  · intro hfind
    have hid : view.id = id := by
      simpa using find?_some hfind
    obtain ⟨group, hgroup, henabled, websocket, hwebsocket, rfl⟩ :=
      (h.groups view).mp (mem_of_find?_eq_some hfind)
    exact ⟨group, hgroup, hid, henabled, websocket, hwebsocket, rfl⟩
  · rintro ⟨group, hgroup, rfl, henabled, websocket, hwebsocket, rfl⟩
    apply @find_eq_some_of_unique _ _ GroupView.id _
      ((h.groups _).mpr ⟨group, hgroup, henabled, websocket, hwebsocket, rfl⟩)
    intro other hother hid
    obtain ⟨group', hgroup', -, websocket', hwebsocket', rfl⟩ := (h.groups other).mp hother
    obtain rfl := config_unique hnodup hgroup' hgroup hid
    rw [Except.ok.inj (hwebsocket'.symm.trans hwebsocket)]

theorem Builds.compiled (h : Builds input groups snapshot)
    (hnodup : (groups.map GroupConfig.id).Nodup) (hzero : ∀ group ∈ groups, group.id ≠ 0) :
    Compiled snapshot where
  nonzero id view hview := by
    obtain ⟨group, hgroup, rfl, -⟩ := (h.group_iff hnodup).mp hview
    exact hzero group hgroup
  listed id view hview := by
    obtain ⟨group, hgroup, rfl, henabled, websocket, -, rfl⟩ := (h.group_iff hnodup).mp hview
    exact ⟨group.catalogView, (h.catalogView_iff hnodup).mpr ⟨group, hgroup, rfl, rfl⟩, rfl,
      henabled, rfl, rfl⟩
  open_group id catalog hcatalog henabled := by
    obtain ⟨group, hgroup, rfl, rfl⟩ := (h.catalogView_iff hnodup).mp hcatalog
    obtain ⟨websocket, hwebsocket⟩ := h.settled group hgroup
    exact ⟨group.view websocket, (h.group_iff hnodup).mpr
      ⟨group, hgroup, rfl, henabled, websocket, hwebsocket, rfl⟩⟩
  cataloged entry hentry := by
    obtain ⟨group, hgroup, targets, htargets, hmem⟩ := (h.routes entry).mp hentry
    exact ⟨group.catalogView, (h.catalogView_iff hnodup).mpr
      ⟨group, hgroup, (executionTargets_group htargets entry hmem).symm, rfl⟩⟩
  candidates entry := by
    rw [h.candidates, h.routes]
    constructor
    · rintro ⟨group, hgroup, henabled, targets, htargets, hmem⟩
      obtain ⟨websocket, hwebsocket⟩ := h.settled group hgroup
      exact ⟨⟨group, hgroup, targets, htargets, hmem⟩, group.view websocket,
        (h.group_iff hnodup).mpr ⟨group, hgroup,
          (executionTargets_group htargets entry hmem).symm, henabled, websocket, hwebsocket, rfl⟩⟩
    · rintro ⟨⟨group, hgroup, targets, htargets, hmem⟩, view, hview⟩
      obtain ⟨group', hgroup', hid, henabled, -⟩ := (h.group_iff hnodup).mp hview
      obtain rfl := config_unique hnodup hgroup' hgroup
        (hid.trans (executionTargets_group htargets entry hmem))
      exact ⟨group', hgroup', henabled, targets, htargets, hmem⟩

end Tables

variable {input : CompileInput} {revision : Nat} {snapshot : ConfigSnapshot}

theorem compile_builds (h : compile input revision = .ok snapshot) :
    validateGroups input.channelRegistry [] input.groups = .ok () ∧
      Builds input input.groups snapshot := by
  unfold compile at h
  split at h
  · cases h
  · cases h
  · rename_i strategy hvalid _
    split at h
    · cases h
    · rename_i built hbuilt
      cases h
      have hempty : Builds input [] ⟨revision, strategy, [], [], [], []⟩ :=
        ⟨rfl, by simp, by simp, by simp, by simp⟩
      obtain ⟨hcatalog, hgroups, hsettled, hroutes, hcandidates⟩ := hempty.compileGroups hbuilt
      -- Sorting the two indexes keeps their members.
      exact ⟨hvalid, hcatalog, hgroups, hsettled,
        fun entry => (mem_insertionSort _).trans (hroutes entry),
        fun entry => (mem_insertionSort _).trans (hcandidates entry)⟩

theorem compile_compiled (h : compile input revision = .ok snapshot) : Compiled snapshot := by
  obtain ⟨hvalid, hbuilds⟩ := compile_builds h
  obtain ⟨hzero, hnodup, -⟩ := validateGroups_ok hvalid
  exact hbuilds.compiled hnodup hzero

end EchoJoyGateway.State
