import EchoJoyGateway.Scheduler.Iterator
import EchoJoyGateway.Scheduler.Ledger
import EchoJoyGateway.State.Compiled
import EchoJoyGateway.State.RegistryCalls

/-!
# Routes and credentials that are available

Which routes a compiled snapshot admits for a query, and which credentials of a
registry are available to an iterator at a moment, in the terms of the query,
the configuration and the registry. The pools of the iterator hold exactly
these.
-/

namespace EchoJoyGateway.Scheduler

open State Clock List

variable {entry : CredentialEntry}

section Routes

variable {config : ConfigSnapshot} {index : ExecutionCandidateIndex} {nq : NormalizedQuery}

def NormalizedQuery.valid (nq : NormalizedQuery) : Bool :=
  nq.clientProtocol.valid && nq.operation.valid && nq.routeRequirement.valid &&
    nq.responsesStorePreference.valid

/-- The entry is one for the protocol, the operation and the model of the query. -/
def NormalizedQuery.serves (nq : NormalizedQuery) (entry : RouteEntry) : Bool :=
  entry.clientProtocol == nq.clientProtocol && entry.operation == nq.operation &&
    entry.externalModel == nq.externalModel.getD noModelRouteKey

variable {route : RouteTarget}

theorem mem_byModel :
    route ∈ ((index.byProtocol nq.clientProtocol).byOperation nq.operation).byModel
        (nq.externalModel.getD noModelRouteKey) ↔
      ∃ entry ∈ index, nq.serves entry = true ∧ entry.target = route := by
  simp only [ExecutionCandidateIndex.byProtocol, ExecutionCandidateIndex.byOperation,
    ExecutionCandidateIndex.byModel, NormalizedQuery.serves, mem_map, mem_filter,
    Bool.and_eq_true]
  constructor
  · rintro ⟨entry, ⟨⟨⟨hmem, hp⟩, ho⟩, hm⟩, rfl⟩
    exact ⟨entry, hmem, ⟨⟨hp, ho⟩, hm⟩, rfl⟩
  · rintro ⟨entry, hmem, ⟨⟨hp, ho⟩, hm⟩, rfl⟩
    exact ⟨entry, ⟨⟨⟨hmem, hp⟩, ho⟩, hm⟩, rfl⟩

theorem findRoutes_spec (index : ExecutionCandidateIndex) (nq : NormalizedQuery) :
    (∃ reason, findRoutes index nq = .error reason ∧
      ∀ route, ¬ (nq.valid = true ∧ ∃ entry ∈ index, nq.serves entry = true ∧
        entry.target = route)) ∨
    ∃ routes, findRoutes index nq = .ok routes ∧ nq.valid = true ∧
      ∀ route, route ∈ routes ↔ ∃ entry ∈ index, nq.serves entry = true ∧ entry.target = route := by
  unfold findRoutes
  by_cases hvalid : nq.valid = true
  · have hinvalid : ¬ (nq.clientProtocol.valid = false ∨ nq.operation.valid = false ∨
        nq.routeRequirement.valid = false ∨ nq.responsesStorePreference.valid = false) := by
      simp only [NormalizedQuery.valid, Bool.and_eq_true] at hvalid
      simp [hvalid.1.1.1, hvalid.1.1.2, hvalid.1.2, hvalid.2]
    rw [if_neg hinvalid]
    simp only [← mem_byModel]
    by_cases hprotocol : (index.byProtocol nq.clientProtocol).isEmpty = true
    · refine .inl ⟨_, if_pos hprotocol, ?_⟩
      rw [isEmpty_iff.mp hprotocol]
      simp [ExecutionCandidateIndex.byOperation, ExecutionCandidateIndex.byModel]
    · rw [if_neg hprotocol]
      by_cases hoperation :
          ((index.byProtocol nq.clientProtocol).byOperation nq.operation).isEmpty = true
      · refine .inl ⟨_, if_pos hoperation, ?_⟩
        rw [isEmpty_iff.mp hoperation]
        simp [ExecutionCandidateIndex.byModel]
      · rw [if_neg hoperation]
        by_cases hmodel : (((index.byProtocol nq.clientProtocol).byOperation
            nq.operation).byModel (nq.externalModel.getD noModelRouteKey)).isEmpty = true
        · refine .inl ⟨_, if_pos hmodel, ?_⟩
          rw [isEmpty_iff.mp hmodel]
          simp
        · exact .inr ⟨_, if_neg hmodel, hvalid, fun route => Iff.rfl⟩
  · have hinvalid : nq.clientProtocol.valid = false ∨ nq.operation.valid = false ∨
        nq.routeRequirement.valid = false ∨ nq.responsesStorePreference.valid = false := by
      simp only [NormalizedQuery.valid, Bool.and_eq_true, not_and_or, Bool.not_eq_true] at hvalid
      tauto
    exact .inl ⟨_, if_pos hinvalid, fun route h => hvalid h.1⟩

structure Passes (config : ConfigSnapshot) (nq : NormalizedQuery) (route : RouteTarget) : Prop where
  requirement : (routeRequirementSatisfied nq route).satisfied = true
  enabled : ∃ group, config.catalogView route.groupID = some group ∧ group.enabled = true
  filter : passes nq.accessKey.filters.groups route.groupID = true
  websocket : nq.responsesWebsocket.isSome = true → config.websocketEnabled route.groupID = true

structure Decides (config : ConfigSnapshot) (nq : NormalizedQuery) (route : RouteTarget)
    (decision : TargetDecision) : Prop where
  target : decision.target = route
  group : config.catalogView route.groupID = some decision.group
  requirement : decision.requirementOK = (routeRequirementSatisfied nq route).satisfied
  downgraded : decision.responsesStoreDowngraded =
    (routeRequirementSatisfied nq route).storeDowngraded
  included : decision.included = true ↔ Passes config nq route

theorem decideTarget_ok {group : GroupCatalogView}
    (hgroup : config.catalogView route.groupID = some group) :
    ∃ decision, decideTarget config nq route = .ok decision ∧ Decides config nq route decision := by
  unfold decideTarget
  simp only [hgroup]
  refine ⟨_, rfl, rfl, hgroup, rfl, rfl, ?_⟩
  have hpasses : Passes config nq route ↔
      ((routeRequirementSatisfied nq route).satisfied = true ∧ group.enabled = true ∧
        passes nq.accessKey.filters.groups route.groupID = true ∧
        (nq.responsesWebsocket.isSome = true → config.websocketEnabled route.groupID = true)) := by
    constructor
    · rintro ⟨hr, ⟨group', hgroup', he⟩, hf, hw⟩
      obtain rfl := Option.some.inj (hgroup.symm.trans hgroup')
      exact ⟨hr, he, hf, hw⟩
    · rintro ⟨hr, he, hf, hw⟩
      exact ⟨hr, ⟨group, hgroup, he⟩, hf, hw⟩
  rw [hpasses]
  cases (routeRequirementSatisfied nq route).satisfied with
  | false => simp
  | true =>
    cases group.enabled with
    | false => simp
    | true =>
      cases passes nq.accessKey.filters.groups route.groupID with
      | false => simp
      | true =>
        cases nq.responsesWebsocket.isSome with
        | false => simp
        | true => cases config.websocketEnabled route.groupID <;> simp

structure Admitted (config : ConfigSnapshot) (index : ExecutionCandidateIndex)
    (nq : NormalizedQuery) (route : RouteTarget) : Prop where
  access : accessRefusal nq = none
  valid : nq.valid = true
  listed : ∃ entry ∈ index, nq.serves entry = true ∧ entry.target = route
  passes : Passes config nq route

theorem evaluateTargets_ok
    (hcatalog : ∀ entry ∈ index, ∃ group, config.catalogView entry.target.groupID = some group) :
    ∃ decisions reason, evaluateTargets (some config) index nq = .ok (decisions, reason) ∧
      (∀ decision ∈ decisions, Decides config nq decision.target decision) ∧
      ∀ route, (∃ decision ∈ decisions, decision.target = route ∧ decision.included = true) ↔
        Admitted config index nq route := by
  unfold evaluateTargets
  cases haccess : accessRefusal nq with
  | some reason =>
    refine ⟨[], some reason, rfl, by simp, ?_⟩
    intro route
    constructor
    · rintro ⟨decision, hmem, -⟩
      cases hmem
    · intro h
      rw [h.access] at haccess
      cases haccess
  | none =>
    rcases findRoutes_spec index nq with ⟨reason, hfind, hnone⟩ | ⟨routes, hfind, hvalid, hroutes⟩
    · rw [hfind]
      refine ⟨[], some reason, rfl, by simp, ?_⟩
      intro route
      constructor
      · rintro ⟨decision, hmem, -⟩
        cases hmem
      · intro h
        exact absurd ⟨h.valid, h.listed⟩ (hnone route)
    · rw [hfind]
      have hdecide : ∀ route ∈ routes, ∃ decision,
          decideTarget config nq route = .ok decision ∧ Decides config nq route decision := by
        intro route hroute
        obtain ⟨entry, hentry, -, rfl⟩ := (hroutes route).mp hroute
        obtain ⟨group, hgroup⟩ := hcatalog entry hentry
        exact decideTarget_ok hgroup
      obtain ⟨decisions, hdecisions⟩ := Traverse.exists_mapM fun route hroute =>
        (hdecide route hroute).imp fun _ h => h.1
      have hmem : ∀ decision, decision ∈ decisions ↔
          ∃ route ∈ routes, decideTarget config nq route = .ok decision :=
        fun decision => Traverse.mem_mapM hdecisions
      have hdecides : ∀ decision ∈ decisions, decision.target ∈ routes ∧
          Decides config nq decision.target decision := by
        intro decision hdecision
        obtain ⟨route, hroute, heq⟩ := (hmem decision).mp hdecision
        obtain ⟨decision', heq', hspec⟩ := hdecide route hroute
        obtain rfl := Except.ok.inj (heq.symm.trans heq')
        rw [hspec.target]
        exact ⟨hroute, hspec⟩
      have hresult : ∃ reason, (do
          let decisions ← routes.mapM (decideTarget config nq)
          if decisions.any TargetDecision.included then .ok (decisions, none)
          else .ok (decisions, commonReason decisions)) =
          (.ok (decisions, reason) : Except String _) := by
        rw [hdecisions]
        change ∃ reason, (if decisions.any TargetDecision.included then Except.ok (decisions, none)
          else .ok (decisions, commonReason decisions)) = _
        split
        · exact ⟨none, rfl⟩
        · exact ⟨_, rfl⟩
      obtain ⟨reason, hreason⟩ := hresult
      refine ⟨decisions, reason, hreason, fun decision hd => (hdecides decision hd).2, ?_⟩
      intro route
      constructor
      · rintro ⟨decision, hd, rfl, hincluded⟩
        obtain ⟨hroute, hspec⟩ := hdecides decision hd
        exact ⟨haccess, hvalid, (hroutes _).mp hroute, hspec.included.mp hincluded⟩
      · intro h
        have hroute := (hroutes route).mpr h.listed
        obtain ⟨decision, heq, hspec⟩ := hdecide route hroute
        exact ⟨decision, (hmem decision).mpr ⟨route, hroute, heq⟩, hspec.target,
          hspec.included.mpr h.passes⟩

def routed (config : ConfigSnapshot) (query : Query) : List CandidateTarget :=
  (filterTargetsWithReason (some config) query).1

theorem mem_routed (hc : Compiled config) {query : Query} {t : CandidateTarget} :
    t ∈ routed config query ↔
      Admitted config config.executionCandidates (normalizeQuery query) t.target ∧
      config.group t.target.groupID = some t.group ∧
      t.responsesStoreDowngraded =
        (routeRequirementSatisfied (normalizeQuery query) t.target).storeDowngraded := by
  have hcatalog : ∀ entry ∈ config.executionCandidates,
      ∃ group, config.catalogView entry.target.groupID = some group :=
    fun entry hentry => hc.cataloged entry ((hc.candidates entry).mp hentry).1
  obtain ⟨decisions, reason, heval, hdecides, hadmitted⟩ :=
    @evaluateTargets_ok config config.executionCandidates (normalizeQuery query) hcatalog
  have hrouted : routed config query = decisions.filterMap (includedTarget config) := by
    simp only [routed, filterTargetsWithReason, heval]
  rw [hrouted, mem_filterMap]
  constructor
  · rintro ⟨decision, hmem, ht⟩
    unfold includedTarget at ht
    rw [Option.ite_none_right_eq_some, Option.map_eq_some_iff] at ht
    obtain ⟨hincluded, group, hgroup, rfl⟩ := ht
    exact ⟨(hadmitted _).mp ⟨decision, hmem, rfl, hincluded⟩, hgroup,
      (hdecides decision hmem).downgraded⟩
  · rintro ⟨ht, hgroup, hdowngraded⟩
    obtain ⟨decision, hmem, htarget, hincluded⟩ := (hadmitted t.target).mpr ht
    refine ⟨decision, hmem, ?_⟩
    have hspec := hdecides decision hmem
    unfold includedTarget
    rw [if_pos hincluded, htarget, hgroup, hspec.downgraded, htarget, ← hdowngraded]
    rfl

end Routes

section Pools

variable {targets : List CandidateTarget} {downgraded : Bool}

theorem foldl_add_targets (l : List CandidateTarget) (pool : CandidatePool) (g : Nat) :
    (l.foldl .add pool).targetsByGroup g =
      pool.targetsByGroup g ++ l.filter fun t => t.target.groupID == g := by
  induction l generalizing pool with
  | nil => simp
  | cons t l ih =>
    rw [foldl_cons, ih]
    unfold CandidatePool.add
    rcases eq_or_ne t.target.groupID g with rfl | hne
    · simp
    · simp [hne, Function.update_of_ne hne.symm]

theorem mem_foldl_add_groups (l : List CandidateTarget) (pool : CandidatePool) (mode : RouteMode)
    (g : Nat) :
    g ∈ (l.foldl .add pool).groupIDsByMode mode ↔
      g ∈ pool.groupIDsByMode mode ∨ ∃ t ∈ l, t.target.mode = mode ∧ t.target.groupID = g := by
  induction l generalizing pool with
  | nil => simp
  | cons t l ih =>
    have hadd : g ∈ (pool.add t).groupIDsByMode mode ↔
        g ∈ pool.groupIDsByMode mode ∨ (t.target.mode = mode ∧ t.target.groupID = g) := by
      unfold CandidatePool.add
      simp only
      split
      · rename_i hmem
        constructor
        · exact .inl
        · rintro (h | ⟨rfl, rfl⟩)
          · exact h
          · simpa using hmem
      · rcases eq_or_ne t.target.mode mode with rfl | hne
        · simp [eq_comm]
        · simp [hne, Function.update_of_ne hne.symm]
    rw [foldl_cons, ih, hadd]
    simp [or_assoc]

variable {g : Nat}

theorem mem_pool_targets {t : CandidateTarget} :
    t ∈ (buildPool targets downgraded).targetsByGroup g ↔
      t ∈ targets ∧ t.responsesStoreDowngraded = downgraded ∧ t.target.groupID = g := by
  unfold buildPool
  rw [mem_insertionSort, foldl_add_targets]
  simp only [newCandidatePool, nil_append, mem_filter, beq_iff_eq, and_assoc]

theorem mem_pool_groups {mode : RouteMode} :
    g ∈ (buildPool targets downgraded).groupIDsByMode mode ↔
      ∃ t ∈ targets, t.responsesStoreDowngraded = downgraded ∧ t.target.mode = mode ∧
        t.target.groupID = g := by
  unfold buildPool
  rw [mem_foldl_add_groups]
  simp [newCandidatePool, and_assoc]

theorem mem_foldl_once (l groups : List Nat) (g : Nat) :
    g ∈ l.foldl (fun groups groupID =>
        if groups.contains groupID then groups else groups ++ [groupID]) groups ↔
      g ∈ groups ∨ g ∈ l := by
  induction l generalizing groups with
  | nil => simp
  | cons x l ih =>
    rw [foldl_cons, ih]
    split
    · rename_i hx
      rw [mem_cons]
      constructor
      · rintro (h | h)
        · exact .inl h
        · exact .inr (.inr h)
      · rintro (h | rfl | h)
        · exact .inl h
        · exact .inl (by simpa using hx)
        · exact .inr h
    · simp [or_assoc]

theorem mem_poolGroups {pool : CandidatePool} {modes : List RouteMode} :
    g ∈ Iterator.poolGroups pool modes ↔ ∃ mode ∈ modes, g ∈ pool.groupIDsByMode mode := by
  unfold Iterator.poolGroups
  rw [mem_foldl_once]
  simp

end Pools

def credentialMeta (entry : CredentialEntry) : CredentialMeta :=
  ⟨entry.id, entry.groupID, entry.version, entry.identityGeneration, entry.weightManual,
    entry.modelCooldowns⟩

structure Schedulable (now : Time) (entry : CredentialEntry) : Prop where
  active : entry.status = .active
  blacklisted : entry.blacklisted = false
  cooldown : after entry.cooldownUntil now = false
  auth : entry.authState.normalize = .ready

variable {now : Time}

theorem runtimeState_available :
    ((runtimeView entry).runtimeState now = .available ∧ entry.authState.normalize = .ready) ↔
      Schedulable now entry := by
  unfold CredentialRuntimeView.runtimeState runtimeView
  constructor
  · rintro ⟨hstate, hauth⟩
    split at hstate
    · cases hstate
    · split at hstate
      · cases hstate
      · split at hstate
        · cases hstate
        · rename_i hactive hblack hcool
          exact ⟨not_not.mp hactive, eq_false_of_ne_true hblack, eq_false_of_ne_true hcool, hauth⟩
  · rintro ⟨hactive, hblack, hcool, hauth⟩
    simp [hactive, hblack, hcool, hauth]

variable {excluded : Nat → Bool} {c : CredentialMeta}

theorem credentialCandidate_iff :
    credentialCandidate excluded now entry = some c ↔
      excluded entry.id = false ∧ Schedulable now entry ∧ c = credentialMeta entry := by
  rw [← runtimeState_available]
  unfold credentialCandidate
  cases hx : excluded entry.id with
  | true => simp
  | false =>
    by_cases hready : (runtimeView entry).runtimeState now = .available ∧
        entry.authState.normalize = .ready
    · simp only [hready.1, hready.2, Bool.false_eq_true, if_false, ne_eq, not_true, or_self,
        Option.some.injEq, true_and, eq_comm]
      rfl
    · have hor : (runtimeView entry).runtimeState now ≠ .available ∨
          entry.authState.normalize ≠ .ready := by
        rw [← not_and_or]
        exact hready
      simp [hready]

theorem mem_collect {r : CredentialRegistry} (hr : r.Consistent) {groups : List Nat} :
    c ∈ collectCredentialCandidatesLocked r groups excluded now ↔
      ∃ entry, Buckets.find r.buckets entry.groupID entry.id = some entry ∧
        entry.groupID ∈ groups ∧ excluded entry.id = false ∧ Schedulable now entry ∧
        c = credentialMeta entry := by
  unfold collectCredentialCandidatesLocked
  simp only [mem_flatMap, mem_filterMap, credentialCandidate_iff]
  constructor
  · rintro ⟨g, hg, ⟨id, entry⟩, hitem, hexcluded, hready, rfl⟩
    have hfind : Buckets.find r.buckets g id = some entry := AList.mem_lookup_iff.mpr hitem
    obtain ⟨rfl, rfl⟩ := hr.entries g id entry hfind
    exact ⟨entry, hfind, hg, hexcluded, hready, rfl⟩
  · rintro ⟨entry, hfind, hg, hexcluded, hready, rfl⟩
    exact ⟨entry.groupID, hg, ⟨entry.id, entry⟩, AList.mem_lookup_iff.mp hfind, hexcluded, hready,
      rfl⟩

namespace Iterator

def pool (it : Iterator) (downgraded : Bool) : CandidatePool :=
  if downgraded then it.storeDowngraded else it.regular

structure From (config : ConfigSnapshot) (query : Query) (it : Iterator) : Prop where
  snapshot : it.snapshot = some config
  asked : it.query = query
  operation : it.operation = (normalizeQuery query).operation
  allowedIDs : it.allowedCredentialIDs = query.allowedCredentialIDs
  allowedRefs : it.allowedCredentialRefs = query.allowedCredentialRefs.map fun refs id =>
    (refs id).map fun ref => ⟨ref.groupID, ref.identityGeneration⟩
  tiers : it.routeModeTiers = Scheduler.routeModeTiers (some config)
  targets : ∀ downgraded, (it.pool downgraded).targetsByGroup =
    (buildPool (routed config query) downgraded).targetsByGroup
  groups : ∀ downgraded, (it.pool downgraded).groupIDsByMode =
    (buildPool (routed config query) downgraded).groupIDsByMode

end Iterator

/-- The model of a target is cooling for no request with this credential. -/
def cool (query : Query) (now : Time) (entry : CredentialEntry) (t : CandidateTarget) : Prop :=
  after (modelCooldownUntil entry.modelCooldowns t.target.upstreamModelID
    (normalizeQuery query).operation now) now = false

/-- The reference set of a query allows the identity of the entry. -/
def allowedRef (query : Query) (entry : CredentialEntry) : Prop :=
  ∀ refs, query.allowedCredentialRefs = some refs →
    ∃ ref, refs entry.id = some ref ∧ ref.groupID = entry.groupID ∧
      ref.identityGeneration = entry.identityGeneration

structure Available (config : ConfigSnapshot) (query : Query) (it : Iterator) (downgraded : Bool)
    (r : CredentialRegistry) (now : Time) (entry : CredentialEntry) : Prop where
  stored : Buckets.find r.buckets entry.groupID entry.id = some entry
  untried : entry.id ∉ it.tried
  unskipped : entry.groupID ∉ it.skippedGroups
  allowedID : ∀ ids, query.allowedCredentialIDs = some ids → entry.id ∈ ids
  allowedRef : allowedRef query entry
  schedulable : Schedulable now entry
  target : ∃ t ∈ routed config query, t.responsesStoreDowngraded = downgraded ∧
    t.target.groupID = entry.groupID ∧ cool query now entry t
  weight : ∃ group, config.group entry.groupID = some group ∧
    0 < effectiveWeight group.weightManual entry.weightManual

section Weighted

variable {config : ConfigSnapshot} {query : Query} {it : Iterator} {downgraded : Bool}
  {r : CredentialRegistry} {now : Time}

theorem allows_iff (h : it.From config query) :
    it.allows (credentialMeta entry) = true ↔
      (∀ ids, query.allowedCredentialIDs = some ids → entry.id ∈ ids) ∧
      allowedRef query entry ∧ entry.groupID ∉ it.skippedGroups := by
  unfold Iterator.allows allowedRef
  rw [h.allowedIDs, h.allowedRefs]
  simp only [Bool.and_eq_true, and_assoc]
  refine and_congr ?_ (and_congr ?_ ?_)
  · cases query.allowedCredentialIDs with
    | none => simp
    | some ids => simp [credentialMeta]
  · cases query.allowedCredentialRefs with
    | none => simp
    | some refs =>
      cases href : refs entry.id with
      | none => simp [credentialMeta]
      | some ref => simp [credentialMeta]
  · simp [credentialMeta]

variable {t : CandidateTarget}

theorem targetAvailable_iff (h : it.From config query) {modes : List RouteMode} :
    it.targetAvailable t (credentialMeta entry) modes now = true ↔
      t.target.mode ∈ modes ∧ cool query now entry t := by
  unfold Iterator.targetAvailable cool
  rw [h.operation]
  simp [credentialMeta]

theorem mem_targets (h : it.From config query) {g : Nat} :
    t ∈ (it.pool downgraded).targetsByGroup g ↔
      t ∈ routed config query ∧ t.responsesStoreDowngraded = downgraded ∧ t.target.groupID = g := by
  rw [h.targets, mem_pool_targets]

theorem mem_bothModes (mode : RouteMode) : mode ∈ [.native, .converted] := by
  cases mode <;> simp

theorem mem_weightedPool (hc : Compiled config) (h : it.From config query) (hr : r.Consistent)
    {c : CredentialMeta} :
    (∃ w ∈ it.weightedPool (it.pool downgraded) [.native, .converted] r now, w.credential = c) ↔
      ∃ entry, Available config query it downgraded r now entry ∧ c = credentialMeta entry := by
  have hgroups : ∀ g, g ∈ Iterator.poolGroups (it.pool downgraded) [.native, .converted] ↔
      ∃ t ∈ routed config query, t.responsesStoreDowngraded = downgraded ∧
        t.target.groupID = g := by
    intro g
    rw [mem_poolGroups, h.groups]
    simp only [mem_pool_groups]
    constructor
    · rintro ⟨mode, -, t, ht, hd, -, hg⟩
      exact ⟨t, ht, hd, hg⟩
    · rintro ⟨t, ht, hd, hg⟩
      exact ⟨t.target.mode, mem_bothModes _, t, ht, hd, rfl, hg⟩
  have hweight : ∀ t ∈ routed config query,
      config.group t.target.groupID = some t.group := fun t ht => ((mem_routed hc).mp ht).2.1
  constructor
  · rintro ⟨w, hw, rfl⟩
    obtain ⟨m, hm, hweigh⟩ := mem_filterMap.mp hw
    obtain ⟨entry, hfind, -, htried, hready, rfl⟩ := (mem_collect hr).mp hm
    unfold Iterator.weigh at hweigh
    split at hweigh
    · rename_i hallows
      split at hweigh
      · cases hweigh
      · rename_i t ht
        rw [Option.ite_none_right_eq_some] at hweigh
        obtain ⟨hpositive, hw⟩ := hweigh
        cases hw
        obtain ⟨hid, href, hskip⟩ := (allows_iff h).mp hallows
        obtain ⟨hrouted, hdown, hgroup⟩ := (mem_targets h).mp (mem_of_find?_eq_some ht)
        have hready' := find?_some ht
        have hcool := ((targetAvailable_iff h).mp hready').2
        exact ⟨entry, ⟨hfind, by simpa using htried, hskip, hid, href, hready,
          ⟨t, hrouted, hdown, hgroup, hcool⟩,
          ⟨t.group, (congrArg config.group hgroup).symm.trans (hweight t hrouted), hpositive⟩⟩, rfl⟩
    · cases hweigh
  · rintro ⟨entry, havailable, rfl⟩
    obtain ⟨t, hrouted, hdown, hgroup, hcool⟩ := havailable.target
    obtain ⟨group, hview, hpositive⟩ := havailable.weight
    have hmem : credentialMeta entry ∈ collectCredentialCandidatesLocked r
        (Iterator.poolGroups (it.pool downgraded) [.native, .converted])
        (fun id => it.tried.contains id) now := by
      refine (mem_collect hr).mpr ⟨entry, havailable.stored,
        (hgroups _).mpr ⟨t, hrouted, hdown, hgroup⟩, ?_, havailable.schedulable, rfl⟩
      simpa using havailable.untried
    have hallows := (allows_iff h).mpr
      ⟨havailable.allowedID, havailable.allowedRef, havailable.unskipped⟩
    have htargets := (mem_targets h).mpr ⟨hrouted, hdown, hgroup⟩
    have hready := (targetAvailable_iff h).mpr ⟨mem_bothModes _, hcool⟩
    cases hfind : ((it.pool downgraded).targetsByGroup (credentialMeta entry).groupID).find?
        fun t => it.targetAvailable t (credentialMeta entry) [.native, .converted] now with
    | none => exact absurd hready (find?_eq_none.mp hfind t htargets)
    | some t' =>
      obtain ⟨hrouted', -, hgroup'⟩ := (mem_targets h).mp (mem_of_find?_eq_some hfind)
      have hsame : t'.group = group := by
        have hview' := hweight t' hrouted'
        rw [hgroup'] at hview'
        exact Option.some.inj (hview'.symm.trans hview)
      refine ⟨⟨credentialMeta entry, (effectiveWeight group.weightManual entry.weightManual).toNat⟩,
        mem_filterMap.mpr ⟨credentialMeta entry, hmem, ?_⟩, rfl⟩
      unfold Iterator.weigh
      rw [if_pos hallows, hfind]
      simp only [hsame]
      exact if_pos hpositive

end Weighted

end EchoJoyGateway.Scheduler
