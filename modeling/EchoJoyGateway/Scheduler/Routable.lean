import EchoJoyGateway.Scheduler.Inspect
import EchoJoyGateway.Scheduler.Walks

/-!
# Inspection and scheduling agree

An inspection is routable exactly when a fresh iterator returns a selection,
and what the iterator returns stands in the inspection. Both are read against
one relation between a credential and a target, `Serves`.
-/

namespace EchoJoyGateway.Scheduler

open State Clock List

variable {decision : TargetDecision} {entry : CredentialEntry} {views : List CredentialRuntimeView}
  {candidates : List WeightedCredential}

section Views

theorem mem_snapshot {r : CredentialRegistry} (hr : r.Consistent) {view : CredentialRuntimeView} :
    view ∈ r.snapshot ↔
      ∃ entry, Buckets.find r.buckets entry.groupID entry.id = some entry ∧
        view = runtimeView entry := by
  unfold CredentialRegistry.snapshot
  rw [mem_insertionSort]
  simp only [mem_flatMap, mem_map]
  constructor
  · rintro ⟨⟨g, bucket⟩, hbucket, ⟨id, entry⟩, hitem, rfl⟩
    have hlookup : r.buckets.lookup g = some bucket := AList.mem_lookup_iff.mpr hbucket
    have hfind : Buckets.find r.buckets g id = some entry := by
      unfold Buckets.find Buckets.bucket
      rw [hlookup]
      exact AList.mem_lookup_iff.mpr hitem
    obtain ⟨rfl, rfl⟩ := hr.entries g id entry hfind
    exact ⟨entry, hfind, rfl⟩
  · rintro ⟨entry, hfind, rfl⟩
    have hbucket := hfind
    unfold Buckets.find Buckets.bucket at hbucket
    cases hlookup : r.buckets.lookup entry.groupID with
    | none =>
      rw [hlookup] at hbucket
      cases hbucket
    | some bucket =>
      rw [hlookup] at hbucket
      exact ⟨⟨entry.groupID, bucket⟩, AList.mem_lookup_iff.mp hlookup, ⟨entry.id, entry⟩,
        AList.mem_lookup_iff.mp hbucket, rfl⟩

theorem effectiveWeight_zero_group {credentialManual : Option Int} :
    effectiveWeight (some 0) credentialManual = 0 := by
  simp [effectiveWeight, configuredWeight]

theorem effectiveWeight_zero_credential {groupManual : Option Int} :
    effectiveWeight groupManual (some 0) = 0 := by
  simp [effectiveWeight, configuredWeight]

variable {allowed : Option (List Nat)}

theorem allowsID_iff {id : Nat} :
    allowsID allowed id = true ↔ ∀ ids, allowed = some ids → id ∈ ids := by
  cases allowed with
  | none => simp [allowsID]
  | some ids => simp [allowsID]

theorem inspectCredential_id (group : GroupCatalogView) (view : CredentialRuntimeView)
    (allowed : Option (List Nat)) (now : Time) (model : String) (operation : Operation) :
    (inspectCredential group view allowed now model operation).credentialID = view.id := by
  unfold inspectCredential
  simp only
  repeat' split
  all_goals rfl

theorem inspectCredential_usable {group : GroupCatalogView} {now : Time} {model : String}
    {operation : Operation} :
    (inspectCredential group (runtimeView entry) allowed now model operation).usable = true ↔
      (∀ ids, allowed = some ids → entry.id ∈ ids) ∧ Schedulable now entry ∧
      after (modelCooldownUntil entry.modelCooldowns model operation now) now = false ∧
      0 < effectiveWeight group.weightManual entry.weightManual := by
  have hrefused : ∀ reason, (CredentialInspection.refused (runtimeView entry) reason).usable =
      false := fun _ => rfl
  rw [← allowsID_iff, ← runtimeState_available]
  unfold inspectCredential
  by_cases hgroup : group.weightManual = some 0
  · rw [if_pos hgroup, hrefused, hgroup, effectiveWeight_zero_group]
    simp
  rw [if_neg hgroup]
  cases hallowed : allowsID allowed (runtimeView entry).id with
  | false =>
    have hid : allowsID allowed entry.id = false := hallowed
    simp [hrefused, hid]
  | true =>
    have hid : allowsID allowed entry.id = true := hallowed
    rw [if_neg (by simp)]
    by_cases hstatus : (runtimeView entry).status = .active
    · rw [if_neg (not_not.mpr hstatus)]
      have hauth : (runtimeView entry).authReady = true ↔ entry.authState.normalize = .ready := by
        simp [CredentialRuntimeView.authReady, runtimeView, CredentialAuthState.normalize_normalize]
      by_cases hready : entry.authState.normalize = .ready
      · rw [if_neg (by simp [hauth.mpr hready])]
        by_cases hweight : (runtimeView entry).weightManual = some 0
        · have hzero : entry.weightManual = some 0 := hweight
          rw [if_pos hweight, hrefused, hzero, effectiveWeight_zero_credential]
          simp
        · rw [if_neg hweight]
          have hnot : (runtimeView entry).runtimeState now ≠ .disabled := by
            unfold CredentialRuntimeView.runtimeState
            rw [if_neg (not_not.mpr hstatus)]
            split
            · simp
            · split <;> simp
          cases hstate : (runtimeView entry).runtimeState now with
          | disabled => exact absurd hstate hnot
          | blacklisted => simp [hrefused]
          | cooldown => simp [CredentialInspection.usable, CredentialInspection.refused]
          | available =>
            cases hcooling : after (modelCooldownUntil (runtimeView entry).modelCooldowns model
                operation now) now with
            | true =>
              have hcool : after (modelCooldownUntil entry.modelCooldowns model operation now) now =
                  true := hcooling
              simp [CredentialInspection.usable, CredentialInspection.refused, hcool]
            | false =>
              have hcool : after (modelCooldownUntil entry.modelCooldowns model operation now) now =
                  false := hcooling
              simp [CredentialInspection.usable, hid, hready, hcool, runtimeView]
      · have hunready : (runtimeView entry).authReady = false :=
          eq_false_of_ne_true fun h => hready (hauth.mp h)
        rw [if_pos hunready, hrefused]
        simp [hready]
    · have hstate : (runtimeView entry).runtimeState now = .disabled := by
        unfold CredentialRuntimeView.runtimeState
        rw [if_pos hstatus]
      rw [if_pos hstatus, hrefused, hstate]
      simp

end Views

section Inspecting

variable {config : ConfigSnapshot} {query : Query} {r : CredentialRegistry} {now : Time}

structure Serves (config : ConfigSnapshot) (query : Query) (r : CredentialRegistry) (now : Time)
    (entry : CredentialEntry) (t : CandidateTarget) : Prop where
  stored : Buckets.find r.buckets entry.groupID entry.id = some entry
  routed : t ∈ routed config query
  group : t.target.groupID = entry.groupID
  allowedID : ∀ ids, query.allowedCredentialIDs = some ids → entry.id ∈ ids
  schedulable : Schedulable now entry
  cool : cool query now entry t
  weight : 0 < effectiveWeight t.group.weightManual entry.weightManual

variable {nq : NormalizedQuery}

theorem admitted_catalog_iff (hc : Compiled config) {route : RouteTarget} :
    Admitted config config.executionRouteCatalog nq route ↔
      Admitted config config.executionCandidates nq route := by
  constructor
  · rintro ⟨haccess, hvalid, ⟨entry, hentry, hserves, rfl⟩, hpasses⟩
    obtain ⟨group, hgroup, henabled⟩ := hpasses.enabled
    have hview := hc.open_group _ group hgroup henabled
    exact ⟨haccess, hvalid, ⟨entry, (hc.candidates entry).mpr ⟨hentry, hview⟩, hserves, rfl⟩,
      hpasses⟩
  · rintro ⟨haccess, hvalid, ⟨entry, hentry, hserves, rfl⟩, hpasses⟩
    exact ⟨haccess, hvalid, ⟨entry, ((hc.candidates entry).mp hentry).1, hserves, rfl⟩, hpasses⟩

/-- The inspection has the credential as usable with a target of the group, the
model and the mode. -/
def Inspection.Lists (inspection : Inspection) (groupID credentialID : Nat)
    (upstreamModelID : Option String) (mode : RouteMode) : Prop :=
  ∃ g ∈ inspection.groups, g.included = true ∧ g.groupID = groupID ∧
    g.upstreamModelID = upstreamModelID ∧ g.routeMode = mode ∧
    ∃ c ∈ g.credentials, c.credentialID = credentialID ∧ c.available = true ∧ 0 < c.effectiveWeight

theorem mem_credentialsByGroup {g : Nat} {view : CredentialRuntimeView} :
    view ∈ credentialsByGroup views g ↔ view ∈ views ∧ view.groupID = g := by
  unfold credentialsByGroup
  rw [mem_insertionSort, mem_filter, beq_iff_eq]

theorem inspectGroup_routable :
    (inspectGroup views nq now decision).routable = true ↔
      ∃ c ∈ (inspectGroup views nq now decision).credentials, c.usable = true := by
  unfold inspectGroup
  cases decision.included with
  | false => simp
  | true => simp

variable {c : CredentialInspection}

theorem mem_inspected :
    c ∈ (inspectGroup views nq now decision).credentials ↔
      decision.included = true ∧ ∃ view ∈ views, view.groupID = decision.group.id ∧
        inspectCredential decision.group view nq.allowedCredentialIDs now
          decision.target.upstreamModelID nq.operation = c := by
  unfold inspectGroup
  cases decision.included with
  | false => simp
  | true => simp [mem_credentialsByGroup, and_assoc]

theorem decides_group (hc : Compiled config) (hdecides : Decides config nq decision.target decision)
    {view : GroupView} (hview : config.group decision.target.groupID = some view) :
    decision.group.id = decision.target.groupID ∧
      decision.group.weightManual = view.weightManual := by
  obtain ⟨catalog, hcatalog, hid, -, -, hweight⟩ := hc.listed _ view hview
  obtain rfl := Option.some.inj (hcatalog.symm.trans hdecides.group)
  exact ⟨hid, hweight⟩

theorem usable_iff (hc : Compiled config) (hr : r.Consistent)
    (hdecides : Decides config (normalizeQuery query) decision.target decision)
    (hincluded : decision.included = true) {t : CandidateTarget} (ht : t ∈ routed config query)
    (htarget : t.target = decision.target) :
    (c ∈ (inspectGroup r.snapshot (normalizeQuery query) now decision).credentials ∧
        c.usable = true) ↔
      ∃ entry, Serves config query r now entry t ∧
        inspectCredential decision.group (runtimeView entry) query.allowedCredentialIDs now
          decision.target.upstreamModelID (normalizeQuery query).operation = c := by
  have hview := ((mem_routed hc).mp ht).2.1
  rw [htarget] at hview
  obtain ⟨hid, hweight⟩ := decides_group hc hdecides hview
  rw [mem_inspected]
  constructor
  · rintro ⟨⟨-, view, hmem, hgroup, rfl⟩, husable⟩
    obtain ⟨entry, hstored, rfl⟩ := (mem_snapshot hr).mp hmem
    obtain ⟨hallowed, hschedulable, hcool, hpositive⟩ := inspectCredential_usable.mp husable
    have hentry : entry.groupID = decision.group.id := hgroup
    refine ⟨entry, ⟨hstored, ht, ?_, hallowed, hschedulable, ?_, hweight ▸ hpositive⟩, rfl⟩
    · rw [htarget, hentry, hid]
    · unfold Scheduler.cool
      rw [htarget]
      exact hcool
  · rintro ⟨entry, h, rfl⟩
    have hentry : entry.groupID = decision.group.id := by
      rw [← h.group, htarget, hid]
    refine ⟨⟨hincluded, runtimeView entry, (mem_snapshot hr).mpr ⟨entry, h.stored, rfl⟩, hentry,
      rfl⟩, ?_⟩
    refine inspectCredential_usable.mpr ⟨h.allowedID, h.schedulable, ?_, hweight ▸ h.weight⟩
    have hcool := h.cool
    unfold Scheduler.cool at hcool
    rwa [htarget] at hcool

theorem routed_of_decision (hc : Compiled config)
    (hdecides : Decides config (normalizeQuery query) decision.target decision)
    (hadmitted : Admitted config config.executionRouteCatalog (normalizeQuery query)
      decision.target) :
    ∃ t ∈ routed config query, t.target = decision.target := by
  obtain ⟨catalog, hcatalog, henabled⟩ := hadmitted.passes.enabled
  obtain ⟨view, hview⟩ := hc.open_group _ catalog hcatalog henabled
  exact ⟨⟨decision.target, view, decision.responsesStoreDowngraded⟩,
    (mem_routed hc).mpr ⟨(admitted_catalog_iff hc).mp hadmitted, hview, hdecides.downgraded⟩, rfl⟩

theorem inspectGroup_fields (views : List CredentialRuntimeView) (nq : NormalizedQuery)
    (now : Time) (decision : TargetDecision) :
    (inspectGroup views nq now decision).included = decision.included ∧
    (inspectGroup views nq now decision).groupID = decision.group.id ∧
    (inspectGroup views nq now decision).upstreamModelID =
      optionalModel decision.target.upstreamModelID ∧
    (inspectGroup views nq now decision).routeMode = decision.target.mode := by
  unfold inspectGroup
  cases decision.included with
  | false => exact ⟨rfl, rfl, rfl, rfl⟩
  | true => exact ⟨rfl, rfl, rfl, rfl⟩

theorem inspect_spec (hc : Compiled config) (hr : r.Consistent)
    (hgroups : ∀ view ∈ r.snapshot, (config.catalogView view.groupID).isSome = true)
    (query : Query) (now : Time) :
    ∃ inspection, inspect (some config) r.snapshot query now = .ok inspection ∧
      (inspection.routable = true ↔ ∃ entry t, Serves config query r now entry t) ∧
      ∀ entry t, Serves config query r now entry t →
        inspection.Lists entry.groupID entry.id (optionalModel t.target.upstreamModelID)
          t.target.mode := by
  unfold inspect
  simp only
  by_cases hstatus : (normalizeQuery query).accessKey.status = .disabled
  · rw [if_pos hstatus]
    have hnone : ∀ entry t, ¬ Serves config query r now entry t := by
      intro entry t h
      have haccess := ((mem_routed hc).mp h.routed).1.access
      unfold accessRefusal at haccess
      rw [if_pos hstatus] at haccess
      cases haccess
    refine ⟨_, rfl, ?_, fun entry t h => absurd h (hnone entry t)⟩
    simp [hnone]
  rw [if_neg hstatus]
  have hfind : (r.snapshot.find? fun view => (config.catalogView view.groupID).isNone) = none := by
    rw [find?_eq_none]
    intro view hview
    simp [Option.isSome_iff_ne_none.mp (hgroups view hview)]
  obtain ⟨decisions, reason, heval, hdecides, hadmitted⟩ :=
    @evaluateTargets_ok config config.executionRouteCatalog (normalizeQuery query) hc.cataloged
  simp only [hfind, heval]
  have hlists : ∀ entry t, Serves config query r now entry t →
      ∃ decision ∈ decisions, decision.included = true ∧ decision.group.id = entry.groupID ∧
        decision.target = t.target ∧
        ∃ c ∈ (inspectGroup r.snapshot (normalizeQuery query) now decision).credentials,
          c.credentialID = entry.id ∧ c.usable = true := by
    intro entry t h
    obtain ⟨hrouted, hview, -⟩ := (mem_routed hc).mp h.routed
    obtain ⟨decision, hmem, htarget, hincluded⟩ :=
      (hadmitted t.target).mpr ((admitted_catalog_iff hc).mpr hrouted)
    have hgroup := (decides_group hc (hdecides decision hmem) (htarget ▸ hview)).1
    obtain ⟨hc', husable⟩ := (usable_iff hc hr (hdecides decision hmem) hincluded h.routed
      htarget.symm).mpr ⟨entry, h, rfl⟩
    refine ⟨decision, hmem, hincluded, ?_, htarget, _, hc', inspectCredential_id .., husable⟩
    rw [hgroup, htarget, h.group]
  have hroutable : (decisions.map (inspectGroup r.snapshot (normalizeQuery query) now)).any
      GroupInspection.routable = true ↔ ∃ entry t, Serves config query r now entry t := by
    rw [any_map, any_eq_true]
    constructor
    · rintro ⟨decision, hmem, hroutable⟩
      obtain ⟨c, hcred, husable⟩ := inspectGroup_routable.mp hroutable
      have hincluded := (mem_inspected.mp hcred).1
      obtain ⟨t, ht, htarget⟩ := routed_of_decision hc (hdecides decision hmem)
        ((hadmitted _).mp ⟨decision, hmem, rfl, hincluded⟩)
      obtain ⟨entry, h, -⟩ := (usable_iff hc hr (hdecides decision hmem) hincluded ht htarget).mp
        ⟨hcred, husable⟩
      exact ⟨entry, t, h⟩
    · rintro ⟨entry, t, h⟩
      obtain ⟨decision, hmem, -, -, -, c, hcred, -, husable⟩ := hlists entry t h
      exact ⟨decision, hmem, inspectGroup_routable.mpr ⟨c, hcred, husable⟩⟩
  have hin : ∀ inspection : Inspection,
      inspection.groups = decisions.map (inspectGroup r.snapshot (normalizeQuery query) now) →
      ∀ entry t, Serves config query r now entry t →
        inspection.Lists entry.groupID entry.id (optionalModel t.target.upstreamModelID)
          t.target.mode := by
    intro inspection heq entry t h
    obtain ⟨decision, hmem, hincluded, hgroup, htarget, c, hcred, hid, husable⟩ := hlists entry t h
    obtain ⟨hi, hg, hm, hmode⟩ := inspectGroup_fields r.snapshot (normalizeQuery query) now decision
    have husable' : c.available = true ∧ 0 < c.effectiveWeight := by
      simpa [CredentialInspection.usable] using husable
    refine ⟨_, heq ▸ mem_map_of_mem hmem, hi.trans hincluded, hg.trans hgroup, ?_, ?_,
      c, hcred, hid, husable'⟩
    · rw [hm, htarget]
    · rw [hmode, htarget]
  by_cases hany : (decisions.map (inspectGroup r.snapshot (normalizeQuery query) now)).any
      GroupInspection.routable = true
  · rw [if_pos hany]
    exact ⟨_, rfl, ⟨fun _ => hroutable.mp hany, fun _ => rfl⟩, hin _ rfl⟩
  · rw [if_neg hany]
    refine ⟨_, rfl, ⟨?_, fun h => absurd (hroutable.mpr h) hany⟩, hin _ rfl⟩
    intro hfalse
    cases hfalse

end Inspecting

section Selecting

/-- The charge of the credential that a selection would choose overflows. -/
def overflows (revision : Option Nat) (d : SchedulingLedger)
    (candidates : List WeightedCredential) (preferred : Nat) : Bool :=
  match candidates.filter (matched d) with
  | [] => false
  | first :: rest =>
    let ledger := prepared revision d candidates
    let chosen := chooseCredential ledger first rest preferred
    match ledger.members chosen.credential.id with
    | none => false
    | some member => !(member.progress.advance chosen.weight).2

variable {d : SchedulingLedger}

theorem selectCredential_isSome {revision : Option Nat} {preferred : Nat} {c : WeightedCredential}
    (hc : c ∈ candidates) (hmatched : matched d c = true) (hsequence : d.sequence ≠ -1)
    (hfits : overflows revision d candidates preferred = false) :
    ∃ d' selected, selectCredential revision d candidates preferred = (d', some selected) := by
  unfold overflows at hfits
  cases hlist : candidates.filter (matched d) with
  | nil => exact absurd hmatched (filter_eq_nil_iff.mp hlist c hc)
  | cons first rest =>
    rw [hlist] at hfits
    have hprepared : admitPending (intake d candidates).ledger revision
        (intake d candidates).baseline (first :: rest) = prepared revision d candidates := by
      rw [prepared, intake_eligible, hlist]
    have hseq : (intake d candidates).ledger.sequence ≠ -1 := by
      rw [(intake_books d candidates).sequence]
      exact hsequence
    have hmem := chooseCredential_mem (prepared revision d candidates) first rest preferred
    rw [← hlist] at hmem
    have hchosen := (mem_filter.mp hmem).2
    rw [← matched_eq (prepared_books revision d candidates).identities] at hchosen
    obtain ⟨m, hm, -⟩ := matched_iff.mp hchosen
    simp only [hm, Bool.not_eq_false'] at hfits
    unfold selectCredential
    simp only [intake_eligible, hlist, if_neg hseq, hprepared, hm, hfits]
    exact ⟨_, _, rfl⟩

variable {it : Iterator} {pool : CandidatePool} {now : Time}

theorem tryTiers_isSome (hmatched : ∀ c ∈ candidates, matched d c = true)
    (hsequence : d.sequence ≠ -1) {tiers : List (List RouteMode)}
    (hfits : ∀ modes ∈ tiers, overflows (it.snapshot.map ConfigSnapshot.revision) d
      (it.eligibleFor pool modes now candidates) it.preferredCredentialID = false)
    (hready : ∃ modes ∈ tiers, ∃ c ∈ candidates,
      ∃ t ∈ pool.targetsByGroup c.credential.groupID,
        it.targetAvailable t c.credential modes now = true) :
    ∃ d' selected t, it.tryTiers pool now candidates d tiers = (d', some (selected, t)) := by
  induction tiers with
  | nil =>
    obtain ⟨modes, hmodes, -⟩ := hready
    cases hmodes
  | cons modes tiers ih =>
    unfold Iterator.tryTiers
    cases heligible : it.eligibleFor pool modes now candidates with
    | nil =>
      apply ih fun modes hmodes => hfits modes (mem_cons_of_mem _ hmodes)
      obtain ⟨modes', hmodes', c, hc, t, ht, havailable⟩ := hready
      rcases mem_cons.mp hmodes' with rfl | hmodes'
      · have hin : c ∈ it.eligibleFor pool modes' now candidates :=
          mem_filter.mpr ⟨hc, any_eq_true.mpr ⟨t, ht, havailable⟩⟩
        rw [heligible] at hin
        cases hin
      · exact ⟨modes', hmodes', c, hc, t, ht, havailable⟩
    | cons first rest =>
      have hfirst : first ∈ it.eligibleFor pool modes now candidates := by
        rw [heligible]
        exact (.head _)
      obtain ⟨d', selected, hselect⟩ := selectCredential_isSome hfirst
        (hmatched first (mem_filter.mp hfirst).1) hsequence (hfits modes (.head _))
      obtain ⟨c, hc, rfl⟩ := selectCredential_mem hselect
      obtain ⟨d'', t, htarget, -⟩ := @selectTarget_spec it pool modes now d' c.credential
        (any_eq_true.mp (mem_filter.mp hc).2)
      rw [heligible] at hselect
      simp only [hselect, htarget]
      exact ⟨d'', c.credential, t, rfl⟩

theorem priorityCandidates_ne_nil (hlimit : pool.priorityLimit = none) (hne : candidates ≠ []) :
    it.priorityCandidates pool candidates ≠ [] := by
  have hfold : ∀ (l : List WeightedCredential) (tier : Iterator.Tier),
      l.foldl (it.priorityStep pool) tier =
        ⟨(l.map it.valueOf).foldl Iterator.raise tier.priority, tier.lower⟩ := by
    intro l
    induction l with
    | nil => exact fun _ => rfl
    | cons c l ih =>
      intro tier
      rw [foldl_cons, ih]
      simp only [Iterator.priorityStep, hlimit]
      rfl
  unfold Iterator.priorityCandidates
  simp only [hfold]
  have hmap : candidates.map it.valueOf ≠ [] := by
    simpa using hne
  cases hpriority : (candidates.map it.valueOf).foldl Iterator.raise none with
  | none => exact absurd hpriority (raise_foldl_ne_none (.inr hmap))
  | some priority =>
    rcases (raise_foldl _ _ hpriority).1 with hnone | hmem
    · cases hnone
    · obtain ⟨c, hc, hvalue⟩ := mem_map.mp hmem
      refine ne_nil_of_mem (mem_filter.mpr ⟨hc, ?_⟩)
      simpa [Iterator.valueOf] using hvalue

end Selecting

section Fresh

variable {config : ConfigSnapshot} {query : Query} {it : Iterator} {r : CredentialRegistry}
  {now : Time}

/-- Some selection that a call of `Next` may try overflows. -/
def Iterator.overflows (it : Iterator) (r : CredentialRegistry) (now : Time) : Bool :=
  [false, true].any fun downgraded => it.routeModeTiers.any fun modes =>
    Scheduler.overflows (it.snapshot.map ConfigSnapshot.revision) r.scheduling
      (it.eligibleFor (it.pool downgraded) modes now
        (it.priorityCandidates (it.pool downgraded)
          (it.weightedPool (it.pool downgraded) [.native, .converted] r now)))
      it.preferredCredentialID

theorem mem_tiers (config : ConfigSnapshot) (mode : RouteMode) :
    ∃ modes ∈ routeModeTiers (some config), mode ∈ modes := by
  cases hstrategy : config.routeStrategy with
  | weightedMix =>
    simp only [routeModeTiers, hstrategy]
    exact ⟨_, mem_singleton_self _, mem_bothModes mode⟩
  | nativeFirst =>
    simp only [routeModeTiers, hstrategy]
    cases mode <;> simp

variable {downgraded : Bool}

theorem matched_weightedPool (hc : Compiled config) (h : it.From config query) (hr : r.Consistent)
    {c : WeightedCredential}
    (hmem : c ∈ it.weightedPool (it.pool downgraded) [.native, .converted] r now) :
    matched r.scheduling c = true := by
  obtain ⟨entry, havailable, hmeta⟩ := (mem_weightedPool hc h hr).mp ⟨c, hmem, rfl⟩
  obtain ⟨m, hm, hgroup, hgeneration⟩ := hr.membership _ _ entry havailable.stored
  refine matched_iff.mpr ⟨m, ?_, ?_, ?_⟩
  · rw [hmeta]
    exact hm
  · rw [hmeta]
    exact hgroup
  · rw [hmeta]
    exact hgeneration

theorem nextFrom_isSome (hc : Compiled config) (h : it.From config query) (hr : r.Consistent)
    (hsequence : r.scheduling.sequence ≠ -1) (hfits : it.overflows r now = false)
    (hlimit : (it.pool downgraded).priorityLimit = none)
    (havailable : Available config query it downgraded r now entry) :
    ∃ d selected t,
      it.nextFrom (it.pool downgraded) r r.scheduling now = (d, some (selected, t)) := by
  obtain ⟨w, hw, -⟩ := (mem_weightedPool hc h hr).mpr ⟨entry, havailable, rfl⟩
  obtain ⟨c, hcandidate⟩ := exists_mem_of_ne_nil _
    (@priorityCandidates_ne_nil _ it _ hlimit (ne_nil_of_mem hw))
  obtain ⟨entry', havailable', hmeta⟩ :=
    (mem_weightedPool hc h hr).mp ⟨c, priorityCandidates_subset hcandidate, rfl⟩
  obtain ⟨t, hrouted, hdown, hgroup, hcool⟩ := havailable'.target
  obtain ⟨modes, hmodes, hmode⟩ := mem_tiers config t.target.mode
  refine tryTiers_isSome ?_ hsequence ?_ ⟨modes, h.tiers ▸ hmodes, c, hcandidate, t, ?_, ?_⟩
  · intro c' hc'
    exact matched_weightedPool hc h hr (priorityCandidates_subset hc')
  · intro modes' hmodes'
    unfold Iterator.overflows at hfits
    rw [any_eq_false] at hfits
    have hpool := hfits downgraded (by cases downgraded <;> simp)
    rw [Bool.not_eq_true, any_eq_false] at hpool
    exact eq_false_of_ne_true (hpool modes' hmodes')
  · rw [hmeta]
    exact (mem_targets h).mpr ⟨hrouted, hdown, hgroup⟩
  · rw [hmeta]
    exact (targetAvailable_iff h).mpr ⟨hmode, hcool⟩

theorem next_isSome (hc : Compiled config) (h : it.From config query) (hr : r.Consistent)
    (hsequence : r.scheduling.sequence ≠ -1) (hfits : it.overflows r now = false)
    (hlimit : ∀ downgraded, (it.pool downgraded).priorityLimit = none)
    (havailable : Available config query it downgraded r now entry) :
    (it.next r now now).selection.isSome = true := by
  by_cases hregular : ∃ e, Available config query it false r now e
  · obtain ⟨e, he⟩ := hregular
    obtain ⟨d, selected, t, heq⟩ := nextFrom_isSome hc h hr hsequence hfits (hlimit false) he
    rw [next_of_regular heq]
    rfl
  · have hnone : ∀ e, ¬ Left config query it false r now e := fun e he => hregular ⟨e, he.available⟩
    have hskip := nextFrom_empty hc h hr r.scheduling hnone
    cases downgraded with
    | false => exact absurd ⟨entry, havailable⟩ hregular
    | true =>
      obtain ⟨d, selected, t, heq⟩ :=
        nextFrom_isSome hc h hr hsequence hfits (hlimit true) havailable
      rw [next_of_downgraded hskip heq]
      rfl

def published (config : ConfigSnapshot) (r : CredentialRegistry) : CredentialRegistry :=
  { r with scheduling := r.scheduling.syncGroups (some config) }

theorem consistent_published (hr : r.Consistent) (config : ConfigSnapshot) :
    (published config r).Consistent := by
  have hidentities := @syncGroups_identities r.scheduling (some config)
  refine ⟨hr.groups, hr.entries, hr.nonempty, ?_, ?_⟩
  · intro id m hm
    have hid := congrFun hidentities id
    unfold SchedulingLedger.identities at hid
    rw [show (r.scheduling.syncGroups (some config)).members id = some m from hm, Option.map_some,
      eq_comm, Option.map_eq_some_iff] at hid
    obtain ⟨m', hm', hsame⟩ := hid
    obtain ⟨g, entry, hfind, hmid, hgroup, hgeneration⟩ := hr.members id m' hm'
    simp only [SchedulingMember.identity, Prod.mk.injEq] at hsame
    exact ⟨g, entry, hfind, hsame.1 ▸ hmid, hsame.2.1 ▸ hgroup, hsame.2.2 ▸ hgeneration⟩
  · intro g id entry hfind
    obtain ⟨m, hm, hgroup, hgeneration⟩ := hr.membership g id entry hfind
    have hid := congrFun hidentities id
    unfold SchedulingLedger.identities at hid
    rw [hm, Option.map_some, Option.map_eq_some_iff] at hid
    obtain ⟨m', hm', hsame⟩ := hid
    simp only [SchedulingMember.identity, Prod.mk.injEq] at hsame
    exact ⟨m', hm', hsame.2.1.trans hgroup, hsame.2.2.trans hgeneration⟩

theorem published_sequence (config : ConfigSnapshot) (r : CredentialRegistry) :
    (published config r).scheduling.sequence = r.scheduling.sequence := by
  unfold published
  simp only [SchedulingLedger.syncGroups]
  split
  · rfl
  · rfl

theorem buildPool_unlimited (targets : List CandidateTarget) (downgraded : Bool) :
    (buildPool targets downgraded).priorityLimit = none := by
  have hfold : ∀ (l : List CandidateTarget) (pool : CandidatePool),
      (l.foldl .add pool).priorityLimit = pool.priorityLimit := by
    intro l
    induction l with
    | nil => exact fun _ => rfl
    | cons t l ih => exact fun pool => ih (pool.add t)
  exact hfold _ newCandidatePool

theorem available_iff_serves (hc : Compiled config) (hrefs : query.allowedCredentialRefs = none)
    {ledger : SchedulingLedger} :
    (∃ downgraded, Available config query (newIterator (some config) ledger query).1 downgraded r
        now entry) ↔
      ∃ t, Serves config query r now entry t := by
  constructor
  · rintro ⟨downgraded, h⟩
    obtain ⟨t, hrouted, -, hgroup, hcool⟩ := h.target
    obtain ⟨group, hview, hpositive⟩ := h.weight
    have hview' := ((mem_routed hc).mp hrouted).2.1
    rw [hgroup] at hview'
    obtain rfl := Option.some.inj (hview.symm.trans hview')
    exact ⟨t, h.stored, hrouted, hgroup, h.allowedID, h.schedulable, hcool, hpositive⟩
  · rintro ⟨t, h⟩
    have hview := ((mem_routed hc).mp h.routed).2.1
    rw [h.group] at hview
    refine ⟨t.responsesStoreDowngraded, h.stored, not_mem_nil, not_mem_nil, h.allowedID,
      ?_, h.schedulable, ⟨t, h.routed, rfl, h.group, h.cool⟩, ⟨t.group, hview, h.weight⟩⟩
    intro refs hsome
    rw [hrefs] at hsome
    cases hsome

def firstNext (config : ConfigSnapshot) (r : CredentialRegistry) (query : Query) (now : Time) :
    Option Selection :=
  ((newIterator (some config) r.scheduling query).1.next (published config r) now now).selection

def firstOverflows (config : ConfigSnapshot) (r : CredentialRegistry) (query : Query)
    (now : Time) : Bool :=
  (newIterator (some config) r.scheduling query).1.overflows (published config r) now

end Fresh

/-- Route inspection agrees with scheduling: on a compiled snapshot and a
consistent registry whose groups are all in the catalog, the inspection is
routable if and only if the first `Next` of a fresh iterator returns a
selection, and the selection stands in the inspection. -/
theorem inspect_agrees {input : CompileInput} {revision : Nat} {config : ConfigSnapshot}
    (hcompile : compile input revision = .ok config) {r : CredentialRegistry}
    (hr : r.Consistent)
    (hgroups : ∀ view ∈ r.snapshot, (config.catalogView view.groupID).isSome = true)
    {query : Query} (hrefs : query.allowedCredentialRefs = none) {now : Time}
    (hsequence : r.scheduling.sequence ≠ -1)
    (hfits : firstOverflows config r query now = false) :
    ∃ inspection, inspect (some config) r.snapshot query now = .ok inspection ∧
      (inspection.routable = true ↔ (firstNext config r query now).isSome = true) ∧
      ∀ s, firstNext config r query now = some s →
        inspection.Lists s.groupID s.credentialID s.upstreamModelID s.routeMode := by
  have hc := compile_compiled hcompile
  have hfrom := Iterator.newIterator_from config r.scheduling query
  have hr' := consistent_published hr config
  obtain ⟨inspection, hinspect, hroutable, hlists⟩ := inspect_spec hc hr hgroups query now
  have hselected : ∀ s, firstNext config r query now = some s →
      ∃ entry t, Serves config query r now entry t ∧ s = newSelection (credentialMeta entry) t := by
    intro s hs
    obtain ⟨entry, t, rfl, hanswers⟩ := answers_of_next hc hfrom hr' hs
    have havailable := hanswers.available
    have hmoment : ∀ downgraded, momentOf downgraded now now = now := by
      intro downgraded
      unfold momentOf
      rw [ite_self]
    rw [hmoment] at hanswers havailable
    obtain ⟨group, hview, hpositive⟩ := havailable.weight
    have hview' := ((mem_routed hc).mp hanswers.routed).2.1
    rw [hanswers.group] at hview'
    obtain rfl := Option.some.inj (hview.symm.trans hview')
    exact ⟨entry, t, ⟨havailable.stored, hanswers.routed, hanswers.group, havailable.allowedID,
      havailable.schedulable, hanswers.cool, hpositive⟩, rfl⟩
  refine ⟨inspection, hinspect, ?_, ?_⟩
  · rw [hroutable]
    constructor
    · rintro ⟨entry, t, hserves⟩
      have hpublished : Serves config query (published config r) now entry t :=
        ⟨hserves.stored, hserves.routed, hserves.group, hserves.allowedID, hserves.schedulable,
          hserves.cool, hserves.weight⟩
      obtain ⟨downgraded, havailable⟩ := (available_iff_serves hc hrefs).mpr ⟨t, hpublished⟩
      refine next_isSome hc hfrom hr' ?_ hfits ?_ havailable
      · rw [published_sequence]
        exact hsequence
      · intro d
        cases d <;> exact buildPool_unlimited _ _
    · intro hsome
      obtain ⟨s, hs⟩ := Option.isSome_iff_exists.mp hsome
      obtain ⟨entry, t, hserves, -⟩ := hselected s hs
      exact ⟨entry, t, hserves⟩
  · intro s hs
    obtain ⟨entry, t, hserves, rfl⟩ := hselected s hs
    exact hlists entry t hserves

theorem inspect_agrees_chat :
    (firstNext chatSnapshot chatRegistry chatQuery 0).map Selection.credentialID = some 11 ∧
    ∃ inspection, inspect (some chatSnapshot) chatRegistry.snapshot chatQuery 0 = .ok inspection ∧
      (inspection.routable = true ↔
        (firstNext chatSnapshot chatRegistry chatQuery 0).isSome = true) ∧
      ∀ s, firstNext chatSnapshot chatRegistry chatQuery 0 = some s →
        inspection.Lists s.groupID s.credentialID s.upstreamModelID s.routeMode := by
  refine ⟨by decide +kernel, ?_⟩
  apply inspect_agrees compile_chatInput chatRegistry_consistent
  · decide +kernel
  · rfl
  · decide +kernel
  · decide +kernel

/-- A registry with a credential of a group that the snapshot does not know. -/
def strayRegistry : CredentialRegistry :=
  runCalls none [(0, .replaceCredentials [chatEntry 11 1, chatEntry 12 9])]

theorem strayRegistry_consistent : strayRegistry.Consistent := by
  obtain ⟨_, h⟩ := runCalls_represents none
    [(0, .replaceCredentials [chatEntry 11 1, chatEntry 12 9])]
  exact h.consistent

/-- The inspection refuses such a registry, and `Next` still selects. -/
theorem inspect_refuses_stray_group :
    compile chatInput 1 = .ok chatSnapshot ∧ strayRegistry.Consistent ∧
    chatQuery.allowedCredentialRefs.isNone = true ∧ strayRegistry.scheduling.sequence ≠ -1 ∧
    firstOverflows chatSnapshot strayRegistry chatQuery 0 = false ∧
    inspect (some chatSnapshot) strayRegistry.snapshot chatQuery 0 = .error
      "inconsistent scheduler snapshot: registry credential 12 group 9 missing from catalog" ∧
    (firstNext chatSnapshot strayRegistry chatQuery 0).map Selection.credentialID = some 11 := by
  refine ⟨compile_chatInput, strayRegistry_consistent, rfl, by decide +kernel, by decide +kernel,
    ?_, by decide +kernel⟩
  rfl

end EchoJoyGateway.Scheduler
