import EchoJoyGateway.Scheduler.Routable
import EchoJoyGateway.State.Weights

/-!
# The end of a cooldown

`CooldownUntil` of `internal/scheduler/model_cooldown.go`: from an inspection that has
nothing to route to, the first moment at which a credential in cooldown is back. Nothing
but the two cooldowns of a pair of target and credential depends on the clock, so that is
the first moment at which the inspection is routable.
-/

namespace EchoJoyGateway.Scheduler

open State Clock List

def CredentialInspection.waiting (credential : CredentialInspection) : Bool :=
  credential.reason == some .credentialCooldown || credential.reason == some .modelCooldown

def earlier (earliest : Time) (credential : CredentialInspection) : Time :=
  if credential.waiting then
    if isZero earliest || after earliest credential.cooldownUntil then credential.cooldownUntil
    else earliest
  else earliest

def Iterator.cooldownUntil (it : Iterator) (r : CredentialRegistry) (now : Time) : Time × Bool :=
  match inspect it.snapshot r.snapshot it.query now with
  | .error _ => (zeroTime, false)
  | .ok inspection =>
    if inspection.routable then (zeroTime, false)
    else
      let earliest := inspection.groups.foldl (fun earliest group =>
        if group.included then group.credentials.foldl earlier earliest else earliest) zeroTime
      (earliest, !isZero earliest)

section Pair

def standing (group : GroupCatalogView) (credential : CredentialRuntimeView)
    (allowedCredentialIDs : Option (List Nat)) : Prop :=
  group.weightManual ≠ some 0 ∧ allowsID allowedCredentialIDs credential.id = true ∧
    credential.status = .active ∧ credential.authReady = true ∧
    credential.weightManual ≠ some 0 ∧ credential.blacklisted = false

def modelLimit (limits : ModelCooldowns) (model : String) (operation : Operation) : Int :=
  if operation.usesModelCooldown = false ∨ model = "" then zeroTime else limits.until model

def opensAt (credential : CredentialRuntimeView) (model : String) (operation : Operation) : Int :=
  max credential.cooldownUntil (modelLimit credential.modelCooldowns model operation)

variable {group : GroupCatalogView} {credential : CredentialRuntimeView}
  {allowed : Option (List Nat)} {now : Time} {model : String} {operation : Operation}

theorem modelCooldownUntil_eq (limits : ModelCooldowns) (model : String) (operation : Operation)
    (hnow : zeroTime ≤ now) :
    modelCooldownUntil limits model operation now =
      if now < modelLimit limits model operation then modelLimit limits model operation
      else zeroTime := by
  unfold modelCooldownUntil modelLimit
  by_cases hfree : operation.usesModelCooldown = false ∨ model = ""
  · rw [if_pos hfree, if_neg (not_lt.mpr hnow), if_pos]
    rcases hfree with hfree | hfree
    · exact .inl hfree
    · exact .inr (.inl hfree)
  · rw [if_neg hfree]
    by_cases hlate : now < limits.until model
    · rw [if_pos hlate, if_neg]
      rintro (h | h | h)
      · exact hfree (.inl h)
      · exact hfree (.inr h)
      · exact absurd hlate (not_lt.mpr ((after_eq_false_iff _ _).mp h))
    · rw [if_neg hlate, if_pos]
      exact .inr (.inr ((after_eq_false_iff _ _).mpr (not_lt.mp hlate)))

theorem effectiveWeight_pos {groupManual credentialManual : Option Int}
    (hgroup : WeightOK groupManual) (hcredential : WeightOK credentialManual)
    (hgroupZero : groupManual ≠ some 0) (hcredentialZero : credentialManual ≠ some 0) :
    0 < effectiveWeight groupManual credentialManual := by
  have hleft := hgroup.pos hgroupZero
  have hright := hcredential.pos hcredentialZero
  unfold effectiveWeight
  rw [if_neg (by omega)]
  exact Int.mul_pos hleft hright

theorem inspectCredential_checked (h : standing group credential allowed) :
    inspectCredential group credential allowed now model operation =
      let cooling := modelCooldownUntil credential.modelCooldowns model operation now
      if after credential.cooldownUntil now then
        { CredentialInspection.refused credential .credentialCooldown with
          cooldownUntil :=
            if after cooling credential.cooldownUntil then cooling else credential.cooldownUntil }
      else if after cooling now then
        { CredentialInspection.refused credential .modelCooldown with cooldownUntil := cooling }
      else
        ⟨credential.id, true, none, credential.weightManual,
          effectiveWeight group.weightManual credential.weightManual, zeroTime⟩ := by
  obtain ⟨hgroup, hallowed, hactive, hready, hweight, hblacklisted⟩ := h
  have hstate : credential.runtimeState now =
      if after credential.cooldownUntil now then .cooldown else .available := by
    simp [CredentialRuntimeView.runtimeState, hactive, hblacklisted]
  unfold inspectCredential
  rw [if_neg hgroup, if_neg (by simp [hallowed]), if_neg (not_not.mpr hactive),
    if_neg (by simp [hready]), if_neg hweight, hstate]
  cases hcool : after credential.cooldownUntil now with
  | true => rfl
  | false => rfl

theorem inspectCredential_shut (h : ¬ standing group credential allowed) :
    (inspectCredential group credential allowed now model operation).usable = false ∧
      (inspectCredential group credential allowed now model operation).waiting = false := by
  unfold inspectCredential
  simp only
  split
  · exact ⟨rfl, rfl⟩
  · rename_i hgroup
    split
    · exact ⟨rfl, rfl⟩
    · rename_i hallowed
      split
      · exact ⟨rfl, rfl⟩
      · rename_i hactive
        split
        · exact ⟨rfl, rfl⟩
        · rename_i hready
          split
          · exact ⟨rfl, rfl⟩
          · rename_i hweight
            have hblacklisted : credential.blacklisted = true := by
              by_contra hclear
              exact h ⟨hgroup, Bool.eq_true_of_not_eq_false hallowed, not_not.mp hactive,
                Bool.eq_true_of_not_eq_false hready, hweight, Bool.eq_false_of_not_eq_true hclear⟩
            have hstate : credential.runtimeState now = .blacklisted := by
              simp [CredentialRuntimeView.runtimeState, not_not.mp hactive, hblacklisted]
            rw [hstate]
            exact ⟨rfl, rfl⟩

theorem inspectCredential_standing (h : standing group credential allowed)
    (hnow : zeroTime ≤ now) (hgroup : WeightOK group.weightManual)
    (hcredential : WeightOK credential.weightManual) :
    (now < opensAt credential model operation →
      (inspectCredential group credential allowed now model operation).usable = false ∧
        (inspectCredential group credential allowed now model operation).waiting = true ∧
        (inspectCredential group credential allowed now model operation).cooldownUntil =
          opensAt credential model operation) ∧
    (opensAt credential model operation ≤ now →
      (inspectCredential group credential allowed now model operation).usable = true ∧
        (inspectCredential group credential allowed now model operation).waiting = false) := by
  rw [inspectCredential_checked h, modelCooldownUntil_eq _ _ _ hnow]
  unfold opensAt
  generalize modelLimit credential.modelCooldowns model operation = limit
  by_cases hcool : now < credential.cooldownUntil
  · rw [if_pos ((after_iff _ _).mpr hcool)]
    refine ⟨fun _ => ⟨rfl, rfl, ?_⟩, fun hopen => ?_⟩
    · by_cases hmodel : now < limit
      · rw [if_pos hmodel]
        by_cases hlater : credential.cooldownUntil < limit
        · exact (if_pos ((after_iff _ _).mpr hlater)).trans (max_eq_right (le_of_lt hlater)).symm
        · exact (if_neg (by simpa using hlater)).trans (max_eq_left (not_lt.mp hlater)).symm
      · rw [if_neg hmodel]
        have hlimit : limit ≤ credential.cooldownUntil :=
          le_trans (not_lt.mp hmodel) (le_of_lt hcool)
        have hzero : zeroTime ≤ credential.cooldownUntil := le_trans hnow (le_of_lt hcool)
        exact (if_neg (by simpa using hzero)).trans (max_eq_left hlimit).symm
    · exact absurd (le_trans (le_max_left _ _) hopen) (not_le.mpr hcool)
  · rw [if_neg (by simpa using hcool)]
    by_cases hmodel : now < limit
    · rw [if_pos hmodel, if_pos ((after_iff _ _).mpr hmodel)]
      refine ⟨fun _ => ⟨rfl, rfl, ?_⟩, fun hopen => ?_⟩
      · exact (max_eq_right (le_trans (not_lt.mp hcool) (le_of_lt hmodel))).symm
      · exact absurd (le_trans (le_max_right _ _) hopen) (not_le.mpr hmodel)
    · rw [if_neg hmodel, if_neg (by simpa using hnow)]
      refine ⟨fun hlate => ?_, fun _ => ⟨?_, rfl⟩⟩
      · exact absurd hlate (not_lt.mpr (max_le (not_lt.mp hcool) (not_lt.mp hmodel)))
      · simpa [CredentialInspection.usable] using
          effectiveWeight_pos hgroup hcredential h.1 h.2.2.2.2.1

end Pair

section Earliest

/-- The zero time stands for no time, any other for the first of some times. -/
def Earliest (times : Set Time) (earliest : Time) : Prop :=
  earliest = zeroTime ∧ times = ∅ ∨ earliest ≠ zeroTime ∧ IsLeast times earliest

def untils (credentials : List CredentialInspection) : Set Time :=
  {t | ∃ c ∈ credentials, c.waiting = true ∧ c.cooldownUntil = t}

theorem Earliest.earlier {times : Set Time} {earliest : Time} (h : Earliest times earliest)
    {c : CredentialInspection} (hc : c.waiting = true → c.cooldownUntil ≠ zeroTime) :
    Earliest (times ∪ untils [c]) (earlier earliest c) := by
  unfold Scheduler.earlier
  cases hwaiting : c.waiting with
  | false =>
    have hnone : untils [c] = ∅ := by
      ext t
      simp [untils, hwaiting]
    rw [hnone, Set.union_empty]
    exact h
  | true =>
    have hone : untils [c] = {c.cooldownUntil} := by
      ext t
      constructor
      · rintro ⟨other, hother, -, rfl⟩
        exact congrArg _ (mem_singleton.mp hother)
      · rintro rfl
        exact ⟨c, mem_singleton_self c, hwaiting, rfl⟩
    rw [hone]
    rcases h with ⟨rfl, rfl⟩ | ⟨hne, hleast⟩
    · refine .inr ⟨?_, ?_⟩
      · simpa using hc hwaiting
      · simp
    · have hzero : isZero earliest = false := by simpa [isZero] using hne
      refine .inr ?_
      rw [Set.union_singleton]
      by_cases hafter : c.cooldownUntil < earliest
      · rw [if_pos rfl, if_pos (by simp [hafter])]
        refine ⟨hc hwaiting, Set.mem_insert _ _, ?_⟩
        rintro t (rfl | ht)
        · exact le_rfl
        · exact le_trans (le_of_lt hafter) (hleast.2 ht)
      · rw [if_pos rfl, if_neg (by simpa [hzero] using hafter)]
        refine ⟨hne, Set.mem_insert_of_mem _ hleast.1, ?_⟩
        rintro t (rfl | ht)
        · exact not_lt.mp hafter
        · exact hleast.2 ht

theorem Earliest.foldl {times : Set Time} {earliest : Time}
    {credentials : List CredentialInspection} (h : Earliest times earliest)
    (hc : ∀ c ∈ credentials, c.waiting = true → c.cooldownUntil ≠ zeroTime) :
    Earliest (times ∪ untils credentials) (credentials.foldl Scheduler.earlier earliest) := by
  induction credentials generalizing times earliest with
  | nil =>
    have hnone : untils [] = ∅ := by
      ext t
      simp [untils]
    rw [hnone, Set.union_empty]
    exact h
  | cons c rest ih =>
    have hsplit : times ∪ untils (c :: rest) = times ∪ untils [c] ∪ untils rest := by
      ext t
      simp only [untils, Set.mem_union, Set.mem_ofPred_eq, mem_cons, not_mem_nil,
        or_false, exists_eq_or_imp, exists_eq_left, or_assoc]
    rw [hsplit]
    exact ih (h.earlier (hc c (.head _))) fun other hother =>
      hc other (.tail _ hother)

theorem foldl_groups (groups : List GroupInspection) (earliest : Time) :
    groups.foldl (fun earliest group =>
        if group.included then group.credentials.foldl earlier earliest else earliest) earliest =
      ((groups.filter GroupInspection.included).flatMap
        GroupInspection.credentials).foldl earlier earliest := by
  induction groups generalizing earliest with
  | nil => rfl
  | cons group rest ih =>
    rw [foldl_cons, ih]
    cases hincluded : group.included with
    | false => simp [hincluded]
    | true => simp [hincluded]

end Earliest

section Opening

variable {config : ConfigSnapshot} {query : Query} {views : List CredentialRuntimeView}
  {now : Time}

theorem inspect_decisions (hc : Compiled config) {inspection : Inspection}
    (h : inspect (some config) views query now = .ok inspection) :
    ∃ decisions : List TargetDecision,
      (∀ decision ∈ decisions, Decides config (normalizeQuery query) decision.target decision) ∧
      ∀ t, ∃ i, inspect (some config) views query t = .ok i ∧
        i.groups = decisions.map (inspectGroup views (normalizeQuery query) t) ∧
        i.routable = i.groups.any GroupInspection.routable := by
  unfold inspect at h ⊢
  by_cases hstatus : (normalizeQuery query).accessKey.status = .disabled
  · simp only [if_pos hstatus]
    exact ⟨[], fun _ hmem => absurd hmem not_mem_nil, fun t => ⟨_, rfl, rfl, rfl⟩⟩
  · simp only [if_neg hstatus] at h ⊢
    split at h
    · cases h
    · obtain ⟨decisions, reason, heval, hdecides, -⟩ :=
        @evaluateTargets_ok config config.executionRouteCatalog (normalizeQuery query) hc.cataloged
      refine ⟨decisions, hdecides, fun t => ?_⟩
      simp only [heval]
      by_cases hany : (decisions.map (inspectGroup views (normalizeQuery query) t)).any
          GroupInspection.routable = true
      · rw [if_pos hany]
        exact ⟨_, rfl, rfl, hany.symm⟩
      · rw [if_neg hany]
        exact ⟨_, rfl, rfl, (Bool.eq_false_of_not_eq_true hany).symm⟩

def openings (decisions : List TargetDecision) (views : List CredentialRuntimeView)
    (query : NormalizedQuery) : Set Time :=
  {t | ∃ decision ∈ decisions, decision.included = true ∧ ∃ view ∈ views,
    view.groupID = decision.group.id ∧
      standing decision.group view query.allowedCredentialIDs ∧
      opensAt view decision.target.upstreamModelID query.operation = t}

structure Weighted (decisions : List TargetDecision) (views : List CredentialRuntimeView) :
    Prop where
  groups : ∀ decision ∈ decisions, WeightOK decision.group.weightManual
  credentials : ∀ view ∈ views, WeightOK view.weightManual

variable {decisions : List TargetDecision} {nq : NormalizedQuery}

theorem routable_iff (hw : Weighted decisions views) (hnow : zeroTime ≤ now) :
    (decisions.map (inspectGroup views nq now)).any GroupInspection.routable = true ↔
      ∃ t ∈ openings decisions views nq, t ≤ now := by
  rw [any_map, any_eq_true]
  constructor
  · rintro ⟨decision, hdecision, hroutable⟩
    obtain ⟨c, hin, husable⟩ := inspectGroup_routable.mp hroutable
    obtain ⟨hincluded, view, hview, hgroup, rfl⟩ := mem_inspected.mp hin
    by_cases hstanding : standing decision.group view nq.allowedCredentialIDs
    · refine ⟨_, ⟨decision, hdecision, hincluded, view, hview, hgroup, hstanding, rfl⟩, ?_⟩
      by_contra hlate
      have hshut := (inspectCredential_standing hstanding hnow (hw.groups decision hdecision)
        (hw.credentials view hview)).1 (not_le.mp hlate)
      rw [hshut.1] at husable
      cases husable
    · rw [(inspectCredential_shut hstanding).1] at husable
      cases husable
  · rintro ⟨_, ⟨decision, hdecision, hincluded, view, hview, hgroup, hstanding, rfl⟩, hle⟩
    have hopen := (inspectCredential_standing hstanding hnow (hw.groups decision hdecision)
      (hw.credentials view hview)).2 hle
    exact ⟨decision, hdecision, inspectGroup_routable.mpr
      ⟨_, mem_inspected.mpr ⟨hincluded, view, hview, hgroup, rfl⟩, hopen.1⟩⟩

theorem untils_eq (hw : Weighted decisions views) (hnow : zeroTime ≤ now)
    (hshut : ∀ t ∈ openings decisions views nq, now < t) :
    untils (((decisions.map (inspectGroup views nq now)).filter
      GroupInspection.included).flatMap GroupInspection.credentials) =
        openings decisions views nq := by
  ext t
  constructor
  · rintro ⟨c, hc, hwaiting, rfl⟩
    obtain ⟨group, hgroup, hin⟩ := mem_flatMap.mp hc
    obtain ⟨decision, hdecision, rfl⟩ := mem_map.mp (mem_filter.mp hgroup).1
    obtain ⟨hincluded, view, hview, hid, rfl⟩ := mem_inspected.mp hin
    by_cases hstanding : standing decision.group view nq.allowedCredentialIDs
    · have hmem : opensAt view decision.target.upstreamModelID nq.operation ∈
          openings decisions views nq :=
        ⟨decision, hdecision, hincluded, view, hview, hid, hstanding, rfl⟩
      have hclosed := (inspectCredential_standing hstanding hnow
        (hw.groups decision hdecision) (hw.credentials view hview)).1 (hshut _ hmem)
      rw [hclosed.2.2]
      exact hmem
    · rw [(inspectCredential_shut hstanding).2] at hwaiting
      cases hwaiting
  · intro ht
    have hlate := hshut t ht
    obtain ⟨decision, hdecision, hincluded, view, hview, hid, hstanding, rfl⟩ := ht
    have hclosed := (inspectCredential_standing hstanding hnow (hw.groups decision hdecision)
      (hw.credentials view hview)).1 hlate
    refine ⟨_, mem_flatMap.mpr ⟨_, mem_filter.mpr ⟨mem_map_of_mem hdecision, ?_⟩,
      mem_inspected.mpr ⟨hincluded, view, hview, hid, rfl⟩⟩, hclosed.2.1, hclosed.2.2⟩
    rw [(inspectGroup_fields views nq now decision).1]
    exact hincluded

end Opening

def RoutableAt (config : ConfigSnapshot) (r : CredentialRegistry) (query : Query) (t : Time) :
    Prop :=
  ∃ inspection, inspect (some config) r.snapshot query t = .ok inspection ∧
    inspection.routable = true

theorem weighted_of_compile {input : CompileInput} {revision : Nat} {config : ConfigSnapshot}
    (hcompile : compile input revision = .ok config) {r : CredentialRegistry} (hr : r.Consistent)
    (hweighed : r.Weighed) {nq : NormalizedQuery} {decisions : List TargetDecision}
    (hdecides : ∀ decision ∈ decisions, Decides config nq decision.target decision) :
    Weighted decisions r.snapshot where
  groups decision hdecision := compile_weight hcompile (hdecides decision hdecision).group
  credentials view hview := by
    obtain ⟨entry, hfind, rfl⟩ := (mem_snapshot hr).mp hview
    exact hweighed _ _ entry hfind

/-- One credential waits for itself, the other for its model. -/
def coolingCalls : List (Time × RegistryCall) :=
  [(0, .replaceCredentials [chatEntry 11 1, chatEntry 12 2]), (0, .setCooldownWithChange 11 7),
    (0, .setModelCooldown (credentialRef (chatEntry 12 2)) "gpt" 5 0)]

def chatIterator : Iterator :=
  (newIterator (some chatSnapshot) (SchedulingLedger.new none) chatQuery).1

/-- `CooldownUntil` is exact: where nothing is routable it names the first later moment at
which something is, if only the clock moves, and no moment if there is none. -/
theorem cooldownUntil_exact {input : CompileInput} {revision : Nat} {config : ConfigSnapshot}
    (hcompile : compile input revision = .ok config) (jitter : Option Jitter)
    (calls : List (Time × RegistryCall)) {it : Iterator} (hsnapshot : it.snapshot = some config)
    {now : Time} (hnow : zeroTime ≤ now) {inspection : Inspection}
    (hinspect : inspect (some config) (runCalls jitter calls).snapshot it.query now =
      .ok inspection) (hshut : inspection.routable = false) :
    ((it.cooldownUntil (runCalls jitter calls) now).2 = true ↔
        ∃ t, now < t ∧ RoutableAt config (runCalls jitter calls) it.query t) ∧
      ((it.cooldownUntil (runCalls jitter calls) now).2 = true →
        IsLeast {t | now < t ∧ RoutableAt config (runCalls jitter calls) it.query t}
          (it.cooldownUntil (runCalls jitter calls) now).1) := by
  have hr := (runCalls_consistent jitter calls).1
  have hweighed := runCalls_weighed jitter calls
  generalize runCalls jitter calls = r at *
  obtain ⟨decisions, hdecides, hall⟩ := inspect_decisions (compile_compiled hcompile) hinspect
  have hw := weighted_of_compile hcompile hr hweighed hdecides
  have hroutable : ∀ t, zeroTime ≤ t → (RoutableAt config r it.query t ↔
      ∃ u ∈ openings decisions r.snapshot (normalizeQuery it.query), u ≤ t) := by
    intro t ht
    obtain ⟨i, hi, hgroups, hany⟩ := hall t
    rw [← routable_iff hw ht, ← hgroups, ← hany]
    constructor
    · rintro ⟨i', hi', hroutable⟩
      rw [Except.ok.inj (hi.symm.trans hi')]
      exact hroutable
    · exact fun hroutable => ⟨i, hi, hroutable⟩
  have hlate : ∀ u ∈ openings decisions r.snapshot (normalizeQuery it.query), now < u := by
    intro u hu
    by_contra hle
    obtain ⟨i, hi, hopen⟩ := (hroutable now hnow).mpr ⟨u, hu, not_lt.mp hle⟩
    rw [Except.ok.inj (hi.symm.trans hinspect), hshut] at hopen
    cases hopen
  have hearliest : Earliest (openings decisions r.snapshot (normalizeQuery it.query))
      (it.cooldownUntil r now).1 ∧ (it.cooldownUntil r now).2 =
        !isZero (it.cooldownUntil r now).1 := by
    obtain ⟨i, hi, hgroups, -⟩ := hall now
    obtain rfl := Except.ok.inj (hi.symm.trans hinspect)
    have huntils := untils_eq hw hnow hlate
    rw [Iterator.cooldownUntil, hsnapshot, hi]
    simp only [hshut, Bool.false_eq_true, if_false, foldl_groups, hgroups]
    refine ⟨?_, trivial⟩
    rw [← huntils, ← Set.empty_union (untils _)]
    refine .foldl (.inl ⟨rfl, rfl⟩) fun c hc hwaiting hzero => ?_
    have hopening : c.cooldownUntil ∈ untils _ := ⟨c, hc, hwaiting, rfl⟩
    rw [huntils, hzero] at hopening
    exact absurd (hlate zeroTime hopening) (not_lt.mpr hnow)
  obtain ⟨hearliest, hflag⟩ := hearliest
  rw [hflag]
  generalize (it.cooldownUntil r now).1 = earliest at hearliest
  have hafter : ∀ t, now < t → zeroTime ≤ t := fun t ht => le_trans hnow (le_of_lt ht)
  rcases hearliest with ⟨rfl, hnone⟩ | ⟨hne, hleast⟩
  · have hzero : isZero zeroTime = true := by simp
    refine ⟨⟨fun h => by simp [hzero] at h, ?_⟩, fun h => by simp [hzero] at h⟩
    rintro ⟨t, ht, hopen⟩
    obtain ⟨u, hu, -⟩ := (hroutable t (hafter t ht)).mp hopen
    rw [hnone] at hu
    cases hu
  · have hset : IsLeast {t | now < t ∧ RoutableAt config r it.query t} earliest := by
      refine ⟨⟨hlate _ hleast.1, ?_⟩, ?_⟩
      · exact (hroutable _ (hafter _ (hlate _ hleast.1))).mpr ⟨earliest, hleast.1, le_rfl⟩
      · rintro t ⟨ht, hopen⟩
        obtain ⟨u, hu, hle⟩ := (hroutable t (hafter t ht)).mp hopen
        exact le_trans (hleast.2 hu) hle
    refine ⟨⟨fun _ => ⟨earliest, hset.1⟩, fun _ => ?_⟩, fun _ => hset⟩
    simpa [isZero] using hne

theorem cooldownUntil_exact_chat :
    chatIterator.cooldownUntil (runCalls none coolingCalls) 0 = (5, true) ∧
      IsLeast {t | 0 < t ∧ RoutableAt chatSnapshot (runCalls none coolingCalls) chatQuery t} 5 := by
  have hvalue : chatIterator.cooldownUntil (runCalls none coolingCalls) 0 = (5, true) := by
    decide +kernel
  have hshut : (inspect (some chatSnapshot) (runCalls none coolingCalls).snapshot chatQuery
      0).toOption.map Inspection.routable = some false := by
    decide +kernel
  cases hinspect : inspect (some chatSnapshot) (runCalls none coolingCalls).snapshot
    chatQuery 0 with
  | error message =>
    rw [hinspect] at hshut
    cases hshut
  | ok inspection =>
    rw [hinspect] at hshut
    have hexact := (cooldownUntil_exact compile_chatInput none coolingCalls
      (rfl : chatIterator.snapshot = _) (by decide) hinspect (Option.some.inj hshut)).2
    rw [hvalue] at hexact
    exact ⟨hvalue, hexact rfl⟩

/-- Before the zero time an unset deadline is a cooldown, and the result takes its end for
none. -/
theorem cooldownUntil_before_zero :
    compile chatInput 1 = .ok chatSnapshot ∧
      (inspect (some chatSnapshot) chatRegistry.snapshot chatQuery
        (zeroTime - 1)).toOption.map Inspection.routable = some false ∧
      (chatIterator.cooldownUntil chatRegistry (zeroTime - 1)).2 = false ∧
      (inspect (some chatSnapshot) chatRegistry.snapshot chatQuery
        zeroTime).toOption.map Inspection.routable = some true :=
  ⟨compile_chatInput, by decide +kernel, by decide +kernel, by decide +kernel⟩

end EchoJoyGateway.Scheduler
