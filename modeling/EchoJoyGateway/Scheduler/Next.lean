import EchoJoyGateway.Scheduler.Available

/-!
# One call of the iterator

What `Next` can answer: a credential that is available, of the priority that the
limit of its pool asks for, with a target whose model is not cooling; or nothing,
and then a pool without an available credential left the ledger as it was.
-/

namespace EchoJoyGateway.Scheduler

open State Clock List

variable {d d' : SchedulingLedger} {selected : CredentialMeta}
  {candidates : List WeightedCredential}

section Priority

theorem raise_foldl (l : List Int) (best : Option Int) {p : Int}
    (h : l.foldl Iterator.raise best = some p) :
    (best = some p ∨ p ∈ l) ∧ (∀ b, best = some b → b ≤ p) ∧ ∀ x ∈ l, x ≤ p := by
  induction l generalizing best with
  | nil =>
    refine ⟨.inl h, ?_, by simp⟩
    intro b hb
    exact (Option.some.inj (hb.symm.trans h)).le
  | cons x l ih =>
    obtain ⟨hin, hbest, hall⟩ := ih _ h
    have hraise : ∃ y, Iterator.raise best x = some y ∧ (y = x ∨ best = some y) ∧ x ≤ y ∧
        ∀ b, best = some b → b ≤ y := by
      unfold Iterator.raise
      cases best with
      | none => exact ⟨x, rfl, .inl rfl, le_rfl, by simp⟩
      | some b =>
        by_cases hlt : b < x
        · refine ⟨x, by simp [hlt], .inl rfl, le_rfl, ?_⟩
          rintro _ ⟨⟩
          exact hlt.le
        · refine ⟨b, by simp [hlt], .inr rfl, not_lt.mp hlt, ?_⟩
          rintro _ ⟨⟩
          exact le_rfl
    obtain ⟨y, hy, hfrom, hxy, hby⟩ := hraise
    have hyp := hbest y hy
    refine ⟨?_, fun b hb => (hby b hb).trans hyp, ?_⟩
    · rcases hin with hin | hin
      · obtain rfl := Option.some.inj (hy.symm.trans hin)
        rcases hfrom with rfl | hfrom
        · exact .inr (.head _)
        · exact .inl hfrom
      · exact .inr (.tail _ hin)
    · intro z hz
      rcases mem_cons.mp hz with rfl | hz
      · exact hxy.trans hyp
      · exact hall z hz

theorem raise_foldl_ne_none {l : List Int} {best : Option Int} (h : best ≠ none ∨ l ≠ []) :
    l.foldl Iterator.raise best ≠ none := by
  induction l generalizing best with
  | nil => simpa using h
  | cons x l ih =>
    apply ih
    refine .inl ?_
    unfold Iterator.raise
    cases best <;> simp

variable {it : Iterator} {pool : CandidatePool} {candidates : List WeightedCredential}

def Iterator.valueOf (it : Iterator) (c : WeightedCredential) : Int :=
  it.priorityOf c.credential.groupID

variable {limit : Int}

theorem priority_foldl_limited (hlimit : pool.priorityLimit = some limit)
    (candidates : List WeightedCredential) (tier : Iterator.Tier) :
    (candidates.foldl (it.priorityStep pool) tier).priority =
      ((candidates.map it.valueOf).filter fun v => v ≤ limit).foldl Iterator.raise tier.priority ∧
    (candidates.foldl (it.priorityStep pool) tier).lower =
      ((candidates.map it.valueOf).filter fun v => pool.lowerPriority && decide (v < limit)).foldl
        Iterator.raise tier.lower := by
  induction candidates generalizing tier with
  | nil => exact ⟨rfl, rfl⟩
  | cons c candidates ih =>
    obtain ⟨hp, hl⟩ := ih (it.priorityStep pool tier c)
    rw [foldl_cons, hp, hl]
    simp only [Iterator.priorityStep, hlimit, map_cons, filter_cons]
    by_cases habove : limit < it.valueOf c
    · have hnle : ¬ it.valueOf c ≤ limit := not_le.mpr habove
      have hnlt : ¬ it.valueOf c < limit := fun h => absurd (h.trans habove) (lt_irrefl _)
      have hvalue : limit < it.priorityOf c.credential.groupID := habove
      simp [hvalue, hnle, hnlt]
    · have hle : it.valueOf c ≤ limit := not_lt.mp habove
      have hvalue : ¬ limit < it.priorityOf c.credential.groupID := habove
      simp only [hvalue, hle]
      refine ⟨rfl, ?_⟩
      by_cases hlt : pool.lowerPriority = true ∧ it.valueOf c < limit
      · have hpriority : it.priorityOf c.credential.groupID < limit := hlt.2
        simp [hlt.1, hpriority, Iterator.valueOf]
      · have hcond : (pool.lowerPriority && decide (it.valueOf c < limit)) = false := by
          simpa using hlt
        have hpriority : ¬ (pool.lowerPriority = true ∧
            it.priorityOf c.credential.groupID < limit) := hlt
        simp [hcond, hpriority]

variable {c : WeightedCredential}

theorem priorityCandidates_subset (h : c ∈ it.priorityCandidates pool candidates) :
    c ∈ candidates := by
  unfold Iterator.priorityCandidates at h
  simp only at h
  split at h
  · cases h
  · exact (mem_filter.mp h).1

theorem priorityCandidates_limited (hlimit : pool.priorityLimit = some limit)
    (h : c ∈ it.priorityCandidates pool candidates) :
    it.valueOf c ≤ limit ∧
    (pool.lowerPriority = true → (∃ e ∈ candidates, it.valueOf e < limit) →
      it.valueOf c < limit ∧ ∀ e ∈ candidates, it.valueOf e < limit →
        it.valueOf e ≤ it.valueOf c) ∧
    ((∀ e ∈ candidates, ¬ it.valueOf e < limit) →
      ∀ e ∈ candidates, it.valueOf e ≤ limit → it.valueOf e ≤ it.valueOf c) := by
  obtain ⟨hp, hl⟩ := @priority_foldl_limited it pool limit hlimit candidates ⟨none, none⟩
  unfold Iterator.priorityCandidates at h
  simp only [hp, hl] at h
  split at h
  · cases h
  · rename_i top htop
    obtain ⟨-, hvalue⟩ := mem_filter.mp h
    have hvalue' : it.valueOf c = _ := eq_of_beq hvalue
    obtain ⟨htop', -, htopall⟩ := raise_foldl _ _ htop
    have htoplimit : top ≤ limit := by
      rcases htop' with hnone | hmem
      · cases hnone
      · simpa using (mem_filter.mp hmem).2
    cases hlow : ((candidates.map it.valueOf).filter
        fun v => pool.lowerPriority && decide (v < limit)).foldl Iterator.raise none with
    | none =>
      rw [hlow] at hvalue'
      rw [hvalue']
      refine ⟨htoplimit, ?_, ?_⟩
      · rintro hlower ⟨e, he, hlt⟩
        have hmem : it.valueOf e ∈ (candidates.map it.valueOf).filter
            fun v => pool.lowerPriority && decide (v < limit) :=
          mem_filter.mpr ⟨mem_map_of_mem he, by simp [hlower, hlt]⟩
        exact absurd hlow (raise_foldl_ne_none (.inr (ne_nil_of_mem hmem)))
      · intro _ e he hle
        exact htopall _ (mem_filter.mpr ⟨mem_map_of_mem he, by simpa using hle⟩)
    | some low =>
      rw [hlow] at hvalue'
      obtain ⟨hlow', -, hlowall⟩ := raise_foldl _ _ hlow
      obtain ⟨hmem, hlower, hlt⟩ : low ∈ candidates.map it.valueOf ∧ pool.lowerPriority = true ∧
          low < limit := by
        rcases hlow' with hnone | hmem
        · cases hnone
        · simpa using mem_filter.mp hmem
      rw [hvalue']
      refine ⟨hlt.le, ?_, ?_⟩
      · rintro - -
        refine ⟨hlt, ?_⟩
        intro e he hlt'
        exact hlowall _ (mem_filter.mpr ⟨mem_map_of_mem he, by simp [hlower, hlt']⟩)
      · intro hnone
        obtain ⟨e, he, rfl⟩ := mem_map.mp hmem
        exact absurd hlt (hnone e he)

end Priority

section Choice

theorem leastCredential_mem (d : SchedulingLedger) (rest : List WeightedCredential)
    (first : WeightedCredential) : leastCredential d first rest ∈ first :: rest := by
  induction rest generalizing first with
  | nil => exact .head _
  | cons c rest ih =>
    have hbest := ih (if less d c first then c else first)
    change leastCredential d (if less d c first then c else first) rest ∈ first :: c :: rest
    rcases mem_cons.mp hbest with heq | hmem
    · rw [heq]
      split
      · exact mem_cons_of_mem _ (.head _)
      · exact .head _
    · exact .tail _ (.tail _ hmem)

theorem chooseCredential_mem (d : SchedulingLedger) (first : WeightedCredential)
    (rest : List WeightedCredential) (preferred : Nat) :
    chooseCredential d first rest preferred ∈ first :: rest := by
  unfold chooseCredential
  split
  · rename_i hfind
    exact mem_of_find?_eq_some hfind
  · exact limitStreak_mem (leastCredential_mem d rest first)

theorem selectCredential_mem {revision : Option Nat} {preferred : Nat}
    (h : selectCredential revision d candidates preferred = (d', some selected)) :
    ∃ c ∈ candidates, c.credential = selected := by
  rcases selectCredential_cases revision d candidates preferred with
    ⟨d'', -, heq⟩ | ⟨first, rest, chosen, m, next, hlist, hchoose, -, -, heq⟩
  · rw [heq] at h
    cases h
  · rw [heq] at h
    obtain ⟨-, hselected⟩ := Prod.mk.inj h
    have hmem := chooseCredential_mem (prepared revision d candidates) first rest preferred
    rw [hchoose, ← hlist] at hmem
    exact ⟨chosen, (mem_filter.mp hmem).1, Option.some.inj hselected⟩

variable {models : List String}

theorem selectModel_mem (d : SchedulingLedger) (groupID : Nat) (externalModel : String)
    (h : models ≠ []) :
    (d.selectModel groupID externalModel models).2 ∈ models := by
  unfold SchedulingLedger.selectModel
  split
  · exact absurd rfl h
  · simp only
    split
    · exact .head _
    · rename_i index hindex
      obtain ⟨hlt, hfound, -⟩ := findIdx?_eq_some_iff_getElem.mp hindex
      rw [getD_eq_getElem?_getD, getElem?_eq_getElem hlt]
      simpa using hfound

variable {it : Iterator} {pool : CandidatePool} {modes : List RouteMode} {now : Time}

theorem chooseModel_mem (it : Iterator) (d : SchedulingLedger) (groupID : Nat) (h : models ≠ []) :
    ∃ d' model, it.chooseModel d groupID models = (d', model) ∧ model ∈ models := by
  unfold Iterator.chooseModel
  cases it.query.externalModel with
  | none =>
    obtain ⟨first, rest, rfl⟩ := exists_cons_of_ne_nil h
    exact ⟨d, first, rfl, .head _⟩
  | some externalModel => exact ⟨_, _, rfl, selectModel_mem d groupID externalModel h⟩

theorem selectTarget_spec (d : SchedulingLedger) {credential : CredentialMeta}
    (h : ∃ t ∈ pool.targetsByGroup credential.groupID,
      it.targetAvailable t credential modes now = true) :
    ∃ d' t, it.selectTarget pool modes d credential now = (d', some t) ∧
      t ∈ pool.targetsByGroup credential.groupID ∧
      ∃ t' ∈ pool.targetsByGroup credential.groupID,
        it.targetAvailable t' credential modes now = true ∧
        t'.target.upstreamModelID = t.target.upstreamModelID := by
  have hmodels : it.availableModels pool modes credential now ≠ [] := by
    obtain ⟨t, ht, havailable⟩ := h
    exact ne_nil_of_mem (mem_map_of_mem (mem_filter.mpr ⟨ht, havailable⟩))
  obtain ⟨d', model, heq, hmem⟩ := chooseModel_mem it d credential.groupID hmodels
  obtain ⟨t', ht', hmodel'⟩ := mem_map.mp hmem
  obtain ⟨hin, havailable⟩ := mem_filter.mp ht'
  unfold Iterator.selectTarget
  simp only [heq]
  cases hfind : (pool.targetsByGroup credential.groupID).find?
      fun t => t.target.upstreamModelID == model with
  | none =>
    have := find?_eq_none.mp hfind t' hin
    simp [hmodel'] at this
  | some t =>
    have htmodel : t.target.upstreamModelID = model := by
      simpa using find?_some hfind
    exact ⟨d', t, rfl, mem_of_find?_eq_some hfind, t', hin, havailable, hmodel'.trans htmodel.symm⟩

theorem tryTiers_some {tiers : List (List RouteMode)} {t : CandidateTarget}
    (h : it.tryTiers pool now candidates d tiers = (d', some (selected, t))) :
    ∃ c ∈ candidates, c.credential = selected ∧ t ∈ pool.targetsByGroup selected.groupID ∧
      ∃ t' modes, it.targetAvailable t' selected modes now = true ∧
        t'.target.upstreamModelID = t.target.upstreamModelID := by
  induction tiers generalizing d with
  | nil => cases h
  | cons modes tiers ih =>
    unfold Iterator.tryTiers at h
    rcases hselect : selectCredential (it.snapshot.map ConfigSnapshot.revision) d
        (it.eligibleFor pool modes now candidates) it.preferredCredentialID with ⟨d'', _ | chosen⟩
    · rw [hselect] at h
      exact ih h
    · rw [hselect] at h
      obtain ⟨c, hc, rfl⟩ := selectCredential_mem hselect
      obtain ⟨hin, hany⟩ := mem_filter.mp hc
      obtain ⟨d₃, t₂, heq, ht₂, t', -, havailable, hmodel⟩ :=
        @selectTarget_spec it pool modes now d'' c.credential (any_eq_true.mp hany)
      simp only [heq] at h
      obtain ⟨-, hsome⟩ := Prod.mk.inj h
      cases hsome
      exact ⟨c, hin, rfl, ht₂, t', modes, havailable, hmodel⟩

theorem tryTiers_nil (d : SchedulingLedger) (tiers : List (List RouteMode)) :
    it.tryTiers pool now [] d tiers = (d, none) := by
  induction tiers with
  | nil => rfl
  | cons modes tiers ih =>
    exact ih

end Choice

section Next

variable {config : ConfigSnapshot} {query : Query} {it : Iterator} {r : CredentialRegistry}

def groupPriority (config : ConfigSnapshot) (groupID : Nat) : Int :=
  match config.group groupID with
  | none => 0
  | some group => group.priority

theorem priorityOf_eq (h : it.From config query) (groupID : Nat) :
    it.priorityOf groupID = groupPriority config groupID := by
  cases hgroup : config.group groupID with
  | none | some group => simp [Iterator.priorityOf, groupPriority, h.snapshot, hgroup]

structure Answers (config : ConfigSnapshot) (query : Query) (it : Iterator) (downgraded : Bool)
    (r : CredentialRegistry) (now : Time) (entry : CredentialEntry) (t : CandidateTarget) :
    Prop where
  available : Available config query it downgraded r now entry
  routed : t ∈ routed config query
  flagged : t.responsesStoreDowngraded = downgraded
  group : t.target.groupID = entry.groupID
  cool : cool query now entry t
  limited : ∀ limit, (it.pool downgraded).priorityLimit = some limit → t.group.priority ≤ limit
  lowered : ∀ limit, (it.pool downgraded).priorityLimit = some limit →
    (it.pool downgraded).lowerPriority = true →
    (∃ e, Available config query it downgraded r now e ∧
      groupPriority config e.groupID < limit) →
    t.group.priority < limit ∧ ∀ e, Available config query it downgraded r now e →
      groupPriority config e.groupID < limit → groupPriority config e.groupID ≤ t.group.priority
  highest : ∀ limit, (it.pool downgraded).priorityLimit = some limit →
    (∀ e, Available config query it downgraded r now e →
      ¬ groupPriority config e.groupID < limit) →
    ∀ e, Available config query it downgraded r now e →
      groupPriority config e.groupID ≤ limit → groupPriority config e.groupID ≤ t.group.priority

theorem nextFrom_some (hc : Compiled config) (h : it.From config query) (hr : r.Consistent)
    (downgraded : Bool) {now : Time} {t : CandidateTarget}
    (heq : it.nextFrom (it.pool downgraded) r d now = (d', some (selected, t))) :
    ∃ entry, selected = credentialMeta entry ∧
      Answers config query it downgraded r now entry t := by
  obtain ⟨c, hc', rfl, ht, t', modes, havailable, hmodel⟩ := tryTiers_some heq
  have hpool := fun e => @mem_weightedPool config query it downgraded r now hc h hr e
  have hpriority := priorityOf_eq h
  obtain ⟨entry, hentry, hmeta⟩ := (hpool c.credential).mp ⟨c, priorityCandidates_subset hc', rfl⟩
  rw [hmeta] at ht havailable
  obtain ⟨hrouted, hdown, hgroup⟩ := (mem_targets h).mp ht
  have hview := ((mem_routed hc).mp hrouted).2.1
  have hvalue : it.valueOf c = t.group.priority := by
    unfold Iterator.valueOf
    rw [hpriority, hmeta]
    unfold groupPriority
    have hentryGroup := hgroup.symm
    rw [hentryGroup, hview]
  have hothers : ∀ e, Available config query it downgraded r now e →
      ∃ w ∈ it.weightedPool (it.pool downgraded) [.native, .converted] r now,
        it.valueOf w = groupPriority config e.groupID := by
    intro e he
    obtain ⟨w, hw, hwe⟩ := (hpool (credentialMeta e)).mpr ⟨e, he, rfl⟩
    refine ⟨w, hw, ?_⟩
    unfold Iterator.valueOf
    rw [hpriority, hwe]
    rfl
  refine ⟨entry, hmeta, hentry, hrouted, hdown, hgroup, ?_, ?_, ?_, ?_⟩
  · have hcool := ((targetAvailable_iff h).mp havailable).2
    unfold Scheduler.cool at hcool ⊢
    rwa [hmodel] at hcool
  · intro limit hlimit
    rw [← hvalue]
    exact (priorityCandidates_limited hlimit hc').1
  · rintro limit hlimit hlower ⟨e, he, hlt⟩
    obtain ⟨w, hw, hwe⟩ := hothers e he
    obtain ⟨hbelow, hall⟩ := (priorityCandidates_limited hlimit hc').2.1 hlower ⟨w, hw, hwe ▸ hlt⟩
    rw [← hvalue]
    refine ⟨hbelow, ?_⟩
    intro e' he' hlt'
    obtain ⟨w', hw', hwe'⟩ := hothers e' he'
    rw [← hwe'] at hlt' ⊢
    exact hall w' hw' hlt'
  · intro limit hlimit hnone e he hle
    obtain ⟨w, hw, hwe⟩ := hothers e he
    rw [← hvalue, ← hwe]
    refine (priorityCandidates_limited hlimit hc').2.2 ?_ w hw (hwe ▸ hle)
    intro w' hw' hlt
    obtain ⟨e', he', hmeta'⟩ := (hpool w'.credential).mp ⟨w', hw', rfl⟩
    refine hnone e' he' ?_
    unfold Iterator.valueOf at hlt
    rw [hpriority, hmeta'] at hlt
    exact hlt

theorem priorityCandidates_above {pool : CandidatePool}
    (h : ∀ c ∈ candidates, ∃ limit, pool.priorityLimit = some limit ∧ limit < it.valueOf c) :
    it.priorityCandidates pool candidates = [] := by
  cases candidates with
  | nil => rfl
  | cons first rest =>
    obtain ⟨limit, hlimit, -⟩ := h first (.head _)
    have hnone : ((first :: rest).map it.valueOf).filter (fun v => v ≤ limit) = [] := by
      rw [filter_eq_nil_iff]
      intro v hv
      obtain ⟨c, hc, rfl⟩ := mem_map.mp hv
      obtain ⟨limit', hlimit', hlt⟩ := h c hc
      obtain rfl := Option.some.inj (hlimit.symm.trans hlimit')
      simpa using hlt
    have hpriority := (@priority_foldl_limited it pool limit hlimit (first :: rest) ⟨none, none⟩).1
    rw [hnone, foldl_nil] at hpriority
    unfold Iterator.priorityCandidates
    simp only [hpriority]

structure Left (config : ConfigSnapshot) (query : Query) (it : Iterator) (downgraded : Bool)
    (r : CredentialRegistry) (now : Time) (entry : CredentialEntry) : Prop where
  available : Available config query it downgraded r now entry
  within : ∀ limit, (it.pool downgraded).priorityLimit = some limit →
    groupPriority config entry.groupID ≤ limit

theorem nextFrom_empty (hc : Compiled config) (h : it.From config query) (hr : r.Consistent)
    {downgraded : Bool} {now : Time} (d : SchedulingLedger)
    (hnone : ∀ entry, ¬ Left config query it downgraded r now entry) :
    it.nextFrom (it.pool downgraded) r d now = (d, none) := by
  have hempty : it.priorityCandidates (it.pool downgraded)
      (it.weightedPool (it.pool downgraded) [.native, .converted] r now) = [] := by
    apply priorityCandidates_above
    intro w hw
    obtain ⟨entry, hentry, hmeta⟩ := (mem_weightedPool hc h hr).mp ⟨w, hw, rfl⟩
    by_contra hcon
    refine hnone entry ⟨hentry, ?_⟩
    intro limit hlimit
    rw [← priorityOf_eq h]
    apply le_of_not_gt
    intro hlt
    refine hcon ⟨limit, hlimit, ?_⟩
    unfold Iterator.valueOf
    rw [hmeta]
    exact hlt
  unfold Iterator.nextFrom
  rw [hempty]
  exact tryTiers_nil d it.routeModeTiers

namespace Iterator

def withPool (it : Iterator) (downgraded : Bool) (pool : CandidatePool) : Iterator :=
  if downgraded then { it with storeDowngraded := pool } else { it with regular := pool }

@[simp] theorem pool_withPool (it : Iterator) (downgraded : Bool) (p : CandidatePool) :
    (it.withPool downgraded p).pool downgraded = p := by
  cases downgraded <;> rfl

@[simp] theorem pool_withPool_not (it : Iterator) (downgraded : Bool) (p : CandidatePool) :
    (it.withPool downgraded p).pool (!downgraded) = it.pool (!downgraded) := by
  cases downgraded <;> rfl

@[simp] theorem tried_withPool (it : Iterator) (downgraded : Bool) (p : CandidatePool) :
    (it.withPool downgraded p).tried = it.tried := by
  cases downgraded <;> rfl

@[simp] theorem skippedGroups_withPool (it : Iterator) (downgraded : Bool) (p : CandidatePool) :
    (it.withPool downgraded p).skippedGroups = it.skippedGroups := by
  cases downgraded <;> rfl

theorem From.withPool (h : it.From config query) {downgraded : Bool} {p : CandidatePool}
    (htargets : p.targetsByGroup = (it.pool downgraded).targetsByGroup)
    (hgroups : p.groupIDsByMode = (it.pool downgraded).groupIDsByMode) :
    (it.withPool downgraded p).From config query := by
  refine ⟨?_, ?_, ?_, ?_, ?_, ?_, ?_, ?_⟩
  · cases downgraded <;> exact h.snapshot
  · cases downgraded <;> exact h.asked
  · cases downgraded <;> exact h.operation
  · cases downgraded <;> exact h.allowedIDs
  · cases downgraded <;> exact h.allowedRefs
  · cases downgraded <;> exact h.tiers
  · intro d
    rcases Bool.eq_or_eq_not d downgraded with rfl | rfl
    · rw [pool_withPool, htargets, h.targets]
    · rw [pool_withPool_not, h.targets]
  · intro d
    rcases Bool.eq_or_eq_not d downgraded with rfl | rfl
    · rw [pool_withPool, hgroups, h.groups]
    · rw [pool_withPool_not, h.groups]

theorem From.tried (h : it.From config query) (ids : List Nat) :
    Iterator.From config query { it with tried := ids } :=
  ⟨h.snapshot, h.asked, h.operation, h.allowedIDs, h.allowedRefs, h.tiers, h.targets, h.groups⟩

theorem From.skipped (h : it.From config query) (groups : List Nat) :
    Iterator.From config query { it with skippedGroups := groups } :=
  ⟨h.snapshot, h.asked, h.operation, h.allowedIDs, h.allowedRefs, h.tiers, h.targets, h.groups⟩

theorem newIterator_from (config : ConfigSnapshot) (ledger : SchedulingLedger) (query : Query) :
    (newIterator (some config) ledger query).1.From config query :=
  ⟨rfl, rfl, rfl, rfl, rfl, rfl, fun downgraded => by cases downgraded <;> rfl,
    fun downgraded => by cases downgraded <;> rfl⟩

theorem advancePriority_eq (it : Iterator) (s : Selection) :
    it.advancePriority s = it.withPool s.responsesStoreDowngraded
      { it.pool s.responsesStoreDowngraded with
        priorityLimit := some s.group.priority
        lowerPriority := true } := by
  unfold advancePriority withPool pool
  cases s.responsesStoreDowngraded <;> rfl

end Iterator

variable {later now : Time} {t : CandidateTarget}

theorem next_of_regular (h : it.nextFrom it.regular r r.scheduling now = (d, some (selected, t))) :
    it.next r now later =
      ⟨{ it with tried := selected.id :: it.tried, regular := it.regular.follow t }, d,
        some (newSelection selected t)⟩ := by
  unfold Iterator.next
  rw [h]

theorem next_of_downgraded (h : it.nextFrom it.regular r r.scheduling now = (d, none))
    (h' : it.nextFrom it.storeDowngraded r d later = (d', some (selected, t))) :
    it.next r now later =
      ⟨{ it with
          tried := selected.id :: it.tried
          storeDowngraded := it.storeDowngraded.follow t }, d',
        some (newSelection selected t)⟩ := by
  unfold Iterator.next
  simp only [h, h']

theorem next_of_none (h : it.nextFrom it.regular r r.scheduling now = (d, none))
    (h' : it.nextFrom it.storeDowngraded r d later = (d', none)) :
    it.next r now later = ⟨it, d', none⟩ := by
  unfold Iterator.next
  simp only [h, h']

theorem next_cases (hc : Compiled config) (h : it.From config query) (hr : r.Consistent)
    (now later : Time) :
    ((it.next r now later).selection = none ∧ (it.next r now later).iterator = it) ∨
    ∃ downgraded entry t,
      Answers config query it downgraded r (if downgraded then later else now) entry t ∧
      (it.next r now later).selection = some (newSelection (credentialMeta entry) t) ∧
      (it.next r now later).iterator =
        { it with tried := entry.id :: it.tried }.withPool downgraded
          ((it.pool downgraded).follow t) := by
  rcases hregular : it.nextFrom it.regular r r.scheduling now with ⟨d, _ | ⟨selected, t⟩⟩
  · rcases hdown : it.nextFrom it.storeDowngraded r d later with ⟨d', _ | ⟨selected, t⟩⟩
    · rw [next_of_none hregular hdown]
      exact .inl ⟨rfl, rfl⟩
    · obtain ⟨entry, rfl, hanswers⟩ := nextFrom_some hc h hr true hdown
      rw [next_of_downgraded hregular hdown]
      exact .inr ⟨true, entry, t, hanswers, rfl, rfl⟩
  · obtain ⟨entry, rfl, hanswers⟩ := nextFrom_some hc h hr false hregular
    rw [next_of_regular hregular]
    exact .inr ⟨false, entry, t, hanswers, rfl, rfl⟩

theorem next_exhausted (hc : Compiled config) (h : it.From config query) (hr : r.Consistent)
    (hregular : ∀ entry, ¬ Left config query it false r now entry)
    (hdown : ∀ entry, ¬ Left config query it true r later entry) :
    it.next r now later = ⟨it, r.scheduling, none⟩ :=
  next_of_none (nextFrom_empty hc h hr r.scheduling hregular)
    (nextFrom_empty hc h hr r.scheduling hdown)

end Next

end EchoJoyGateway.Scheduler
