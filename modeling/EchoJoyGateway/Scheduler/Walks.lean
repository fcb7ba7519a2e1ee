import EchoJoyGateway.Scheduler.Next

/-!
# Runs of the iterator

A request calls `Next`, `SkipGroup` and `AdvancePriority` in any order, and the
registry may have changed before every `Next`. What an iterator returns over
such a run is told by the query, the configuration and the registry of each
call alone.
-/

namespace EchoJoyGateway.Scheduler

open State Clock List

/-- `next` is with the registry it meets; `advancePriority` is with the last
selection that was returned. -/
inductive IteratorCall where
  | next (r : CredentialRegistry) (now later : Time)
  | skipGroup (groupID : Nat)
  | advancePriority

structure Walk where
  iterator : Iterator
  selections : List Selection

def Walk.apply (w : Walk) : IteratorCall → Walk
  | .next r now later =>
    let result := w.iterator.next r now later
    ⟨result.iterator, w.selections ++ result.selection.toList⟩
  | .skipGroup groupID => { w with iterator := w.iterator.skipGroup groupID }
  | .advancePriority =>
    match w.selections.getLast? with
    | none => w
    | some s => { w with iterator := w.iterator.advancePriority s }

def walk (start : Iterator) (calls : List IteratorCall) : Walk := calls.foldl Walk.apply ⟨start, []⟩

/-- The registry of a call is one whose ledger is in sync. -/
def IteratorCall.InSync : IteratorCall → Prop
  | .next r _ _ => r.Consistent
  | _ => True

section Steps

variable {config : ConfigSnapshot} {query : Query} {w : Walk}

inductive Moves (config : ConfigSnapshot) (query : Query) (w : Walk) : IteratorCall → Walk → Prop
  | exhausted (r : CredentialRegistry) (now later : Time) :
    (w.iterator.next r now later).selection = none → Moves config query w (.next r now later) w
  | answered (r : CredentialRegistry) (now later : Time) (downgraded : Bool)
      (entry : CredentialEntry) (t : CandidateTarget) :
    Answers config query w.iterator downgraded r (if downgraded then later else now) entry t →
    (w.iterator.next r now later).selection = some (newSelection (credentialMeta entry) t) →
    Moves config query w (.next r now later)
      ⟨Iterator.withPool { w.iterator with tried := entry.id :: w.iterator.tried } downgraded
          ((w.iterator.pool downgraded).follow t),
        w.selections ++ [newSelection (credentialMeta entry) t]⟩
  | skipped (groupID : Nat) :
    Moves config query w (.skipGroup groupID) { w with iterator := w.iterator.skipGroup groupID }
  | idle : w.selections = [] → Moves config query w .advancePriority w
  | advanced (s : Selection) : w.selections.getLast? = some s →
    Moves config query w .advancePriority
      ⟨w.iterator.withPool s.responsesStoreDowngraded
          { w.iterator.pool s.responsesStoreDowngraded with
            priorityLimit := some s.group.priority
            lowerPriority := true },
        w.selections⟩

theorem apply_moves (hc : Compiled config) (h : w.iterator.From config query)
    (call : IteratorCall) (hsync : call.InSync) : Moves config query w call (w.apply call) := by
  cases call with
  | next r now later =>
    unfold Walk.apply
    rcases next_cases hc h hsync now later with ⟨hnone, hsame⟩ | ⟨downgraded, entry, t, ha, hs, hi⟩
    · simp only [hnone, hsame, Option.toList_none, append_nil]
      exact .exhausted r now later hnone
    · simp only [hs, hi]
      exact .answered r now later downgraded entry t ha hs
  | skipGroup groupID => exact .skipped groupID
  | advancePriority =>
    unfold Walk.apply
    cases hlast : w.selections.getLast? with
    | none => exact .idle (getLast?_eq_none_iff.mp hlast)
    | some s =>
      simp only [Iterator.advancePriority_eq]
      exact .advanced s hlast

theorem follow_targets (pool : CandidatePool) (t : CandidateTarget) :
    (pool.follow t).targetsByGroup = pool.targetsByGroup := by
  unfold CandidatePool.follow
  split <;> rfl

theorem follow_groups (pool : CandidatePool) (t : CandidateTarget) :
    (pool.follow t).groupIDsByMode = pool.groupIDsByMode := by
  unfold CandidatePool.follow
  split <;> rfl

structure Tracks (config : ConfigSnapshot) (query : Query) (w : Walk) : Prop where
  made : w.iterator.From config query
  tried : ∀ s ∈ w.selections, s.credentialID ∈ w.iterator.tried
  once : (w.selections.map Selection.credentialID).Nodup

variable {call : IteratorCall}

theorem Tracks.moves {w' : Walk} (h : Tracks config query w)
    (hmoves : Moves config query w call w') : Tracks config query w' := by
  cases hmoves with
  | exhausted r now later _ => exact h
  | answered r now later downgraded entry t ha _ =>
    refine ⟨?_, ?_, ?_⟩
    · exact (h.made.tried _).withPool (follow_targets _ t) (follow_groups _ t)
    · intro s hs
      rw [Iterator.tried_withPool]
      rcases mem_append.mp hs with hs | hs
      · exact .tail _ (h.tried s hs)
      · rw [mem_singleton.mp hs]
        exact .head _
    · rw [map_append, nodup_append']
      refine ⟨h.once, nodup_singleton _, ?_⟩
      rintro id hid hnew
      obtain ⟨s, hs, rfl⟩ := mem_map.mp hid
      have heq : s.credentialID = entry.id := by
        simpa [newSelection, credentialMeta] using hnew
      exact ha.available.untried (heq ▸ h.tried s hs)
  | skipped groupID =>
    refine ⟨?_, ?_, h.once⟩
    · unfold Iterator.skipGroup
      split
      · exact h.made
      · exact h.made.skipped _
    · intro s hs
      have htried := h.tried s hs
      unfold Iterator.skipGroup
      split
      · exact htried
      · exact htried
  | idle _ => exact h
  | advanced s _ =>
    refine ⟨h.made.withPool rfl rfl, ?_, h.once⟩
    intro t ht
    rw [Iterator.tried_withPool]
    exact h.tried t ht

variable {calls : List IteratorCall}

theorem Tracks.foldl (hc : Compiled config) (h : Tracks config query w)
    (hsync : ∀ call ∈ calls, call.InSync) :
    Tracks config query (calls.foldl Walk.apply w) := by
  induction calls generalizing w with
  | nil => exact h
  | cons call calls ih =>
    have hmoves := apply_moves hc h.made call (hsync call (.head _))
    exact ih (h.moves hmoves) fun c hcall => hsync c (.tail _ hcall)

theorem Moves.skippedGroups {w' : Walk} (hmoves : Moves config query w call w') :
    (∀ g ∈ w.iterator.skippedGroups, g ∈ w'.iterator.skippedGroups) ∧
      ∀ g, g ≠ 0 → call = .skipGroup g → g ∈ w'.iterator.skippedGroups := by
  cases hmoves with
  | exhausted r now later _ | idle _ => exact ⟨fun _ hg => hg, nofun⟩
  | answered r now later downgraded entry t _ _ | advanced s _ =>
    rw [Iterator.skippedGroups_withPool]
    exact ⟨fun _ hg => hg, nofun⟩
  | skipped groupID =>
    unfold Iterator.skipGroup
    constructor
    · intro g hg
      split
      · exact hg
      · exact .tail _ hg
    · rintro g hzero ⟨⟩
      rw [if_neg hzero]
      exact .head _

theorem skipped_of_mem (hc : Compiled config) (h : Tracks config query w)
    (hsync : ∀ call ∈ calls, call.InSync) {g : Nat} (hzero : g ≠ 0)
    (hg : g ∈ w.iterator.skippedGroups ∨ .skipGroup g ∈ calls) :
    g ∈ (calls.foldl Walk.apply w).iterator.skippedGroups := by
  induction calls generalizing w with
  | nil =>
    rcases hg with hg | hg
    · exact hg
    · cases hg
  | cons call calls ih =>
    have hmoves := apply_moves hc h.made call (hsync call (.head _))
    obtain ⟨hkeep, hnew⟩ := hmoves.skippedGroups
    apply ih (h.moves hmoves) fun c hcall => hsync c (.tail _ hcall)
    rcases hg with hg | hg
    · exact .inl (hkeep g hg)
    · rcases mem_cons.mp hg with heq | hg
      · exact .inl (hnew g hzero heq.symm)
      · exact .inr hg

end Steps

section Descent

variable {config : ConfigSnapshot} {query : Query} {w : Walk} {s : Selection}
  {pre : List Selection}

def ofPool (downgraded : Bool) (selections : List Selection) : List Selection :=
  selections.filter fun t => t.responsesStoreDowngraded == downgraded

/-- After `pre` was returned and its last selection `s` advanced its pool: the limit is the
priority of the pool's last selection, and the pool never goes up again. -/
structure Since (s : Selection) (pre new : List Selection) (it : Iterator) : Prop where
  limit : (it.pool s.responsesStoreDowngraded).priorityLimit =
    some ((ofPool s.responsesStoreDowngraded new).getLastD s).group.priority
  sorted : ((s :: ofPool s.responsesStoreDowngraded new).map fun t => t.group.priority).Pairwise
    (· ≥ ·)
  least : ∀ t ∈ s :: ofPool s.responsesStoreDowngraded new,
    ((ofPool s.responsesStoreDowngraded new).getLastD s).group.priority ≤ t.group.priority
  lower : ofPool s.responsesStoreDowngraded new = [] →
    (it.pool s.responsesStoreDowngraded).lowerPriority = true

theorem ofPool_concat (downgraded : Bool) (l : List Selection) (t : Selection) :
    ofPool downgraded (l ++ [t]) =
      if t.responsesStoreDowngraded = downgraded then ofPool downgraded l ++ [t]
      else ofPool downgraded l := by
  unfold ofPool
  by_cases h : t.responsesStoreDowngraded = downgraded
  · simp [h]
  · simp [h]

variable {new : List Selection}

theorem getLastD_ofPool {t : Selection} (hpre : pre.getLast? = some s)
    (hlast : (pre ++ new).getLast? = some t)
    (hpool : t.responsesStoreDowngraded = s.responsesStoreDowngraded) :
    (ofPool s.responsesStoreDowngraded new).getLastD s = t := by
  rcases eq_nil_or_concat new with rfl | ⟨front, last, rfl⟩
  · rw [append_nil, hpre] at hlast
    exact Option.some.inj hlast
  · rw [concat_eq_append, ← append_assoc, getLast?_concat] at hlast
    cases hlast
    rw [concat_eq_append, ofPool_concat, if_pos hpool, getLastD_concat]

theorem Since.moves {w' : Walk} {call : IteratorCall} (h : Since s pre new w.iterator)
    (hpre : pre.getLast? = some s) (hselections : w.selections = pre ++ new)
    (hmoves : Moves config query w call w') :
    ∃ new', w'.selections = pre ++ new' ∧ Since s pre new' w'.iterator := by
  cases hmoves with
  | exhausted r now later _ => exact ⟨new, hselections, h⟩
  | skipped groupID =>
    refine ⟨new, hselections, ?_⟩
    have hpool : ∀ d, (w.iterator.skipGroup groupID).pool d = w.iterator.pool d := by
      intro d
      unfold Iterator.skipGroup
      split
      · rfl
      · rfl
    exact ⟨by rw [hpool]; exact h.limit, h.sorted, h.least, by rw [hpool]; exact h.lower⟩
  | idle hnil =>
    rw [hselections] at hnil
    rw [(append_eq_nil_iff.mp hnil).1] at hpre
    cases hpre
  | advanced t hlast =>
    refine ⟨new, hselections, ?_⟩
    rcases Bool.eq_or_eq_not t.responsesStoreDowngraded s.responsesStoreDowngraded with
      hsame | hother
    · rw [hselections] at hlast
      have ht := getLastD_ofPool hpre hlast hsame
      refine ⟨?_, h.sorted, h.least, ?_⟩
      · rw [← hsame, Iterator.pool_withPool, hsame, ht]
      · intro _
        rw [← hsame, Iterator.pool_withPool]
    · have hkeep : ∀ p, (w.iterator.withPool t.responsesStoreDowngraded p).pool
          s.responsesStoreDowngraded = w.iterator.pool s.responsesStoreDowngraded := by
        intro p
        have hnot : s.responsesStoreDowngraded = !t.responsesStoreDowngraded := by
          rw [hother, Bool.not_not]
        rw [hnot, Iterator.pool_withPool_not]
      exact ⟨by rw [hkeep]; exact h.limit, h.sorted, h.least, by rw [hkeep]; exact h.lower⟩
  | answered r now later downgraded entry t ha _ =>
    refine ⟨new ++ [newSelection (credentialMeta entry) t], by simp [hselections], ?_⟩
    have hflag : (newSelection (credentialMeta entry) t).responsesStoreDowngraded = downgraded :=
      ha.flagged
    rcases Bool.eq_or_eq_not downgraded s.responsesStoreDowngraded with rfl | hother
    · have hle := ha.limited _ h.limit
      have hfollow : (w.iterator.pool s.responsesStoreDowngraded).follow t =
          { w.iterator.pool s.responsesStoreDowngraded with
            priorityLimit := some t.group.priority, lowerPriority := false } := by
        unfold CandidatePool.follow
        rw [h.limit]
        rfl
      have hconcat : ofPool s.responsesStoreDowngraded
          (new ++ [newSelection (credentialMeta entry) t]) =
          ofPool s.responsesStoreDowngraded new ++ [newSelection (credentialMeta entry) t] := by
        rw [ofPool_concat, if_pos hflag]
      refine ⟨?_, ?_, ?_, ?_⟩
      · rw [Iterator.pool_withPool, hconcat, getLastD_concat, hfollow]
        rfl
      · rw [hconcat, ← cons_append, map_append, pairwise_append]
        refine ⟨h.sorted, pairwise_singleton _ _, ?_⟩
        intro p hp q hq
        obtain ⟨u, hu, rfl⟩ := mem_map.mp hp
        obtain rfl : q = t.group.priority := by
          simpa [newSelection] using hq
        exact hle.trans (h.least u hu)
      · rw [hconcat, getLastD_concat]
        intro u hu
        rw [← cons_append] at hu
        rcases mem_append.mp hu with hu | hu
        · exact hle.trans (h.least u hu)
        · rw [mem_singleton.mp hu]
      · rw [hconcat]
        intro hnil
        exact absurd hnil (by simp)
    · have hne : downgraded ≠ s.responsesStoreDowngraded := by
        rw [hother]
        exact Bool.not_ne_self _
      have hconcat : ofPool s.responsesStoreDowngraded
          (new ++ [newSelection (credentialMeta entry) t]) =
          ofPool s.responsesStoreDowngraded new := by
        rw [ofPool_concat, if_neg (hflag ▸ hne)]
      have hkeep : ∀ (it : Iterator) p, (it.withPool downgraded p).pool
          s.responsesStoreDowngraded = it.pool s.responsesStoreDowngraded := by
        intro it p
        have hnot : s.responsesStoreDowngraded = !downgraded := by
          rw [hother, Bool.not_not]
        rw [hnot, Iterator.pool_withPool_not]
      have hpool : Iterator.pool { w.iterator with tried := entry.id :: w.iterator.tried }
          s.responsesStoreDowngraded = w.iterator.pool s.responsesStoreDowngraded := rfl
      refine ⟨?_, ?_, ?_, ?_⟩
      · rw [hkeep, hconcat]
        exact h.limit
      · rw [hconcat]
        exact h.sorted
      · rw [hconcat]
        exact h.least
      · rw [hkeep, hconcat]
        exact h.lower

theorem Since.foldl (hc : Compiled config) (h : Since s pre new w.iterator)
    (hpre : pre.getLast? = some s) (hselections : w.selections = pre ++ new)
    (htracks : Tracks config query w) {calls : List IteratorCall}
    (hsync : ∀ call ∈ calls, call.InSync) :
    ∃ new', (calls.foldl .apply w).selections = pre ++ new' ∧
      Since s pre new' (calls.foldl Walk.apply w).iterator := by
  induction calls generalizing w new with
  | nil => exact ⟨new, hselections, h⟩
  | cons call calls ih =>
    have hmoves := apply_moves hc htracks.made call (hsync call (.head _))
    obtain ⟨new', hselections', h'⟩ := h.moves hpre hselections hmoves
    exact ih h' hselections' (htracks.moves hmoves) fun c hcall => hsync c (.tail _ hcall)

theorem Since.start (hlast : w.selections.getLast? = some s) :
    (w.apply .advancePriority).selections = w.selections ++ [] ∧
      Since s w.selections [] (w.apply .advancePriority).iterator := by
  unfold Walk.apply
  simp only [hlast, append_nil, Iterator.advancePriority_eq, true_and]
  refine ⟨?_, ?_, ?_, ?_⟩
  · rw [Iterator.pool_withPool]
    rfl
  · exact pairwise_singleton _ _
  · intro t ht
    rw [mem_singleton.mp ht]
    exact le_rfl
  · intro _
    rw [Iterator.pool_withPool]

end Descent

/-- The selection passes the filters of the access key and the sets of the query,
and its credential can be used with it at that moment. -/
structure Accepted (query : Query) (r : CredentialRegistry) (now : Time) (s : Selection) :
    Prop where
  keyStatus : query.accessKey.status ≠ .disabled
  protocolFilter : passes query.accessKey.filters.protocols query.clientProtocol = true
  modelFilter : query.accessKey.filters.models = [] ∨
    ∃ model, query.externalModel = some model ∧ model ∈ query.accessKey.filters.models
  groupFilter : passes query.accessKey.filters.groups s.groupID = true
  allowedID : ∀ ids, query.allowedCredentialIDs = some ids → s.credentialID ∈ ids
  usable : ∃ entry, Buckets.find r.buckets s.groupID s.credentialID = some entry ∧
    allowedRef query entry ∧ entry.blacklisted = false ∧ entry.cooldownUntil ≤ now ∧
    0 < effectiveWeight s.group.weightManual entry.weightManual ∧
    ∀ model, s.upstreamModelID = some model →
      (normalizeQuery query).operation.usesModelCooldown = true →
      entry.modelCooldowns.until model ≤ now

variable {query : Query}

theorem accessRefusal_none (h : accessRefusal (normalizeQuery query) = none) :
    query.accessKey.status ≠ .disabled ∧
    passes query.accessKey.filters.protocols query.clientProtocol = true ∧
    (query.accessKey.filters.models = [] ∨
      ∃ model, query.externalModel = some model ∧ model ∈ query.accessKey.filters.models) := by
  unfold accessRefusal normalizeQuery at h
  split at h
  · cases h
  · rename_i hstatus
    split at h
    · cases h
    · rename_i hprotocol
      refine ⟨hstatus, eq_true_of_ne_false hprotocol, ?_⟩
      split at h
      · split at h
        · rename_i hempty
          exact .inl (List.isEmpty_iff.mp hempty)
        · cases h
      · rename_i model hmodel
        split at h
        · rename_i hpasses
          unfold passes at hpasses
          rw [Bool.or_eq_true, List.isEmpty_iff, List.contains_iff_mem] at hpasses
          rcases hpasses with hempty | hmem
          · exact .inl hempty
          · exact .inr ⟨model, hmodel, hmem⟩
        · cases h

variable {entry : CredentialEntry} {t : CandidateTarget}

theorem not_cooling_of_cool {now : Time} (h : cool query now entry t) {model : String}
    (hmodel : optionalModel t.target.upstreamModelID = some model)
    (hoperation : (normalizeQuery query).operation.usesModelCooldown = true) :
    entry.modelCooldowns.until model ≤ now := by
  unfold optionalModel at hmodel
  split at hmodel
  · cases hmodel
  · rename_i hne
    cases hmodel
    by_contra hlt
    have hafter := (after_iff _ _).mpr (not_le.mp hlt)
    unfold cool modelCooldownUntil at h
    rw [if_neg (by simp [hoperation, hne, hafter])] at h
    rw [hafter] at h
    cases h

theorem Answers.accepted {config : ConfigSnapshot} {it : Iterator} {downgraded : Bool}
    {r : CredentialRegistry} {now : Time} (hc : Compiled config)
    (h : Answers config query it downgraded r now entry t) :
    Accepted query r now (newSelection (credentialMeta entry) t) := by
  obtain ⟨hadmitted, hview, -⟩ := (mem_routed hc).mp h.routed
  obtain ⟨hstatus, hprotocol, hmodels⟩ := accessRefusal_none hadmitted.access
  have havailable := h.available
  refine ⟨hstatus, hprotocol, hmodels, ?_, havailable.allowedID, entry, havailable.stored,
    havailable.allowedRef, havailable.schedulable.blacklisted,
    (after_eq_false_iff _ _).mp havailable.schedulable.cooldown, ?_, ?_⟩
  · have hfilter := hadmitted.passes.filter
    rw [h.group] at hfilter
    exact hfilter
  · obtain ⟨group, hgroup, hpositive⟩ := havailable.weight
    rw [h.group] at hview
    obtain rfl := Option.some.inj (hgroup.symm.trans hview)
    exact hpositive
  · intro model hmodel hoperation
    exact not_cooling_of_cool h.cool hmodel hoperation

def momentOf (downgraded : Bool) (now later : Time) : Time := if downgraded then later else now

structure Disciplined (config : ConfigSnapshot) (query : Query) (start : Iterator)
    (calls : List IteratorCall) : Prop where
  once : ((walk start calls).selections.map Selection.credentialID).Nodup
  accepted : ∀ before r now later rest s, calls = before ++ .next r now later :: rest →
    ((walk start before).iterator.next r now later).selection = some s →
    Accepted query r (momentOf s.responsesStoreDowngraded now later) s ∧
      ∀ g, .skipGroup g ∈ before → s.groupID ≠ g
  descends : ∀ before rest s, calls = before ++ .advancePriority :: rest →
    (walk start before).selections.getLast? = some s →
    ((s :: ofPool s.responsesStoreDowngraded
      ((walk start calls).selections.drop (walk start before).selections.length)).map
        fun t => t.group.priority).Pairwise (· ≥ ·)
  lowered : ∀ before between r now later rest s t,
    calls = before ++ .advancePriority :: (between ++ .next r now later :: rest) →
    (walk start before).selections.getLast? = some s →
    ofPool s.responsesStoreDowngraded
      ((walk start (before ++ .advancePriority :: between)).selections.drop
        (walk start before).selections.length) = [] →
    ((walk start (before ++ .advancePriority :: between)).iterator.next r now later).selection =
      some t →
    t.responsesStoreDowngraded = s.responsesStoreDowngraded →
    ((∃ e, Available config query (walk start (before ++ .advancePriority :: between)).iterator
        s.responsesStoreDowngraded r (momentOf s.responsesStoreDowngraded now later) e ∧
        groupPriority config e.groupID < s.group.priority) →
      t.group.priority < s.group.priority ∧
      ∀ e, Available config query (walk start (before ++ .advancePriority :: between)).iterator
          s.responsesStoreDowngraded r (momentOf s.responsesStoreDowngraded now later) e →
        groupPriority config e.groupID < s.group.priority →
        groupPriority config e.groupID ≤ t.group.priority) ∧
    ((∀ e, Available config query (walk start (before ++ .advancePriority :: between)).iterator
        s.responsesStoreDowngraded r (momentOf s.responsesStoreDowngraded now later) e →
        ¬ groupPriority config e.groupID < s.group.priority) →
      t.group.priority ≤ s.group.priority ∧
      ∀ e, Available config query (walk start (before ++ .advancePriority :: between)).iterator
          s.responsesStoreDowngraded r (momentOf s.responsesStoreDowngraded now later) e →
        groupPriority config e.groupID ≤ s.group.priority →
        groupPriority config e.groupID ≤ t.group.priority)
  exhausted : ∀ before r now later rest, calls = before ++ .next r now later :: rest →
    (∀ e, ¬ Left config query (walk start before).iterator false r now e) →
    (∀ e, ¬ Left config query (walk start before).iterator true r later e) →
    ((walk start before).iterator.next r now later).selection = none ∧
      ((walk start before).iterator.next r now later).ledger = r.scheduling

theorem walk_append (start : Iterator) (before rest : List IteratorCall) :
    walk start (before ++ rest) = rest.foldl .apply (walk start before) :=
  foldl_append ..

section Discipline

variable {config : ConfigSnapshot} {query : Query} {start : Iterator}

theorem walk_tracks (hc : Compiled config) (hstart : start.From config query)
    (calls : List IteratorCall) (hsync : ∀ call ∈ calls, call.InSync) :
    Tracks config query (walk start calls) := by
  have hempty : Tracks config query ⟨start, []⟩ := ⟨hstart, nofun, nodup_nil⟩
  exact hempty.foldl hc hsync

variable {s : Selection}

theorem walk_since (hc : Compiled config) (hstart : start.From config query)
    {before rest : List IteratorCall} (hbefore : ∀ call ∈ before, call.InSync)
    (hrest : ∀ call ∈ rest, call.InSync)
    (hlast : (walk start before).selections.getLast? = some s) :
    ∃ new, (walk start (before ++ .advancePriority :: rest)).selections.drop
        (walk start before).selections.length = new ∧
      Since s (walk start before).selections new
        (walk start (before ++ .advancePriority :: rest)).iterator := by
  obtain ⟨hselections, hsince⟩ := Since.start hlast
  have htracks := walk_tracks hc hstart before hbefore
  have hmoves := apply_moves hc htracks.made .advancePriority trivial
  obtain ⟨new, hnew, h⟩ := hsince.foldl hc hlast hselections (htracks.moves hmoves) hrest
  refine ⟨new, ?_, ?_⟩
  · rw [walk_append, foldl_cons, hnew, drop_left]
  · rw [walk_append]
    exact h

theorem answers_of_next (hc : Compiled config) {it : Iterator} (h : it.From config query)
    {r : CredentialRegistry} (hr : r.Consistent) {now later : Time}
    (hs : (it.next r now later).selection = some s) :
    ∃ entry t, s = newSelection (credentialMeta entry) t ∧
      Answers config query it s.responsesStoreDowngraded r
        (momentOf s.responsesStoreDowngraded now later) entry t := by
  rcases next_cases hc h hr now later with ⟨hnone, -⟩ | ⟨downgraded, entry, t, ha, hsome, -⟩
  · rw [hnone] at hs
    cases hs
  · rw [hsome] at hs
    cases hs
    refine ⟨entry, t, rfl, ?_⟩
    have hflag : (newSelection (credentialMeta entry) t).responsesStoreDowngraded = downgraded :=
      ha.flagged
    rw [hflag]
    exact ha

end Discipline

/-- A channel that serves chat completions natively. -/
def chatTarget : ResolvedTarget where
  responsesWebsocket := ⟨false, false, false, false, false⟩
  channelID := "openai"
  modes p operation :=
    if p = .openAICompletions ∧ operation = .chatCompletion then some .native else none
  resolvers _ _ := none
  responsesStoreHandlings _ _ := .unset

def chatGroup (id : Nat) (priority : Int) : GroupConfig where
  id := id
  name := "chat"
  priority := priority
  channelID := "openai"
  connectionType := "key"
  params := ""
  validationProtocol := none
  models := [⟨"gpt", ""⟩]
  weightManual := none
  enabled := true

def chatInput : CompileInput where
  channelRegistry := ⟨fun _ => some ⟨[.openAICompletions], "key"⟩, fun _ _ => .ok chatTarget⟩
  groups := [chatGroup 1 5, chatGroup 2 3]
  settings := .ok .nativeFirst
  groupSettings _ := .ok false

def chatSnapshot : ConfigSnapshot where
  revision := 1
  routeStrategy := .nativeFirst
  executionCandidates :=
    [⟨.openAICompletions, .chatCompletion, "gpt", ⟨1, "gpt", .native, chatTarget⟩⟩,
      ⟨.openAICompletions, .chatCompletion, "gpt", ⟨2, "gpt", .native, chatTarget⟩⟩]
  executionRouteCatalog :=
    [⟨.openAICompletions, .chatCompletion, "gpt", ⟨1, "gpt", .native, chatTarget⟩⟩,
      ⟨.openAICompletions, .chatCompletion, "gpt", ⟨2, "gpt", .native, chatTarget⟩⟩]
  groups := [⟨1, 5, [⟨"gpt", ""⟩], false, none⟩, ⟨2, 3, [⟨"gpt", ""⟩], false, none⟩]
  groupCatalog := [⟨1, "chat", 5, true, none⟩, ⟨2, "chat", 3, true, none⟩]

theorem compile_chatInput : compile chatInput 1 = .ok chatSnapshot := by
  rfl

def chatEntry (id groupID : Nat) : CredentialEntry where
  name := ""
  id := id
  groupID := groupID
  version := 1
  identityGeneration := 1
  fingerprint := "f"
  weightManual := none
  concurrencyLimit := 0
  status := .active
  authState := .ready
  cooldownUntil := zeroTime
  modelCooldowns _ := none
  modelCooldownGeneration := 0
  blacklisted := false
  failureCount := 0
  failureGeneration := 0
  encryptedValue := "v"
  encryptedProxy := ""
  proxyFingerprint := ""
  quotaRemaining := none
  quotaResetAt := zeroTime
  sharedEpoch := ""
  sharedVersion := 0

def chatRegistry : CredentialRegistry :=
  runCalls none [(0, .replaceCredentials [chatEntry 11 1, chatEntry 12 2])]

theorem chatRegistry_consistent : chatRegistry.Consistent := by
  obtain ⟨_, h⟩ := runCalls_represents none
    [(0, .replaceCredentials [chatEntry 11 1, chatEntry 12 2])]
  exact h.consistent

def chatQuery : Query where
  clientProtocol := .openAICompletions
  operation := .chatCompletion
  routeRequirement := .unset
  responsesStorePreference := .unset
  externalModel := some "gpt"
  accessKey := ⟨.active, ⟨[], [], []⟩⟩
  allowedCredentialIDs := none
  preferredCredentialID := 0
  allowedCredentialRefs := none
  responsesWebsocket := none

def chatCalls : List IteratorCall :=
  [.next chatRegistry 0 0, .advancePriority, .next chatRegistry 1 1, .next chatRegistry 2 2]

/-- Runs of the candidate iterator: over any calls of `Next`, `SkipGroup` and
`AdvancePriority` on an iterator of a compiled snapshot, with any registry in sync
at every `Next`, nothing is returned twice, everything returned is accepted and
of no skipped group, priorities descend from an advance on, the first selection
after it is from the next lower priority that is available, and an iterator
with nothing left leaves the ledger alone. -/
theorem iterator_disciplined {input : CompileInput} {revision : Nat} {config : ConfigSnapshot}
    (hcompile : compile input revision = .ok config) (ledger : SchedulingLedger) (query : Query)
    (calls : List IteratorCall) (hsync : ∀ call ∈ calls, call.InSync) :
    Disciplined config query (newIterator (some config) ledger query).1 calls := by
  have hc := compile_compiled hcompile
  have hstart := Iterator.newIterator_from config ledger query
  refine ⟨(walk_tracks hc hstart calls hsync).once, ?_, ?_, ?_, ?_⟩
  · rintro before r now later rest s rfl hs
    have hbefore : ∀ call ∈ before, call.InSync :=
      fun call hcall => hsync call (mem_append_left _ hcall)
    have hr : r.Consistent := hsync (.next r now later) (by simp)
    have htracks := walk_tracks hc hstart before hbefore
    obtain ⟨entry, t, rfl, hanswers⟩ := answers_of_next hc htracks.made hr hs
    refine ⟨hanswers.accepted hc, ?_⟩
    intro g hg hsame
    have hview := ((mem_routed hc).mp hanswers.routed).2.1
    have hgroup : entry.groupID = g := hsame
    rw [hanswers.group, hgroup] at hview
    have hzero := hc.nonzero g _ hview
    have hskipped := skipped_of_mem hc (w := ⟨_, []⟩)
      ⟨hstart, nofun, nodup_nil⟩ hbefore hzero (.inr hg)
    exact hanswers.available.unskipped (hgroup ▸ hskipped)
  · rintro before rest s rfl hlast
    obtain ⟨new, hnew, hsince⟩ := walk_since hc hstart
      (fun call hcall => hsync call (mem_append_left _ hcall))
      (fun call hcall => hsync call (mem_append_right _ (.tail _ hcall))) hlast
    rw [hnew]
    exact hsince.sorted
  · rintro before between r now later rest s t rfl hlast hnone ht hpool
    have hbefore : ∀ call ∈ before, call.InSync :=
      fun call hcall => hsync call (mem_append_left _ hcall)
    have hbetween : ∀ call ∈ between, call.InSync := fun call hcall =>
      hsync call (mem_append_right _ (.tail _ (mem_append_left _ hcall)))
    have hr : r.Consistent := hsync (.next r now later) (by simp)
    obtain ⟨new, hnew, hsince⟩ := walk_since hc hstart hbefore hbetween hlast
    rw [hnew] at hnone
    have htracks := walk_tracks hc hstart (before ++ .advancePriority :: between) (by
      intro call hcall
      rcases mem_append.mp hcall with hcall | hcall
      · exact hbefore call hcall
      · rcases mem_cons.mp hcall with rfl | hcall
        · exact trivial
        · exact hbetween call hcall)
    obtain ⟨entry, t, rfl, hanswers⟩ := answers_of_next hc htracks.made hr ht
    rw [hpool] at hanswers
    have hlimit := hsince.limit
    rw [hnone] at hlimit
    refine ⟨hanswers.lowered _ hlimit (hsince.lower hnone), ?_⟩
    intro hall
    exact ⟨hanswers.limited _ hlimit, hanswers.highest _ hlimit hall⟩
  · rintro before r now later rest rfl hregular hdown
    have hr : r.Consistent := hsync (.next r now later) (by simp)
    have htracks := walk_tracks hc hstart before
      fun call hcall => hsync call (mem_append_left _ hcall)
    rw [next_exhausted hc htracks.made hr hregular hdown]
    exact ⟨rfl, rfl⟩

theorem chatCalls_disciplined :
    (walk (newIterator (some chatSnapshot) chatRegistry.scheduling chatQuery).1
      chatCalls).selections.map Selection.credentialID = [11, 12] ∧
    Disciplined chatSnapshot chatQuery
      (newIterator (some chatSnapshot) chatRegistry.scheduling chatQuery).1 chatCalls := by
  refine ⟨by decide +kernel, iterator_disciplined compile_chatInput _ _ _ ?_⟩
  intro call hcall
  rcases mem_cons.mp hcall with rfl | hcall
  · exact chatRegistry_consistent
  · rcases mem_cons.mp hcall with rfl | hcall
    · trivial
    · rcases mem_pair.mp hcall with rfl | rfl
      · exact chatRegistry_consistent
      · exact chatRegistry_consistent

end EchoJoyGateway.Scheduler
