import EchoJoyGateway.Quota.Charges

/-!
# Redis holds only states the loader accepts

The kind and the period of a rule are fixed by its revision. A record is a
legal state of its rule after every run: a total rule has no window, and an
inactive periodic rule has no usage because every ticket of a periodic rule
names a generation that was opened.
-/

namespace EchoJoyGateway.Quota

open Decimal LuaNumber Redis List

/-- The kind and period that a rule has at a revision. -/
abbrev Catalog := Nat → Nat → Kind × Int

def Conforms (catalog : Catalog) (rule : Rule) : Prop :=
  catalog rule.id rule.revision = (rule.kind, rule.periodSeconds)

/-- The clock of an evaluation: not before the epoch, and no window end leaves
the `int64` range. -/
def Call.Timely : Call → Prop
  | .evaluate _ _ rules nowMS => 0 ≤ nowMS ∧ ∀ rule ∈ rules, nowMS + periodMS rule < 2 ^ 63
  | _ => True

structure Identified (rule : Rule) (s : RestoredState) : Prop where
  accessKey : s.accessKeyID ≠ 0
  ruleID : s.ruleID ≠ 0
  revision : s.ruleRevision ≠ 0
  used : 0 ≤ s.usedNano
  version : s.snapshotVersion ≠ 0
  id_eq : s.ruleID = rule.id
  revision_eq : s.ruleRevision = rule.revision

def Inactive (s : RestoredState) : Prop :=
  s.windowStartedAtMS = none ∧ s.windowEndsAtMS = none ∧ s.windowGeneration = 0

def Active (period : Int) (s : RestoredState) : Prop :=
  ∃ started ends, s.windowStartedAtMS = some started ∧ s.windowEndsAtMS = some ends ∧
    0 ≤ started ∧ started < ends ∧ s.windowGeneration ≠ 0 ∧ wrapInt64 (ends - started) = period

variable {rule : Rule} {s : RestoredState}

theorem accepted_total (hkind : rule.kind = .total) :
    Accepted rule s ↔ Identified rule s ∧ Inactive s := by
  rw [accepted_iff, validateRestoredState_ok, applyRestoredState_total hkind]
  constructor
  · rintro ⟨⟨ha, hi, hr, hu, hv, -, -⟩, hid, hrev, hwindow⟩
    exact ⟨⟨ha, hi, hr, hu, hv, hid, hrev⟩, hwindow⟩
  · rintro ⟨⟨ha, hi, hr, hu, hv, hid, hrev⟩, hws, hwe, hgen⟩
    exact ⟨⟨ha, hi, hr, hu, hv, by rw [hws, hwe], by rw [hws]; rfl⟩, hid, hrev, hws, hwe, hgen⟩

theorem accepted_periodic (hkind : rule.kind ≠ .total) :
    Accepted rule s ↔ Identified rule s ∧
      ((Inactive s ∧ s.usedNano = 0) ∨ Active (periodMS rule) s) := by
  rw [accepted_iff, validateRestoredState_ok]
  cases hws : s.windowStartedAtMS with
  | none =>
    rw [applyRestoredState_inactive hkind hws]
    constructor
    · rintro ⟨⟨ha, hi, hr, hu, hv, hnone, -⟩, hid, hrev, hused, hgen⟩
      refine ⟨⟨ha, hi, hr, hu, hv, hid, hrev⟩, .inl ⟨⟨hws, ?_, hgen⟩, hused⟩⟩
      exact Option.isNone_iff_eq_none.mp hnone.symm
    · rintro ⟨⟨ha, hi, hr, hu, hv, hid, hrev⟩, ⟨⟨-, hwe, hgen⟩, hused⟩ | ⟨st, en, hst, -⟩⟩
      · exact ⟨⟨ha, hi, hr, hu, hv, by rw [hwe], by rw [hwe]; rfl⟩, hid, hrev, hused, hgen⟩
      · rw [hws] at hst
        cases hst
  | some started =>
    rw [applyRestoredState_active hkind hws]
    constructor
    · rintro ⟨⟨ha, hi, hr, hu, hv, hsome, horder⟩, hid, hrev, hgen, hperiod⟩
      refine ⟨⟨ha, hi, hr, hu, hv, hid, hrev⟩, .inr ?_⟩
      cases hwe : s.windowEndsAtMS with
      | none =>
        rw [hwe] at hsome
        cases hsome
      | some ends =>
        rw [hwe] at horder hperiod
        simp only [windowOrdered, Bool.and_eq_true, decide_eq_true_eq] at horder
        exact ⟨started, ends, hws, hwe, horder.1, horder.2, hgen, hperiod⟩
    · rintro ⟨⟨ha, hi, hr, hu, hv, hid, hrev⟩,
        ⟨⟨hnone, -⟩, -⟩ | ⟨st, en, hst, hen, h0, hlt, hgen, hp⟩⟩
      · rw [hws] at hnone
        cases hnone
      · obtain rfl := Option.some.inj (hws.symm.trans hst)
        rw [hen]
        refine ⟨⟨ha, hi, hr, hu, hv, rfl, ?_⟩, hid, hrev, hgen, hp⟩
        simp only [windowOrdered, h0, hlt, decide_true, Bool.and_self]

/-- The state is a legal state of every rule definition of its revision. -/
def Lawful (catalog : Catalog) (s : RestoredState) : Prop :=
  ∀ rule, rule.id = s.ruleID → rule.revision = s.ruleRevision → Conforms catalog rule →
    Accepted rule s

variable {catalog : Catalog}

theorem Lawful.of_accepted (hconforms : Conforms catalog rule)
    (h : Accepted rule s) : Lawful catalog s := by
  intro other hid hrev hother
  obtain ⟨-, hrule, hrevision, -⟩ := accepted_iff.mp h
  have hsame : (other.kind, other.periodSeconds) = (rule.kind, rule.periodSeconds) := by
    rw [← hconforms, ← hother, hid, hrev, hrule, hrevision]
  obtain ⟨hkind, hperiod⟩ := Prod.mk.inj hsame
  have hident : ∀ t, Identified rule t → Identified other t := fun t ht =>
    ⟨ht.accessKey, ht.ruleID, ht.revision, ht.used, ht.version,
      ht.id_eq.trans (hrule.symm.trans hid.symm),
      ht.revision_eq.trans (hrevision.symm.trans hrev.symm)⟩
  by_cases htotal : rule.kind = .total
  · obtain ⟨hi, hw⟩ := (accepted_total htotal).mp h
    exact (accepted_total (hkind.trans htotal)).mpr ⟨hident s hi, hw⟩
  · obtain ⟨hi, hw⟩ := (accepted_periodic htotal).mp h
    refine (accepted_periodic (fun h' => htotal (hkind.symm.trans h'))).mpr ⟨hident s hi, ?_⟩
    rwa [periodMS, hperiod]

variable {nowMS : Int}

theorem kind_of_idle {kind : Kind} (h : idle nowMS kind s = true) :
    kind = .periodic := by
  unfold idle at h
  split at h
  · rfl
  · rfl
  · cases h

theorem window_of_not_idle (h : idle nowMS .periodic s ≠ true) :
    s.windowStartedAtMS ≠ none := by
  intro hnone
  apply h
  unfold idle
  rw [hnone]

theorem ruleShapeValid_periodic (h : ruleShapeValid rule = true)
    (hkind : rule.kind = .periodic) :
    60000 ≤ periodMS rule ∧ periodMS rule ≤ 31536000000 := by
  simp only [ruleShapeValid, hkind, Bool.and_eq_true, decide_eq_true_eq] at h
  obtain ⟨-, hmin, hmax⟩ := h
  unfold minPeriodSeconds at hmin
  unfold maxPeriodSeconds at hmax
  unfold periodMS
  omega

theorem wrapInt64_of_range {z : Int} (hlow : -2 ^ 63 ≤ z) (hhigh : z < 2 ^ 63) :
    wrapInt64 z = z := by
  unfold wrapInt64
  rw [Int.bmod_eq_of_le]
  · omega
  · omega

theorem accepted_opened (h : Accepted rule s)
    (hkind : rule.kind = .periodic) (hshape : ruleShapeValid rule = true) (hnow : 0 ≤ nowMS)
    (hend : nowMS + periodMS rule < 2 ^ 63) :
    Accepted rule (opened s nowMS (windowEnd rule nowMS)) := by
  have hnot : rule.kind ≠ .total := by
    rw [hkind]
    exact nofun
  obtain ⟨hi, -⟩ := (accepted_periodic hnot).mp h
  obtain ⟨hmin, hmax⟩ := ruleShapeValid_periodic hshape hkind
  have hwindow : windowEnd rule nowMS = nowMS + periodMS rule := wrapInt64_of_range (by omega) hend
  rw [accepted_periodic hnot]
  refine ⟨⟨hi.accessKey, hi.ruleID, hi.revision, le_rfl, Nat.succ_ne_zero _, hi.id_eq,
    hi.revision_eq⟩, .inr ⟨nowMS, _, rfl, rfl, hnow, by omega, Nat.succ_ne_zero _, ?_⟩⟩
  rw [wrapInt64_of_range (by omega) (by omega)]
  omega

theorem accepted_charged (h : Accepted rule s) {used : Int}
    (hused : 0 ≤ used) (hgen : rule.kind = .total ∨ s.windowGeneration ≠ 0) :
    Accepted rule (charged s used) := by
  have hident : Identified rule s → Identified rule (charged s used) := fun hi =>
    ⟨hi.accessKey, hi.ruleID, hi.revision, hused, Nat.succ_ne_zero _, hi.id_eq, hi.revision_eq⟩
  by_cases htotal : rule.kind = .total
  · obtain ⟨hi, hw⟩ := (accepted_total htotal).mp h
    exact (accepted_total htotal).mpr ⟨hident hi, hw⟩
  · obtain ⟨hi, ⟨hinactive, -⟩ | hactive⟩ := (accepted_periodic htotal).mp h
    · exact absurd hinactive.2.2 (hgen.resolve_left htotal)
    · exact (accepted_periodic htotal).mpr ⟨hident hi, .inr hactive⟩

theorem settled_eq_charged {b : Nat} (h : Fits (2 ^ 53) b s) (cost : Int) :
    settled s cost = s ∨ ∃ used, 0 ≤ used ∧ settled s cost = charged s used := by
  rcases settled_cases s cost with hs | ⟨used, hs⟩
  · exact .inl hs
  · have hnonneg := (h.settled cost).used_nonneg
    rw [hs] at hnonneg
    exact .inr ⟨used, hnonneg, hs⟩

/-- A ticket of a rule that is not total names a generation that was opened. -/
def Windowed (catalog : Catalog) (ticket : Ticket) : Prop :=
  ∀ rule ∈ ticket.rules, (catalog rule.ruleID rule.ruleRevision).1 ≠ .total →
    rule.windowGeneration ≠ 0

def LawfulStore (catalog : Catalog) (store : QuotaStore) : Prop :=
  ∀ s, store (stateKey s) = some (checkpointHash s) → Lawful catalog s

def definitionOf (catalog : Catalog) (s : RestoredState) : Rule where
  id := s.ruleID
  revision := s.ruleRevision
  kind := (catalog s.ruleID s.ruleRevision).1
  currency := "USD"
  limitNano := 1
  periodSeconds := (catalog s.ruleID s.ruleRevision).2

theorem definitionOf_conforms (catalog : Catalog) (s : RestoredState) :
    Conforms catalog (definitionOf catalog s) := rfl

theorem Lawful.accepted (h : Lawful catalog s) :
    Accepted (definitionOf catalog s) s :=
  h _ rfl rfl (definitionOf_conforms catalog s)

section Step

variable {b counters : Nat} {catalog : Catalog} {w : SharedState} {call : Call}

theorem LawfulStore.apply (hsound : Sound b w) (hb : b + 1 < 2 ^ 63)
    (hstore : LawfulStore catalog w.store)
    (htickets : ∀ ticket ∈ w.tickets, Windowed catalog ticket)
    (hlegal : call.Legal w) (hrange : call.InRange counters) (hcounters : counters ≤ b)
    (hconforms : ∀ rule ∈ call.rules, Conforms catalog rule) (htimely : call.Timely) :
    LawfulStore catalog (call.apply w).store := by
  intro t ht
  have hmove := Call.move hsound.typed hb hsound.issued hlegal hrange hcounters (stateKey t)
  have hunique : ∀ u, stateKey u = stateKey t →
      (call.apply w).store (stateKey t) = some (checkpointHash u) → t = u := fun u hu hus =>
    checkpointHash_injective hu.symm (Option.some.inj (ht.symm.trans hus))
  cases hmove with
  | same hafter _ _ => exact hstore t (hafter.symm.trans ht)
  | seeded targets rule checkpoint hcall hmem hkey hfits hafter _ =>
    subst hcall
    obtain rfl := hunique checkpoint hkey hafter
    cases hlegal with
    | hydrate hnodup hvalid haccepted htypes =>
      exact .of_accepted (hconforms rule (mem_map_of_mem hmem)) (haccepted _ hmem)
  | opened s rules rule nowMS hcall hmem hnow hkey hid hfits hrevision hidle hbefore hafter =>
    subst hcall
    obtain rfl := hunique _
      (show stateKey (opened s nowMS (windowEnd rule nowMS)) = _ from hkey) hafter
    have hsid : rule.id = s.ruleID := by
      have := congrArg Prod.snd hkey
      exact (hid.symm.trans this.symm)
    have hlaw : Lawful catalog s := hstore s (by rw [hkey]; exact hbefore)
    cases hlegal with
    | evaluate _ hvalid _ =>
      have hrule := hconforms rule hmem
      exact .of_accepted hrule (accepted_opened (hlaw rule hsid hrevision.symm hrule)
        (kind_of_idle hidle) (validRules_shape hvalid hmem) htimely.1 (htimely.2 rule hmem))
  | settled s ticket rule cost hcall hmem hid hcharge hkey hfits hrule hbefore hafter =>
    subst hcall
    obtain rfl := hunique _ ((stateKey_settled s cost).trans hkey) hafter
    have hlaw : Lawful catalog s := hstore s (by rw [hkey]; exact hbefore)
    rcases settled_eq_charged hfits cost with hs | ⟨used, hused, hs⟩
    · rw [hs]
      exact hlaw
    · rw [hs]
      refine @Lawful.of_accepted (definitionOf catalog s) _ _ rfl
        (accepted_charged hlaw.accepted hused ?_)
      cases hlegal with
      | complete hticket _ =>
        by_cases htotal : (catalog s.ruleID s.ruleRevision).1 = .total
        · exact .inl htotal
        · right
          have hruleID : rule.ruleID = s.ruleID := congrArg Prod.snd (hid.trans hkey.symm)
          rw [← hrule.2]
          refine htickets ticket hticket rule hmem ?_
          rwa [hruleID, hrule.1]

theorem windowed_of_admitted {a : Nat} {store : QuotaStore} {rules : List Rule} {nowMS : Int}
    (htyped : Typed b store) (hb : b + 1 < 2 ^ 63) (hstore : LawfulStore catalog store)
    (hvalid : validRules rules = true) (hrev : ∀ rule ∈ rules, rule.revision ≤ 2 ^ 53)
    (hconforms : ∀ rule ∈ rules, Conforms catalog rule) (hnow : inInt64 nowMS = true)
    {ticket : Ticket} {marks : List Mark}
    (h : admitted a rules (runQuota .admission a rules nowMS store).2 = some (ticket, marks)) :
    Windowed catalog ticket := by
  obtain ⟨s, hs, -, hrules, -⟩ := admitted_spec htyped hb (validRules_nodup hvalid) hrev hnow h
  intro entry hentry
  rw [hrules] at hentry
  obtain ⟨rule, hmem, rfl⟩ := mem_map.mp hentry
  obtain ⟨hcur, -⟩ := hs rule hmem
  have hid : (s rule).ruleID = rule.id := congrArg Prod.snd hcur.key
  have hkey : (ticketRule (evaluated .admission true nowMS rule (s rule))).ruleID = rule.id ∧
      (ticketRule (evaluated .admission true nowMS rule (s rule))).ruleRevision =
        rule.revision := by
    unfold evaluated
    split
    · exact ⟨hid, hcur.revision⟩
    · exact ⟨hid, hcur.revision⟩
  rw [hkey.1, hkey.2, hconforms rule hmem]
  intro hkind
  by_cases hopen : opens .admission true nowMS rule (s rule) = true
  · rw [evaluated_of_opens hopen]
    exact Nat.succ_ne_zero _
  · rw [evaluated_of_not_opens hopen]
    have hperiodic : rule.kind = .periodic := by
      have hshape := validRules_shape hvalid hmem
      cases hk : rule.kind with
      | total => exact absurd hk hkind
      | periodic => rfl
      | other name => simp [ruleShapeValid, hk] at hshape
    have hidle : idle nowMS .periodic (s rule) ≠ true := by
      rw [← hperiodic]
      simpa [opens] using hopen
    have haccepted : Accepted rule (s rule) :=
      hstore (s rule) (by rw [hcur.key]; exact hcur.stored) rule hid.symm hcur.revision.symm
        (hconforms rule hmem)
    rcases ((accepted_periodic hkind).mp haccepted).2 with ⟨hinactive, -⟩ |
      ⟨_, _, _, _, _, _, hgen, _⟩
    · exact absurd hinactive.1 (window_of_not_idle hidle)
    · exact hgen

end Step

structure LawfulRun (catalog : Catalog) (w : SharedState) : Prop where
  store : LawfulStore catalog w.store
  tickets : ∀ ticket ∈ w.tickets, Windowed catalog ticket

variable {catalog : Catalog} {w : SharedState}

theorem LawfulRun.apply {b counters : Nat} {call : Call} (h : LawfulRun catalog w)
    (hsound : Sound b w) (hb : b + 1 < 2 ^ 63) (hlegal : call.Legal w)
    (hrange : call.InRange counters) (hcounters : counters ≤ b)
    (hconforms : ∀ rule ∈ call.rules, Conforms catalog rule) (htimely : call.Timely) :
    LawfulRun catalog (call.apply w) := by
  refine ⟨.apply hsound hb h.store h.tickets hlegal hrange hcounters hconforms htimely,
    fun ticket hticket => ?_⟩
  cases hlegal with
  | evaluate hkey hvalid hnow =>
    rcases mem_issue hticket with hold | ⟨rfl, marks, hanswer⟩
    · exact h.tickets ticket hold
    · exact windowed_of_admitted hsound.typed hb h.store hvalid hrange.rules hconforms hnow hanswer
  | hydrate => exact h.tickets ticket hticket
  | complete => exact h.tickets ticket hticket

theorem Run.lawful {calls : List Call} (hrun : Run calls w) {counters : Nat}
    (hrange : ∀ call ∈ calls, call.InRange counters) (hcount : counters + calls.length < 2 ^ 63)
    (hconforms : ∀ call ∈ calls, ∀ rule ∈ call.rules, Conforms catalog rule)
    (htimely : ∀ call ∈ calls, call.Timely) : LawfulRun catalog w := by
  induction hrun with
  | start =>
    refine ⟨fun s hs => ?_, nofun⟩
    cases hs
  | @step calls w call hrun hlegal ih =>
    rw [length_append] at hcount
    have hearlier : ∀ c ∈ calls, c ∈ calls ++ [call] := fun c hc => mem_append_left _ hc
    have hlast : call ∈ calls ++ [call] := by simp
    have hrange' := fun c hc => hrange c (hearlier c hc)
    have hbefore := ih hrange' (by omega) (fun c hc => hconforms c (hearlier c hc))
      fun c hc => htimely c (hearlier c hc)
    exact hbefore.apply (hrun.sound hrange' (by omega)) hcount hlegal (hrange call hlast)
      (Nat.le_add_right _ _) (hconforms call hlast) (htimely call hlast)

/-- After every run each hash decodes to a state that the loader accepts for
the rule of its revision; a further call keeps or raises the revision, and at
the same revision a changed record has a greater version. -/
theorem stored_states_accepted {calls : List Call} {w : SharedState} (hrun : Run calls w)
    {counters : Nat} {catalog : Catalog} (hrange : ∀ call ∈ calls, call.InRange counters)
    (hcount : counters + calls.length + 1 < 2 ^ 63)
    (hconforms : ∀ call ∈ calls, ∀ rule ∈ call.rules, Conforms catalog rule)
    (htimely : ∀ call ∈ calls, call.Timely) :
    (∀ key row, w.store key = some row → ∃ s, parseHash key row = some s ∧
      ∀ rule, rule.id = s.ruleID → rule.revision = s.ruleRevision → Conforms catalog rule →
        Accepted rule s) ∧
    ∀ call : Call, call.Legal w → call.InRange counters → ∀ key row, w.store key = some row →
      ∃ row' s s', (call.apply w).store key = some row' ∧ parseHash key row = some s ∧
        parseHash key row' = some s' ∧ s.ruleRevision ≤ s'.ruleRevision ∧
        (s.ruleRevision = s'.ruleRevision → s' = s ∨ s.snapshotVersion < s'.snapshotVersion) := by
  have hsound := hrun.sound hrange (by omega)
  have hlawful := hrun.lawful hrange (by omega) hconforms htimely
  constructor
  · intro key row hrow
    obtain ⟨s, rfl, rfl, hfits⟩ := hsound.typed key row hrow
    exact ⟨s, parseHash_checkpointHash hfits (by norm_num) (by omega), hlawful.store s hrow⟩
  · intro call hlegal hcall key row hrow
    obtain ⟨s, rfl, rfl, hfits⟩ := hsound.typed key row hrow
    have hmove := Call.move hsound.typed hcount hsound.issued hlegal hcall (Nat.le_add_right _ _)
      (stateKey s)
    obtain ⟨t, htkey, ht, hgrows⟩ := hmove.grows rfl hrow
    obtain ⟨t', ht'key, ht', htfits⟩ := hmove.typed (fun row => hsound.typed _ row) _ ht
    obtain rfl := checkpointHash_injective (htkey.trans ht'key.symm) ht'
    refine ⟨_, s, t, ht, parseHash_checkpointHash hfits (by norm_num) (by omega), ?_, ?_, ?_⟩
    · rw [← htkey]
      exact parseHash_checkpointHash htfits (by norm_num) (by omega)
    · rcases hgrows with hlt | ⟨heq, -⟩
      · exact hlt.le
      · exact heq.le
    · intro heq
      rcases hgrows with hlt | ⟨-, -, hver⟩
      · exact absurd heq hlt.ne
      · exact hver

def meterCatalog : Catalog := fun id _ => if id = 8 then (.periodic, 3600) else (.total, 0)

theorem meterCalls_timely : ∀ call ∈ meterCalls, call.Timely := by
  intro call hcall
  simp only [meterCalls, mem_cons, not_mem_nil, or_false] at hcall
  rcases hcall with rfl | rfl | rfl
  · trivial
  · exact ⟨by decide, by decide⟩
  · trivial

/-- The record of the hour that the admission opens, after the charge. -/
def chargedHour : RestoredState := charged (opened (freshState hourlyRule 0 1) 1000 3601000) 5

theorem meterCalls_accepted :
    (replay meterCalls).store (1, 8) = some (checkpointHash chargedHour) ∧
      Accepted hourlyRule chargedHour := by
  have hrow : (replay meterCalls).store (1, 8) = some (checkpointHash chargedHour) := by decide
  obtain ⟨haccepted, -⟩ := @stored_states_accepted _ _ meterRun _ meterCatalog meterCalls_inRange
    (by decide) (by unfold Conforms; decide) meterCalls_timely
  obtain ⟨s, hs, hrule⟩ := haccepted (1, 8) _ hrow
  have hstate : parseHash (1, 8) (checkpointHash chargedHour) = some chargedHour := by decide
  obtain rfl := Option.some.inj (hstate.symm.trans hs)
  exact ⟨hrow, hrule hourlyRule rfl rfl rfl⟩

/-- The window end of a periodic rule wraps around. -/
def lateCalls : List Call :=
  [.hydrate [(hourlyRule, freshState hourlyRule 0 1)],
    .evaluate .admission 1 [hourlyRule] (2 ^ 63 - 1)]

theorem lateRun : Run lateCalls (replay lateCalls) := by
  refine @Run.step [_] _ _ (@Run.step [] _ _ .start ?_) ?_
  · exact @legal_hydrate_fresh _ [(hourlyRule, 0, 1)] (by decide) (by decide) (by decide)
  · exact .evaluate (by decide) (by decide) (by decide)

/-- The version of the hydrated checkpoint is the largest `int64`. -/
def fullVersionCalls : List Call :=
  [.hydrate [(totalRule 1, freshState (totalRule 1) 0 (2 ^ 63 - 1))],
    .evaluate .admission 1 [totalRule 1] 1000]

theorem fullVersionRun : Run fullVersionCalls (replay fullVersionCalls) := by
  refine @Run.step [_] _ _ (@Run.step [] _ _ .start ?_) ?_
  · exact @legal_hydrate_fresh _ [(totalRule 1, 0, 2 ^ 63 - 1)] (by decide) (by decide) (by decide)
  · exact .evaluate (by decide) (by decide) (by decide)

def shiftedRule : Rule := { totalRule (2 ^ 53 + 1) with kind := .periodic, periodSeconds := 3600 }

/-- The next revision of a total rule is periodic, and both revisions are the
same number in Lua. -/
def shiftedCalls : List Call :=
  [.hydrate [(totalRule (2 ^ 53), freshState (totalRule (2 ^ 53)) 0 1)],
    .evaluate .admission 1 [shiftedRule] 1000]

theorem shiftedRun : Run shiftedCalls (replay shiftedCalls) := by
  refine @Run.step [_] _ _ (@Run.step [] _ _ .start ?_) ?_
  · exact @legal_hydrate_fresh _ [(totalRule (2 ^ 53), 0, 1)] (by decide) (by decide) (by decide)
  · exact .evaluate (by decide) (by decide) (by decide)

/-- Outside the ranges a window can be stored that the loader refuses, and an
amount can change without its version. -/
theorem refused_window_or_stuck_version :
    (Run lateCalls (replay lateCalls) ∧
      ∃ row s, (replay lateCalls).store (1, 8) = some row ∧ parseHash (1, 8) row = some s ∧
        s.ruleRevision = hourlyRule.revision ∧ ¬ Accepted hourlyRule s) ∧
    (Run fullVersionCalls (replay fullVersionCalls) ∧
      Call.Legal (replay fullVersionCalls) (.complete (meterTicket 1) 5) ∧
      ((replay fullVersionCalls).store (1, 7)).map (fun row => (row.rev, row.used, row.ver)) =
        some (digits 1, digits 0, digits (2 ^ 63 - 1)) ∧
      ((Call.apply (.complete (meterTicket 1) 5) (replay fullVersionCalls)).store (1, 7)).map
        (fun row => (row.rev, row.used, row.ver)) =
          some (digits 1, digits 5, digits (2 ^ 63 - 1))) ∧
    (Run shiftedCalls (replay shiftedCalls) ∧
      ∃ row s, (replay shiftedCalls).store (1, 7) = some row ∧ parseHash (1, 7) row = some s ∧
        s.ruleRevision = (totalRule (2 ^ 53)).revision ∧ ¬ Accepted (totalRule (2 ^ 53)) s) := by
  refine ⟨⟨lateRun, _, _, rfl, rfl, by decide, ?_⟩, ⟨fullVersionRun,
    .complete (by decide) (by decide), by decide, by decide⟩,
    shiftedRun, _, _, rfl, rfl, by decide, ?_⟩
  · rintro ⟨runtime, hruntime⟩
    cases hruntime
  · rintro ⟨runtime, hruntime⟩
    cases hruntime

end EchoJoyGateway.Quota
