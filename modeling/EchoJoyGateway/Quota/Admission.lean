import EchoJoyGateway.Quota.Stored
import EchoJoyGateway.Quota.Decision

/-!
# The admission script against the decision

`quotaScript` compares amounts as decimal texts and instants as floats; `DecisionFor`
compares `int64` values. On stored states whose windows end within the exact range of
a float both come to the same answer.
-/

namespace EchoJoyGateway.Quota

open Decimal LuaNumber Redis List

variable {rule : Rule} {state : RestoredState}

section Rules

variable {nowMS : Int} {rule : Rule} {s : RestoredState}

theorem round_le_iff {ends : Int} (hnonneg : 0 ≤ ends) (hends : ends ≤ 2 ^ 53) :
    LuaNumber.round ends ≤ LuaNumber.round nowMS ↔ ends ≤ nowMS := by
  rw [round_of_natAbs_le (by omega)]
  rcases lt_or_ge (2 ^ 53) nowMS with hlarge | hle
  · have hround := le_round_of_lt hlarge
    omega
  · rcases lt_or_ge nowMS (-2 ^ 53) with hsmall | hge
    · have hround := round_neg_of_lt hsmall
      omega
    · rw [round_of_natAbs_le (by omega)]

/-- The window of the state ends within the exact range of a float. -/
def EndsExactly (s : RestoredState) : Prop := ∀ ends ∈ s.windowEndsAtMS, ends ≤ 2 ^ 53

theorem idle_eq (haccepted : Accepted rule s) (hends : EndsExactly s) :
    idle nowMS rule.kind s =
      (decide (rule.kind = .periodic) && periodicInactive (restoredRule rule s) nowMS) := by
  obtain ⟨hvalid, -⟩ := accepted_iff.mp haccepted
  obtain ⟨-, -, -, -, -, -, hordered⟩ := validateRestoredState_ok.mp hvalid
  unfold idle periodicInactive restoredRule
  cases rule.kind with
  | total => rfl
  | other name => rfl
  | periodic =>
    cases hws : s.windowStartedAtMS with
    | none => rfl
    | some started =>
      cases hwe : s.windowEndsAtMS with
      | none => rfl
      | some ends =>
        rw [hws, hwe] at hordered
        simp only [windowOrdered, Bool.and_eq_true, decide_eq_true_eq] at hordered
        have hexact := hends ends hwe
        simp only [round_le_iff (by omega : 0 ≤ ends) hexact, decide_true, Bool.true_and]

theorem exhausted_eq (hused : 0 ≤ s.usedNano) (hlimit : 0 ≤ rule.limitNano) :
    exhausted (checkpointHash s) (formatInt rule.limitNano) =
      decide (rule.limitNano ≤ s.usedNano) := by
  unfold exhausted
  rw [checkpointHash, cmp_formatInt hused hlimit, decide_eq_decide, ne_eq, compare_lt_iff_lt,
    not_lt]

theorem blocks_iff (haccepted : Accepted rule s) (hends : EndsExactly s)
    (hlimit : 0 ≤ rule.limitNano) :
    (idle nowMS rule.kind s || !exhausted (checkpointHash s) (formatInt rule.limitNano)) =
      decide ((ruleViewOf (restoredRule rule s) nowMS).status ≠ .exhausted) := by
  obtain ⟨hvalid, -⟩ := accepted_iff.mp haccepted
  obtain ⟨-, -, -, hused, -⟩ := validateRestoredState_ok.mp hvalid
  rw [idle_eq haccepted hends, exhausted_eq hused hlimit]
  change (decide (rule.kind = .periodic) && periodicInactive (restoredRule rule s) nowMS ||
      !decide (rule.limitNano ≤ s.usedNano)) =
    decide ((if rule.kind = .periodic ∧ periodicInactive (restoredRule rule s) nowMS = true then _
      else _ : RuleView).status ≠ .exhausted)
  by_cases hinactive : rule.kind = .periodic ∧
      periodicInactive (restoredRule rule s) nowMS = true
  · rw [hinactive.1, hinactive.2]
    rfl
  · have hactive : (decide (rule.kind = .periodic) &&
        periodicInactive (restoredRule rule s) nowMS) = false := by
      rw [Bool.eq_false_iff]
      intro hboth
      rw [Bool.and_eq_true, decide_eq_true_eq] at hboth
      exact hinactive hboth
    rw [if_neg hinactive, hactive]
    by_cases hexhausted : rule.limitNano ≤ s.usedNano
    · simp [hexhausted, restoredRule]
    · simp [hexhausted, restoredRule]

end Rules

section Script

variable {mode : Mode} {a : Nat} {rules : List Rule} {nowMS : Int} {store : QuotaStore}
  {s : Nat → RestoredState}

structure StoredState (store : QuotaStore) (a : Nat) (rule : Rule) (s : RestoredState) : Prop where
  stored : store (a, rule.id) = some (checkpointHash s)
  owner : s.accessKeyID = a
  accepted : Accepted rule s
  fits : Fits (2 ^ 64 - 1) (2 ^ 64 - 1) s

theorem StoredState.standing (h : StoredState store a rule state) :
    Quota.standing (store (a, rule.id)) (digits rule.revision) = .ok .current := by
  obtain ⟨-, -, hrevision, -⟩ := accepted_iff.mp h.accepted
  have hnumber : tonumber (digits rule.revision) = some (LuaNumber.round rule.revision) :=
    tonumber_formatInt_round rule.revision
  unfold Quota.standing
  rw [h.stored]
  simp only [checkpointHash, hrevision, hnumber, lt_irrefl, if_false]

theorem ruleShapeValid_limit (h : ruleShapeValid rule = true) :
    0 < rule.limitNano := by
  simp only [ruleShapeValid, Bool.and_eq_true, decide_eq_true_eq] at h
  exact h.1.2

theorem windowEnd_eq (h : ruleShapeValid rule = true) (hkind : rule.kind = .periodic)
    (htype : inInt64 nowMS = true) (hnow : nowMS + periodMS rule < 2 ^ 63) :
    windowEnd rule nowMS = nowMS + periodMS rule ∧ 0 < periodMS rule := by
  obtain ⟨hlow, hhigh⟩ := ruleShapeValid_periodic h hkind
  obtain ⟨hmin, -⟩ := inInt64_iff.mp htype
  exact ⟨wrapInt64_of_range (by omega) (by omega), by omega⟩

theorem allAllowed_eq (hrules : validRules rules = true)
    (hstored : ∀ rule ∈ rules, StoredState store a rule (s rule.id))
    (hends : ∀ rule ∈ rules, EndsExactly (s rule.id)) :
    allAllowed (rules.map fun rule => visitOf a nowMS rule (s rule.id)) =
      (decisionFor rules (fun id => some (s id)) nowMS).allowed := by
  rw [decisionFor_allowed, allAllowed, all_map, Bool.eq_iff_iff, all_eq_true,
    all_eq_true]
  refine forall₂_congr fun rule hmem => ?_
  have hblocks := @blocks_iff nowMS _ _ (hstored rule hmem).accepted (hends rule hmem)
    (ruleShapeValid_limit (validRules_shape hrules hmem)).le
  exact Bool.eq_iff_iff.mp hblocks

def stateMap (states : List RestoredState) (id : Nat) : Option RestoredState :=
  states.find? fun state => state.ruleID = id

theorem stateMap_map {f : Rule → RestoredState} (hnodup : (rules.map Rule.id).Nodup)
    (hid : ∀ rule ∈ rules, (f rule).ruleID = rule.id) (hmem : rule ∈ rules) :
    stateMap (rules.map f) rule.id = some (f rule) := by
  induction rules with
  | nil => cases hmem
  | cons first rest ih =>
    obtain ⟨hfresh, hrest⟩ := nodup_cons.mp hnodup
    have hfirst := hid first (.head _)
    unfold stateMap
    rw [map_cons, find?_cons]
    rcases mem_cons.mp hmem with rfl | hlater
    · rw [decide_eq_true hfirst]
    · have hne : ¬ (f first).ruleID = rule.id := by
        rw [hfirst]
        exact fun heq => hfresh (heq ▸ mem_map_of_mem hlater)
      rw [decide_eq_false hne]
      exact ih hrest (fun other hother => hid other (.tail _ hother)) hlater

/-- The window is open: a new one, or the stored one that has not ended. -/
def OpenAt (nowMS : Int) (stored state : RestoredState) : Prop :=
  ∃ started ends, state.windowStartedAtMS = some started ∧ state.windowEndsAtMS = some ends ∧
    nowMS < ends ∧ (started ≤ nowMS ∨ stored.windowStartedAtMS = some started)

theorem evaluated_ruleID {allowed : Bool} :
    (evaluated mode allowed nowMS rule state).ruleID = state.ruleID := by
  unfold evaluated
  split
  · rfl
  · rfl

theorem evaluated_openAt (hshape : ruleShapeValid rule = true) (hkind : rule.kind = .periodic)
    (haccepted : Accepted rule state) (hends : EndsExactly state) (htype : inInt64 nowMS = true)
    (hnow : nowMS + periodMS rule < 2 ^ 63) :
    OpenAt nowMS state (evaluated .admission true nowMS rule state) := by
  by_cases hopen : opens .admission true nowMS rule state = true
  · obtain ⟨hend, hperiod⟩ := windowEnd_eq hshape hkind htype hnow
    rw [evaluated_of_opens hopen]
    exact ⟨nowMS, windowEnd rule nowMS, rfl, rfl, by omega, .inl le_rfl⟩
  · rw [evaluated_of_not_opens hopen]
    have hactive : idle nowMS rule.kind state = false := by
      simpa [opens] using hopen
    rw [idle_eq haccepted hends, decide_eq_true hkind] at hactive
    unfold periodicInactive at hactive
    split at hactive
    · rename_i started ends hws hwe
      exact ⟨started, ends, hws, hwe, not_le.mp (of_decide_eq_false hactive), .inr hws⟩
    · cases hactive

theorem evaluated_available (hshape : ruleShapeValid rule = true)
    (havailable : (ruleViewOf (restoredRule rule state) nowMS).status ≠ .exhausted) :
    (ruleViewOf (restoredRule rule (evaluated .admission true nowMS rule state)) nowMS).status ≠
      .exhausted := by
  by_cases hopen : opens .admission true nowMS rule state = true
  · rw [evaluated_of_opens hopen]
    have hlimit := ruleShapeValid_limit hshape
    unfold ruleViewOf
    split
    · exact nofun
    · change (if rule.limitNano ≤ 0 then RuleStatus.exhausted else .available) ≠ .exhausted
      rw [if_neg (not_le.mpr hlimit)]
      exact nofun
  · rwa [evaluated_of_not_opens hopen]

structure Admits (a : Nat) (rules : List Rule) (nowMS : Int) (s : Nat → RestoredState)
    (store : QuotaStore) (rows : List QuotaRow) (after : List RestoredState) : Prop where
  stored : List.Forall₂ (fun rule state => store (a, rule.id) = some (checkpointHash state) ∧
    (rule.kind = .periodic → OpenAt nowMS (s rule.id) state)) rules after
  allowed : (decisionFor rules (stateMap after) nowMS).allowed = true
  parsed : ∀ states, parseEvaluation a rules rows = some states → states.map Prod.fst = after
  parses : (∀ rule ∈ rules, Printable (s rule.id)) →
    ∃ states, parseEvaluation a rules rows = some states

/-- The script and the decision agree, an allowed admission leaves open windows that the
decision allows, and a refused one leaves every hash alone. -/
theorem quotaScript_agrees (hrules : validRules rules = true)
    (hstored : ∀ rule ∈ rules, StoredState store a rule (s rule.id))
    (hends : ∀ rule ∈ rules, EndsExactly (s rule.id)) (htype : inInt64 nowMS = true)
    (hnow : ∀ rule ∈ rules, rule.kind = .periodic → nowMS + periodMS rule < 2 ^ 63)
    {store' : QuotaStore} {allowed : Bool} {rows : List QuotaRow}
    (hreply : runQuota mode a rules nowMS store = (store', .ok (.ok allowed rows))) :
    allowed = (decisionFor rules (fun id => some (s id)) nowMS).allowed ∧
      (allowed = false → store' = store) ∧
      (mode = .admission → allowed = true → ∃ after, Admits a rules nowMS s store' rows after) := by
  obtain ⟨hallowed, hrows, hwrote, hother⟩ := runQuota_stored
    (fun rule hmem => (hstored rule hmem).standing) (fun rule hmem => (hstored rule hmem).stored)
    (validRules_nodup hrules) hreply
  have hdecision := hallowed.trans (allAllowed_eq hrules hstored hends)
  refine ⟨hdecision, ?_, ?_⟩
  · rintro rfl
    funext key
    by_cases hkey : ∃ rule ∈ rules, (a, rule.id) = key
    · obtain ⟨rule, hmem, rfl⟩ := hkey
      rw [hwrote rule hmem, evaluated_of_not_opens (by simp [opens]), (hstored rule hmem).stored]
    · exact hother key fun rule hmem heq => hkey ⟨rule, hmem, heq⟩
  · rintro rfl rfl
    have hidentity : ∀ rule ∈ rules, (s rule.id).ruleID = rule.id ∧
        (s rule.id).ruleRevision = rule.revision := by
      intro rule hmem
      obtain ⟨-, hid, hrevision, -⟩ := accepted_iff.mp (hstored rule hmem).accepted
      exact ⟨hid, hrevision⟩
    have hparse := @parseEvaluation_eq true (2 ^ 64 - 1) rules nowMS (2 ^ 64 - 1) a (s ·.id)
      (fun rule hmem => ⟨Prod.ext (hstored rule hmem).owner (hidentity rule hmem).1,
        (hidentity rule hmem).2, (hstored rule hmem).fits⟩) (by norm_num) .admission
      htype
    rw [← hrows] at hparse
    refine ⟨rules.map fun rule => evaluated .admission true nowMS rule (s rule.id), ?_, ?_, ?_,
      hparse.2⟩
    · rw [forall₂_map_right_iff, forall₂_same]
      intro rule hmem
      exact ⟨hwrote rule hmem, fun hkind => evaluated_openAt (validRules_shape hrules hmem) hkind
        (hstored rule hmem).accepted (hends rule hmem) htype
        (hnow rule hmem hkind)⟩
    · rw [eq_comm, decisionFor_allowed, all_eq_true] at hdecision
      rw [decisionFor_allowed, all_eq_true]
      intro rule hmem
      have hbefore := of_decide_eq_true (hdecision rule hmem)
      have hafter := stateMap_map (f := fun rule =>
        evaluated .admission true nowMS rule (s rule.id))
        (validRules_nodup hrules) (fun rule hmem => evaluated_ruleID.trans
          (hidentity rule hmem).1) hmem
      unfold runtimeRuleOf
      rw [hafter]
      exact decide_eq_true (evaluated_available (validRules_shape hrules hmem) hbefore)
    · intro states hstates
      rw [hparse.1 states hstates, map_map]
      rfl

end Script

section MinuteRule

def minuteRule : Rule where
  id := 7
  revision := 1
  kind := .periodic
  currency := "USD"
  limitNano := 10
  periodSeconds := 60

def minuteState (used started : Int) : RestoredState where
  accessKeyID := 1
  ruleID := 7
  ruleRevision := 1
  usedNano := used
  windowStartedAtMS := some started
  windowEndsAtMS := some (started + 60000)
  windowGeneration := 1
  snapshotVersion := 2

def minuteStore (used started : Int) : QuotaStore := fun key =>
  if key = (1, 7) then some (checkpointHash (minuteState used started)) else none

theorem minuteStore_stored {used started : Int} (hused : 0 ≤ used) (husedLt : used < 2 ^ 63)
    (hstarted : 0 ≤ started) (hstartedLt : started + 60000 < 2 ^ 63) :
    StoredState (minuteStore used started) 1 minuteRule (minuteState used started) where
  stored := rfl
  owner := rfl
  accepted := by
    have hperiodic : minuteRule.kind ≠ .total := by decide
    rw [accepted_periodic hperiodic]
    have hperiod : wrapInt64 (started + 60000 - started) = 60000 := by
      rw [wrapInt64_of_range (by omega) (by omega)]
      omega
    exact ⟨⟨Nat.one_ne_zero, Nat.succ_ne_zero _, Nat.one_ne_zero, hused, Nat.succ_ne_zero _, rfl,
      rfl⟩, .inr ⟨started, _, rfl, rfl, hstarted, by omega, Nat.one_ne_zero, hperiod⟩⟩
  fits :=
    { revision := by
        change 1 ≤ _
        omega
      used_nonneg := hused
      used_lt := husedLt
      started := by
        rintro _ ⟨⟩
        exact inInt64_iff.mpr ⟨by omega, by omega⟩
      ends := by
        rintro _ ⟨⟩
        exact inInt64_iff.mpr ⟨by omega, by omega⟩
      generation := by
        change 1 ≤ _
        omega
      version := by
        change 2 ≤ _
        omega }

/-- The window of the minute has ended: the admission opens the next one. -/
theorem quotaScript_agrees_minute :
    (runQuota .admission 1 [minuteRule] 61000 (minuteStore 12 1000)).1 (1, 7) =
      some (checkpointHash (opened (minuteState 12 1000) 61000 121000)) ∧
    (decisionFor [minuteRule] (fun _ => some (minuteState 12 1000)) 61000).allowed = true := by
  have hreply : (runQuota .admission 1 [minuteRule] 61000 (minuteStore 12 1000)).2 =
      .ok (.ok true [replyRow .admission true 61000 minuteRule (minuteState 12 1000)]) := by
    decide
  have hagrees := @quotaScript_agrees .admission 1 [minuteRule] 61000 (minuteStore 12 1000)
    (fun _ => minuteState 12 1000) (by decide)
    (by
      simp only [mem_singleton, forall_eq]
      exact minuteStore_stored (by omega) (by omega) (by omega) (by omega))
    (by
      rintro rule - ends ⟨⟩
      decide)
    (by decide) (by decide) _ true _ (Prod.ext rfl hreply)
  exact ⟨by decide, hagrees.1.symm⟩

/-- A window that ends one past the exact range counts as ended for the script alone, and
a window that another clock opened starts after the instant of the admission. -/
theorem window_read_differently :
    (StoredState (minuteStore 12 (2 ^ 53 - 59999)) 1 minuteRule
        (minuteState 12 (2 ^ 53 - 59999)) ∧
      (∃ rows, (runQuota .check 1 [minuteRule] (2 ^ 53) (minuteStore 12 (2 ^ 53 - 59999))).2 =
        .ok (.ok true rows)) ∧
      (decisionFor [minuteRule] (fun _ => some (minuteState 12 (2 ^ 53 - 59999)))
        (2 ^ 53)).allowed = false) ∧
    StoredState (minuteStore 3 1005) 1 minuteRule (minuteState 3 1005) ∧
      ∃ row, (runQuota .admission 1 [minuteRule] 1000 (minuteStore 3 1005)).2 =
          .ok (.ok true [row]) ∧ row.ws = formatInt 1005 := by
  refine ⟨⟨minuteStore_stored (by omega) (by omega) (by omega) (by omega), ?_, ?_⟩,
    minuteStore_stored (by omega) (by omega) (by omega) (by omega), ?_⟩
  · exact ⟨[replyRow .check true (2 ^ 53) minuteRule (minuteState 12 (2 ^ 53 - 59999))], by decide⟩
  · rw [decisionFor_allowed]
    decide
  · exact ⟨replyRow .admission true 1000 minuteRule (minuteState 3 1005), by decide, rfl⟩

end MinuteRule

end EchoJoyGateway.Quota
