import EchoJoyGateway.Lib.Traced
import EchoJoyGateway.Lib.Traverse
import EchoJoyGateway.Pricing.Decimal
import EchoJoyGateway.Quota.Rules
import Mathlib.Data.Int.Interval
import EchoJoyGateway.Lib.Update

/-!
# The cost-limit rules of an access key

The normalisation, planning and reconciliation of `internal/control/access_key_cost_limits.go`.
The tables hold the rules of one access key. A statement leaves new tables; the unique index
over the periods is not part of them, for what is shown is that no statement needs it.
-/

namespace EchoJoyGateway.CostLimits

open Quota Utf8 List

variable {desired : List Definition}

def maxPeriodicRules : Nat := 10

def maxRevision : Nat := 2 ^ 64 - 1

structure RuleRequest where
  id : Nat
  kind : Kind
  limit : Text
  periodSeconds : Int
  deriving DecidableEq

/-- `OptionalAccessKeyCostLimitRules`: absent, or the listed values. -/
abbrev OptionalRules := Option (List RuleRequest)

structure Definition where
  id : Nat
  kind : Kind
  limitNano : Int
  periodSeconds : Int
  deriving DecidableEq

inductive Failure where
  | validation
  | advanceRevision (ruleID : Nat)
  | planTemporary
  | temporaryMove (ruleID : Nat)
  | resetState (ruleID : Nat)
  | currency (message : String)
  deriving DecidableEq

def internalServer : String := "An unexpected error occurred"

def Failure.text : Failure → String
  | .validation => "Input validation failed"
  | .advanceRevision id => s!"advance access key cost limit rule {id} revision: {internalServer}"
  | .planTemporary => s!"plan temporary access key cost limit periods: {internalServer}"
  | .temporaryMove id => s!"temporarily move access key cost limit rule {id}: {internalServer}"
  | .resetState id => s!"reset access key cost limit rule {id} state: {internalServer}"
  | .currency message => message

/-! ## Normalisation -/

structure Seen where
  totalCount : Nat
  periods : List Int
  ids : List Nat
  result : List Definition

def Seen.none : Seen := ⟨0, [], [], []⟩

def Seen.addKind (seen : Seen) (rule : Definition) : Except Failure Seen :=
  match rule.kind with
  | .total =>
    if seen.totalCount + 1 > 1 ∨ rule.periodSeconds ≠ 0 then .error .validation
    else .ok { seen with totalCount := seen.totalCount + 1, result := seen.result ++ [rule] }
  | .periodic =>
    if rule.periodSeconds < minPeriodSeconds ∨ rule.periodSeconds > maxPeriodSeconds then
      .error .validation
    else if rule.periodSeconds ∈ seen.periods then .error .validation
    else
      .ok { seen with
        periods := rule.periodSeconds :: seen.periods
        result := seen.result ++ [rule] }
  | .other _ => .error .validation

def Seen.add (allowExistingIDs : Bool) (seen : Seen) (input : RuleRequest) :
    Except Failure Seen :=
  if input.id ≠ 0 ∧ allowExistingIDs = false then .error .validation
  else if input.id ≠ 0 ∧ input.id ∈ seen.ids then .error .validation
  else
    let seen := if input.id ≠ 0 then { seen with ids := input.id :: seen.ids } else seen
    match Pricing.parseAmount "amount" input.limit with
    | .error _ => .error .validation
    | .ok parsed =>
      if parsed ≤ 0 then .error .validation
      else seen.addKind ⟨input.id, input.kind, parsed, input.periodSeconds⟩

/-- The order of `sortNormalizedAccessKeyCostLimitRules`. -/
def definitionLess (left right : Definition) : Bool :=
  if left.kind ≠ right.kind then left.kind = .total
  else if left.periodSeconds ≠ right.periodSeconds then left.periodSeconds < right.periodSeconds
  else left.id < right.id

def normalizeRules (field : OptionalRules) (allowExistingIDs : Bool) :
    Except Failure (List Definition) :=
  match field with
  | none => .ok []
  | some values =>
    match values.foldlM (Seen.add allowExistingIDs) Seen.none with
    | .error e => .error e
    | .ok seen =>
      if seen.periods.length > maxPeriodicRules then .error .validation
      else .ok (seen.result.insertionSort fun left right => definitionLess right left = false)

/-! ## Tables -/

structure StateRow where
  ruleRevision : Nat
  usedNano : Int
  windowStartedAtMS : Option Int
  windowEndsAtMS : Option Int
  windowGeneration : Nat
  snapshotVersion : Nat
  deriving DecidableEq

def StateRow.fresh (revision : Nat) : StateRow := ⟨revision, 0, none, none, 0, 1⟩

/-- The rules and their states by identifier, and the next identifier to be given. -/
structure Tables where
  rules : Nat → Option Rule
  states : Nat → Option StateRow
  nextID : Nat
  keyed : ∀ id rule, rules id = some rule → rule.id = id ∧ id < nextID

namespace Tables

variable (t : Tables)

def all : List Rule := (List.range t.nextID).filterMap t.rules

def delete (id : Nat) : Tables where
  rules := Function.update t.rules id none
  states := Function.update t.states id none
  nextID := t.nextID
  keyed := by
    intro other rule h
    rcases Update.cases h with ⟨rfl, heq⟩ | ⟨-, h⟩
    · cases heq
    · exact t.keyed other rule h

def update (id : Nat) (f : Rule → Rule) : Tables where
  rules := Function.update t.rules id ((t.rules id).map fun rule => { f rule with id := rule.id })
  states := t.states
  nextID := t.nextID
  keyed := by
    intro other rule h
    rcases Update.cases h with ⟨rfl, heq⟩ | ⟨-, h⟩
    · obtain ⟨old, hold, rfl⟩ := Option.map_eq_some_iff.mp heq
      exact t.keyed other old hold
    · exact t.keyed other rule h

def insert (rule : Rule) : Tables where
  rules := Function.update t.rules t.nextID (some { rule with id := t.nextID })
  states := t.states
  nextID := t.nextID + 1
  keyed := by
    intro other rule' h
    rcases Update.cases h with ⟨rfl, heq⟩ | ⟨-, h⟩
    · cases heq
      exact ⟨rfl, Nat.lt_succ_self _⟩
    · obtain ⟨hid, hlt⟩ := t.keyed other rule' h
      exact ⟨hid, Nat.lt_succ_of_lt hlt⟩

def setState (id : Nat) (state : StateRow) : Tables :=
  { t with states := Function.update t.states id (some state) }

end Tables

/-! ## Planning -/

structure PeriodMove where
  ruleID : Nat
  temporaryPeriod : Int
  deriving DecidableEq

variable (current : List Rule) (reserved : List Int)

def currentByID (id : Nat) : Option Rule := current.find? (·.id == id)

/-- The zero value of a row that is not in the map. -/
def Rule.zero : Rule := ⟨0, 0, .other "", "", 0, 0⟩

def changedIDs (current : List Rule) : List Definition → Except Failure (List Nat)
  | [] => .ok []
  | d :: desired =>
    let currentRule := (currentByID current d.id).getD Rule.zero
    if d.id = 0 ∨ currentRule.periodSeconds = d.periodSeconds then changedIDs current desired
    else if currentRule.revision = maxRevision then .error (.advanceRevision d.id)
    else
      match changedIDs current desired with
      | .error e => .error e
      | .ok ids => .ok (d.id :: ids)

def reservedPeriods (desired : List Definition) : List Int :=
  (current.filter (·.kind == .periodic)).map (·.periodSeconds) ++
    (desired.filter (·.kind == .periodic)).map (·.periodSeconds)

/-- The first period from the candidate down that is not reserved, or one below the range. -/
def scan (reserved : List Int) : Nat → Int → Int
  | 0, candidate => candidate
  | steps + 1, candidate =>
    if minPeriodSeconds ≤ candidate ∧ candidate ∈ reserved then scan reserved steps (candidate - 1)
    else candidate

def nextFree (candidate : Int) : Int :=
  scan reserved (candidate - minPeriodSeconds + 1).toNat candidate

def temporaryMoves (reserved : List Int) (candidate : Int) :
    List Nat → Except Failure (List PeriodMove)
  | [] => .ok []
  | id :: ids =>
    let free := nextFree reserved candidate
    if free < minPeriodSeconds then .error .planTemporary
    else
      match temporaryMoves (free :: reserved) (free - 1) ids with
      | .error e => .error e
      | .ok moves => .ok (⟨id, free⟩ :: moves)

def planPeriodMoves (desired : List Definition) :
    Except Failure (List PeriodMove) :=
  match changedIDs current desired with
  | .error e => .error e
  | .ok ids =>
    temporaryMoves (reservedPeriods current desired) maxPeriodSeconds (ids.insertionSort (· ≤ ·))

/-! ## Reconciliation -/

abbrev Tx := Traced Tables Failure

def resetRuleState (id currentRevision nextRevision : Nat) (t : Tables) : Tx Tables :=
  if (t.states id).any (·.ruleRevision == currentRevision) then
    Traced.statement (t.setState id (StateRow.fresh nextRevision))
  else Traced.lift (.error (.resetState id))

def createRule (currency : Except String String) (d : Definition) (t : Tables) : Tx Tables :=
  match currency with
  | .error message => Traced.lift (.error (.currency message))
  | .ok code => do
    let id := t.nextID
    let t ← Traced.statement (t.insert ⟨0, 1, d.kind, code, d.limitNano, d.periodSeconds⟩)
    Traced.statement (t.setState id (StateRow.fresh 1))

def moveTemporarily (move : PeriodMove) (t : Tables) : Tx Tables :=
  if (t.rules move.ruleID).isSome then
    Traced.statement (t.update move.ruleID fun rule =>
      { rule with periodSeconds := move.temporaryPeriod })
  else Traced.lift (.error (.temporaryMove move.ruleID))

def applyDefinition (currency : Except String String) (d : Definition) (t : Tables) : Tx Tables :=
  if d.id = 0 then createRule currency d t
  else
    let currentRule := (currentByID current d.id).getD Rule.zero
    if currentRule.periodSeconds = d.periodSeconds then
      Traced.statement (t.update d.id fun rule => { rule with limitNano := d.limitNano })
    else if currentRule.revision = maxRevision then Traced.lift (.error (.advanceRevision d.id))
    else do
      let t ← Traced.statement (t.update d.id fun rule =>
        { rule with
          limitNano := d.limitNano
          kind := d.kind
          periodSeconds := d.periodSeconds
          revision := currentRule.revision + 1 })
      resetRuleState d.id currentRule.revision (currentRule.revision + 1) t

def deleteUnlessRetained (desired : List Definition) (rule : Rule) (t : Tables) : Tx Tables :=
  if desired.any fun d => d.id ≠ 0 && d.id == rule.id then pure t
  else Traced.statement (t.delete rule.id)

def known (d : Definition) : Bool := d.id == 0 || (currentByID current d.id).any (·.kind == d.kind)

/-- The order of `loadAccessKeyCostLimitRuleRows`. -/
def rowLess (left right : Rule) : Bool :=
  if (left.kind = .total) ≠ (right.kind = .total) then left.kind = .total
  else if left.periodSeconds ≠ right.periodSeconds then left.periodSeconds < right.periodSeconds
  else left.id < right.id

def loadRuleRows (t : Tables) : List Rule :=
  t.all.insertionSort fun left right => rowLess right left = false

def reconcileRules (currency : Except String String) (t : Tables) (desired : List Definition) :
    Tx (Tables × List Rule) :=
  let current := t.all
  if desired.all (known current) = false then Traced.lift (.error .validation)
  else do
    let t ← Traced.each (deleteUnlessRetained desired) current t
    let moves ← Traced.lift (planPeriodMoves current desired)
    let t ← Traced.each moveTemporarily moves t
    let t ← Traced.each (applyDefinition current currency) desired t
    return (t, loadRuleRows t)

/-! ## What normalisation accepts -/

/-- Two definitions of different periods, when both are of one kind, and of different rules. -/
def Apart (a b : Definition) : Prop :=
  (a.kind = b.kind → a.periodSeconds ≠ b.periodSeconds) ∧ (a.id ≠ 0 → a.id ≠ b.id)

theorem Apart.symm {a b : Definition} (h : Apart a b) : Apart b a := by
  refine ⟨fun hkind heq => h.1 hkind.symm heq.symm, fun hb heq => ?_⟩
  exact h.2 (heq ▸ hb) heq.symm

instance : Std.Symm Apart := ⟨fun _ _ => Apart.symm⟩

structure Seen.Has (seen : Seen) (d : Definition) : Prop where
  kind : d.kind = .total ∧ 0 < seen.totalCount ∨ d.kind = .periodic ∧ d.periodSeconds ∈ seen.periods
  id : d.id ≠ 0 → d.id ∈ seen.ids

structure Seen.Sound (seen : Seen) : Prop where
  has : ∀ d ∈ seen.result, seen.Has d
  apart : seen.result.Pairwise Apart

structure Seen.Extends (seen seen' : Seen) : Prop where
  totalCount : seen.totalCount ≤ seen'.totalCount
  periods : ∀ p ∈ seen.periods, p ∈ seen'.periods
  ids : ∀ id ∈ seen.ids, id ∈ seen'.ids

variable {seen seen' : Seen}

theorem Seen.Has.mono {d : Definition} (h : seen.Has d) (hext : seen.Extends seen') :
    seen'.Has d := by
  refine ⟨?_, fun hne => hext.ids _ (h.id hne)⟩
  rcases h.kind with ⟨hkind, hcount⟩ | ⟨hkind, hperiod⟩
  · exact .inl ⟨hkind, Nat.lt_of_lt_of_le hcount hext.totalCount⟩
  · exact .inr ⟨hkind, hext.periods _ hperiod⟩

variable {rule : Definition}

theorem Seen.Sound.push (h : seen.Sound) (hresult : seen'.result = seen.result ++ [rule])
    (hext : seen.Extends seen') (hnew : seen'.Has rule)
    (htotal : rule.kind = .total → seen.totalCount = 0)
    (hperiod : rule.kind = .periodic → rule.periodSeconds ∉ seen.periods)
    (hid : rule.id ≠ 0 → rule.id ∉ seen.ids) : seen'.Sound := by
  refine ⟨fun d hd => ?_, ?_⟩
  · rw [hresult] at hd
    rcases mem_append.mp hd with hd | hd
    · exact (h.has d hd).mono hext
    · rwa [mem_singleton.mp hd]
  · rw [hresult, pairwise_append]
    refine ⟨h.apart, pairwise_singleton _ _, fun d hd d' hd' => ?_⟩
    obtain rfl := mem_singleton.mp hd'
    refine ⟨fun hkind heq => ?_, fun hne heq => ?_⟩
    · rcases (h.has d hd).kind with ⟨htot, hcount⟩ | ⟨hper, hmem⟩
      · rw [htotal (hkind ▸ htot)] at hcount
        exact Nat.lt_irrefl 0 hcount
      · exact hperiod (hkind ▸ hper) (heq ▸ hmem)
    · exact hid (heq ▸ hne) (heq ▸ (h.has d hd).id hne)

theorem Seen.addKind_ok (h : seen.addKind rule = .ok seen') :
    seen'.result = seen.result ++ [rule] ∧ seen'.ids = seen.ids ∧
      (rule.kind = .total ∧ seen.totalCount = 0 ∧ seen'.totalCount = 1 ∧
          seen'.periods = seen.periods ∨
        rule.kind = .periodic ∧ rule.periodSeconds ∉ seen.periods ∧
          seen'.totalCount = seen.totalCount ∧
          seen'.periods = rule.periodSeconds :: seen.periods) := by
  unfold Seen.addKind at h
  cases hkind : rule.kind with
  | total =>
    simp only [hkind] at h
    split at h
    · cases h
    · cases h
      have hnone : seen.totalCount = 0 := by omega
      exact ⟨rfl, rfl, .inl ⟨rfl, hnone, by simp [hnone], rfl⟩⟩
  | periodic =>
    simp only [hkind] at h
    split at h
    · cases h
    · split at h
      · cases h
      · rename_i hnew
        cases h
        exact ⟨rfl, rfl, .inr ⟨rfl, hnew, rfl, rfl⟩⟩
  | other name =>
    simp only [hkind] at h
    cases h

theorem Seen.Sound.addRule {noted : Seen} (h : seen.Sound) (hadd : noted.addKind rule = .ok seen')
    (hcount : noted.totalCount = seen.totalCount) (hperiods : noted.periods = seen.periods)
    (hresult : noted.result = seen.result) (hids : ∀ id ∈ seen.ids, id ∈ noted.ids)
    (hid : rule.id ≠ 0 → rule.id ∉ seen.ids ∧ rule.id ∈ noted.ids) : seen'.Sound := by
  obtain ⟨hresult', hids', hkind⟩ := Seen.addKind_ok hadd
  have hgrow : ∀ id ∈ seen.ids, id ∈ seen'.ids := fun id hmem => hids' ▸ hids id hmem
  have hnoted : rule.id ≠ 0 → rule.id ∈ seen'.ids := fun hne => hids' ▸ (hid hne).2
  rw [hresult] at hresult'
  rw [hcount, hperiods] at hkind
  rcases hkind with ⟨hkind, hfirst, hcount', hperiods'⟩ | ⟨hkind, hnew, hcount', hperiods'⟩
  · refine h.push hresult' ⟨by omega, fun p hp => hperiods' ▸ hp, hgrow⟩
      ⟨.inl ⟨hkind, by omega⟩, hnoted⟩ (fun _ => hfirst)
      (fun hperiodic => ?_) fun hne => (hid hne).1
    rw [hkind] at hperiodic
    cases hperiodic
  · refine h.push hresult' ⟨by omega, fun p hp => ?_, hgrow⟩ ⟨.inr ⟨hkind, ?_⟩, hnoted⟩
      (fun htotal => ?_) (fun _ => hnew) fun hne => (hid hne).1
    · rw [hperiods']
      exact .tail _ hp
    · rw [hperiods']
      exact .head _
    · rw [hkind] at htotal
      cases htotal

variable {allow : Bool}

theorem Seen.Sound.add {input : RuleRequest} (h : seen.Sound)
    (hadd : Seen.add allow seen input = .ok seen') : seen'.Sound := by
  unfold Seen.add at hadd
  split at hadd
  · cases hadd
  · split at hadd
    · cases hadd
    · rename_i hrepeat
      cases hparse : Pricing.parseAmount "amount" input.limit with
      | error message =>
        simp only [hparse] at hadd
        cases hadd
      | ok parsed =>
        simp only [hparse] at hadd
        split at hadd
        · cases hadd
        · by_cases hzero : input.id = 0
          · rw [if_neg (not_not.mpr hzero)] at hadd
            exact h.addRule hadd rfl rfl rfl (fun _ hid => hid) fun hne => absurd hzero hne
          · rw [if_pos hzero] at hadd
            exact h.addRule hadd rfl rfl rfl (fun _ hid => .tail _ hid)
              fun _ => ⟨fun hmem => hrepeat ⟨hzero, hmem⟩, .head _⟩

theorem normalizeRules_apart {field : OptionalRules}
    (h : normalizeRules field allow = .ok desired) : desired.Pairwise Apart := by
  cases field with
  | none =>
    cases h
    exact List.Pairwise.nil
  | some values =>
    simp only [normalizeRules] at h
    cases hloop : values.foldlM (Seen.add allow) .none with
    | error e =>
      rw [hloop] at h
      cases h
    | ok seen =>
      rw [hloop] at h
      have hsound : seen.Sound :=
        Traverse.foldlM_ok (fun _ seen => seen.Sound) (fun _ _ _ _ hs hadd => hs.add hadd)
          ⟨nofun, .nil⟩ hloop
      simp only at h
      split at h
      · cases h
      · cases h
        exact (perm_insertionSort _ _).symm.pairwise hsound.apart .symm

/-! ## Temporary periods -/

variable {candidate : Int}

theorem scan_spec {steps : Nat} (hsteps : candidate - minPeriodSeconds + 1 ≤ steps) :
    scan reserved steps candidate ≤ candidate ∧
      (∀ p, scan reserved steps candidate < p → p ≤ candidate → p ∈ reserved) ∧
      (minPeriodSeconds ≤ scan reserved steps candidate →
        scan reserved steps candidate ∉ reserved) := by
  induction steps generalizing candidate with
  | zero =>
    refine ⟨Int.le_refl _, fun p hlt hle => absurd hlt (Int.not_lt.mpr hle), fun hmin => ?_⟩
    rw [scan] at hmin
    omega
  | succ steps ih =>
    rw [scan]
    split
    · rename_i htaken
      obtain ⟨hle, hskipped, hfree⟩ := @ih (candidate - 1) (by omega)
      refine ⟨by omega, fun p hlt hp => ?_, hfree⟩
      rcases Int.lt_or_eq_of_le hp with hp | rfl
      · exact hskipped p hlt (by omega)
      · exact htaken.2
    · rename_i hstop
      exact ⟨Int.le_refl _, fun p hlt hle => absurd hlt (Int.not_lt.mpr hle),
        fun hmin hmem => hstop ⟨hmin, hmem⟩⟩

theorem nextFree_spec (candidate : Int) :
    nextFree reserved candidate ≤ candidate ∧
      (∀ p, nextFree reserved candidate < p → p ≤ candidate → p ∈ reserved) ∧
      (minPeriodSeconds ≤ nextFree reserved candidate → nextFree reserved candidate ∉ reserved) :=
  scan_spec reserved (by omega)

variable {ids : List Nat} {moves : List PeriodMove}

theorem temporaryMoves_ok {reserved : List Int}
    (h : temporaryMoves reserved candidate ids = .ok moves) :
    moves.map (·.ruleID) = ids ∧ moves.Pairwise (·.temporaryPeriod ≠ ·.temporaryPeriod) ∧
      ∀ move ∈ moves, move.temporaryPeriod ∉ reserved := by
  induction ids generalizing reserved candidate moves with
  | nil =>
    cases h
    exact ⟨rfl, .nil, nofun⟩
  | cons id ids ih =>
    rw [temporaryMoves] at h
    split at h
    · cases h
    · rename_i hfree
      have hnext := (nextFree_spec reserved candidate).2.2 (Int.not_lt.mp hfree)
      cases hrest : temporaryMoves (nextFree reserved candidate :: reserved)
          (nextFree reserved candidate - 1) ids with
      | error e =>
        rw [hrest] at h
        cases h
      | ok rest =>
        rw [hrest] at h
        cases h
        obtain ⟨hids, hapart, hout⟩ := ih hrest
        refine ⟨by rw [map_cons, hids], ?_, ?_⟩
        · refine .cons (fun move hmove heq => hout move hmove ?_) hapart
          rw [← heq]
          exact .head _
        · intro move hmove
          rcases mem_cons.mp hmove with rfl | hmove
          · exact hnext
          · exact fun hmem => hout move hmove (.tail _ hmem)

/-- The periods up to a candidate that are still free. -/
def freePeriods (candidate : Int) : Finset Int :=
  (@Finset.Icc Int _ Int.instLocallyFiniteOrder minPeriodSeconds candidate).filter (· ∉ reserved)

variable {e : Failure}

theorem temporaryMoves_error {reserved : List Int}
    (h : temporaryMoves reserved candidate ids = .error e) :
    (freePeriods reserved candidate).card < ids.length := by
  induction ids generalizing reserved candidate e with
  | nil => cases h
  | cons id ids ih =>
    obtain ⟨hle, hskipped, hnext⟩ := nextFree_spec reserved candidate
    rw [temporaryMoves] at h
    split at h
    · have hempty : freePeriods reserved candidate = ∅ := by
        rw [freePeriods, Finset.filter_eq_empty_iff]
        intro p hp
        rw [Finset.mem_Icc] at hp
        exact not_not.mpr (hskipped p (by omega) hp.2)
      rw [hempty]
      exact Nat.succ_pos _
    · cases hrest : temporaryMoves (nextFree reserved candidate :: reserved)
          (nextFree reserved candidate - 1) ids with
      | ok moves =>
        rw [hrest] at h
        cases h
      | error e' =>
        have hcard := ih hrest
        have hsub : freePeriods reserved candidate ⊆ insert (nextFree reserved candidate)
            (freePeriods (nextFree reserved candidate :: reserved)
              (nextFree reserved candidate - 1)) := by
          intro p hp
          rw [freePeriods, Finset.mem_filter, Finset.mem_Icc] at hp
          rw [Finset.mem_insert, freePeriods, Finset.mem_filter, Finset.mem_Icc, mem_cons]
          by_contra hnot
          have hlt : nextFree reserved candidate < p := by
            by_contra hge
            refine hnot (.inr ⟨⟨hp.1.1, ?_⟩, ?_⟩)
            · omega
            · rintro (heq | hmem)
              · exact hnot (.inl heq)
              · exact hp.2 hmem
          exact hp.2 (hskipped p hlt hp.1.2)
        have := (Finset.card_le_card hsub).trans (Finset.card_insert_le _ _)
        rw [length_cons]
        omega

/-! ## Which rules change -/

variable {t : Tables}

theorem Tables.mem_all {rule : Rule} : rule ∈ t.all ↔ t.rules rule.id = some rule := by
  unfold Tables.all
  rw [mem_filterMap]
  constructor
  · rintro ⟨id, -, hrule⟩
    rwa [(t.keyed id rule hrule).1]
  · intro hrule
    exact ⟨rule.id, mem_range.mpr (t.keyed _ _ hrule).2, hrule⟩

theorem currentByID_all (t : Tables) (id : Nat) : currentByID t.all id = t.rules id := by
  unfold currentByID
  cases hfind : t.all.find? (·.id == id) with
  | some rule =>
    have hfound := find?_some hfind
    have hid : rule.id = id := beq_iff_eq.mp hfound
    rw [← hid]
    exact (Tables.mem_all.mp (mem_of_find?_eq_some hfind)).symm
  | none =>
    cases hrule : t.rules id with
    | none => rfl
    | some rule =>
      have hid := (t.keyed id rule hrule).1
      have hmem : rule ∈ t.all := Tables.mem_all.mpr (hid ▸ hrule)
      exact absurd (beq_iff_eq.mpr hid) (find?_eq_none.mp hfind rule hmem)

def changes (t : Tables) (d : Definition) : Bool :=
  d.id ≠ 0 && ((t.rules d.id).getD Rule.zero).periodSeconds ≠ d.periodSeconds

theorem changedIDs_ok (h : changedIDs t.all desired = .ok ids) :
    ids = (desired.filter (changes t)).map (·.id) ∧
      ∀ d ∈ desired, changes t d = true →
        ((t.rules d.id).getD Rule.zero).revision ≠ maxRevision := by
  induction desired generalizing ids with
  | nil =>
    cases h
    exact ⟨rfl, nofun⟩
  | cons d desired ih =>
    rw [changedIDs] at h
    simp only [currentByID_all] at h
    split at h
    · have hno : ¬ changes t d = true := by
        simp only [changes, Bool.and_eq_true, decide_eq_true_eq]
        tauto
      obtain ⟨hids, hrest⟩ := ih h
      refine ⟨by rw [filter_cons_of_neg hno, hids], fun d' hd' => ?_⟩
      rcases mem_cons.mp hd' with rfl | hd'
      · exact fun hyes => absurd hyes hno
      · exact hrest d' hd'
    · split at h
      · cases h
      · rename_i hrevision
        have hyes : changes t d = true := by
          simp only [changes, Bool.and_eq_true, decide_eq_true_eq]
          tauto
        cases hloop : changedIDs t.all desired with
        | error e =>
          rw [hloop] at h
          cases h
        | ok rest =>
          rw [hloop] at h
          cases h
          obtain ⟨hids, hrest⟩ := ih hloop
          refine ⟨by rw [filter_cons_of_pos hyes, map_cons, hids], fun d' hd' => ?_⟩
          rcases mem_cons.mp hd' with rfl | hd'
          · exact fun _ => hrevision
          · exact hrest d' hd'

theorem changedIDs_error (h : changedIDs t.all desired = .error e) :
    ∃ d ∈ desired, changes t d = true ∧ ((t.rules d.id).getD Rule.zero).revision = maxRevision := by
  induction desired generalizing e with
  | nil => cases h
  | cons d desired ih =>
    rw [changedIDs] at h
    simp only [currentByID_all] at h
    split at h
    · obtain ⟨d', hd', hrest⟩ := ih h
      exact ⟨d', .tail _ hd', hrest⟩
    · split at h
      · rename_i hrevision
        refine ⟨d, .head _, ?_, hrevision⟩
        simp only [changes, Bool.and_eq_true, decide_eq_true_eq]
        tauto
      · cases hloop : changedIDs t.all desired with
        | error e' =>
          obtain ⟨d', hd', hrest⟩ := ih hloop
          exact ⟨d', .tail _ hd', hrest⟩
        | ok rest =>
          rw [hloop] at h
          cases h

/-- What a plan is: one temporary period for each rule whose period changes. -/
structure Plan (t : Tables) (desired : List Definition) (moves : List PeriodMove) : Prop where
  moved : ∀ id, (∃ move ∈ moves, move.ruleID = id) ↔ ∃ d ∈ desired, changes t d = true ∧ d.id = id
  advance : ∀ d ∈ desired, changes t d = true →
    ((t.rules d.id).getD Rule.zero).revision ≠ maxRevision
  apart : moves.Pairwise (·.temporaryPeriod ≠ ·.temporaryPeriod)
  free : ∀ move ∈ moves, move.temporaryPeriod ∉ reservedPeriods t.all desired

theorem plan_ok (h : planPeriodMoves t.all desired = .ok moves) : Plan t desired moves := by
  unfold planPeriodMoves at h
  cases hids : changedIDs t.all desired with
  | error e =>
    rw [hids] at h
    cases h
  | ok ids =>
    rw [hids] at h
    obtain ⟨hmoves, hapart, hfree⟩ := temporaryMoves_ok h
    obtain ⟨rfl, hadvance⟩ := changedIDs_ok hids
    refine ⟨fun id => ?_, hadvance, hapart, hfree⟩
    have hmem : id ∈ moves.map (·.ruleID) ↔ id ∈ (desired.filter (changes t)).map (·.id) := by
      rw [hmoves, mem_insertionSort]
    simpa [and_assoc] using hmem

theorem plan_error (h : planPeriodMoves t.all desired = .error e) :
    (∃ d ∈ desired, changes t d = true ∧
      ((t.rules d.id).getD Rule.zero).revision = maxRevision) ∨
    (freePeriods (reservedPeriods t.all desired) maxPeriodSeconds).card <
      (desired.filter (changes t)).length := by
  unfold planPeriodMoves at h
  cases hids : changedIDs t.all desired with
  | error e' => exact .inl (changedIDs_error hids)
  | ok ids =>
    rw [hids] at h
    have hcard := temporaryMoves_error h
    obtain ⟨rfl, -⟩ := changedIDs_ok hids
    rw [length_insertionSort, length_map] at hcard
    exact .inr hcard

end EchoJoyGateway.CostLimits
