import Mathlib.Data.Prod.Lex
import EchoJoyGateway.Quota.Calls
import EchoJoyGateway.Lib.Update

/-!
# Checkpoints of the shared state

The database rows of the cost-limit rules, the conditional update that
persists a snapshot, the reset of a rule, and the per-instance set of dirty
rules. A state is dated by its revision and version, compared in that order.
-/

namespace EchoJoyGateway.Quota

open Decimal
open Function (update update_of_ne update_self)

/-- A revision and a version, ordered lexicographically. -/
abbrev Stamp := Nat ×ₗ Nat

def stamp (revision version : Nat) : Stamp := toLex (revision, version)

theorem stamp_le {r v r' v' : Nat} : stamp r v ≤ stamp r' v' ↔ r < r' ∨ (r = r' ∧ v ≤ v') :=
  Prod.Lex.toLex_le_toLex

theorem stamp_lt {r v r' v' : Nat} : stamp r v < stamp r' v' ↔ r < r' ∨ (r = r' ∧ v < v') :=
  Prod.Lex.toLex_lt_toLex

def RestoredState.stamp (s : RestoredState) : Stamp := Quota.stamp s.ruleRevision s.snapshotVersion

def Mark.stamp (m : Mark) : Stamp := Quota.stamp m.revision m.version

structure RuleRow where
  accessKeyID : Nat
  ruleRevision : Nat
  deriving DecidableEq

structure StateRow where
  ruleRevision : Nat
  usedNano : Int
  windowStartedAtMS : Option Int
  windowEndsAtMS : Option Int
  windowGeneration : Nat
  snapshotVersion : Nat
  deriving DecidableEq

/-- The rule and the state table, by rule id. -/
structure Database where
  rules : Nat → Option RuleRow
  states : Nat → Option StateRow

def restoredFrom (ruleID : Nat) (rule : RuleRow) (row : StateRow) : RestoredState where
  accessKeyID := rule.accessKeyID
  ruleID := ruleID
  ruleRevision := row.ruleRevision
  usedNano := row.usedNano
  windowStartedAtMS := row.windowStartedAtMS
  windowEndsAtMS := row.windowEndsAtMS
  windowGeneration := row.windowGeneration
  snapshotVersion := row.snapshotVersion

def readState (db : Database) (ruleID : Nat) : Option RestoredState :=
  match db.rules ruleID, db.states ruleID with
  | some rule, some row => some (restoredFrom ruleID rule row)
  | _, _ => none

def rowFrom (s : RestoredState) : StateRow where
  ruleRevision := s.ruleRevision
  usedNano := s.usedNano
  windowStartedAtMS := s.windowStartedAtMS
  windowEndsAtMS := s.windowEndsAtMS
  windowGeneration := s.windowGeneration
  snapshotVersion := s.snapshotVersion

inductive PersistOutcome where
  | applied
  | alreadyCurrent
  | staleRevision
  | ruleDeleted
  deriving DecidableEq

def validSnapshot (s : RestoredState) : Bool :=
  decide (s.accessKeyID ≠ 0) && decide (s.ruleID ≠ 0) && decide (s.ruleRevision ≠ 0) &&
    decide (s.snapshotVersion ≠ 0) && decide (0 ≤ s.usedNano) &&
    decide (s.windowStartedAtMS.isNone = s.windowEndsAtMS.isNone)

def updatable (db : Database) (s : RestoredState) : Bool :=
  match db.states s.ruleID with
  | some row =>
    decide (row.ruleRevision = s.ruleRevision) && decide (row.snapshotVersion < s.snapshotVersion)
  | none => false

def writeState (db : Database) (ruleID : Nat) (row : StateRow) : Database :=
  { db with states := Function.update db.states ruleID (some row) }

def classify (db : Database) (s : RestoredState) : Except String PersistOutcome :=
  match db.rules s.ruleID with
  | none => .ok .ruleDeleted
  | some rule =>
    if rule.accessKeyID ≠ s.accessKeyID then
      .error s!"classify access key cost limit rule {s.ruleID}: access key mismatch"
    else if rule.ruleRevision ≠ s.ruleRevision then .ok .staleRevision
    else
      match db.states s.ruleID with
      | none => .error s!"classify access key cost limit rule {s.ruleID}: state is missing"
      | some row =>
        if row.ruleRevision ≠ s.ruleRevision then
          .error s!"classify access key cost limit rule {s.ruleID}: state revision mismatch"
        else if s.snapshotVersion ≤ row.snapshotVersion then .ok .alreadyCurrent
        else
          .error (s!"classify access key cost limit rule {s.ruleID}: " ++
            s!"database version {row.snapshotVersion} is behind incoming {s.snapshotVersion} " ++
            "after no-op update")

def persistAccessQuotaSnapshot (db : Database) (s : RestoredState) :
    Except String (Database × PersistOutcome) :=
  if validSnapshot s = false then
    .error s!"persist access key cost limit rule {s.ruleID}: invalid snapshot"
  else if updatable db s then .ok (writeState db s.ruleID (rowFrom s), .applied)
  else
    match classify db s with
    | .error e => .error e
    | .ok outcome => .ok (db, outcome)

def resetRow (revision : Nat) : StateRow where
  ruleRevision := revision
  usedNano := 0
  windowStartedAtMS := none
  windowEndsAtMS := none
  windowGeneration := 0
  snapshotVersion := 1

def resetAccessKeyCostLimitRuleState (db : Database) (ruleID currentRevision nextRevision : Nat) :
    Except String Database :=
  match db.states ruleID with
  | some row =>
    if row.ruleRevision = currentRevision then .ok (writeState db ruleID (resetRow nextRevision))
    else .error s!"reset access key cost limit rule {ruleID} state"
  | none => .error s!"reset access key cost limit rule {ruleID} state"

/-- A reset of a rule, or a change of its period: both advance the revision and
zero the row. A failure rolls the transaction back. -/
def advanceRule (db : Database) (ruleID : Nat) : Except String Database :=
  match db.rules ruleID with
  | none => .error s!"reset access key cost limit rule {ruleID}"
  | some rule =>
    if rule.ruleRevision = 2 ^ 64 - 1 then
      .error s!"advance access key cost limit rule {ruleID} revision"
    else
      resetAccessKeyCostLimitRuleState
        { db with
          rules := Function.update db.rules ruleID
            (some { rule with ruleRevision := rule.ruleRevision + 1 }) }
        ruleID rule.ruleRevision (rule.ruleRevision + 1)

structure DirtyRule where
  accessKeyID : Nat
  revision : Nat
  version : Nat
  deriving DecidableEq

def DirtyRule.stamp (rule : DirtyRule) : Stamp := Quota.stamp rule.revision rule.version

def DirtyRule.coveredBy (rule : DirtyRule) (revision version : Nat) : Bool :=
  decide (rule.revision < revision) ||
    (decide (revision = rule.revision) && decide (rule.version ≤ version))

abbrev DirtySet := Nat → Option DirtyRule

def markDirty (dirty : DirtySet) (m : Mark) : DirtySet :=
  let next : DirtyRule := ⟨m.accessKeyID, m.revision, m.version⟩
  match dirty m.ruleID with
  | none => Function.update dirty m.ruleID (some next)
  | some current =>
    if next.coveredBy current.revision current.version then dirty
    else Function.update dirty m.ruleID (some next)

def dropDirty (dirty : DirtySet) (ruleID : Nat) (observed : DirtyRule) : DirtySet :=
  if dirty ruleID = some observed then Function.update dirty ruleID none else dirty

def ack (dirty : DirtySet) (s : RestoredState) : DirtySet :=
  match dirty s.ruleID with
  | none => dirty
  | some rule =>
    if rule.accessKeyID = s.accessKeyID ∧
      rule.coveredBy s.ruleRevision s.snapshotVersion = true then
      Function.update dirty s.ruleID none
    else dirty

inductive Reading where
  | drop
  | snapshot (s : RestoredState)
  | failed

def readCandidate (ruleID : Nat) (observed : DirtyRule) (fields : Option QuotaHash) : Reading :=
  match fields with
  | none => .drop
  | some row =>
    match parseHash (observed.accessKeyID, ruleID) row with
    | none => .failed
    | some s =>
      if observed.coveredBy s.ruleRevision s.snapshotVersion then .snapshot s else .drop

theorem coveredBy_iff {rule : DirtyRule} {revision version : Nat} :
    rule.coveredBy revision version = true ↔ rule.stamp ≤ stamp revision version := by
  simp only [DirtyRule.coveredBy, DirtyRule.stamp, stamp_le, Bool.or_eq_true, Bool.and_eq_true,
    decide_eq_true_eq]
  constructor
  · rintro (h | ⟨h, h'⟩)
    · exact .inl h
    · exact .inr ⟨h.symm, h'⟩
  · rintro (h | ⟨h, h'⟩)
    · exact .inl h
    · exact .inr ⟨h.symm, h'⟩

section Reading

variable {db : Database} {ruleID : Nat} {s : RestoredState}

theorem readState_eq_some (h : readState db ruleID = some s) :
    ∃ rule row, db.rules ruleID = some rule ∧ db.states ruleID = some row ∧
      s = restoredFrom ruleID rule row := by
  unfold readState at h
  cases hrule : db.rules ruleID with
  | none => simp [hrule] at h
  | some rule =>
    cases hrow : db.states ruleID with
    | none => simp [hrow] at h
    | some row =>
      simp only [hrule, hrow, Option.some.injEq] at h
      exact ⟨rule, row, rfl, rfl, h.symm⟩

variable {rule : RuleRow}

theorem readState_of_rows {row : StateRow} (hrule : db.rules ruleID = some rule)
    (hrow : db.states ruleID = some row) :
    readState db ruleID = some (restoredFrom ruleID rule row) := by
  simp only [readState, hrule, hrow]

theorem readState_writeState_self (hrule : db.rules ruleID = some rule) (row : StateRow) :
    readState (writeState db ruleID row) ruleID = some (restoredFrom ruleID rule row) :=
  readState_of_rows hrule (update_self _ _ _)

theorem readState_key (h : readState db ruleID = some s) : s.ruleID = ruleID := by
  obtain ⟨rule, row, -, -, rfl⟩ := readState_eq_some h
  rfl

end Reading

/-- The two tables agree on the revision of every rule. -/
def Database.Consistent (db : Database) : Prop :=
  ∀ ruleID rule row, db.rules ruleID = some rule → db.states ruleID = some row →
    rule.ruleRevision = row.ruleRevision

/-- What one write of the database does to the rows of a rule; `written` is the
snapshot that it persists, if any. -/
inductive RowChange (written : Option RestoredState) (db db' : Database) (ruleID : Nat) : Prop
  | same (hrules : db'.rules ruleID = db.rules ruleID)
      (hstates : db'.states ruleID = db.states ruleID)
  | snapshot (s : RestoredState) (row : StateRow) (hwritten : written = some s)
      (hid : s.ruleID = ruleID) (hrules : db'.rules ruleID = db.rules ruleID)
      (hrow : db.states ruleID = some row) (hrevision : row.ruleRevision = s.ruleRevision)
      (hversion : row.snapshotVersion < s.snapshotVersion)
      (hstates : db'.states ruleID = some (rowFrom s))
  | reset (rule : RuleRow) (row : StateRow) (hrule : db.rules ruleID = some rule)
      (hrow : db.states ruleID = some row) (hrevision : row.ruleRevision = rule.ruleRevision)
      (hrules : db'.rules ruleID = some { rule with ruleRevision := rule.ruleRevision + 1 })
      (hstates : db'.states ruleID = some (resetRow (rule.ruleRevision + 1)))

variable {db : Database} {s : RestoredState}

theorem updatable_iff :
    updatable db s = true ↔ ∃ row, db.states s.ruleID = some row ∧
      row.ruleRevision = s.ruleRevision ∧ row.snapshotVersion < s.snapshotVersion := by
  unfold updatable
  cases db.states s.ruleID <;> simp

variable {outcome : PersistOutcome}

theorem persist_cases {db' : Database} (h : persistAccessQuotaSnapshot db s = .ok (db', outcome)) :
    (updatable db s = true ∧ db' = writeState db s.ruleID (rowFrom s)) ∨
      (updatable db s = false ∧ db' = db ∧ classify db s = .ok outcome) := by
  unfold persistAccessQuotaSnapshot at h
  split at h
  · cases h
  · split at h
    · rename_i hup
      cases h
      exact .inl ⟨hup, rfl⟩
    · rename_i hup
      split at h
      · cases h
      · rename_i outcome' hclass
        cases h
        exact .inr ⟨Bool.eq_false_iff.mpr hup, rfl, hclass⟩

theorem persist_rowChange {db' : Database}
    (h : persistAccessQuotaSnapshot db s = .ok (db', outcome)) (ruleID : Nat) :
    RowChange (some s) db db' ruleID := by
  rcases persist_cases h with ⟨hup, rfl⟩ | ⟨-, rfl, -⟩
  · obtain ⟨row, hrow, hrev, hver⟩ := updatable_iff.mp hup
    rcases eq_or_ne ruleID s.ruleID with rfl | hne
    · exact .snapshot s row rfl rfl rfl hrow hrev hver (update_self _ _ _)
    · exact .same rfl (update_of_ne hne _ _)
  · exact .same rfl rfl

theorem advanceRule_rowChange {db' : Database} {target : Nat} (h : advanceRule db target = .ok db')
    (ruleID : Nat) : RowChange none db db' ruleID := by
  unfold advanceRule at h
  cases hrule : db.rules target with
  | none => simp [hrule] at h
  | some rule =>
    simp only [hrule] at h
    split at h
    · cases h
    · unfold resetAccessKeyCostLimitRuleState at h
      cases hrow : db.states target with
      | none => simp [hrow] at h
      | some row =>
        simp only [hrow] at h
        split at h
        · rename_i hrev
          cases h
          rcases eq_or_ne ruleID target with rfl | hne
          · exact .reset rule row hrule hrow hrev (update_self _ _ _) (update_self _ _ _)
          · exact .same (update_of_ne hne _ _) (update_of_ne hne _ _)
        · cases h

inductive StateChange (written : Option RestoredState) (before : RestoredState) :
    RestoredState → Prop
  | same : StateChange written before before
  | snapshot (s : RestoredState) (hwritten : written = some s) (hid : s.ruleID = before.ruleID)
      (hrevision : before.ruleRevision = s.ruleRevision)
      (hversion : before.snapshotVersion < s.snapshotVersion) :
      StateChange written before { s with accessKeyID := before.accessKeyID }
  | reset : StateChange written before (restoredFrom before.ruleID
      { accessKeyID := before.accessKeyID, ruleRevision := before.ruleRevision + 1 }
      (resetRow (before.ruleRevision + 1)))

section Changes

variable {written : Option RestoredState} {db db' : Database} {ruleID : Nat}
  {before after : RestoredState}

theorem RowChange.read (h : RowChange written db db' ruleID)
    (hbefore : readState db ruleID = some before) :
    ∃ after, readState db' ruleID = some after ∧ StateChange written before after := by
  obtain ⟨rule, row, hrule, hrow, rfl⟩ := readState_eq_some hbefore
  cases h with
  | same hrules hstates =>
    exact ⟨_, readState_of_rows (hrules.trans hrule) (hstates.trans hrow), .same⟩
  | snapshot s old hwritten hid hrules hold hrevision hversion hstates =>
    obtain rfl := Option.some.inj (hrow.symm.trans hold)
    refine ⟨_, readState_of_rows (hrules.trans hrule) hstates, ?_⟩
    have hval : restoredFrom ruleID rule (rowFrom s) =
        { s with accessKeyID := (restoredFrom ruleID rule row).accessKeyID } := by
      rw [← hid]
      rfl
    rw [hval]
    exact .snapshot s hwritten hid hrevision hversion
  | reset old oldRow hrule' hrow' hrevision hrules hstates =>
    obtain rfl := Option.some.inj (hrule.symm.trans hrule')
    obtain rfl := Option.some.inj (hrow.symm.trans hrow')
    refine ⟨_, readState_of_rows hrules hstates, ?_⟩
    have hval : restoredFrom ruleID { rule with ruleRevision := rule.ruleRevision + 1 }
        (resetRow (rule.ruleRevision + 1)) = restoredFrom (restoredFrom ruleID rule row).ruleID
          { accessKeyID := (restoredFrom ruleID rule row).accessKeyID,
            ruleRevision := (restoredFrom ruleID rule row).ruleRevision + 1 }
          (resetRow ((restoredFrom ruleID rule row).ruleRevision + 1)) := by
      simp [restoredFrom, hrevision]
    rw [hval]
    exact .reset

theorem RowChange.read_back (h : RowChange written db db' ruleID)
    (hafter : readState db' ruleID = some after) :
    ∃ before, readState db ruleID = some before ∧ StateChange written before after := by
  have hexists : ∃ before, readState db ruleID = some before := by
    obtain ⟨rule, row, hrule, hrow, -⟩ := readState_eq_some hafter
    cases h with
    | same hrules hstates =>
      exact ⟨_, readState_of_rows (hrules.symm.trans hrule) (hstates.symm.trans hrow)⟩
    | snapshot s old hwritten hid hrules hold hrevision hversion hstates =>
      exact ⟨_, readState_of_rows (hrules.symm.trans hrule) hold⟩
    | reset old oldRow hrule' hrow' hrevision hrules hstates =>
      exact ⟨_, readState_of_rows hrule' hrow'⟩
  obtain ⟨before, hbefore⟩ := hexists
  obtain ⟨after', hafter', hchange⟩ := h.read hbefore
  obtain rfl := Option.some.inj (hafter.symm.trans hafter')
  exact ⟨before, hbefore, hchange⟩

theorem StateChange.key (h : StateChange written before after) :
    stateKey after = stateKey before := by
  cases h with
  | same => rfl
  | snapshot s _ hid => exact Prod.ext rfl hid
  | reset => rfl

theorem StateChange.stamp_le (h : StateChange written before after) :
    before.stamp ≤ after.stamp := by
  cases h with
  | same => exact le_rfl
  | snapshot s _ hid hrevision hversion =>
    exact Quota.stamp_le.mpr (.inr ⟨hrevision, hversion.le⟩)
  | reset => exact Quota.stamp_le.mpr (.inl (Nat.lt_succ_self _))

theorem RowChange.consistent (hdb : db.Consistent)
    (h : ∀ ruleID, RowChange written db db' ruleID) : db'.Consistent := by
  intro ruleID rule row hrule hrow
  cases h ruleID with
  | same hrules hstates =>
    exact hdb ruleID rule row (hrules.symm.trans hrule) (hstates.symm.trans hrow)
  | snapshot s old hwritten hid hrules hold hrevision hversion hstates =>
    obtain rfl := Option.some.inj (hstates.symm.trans hrow)
    exact (hdb ruleID rule old (hrules.symm.trans hrule) hold).trans hrevision
  | reset old oldRow hrule' hrow' hrevision hrules hstates =>
    obtain rfl := Option.some.inj (hrules.symm.trans hrule)
    obtain rfl := Option.some.inj (hstates.symm.trans hrow)
    rfl

end Changes

theorem persist_stamp_le {db db' : Database} (hdb : db.Consistent) {s : RestoredState}
    {outcome : PersistOutcome} (h : persistAccessQuotaSnapshot db s = .ok (db', outcome))
    {before : RestoredState} (hbefore : readState db s.ruleID = some before)
    (hrevision : s.ruleRevision ≤ before.ruleRevision) :
    ∃ after, readState db' s.ruleID = some after ∧ s.stamp ≤ after.stamp := by
  obtain ⟨rule, row, hrule, hrow, rfl⟩ := readState_eq_some hbefore
  rcases persist_cases h with ⟨hup, rfl⟩ | ⟨hup, rfl, hclass⟩
  · exact ⟨_, readState_writeState_self hrule _, le_rfl⟩
  · refine ⟨_, hbefore, ?_⟩
    rcases Nat.lt_or_ge s.ruleRevision row.ruleRevision with hlt | hge
    · exact stamp_le.mpr (.inl hlt)
    · have heq : row.ruleRevision = s.ruleRevision := le_antisymm hge hrevision
      refine stamp_le.mpr (.inr ⟨heq.symm, ?_⟩)
      by_contra hlt
      have hfresh : updatable _ s = true := updatable_iff.mpr ⟨row, hrow, heq, Nat.lt_of_not_le hlt⟩
      rw [hup] at hfresh
      cases hfresh

theorem markDirty_cases (dirty : DirtySet) (m : Mark) :
    (∃ current, dirty m.ruleID = some current ∧ m.stamp ≤ current.stamp ∧
        markDirty dirty m = dirty) ∨
      ((∀ current, dirty m.ruleID = some current → current.stamp < m.stamp) ∧
        markDirty dirty m =
          update dirty m.ruleID (some ⟨m.accessKeyID, m.revision, m.version⟩)) := by
  unfold markDirty
  cases hcur : dirty m.ruleID with
  | none => exact .inr ⟨nofun, rfl⟩
  | some current =>
    by_cases hcov : DirtyRule.coveredBy ⟨m.accessKeyID, m.revision, m.version⟩ current.revision
        current.version = true
    · refine .inl ⟨current, rfl, coveredBy_iff.mp hcov, ?_⟩
      simp only [hcov, if_true]
    · refine .inr ⟨fun other hother => ?_, ?_⟩
      · cases hother
        exact lt_of_not_ge fun hle => hcov (coveredBy_iff.mpr hle)
      · simp only [hcov]
        rfl

variable {dirty : DirtySet} {ruleID : Nat}

theorem markDirty_eq_some {m : Mark} {entry : DirtyRule}
    (h : markDirty dirty m ruleID = some entry) :
    dirty ruleID = some entry ∨
      ruleID = m.ruleID ∧ entry = ⟨m.accessKeyID, m.revision, m.version⟩ := by
  rcases markDirty_cases dirty m with ⟨_, _, _, hsame⟩ | ⟨_, hset⟩
  · exact .inl (hsame ▸ h)
  · rw [hset] at h
    rcases Update.cases h with ⟨rfl, heq⟩ | ⟨-, h⟩
    · exact .inr ⟨rfl, (Option.some.inj heq).symm⟩
    · exact .inl h

theorem markDirty_latest {m : Mark} {latest : ℕ ×ₗ ℕ}
    (hentry : ∀ entry, dirty ruleID = some entry → entry.stamp ≤ latest)
    (hmark : m.ruleID = ruleID → m.stamp ≤ latest)
    (hreached : (m.ruleID = ruleID ∧ m.stamp = latest) ∨
      ∃ entry, dirty ruleID = some entry ∧ entry.stamp = latest) :
    ∃ entry, markDirty dirty m ruleID = some entry ∧ entry.stamp = latest := by
  rcases markDirty_cases dirty m with ⟨current, hcur, hle, hsame⟩ | ⟨hlt, hset⟩
  · rw [hsame]
    rcases hreached with ⟨rfl, rfl⟩ | hreached
    · exact ⟨current, hcur, le_antisymm (hentry current hcur) hle⟩
    · exact hreached
  · rw [hset]
    rcases eq_or_ne m.ruleID ruleID with rfl | hne
    · refine ⟨_, update_self _ _ _, le_antisymm (hmark rfl) ?_⟩
      rcases hreached with ⟨-, rfl⟩ | ⟨entry, hval, rfl⟩
      · exact le_rfl
      · exact (hlt entry hval).le
    · rw [update_of_ne hne.symm]
      exact hreached.resolve_left fun h => hne h.1

theorem ack_cases (dirty : DirtySet) (s : RestoredState) :
    ack dirty s = dirty ∨ (∃ rule, dirty s.ruleID = some rule ∧ rule.stamp ≤ s.stamp ∧
      ack dirty s = update dirty s.ruleID none) := by
  unfold ack
  cases hcur : dirty s.ruleID with
  | none => exact .inl rfl
  | some rule =>
    simp only
    split
    · rename_i hcond
      exact .inr ⟨rule, rfl, coveredBy_iff.mp hcond.2, rfl⟩
    · exact .inl rfl

theorem dropDirty_cases (dirty : DirtySet) (ruleID : Nat) (observed : DirtyRule) :
    dropDirty dirty ruleID observed = dirty ∨ (dirty ruleID = some observed ∧
      dropDirty dirty ruleID observed = update dirty ruleID none) := by
  unfold dropDirty
  split
  · rename_i h
    exact .inr ⟨h, rfl⟩
  · exact .inl rfl

end EchoJoyGateway.Quota
