import EchoJoyGateway.Judge.Evidence
import EchoJoyGateway.Lib.Update
import Mathlib.Data.List.FinRange

/-!
# The health statistics of a credential

`StatsStore` of `internal/health/stats.go`: a ring of five buckets, one for each minute,
that late events reach as long as no later minute has taken their bucket.
-/

namespace EchoJoyGateway.Stats

open Clock Judge List Function

abbrev statsBucketCount : Nat := 5

def statsBucketWidth : Int := 60 * 10 ^ 9

inductive StatsEvent where
  | success
  | failure
  | problem
  deriving DecidableEq

structure StatsBucket where
  minute : Int
  valid : Bool
  success : UInt64
  failure : UInt64
  problem : UInt64

structure CredentialStatsWindow where
  buckets : Fin statsBucketCount → StatsBucket
  consecutiveFailure : UInt64
  consecutiveProblem : UInt64
  /-- None while no event is recorded. -/
  lastEventAt : Option Time
  lastFailureCategory : FailureCategory
  lastStatusCode : Int

structure CredentialStats where
  success : UInt64
  failure : UInt64
  problem : UInt64
  consecutiveFailure : UInt64
  consecutiveProblem : UInt64
  lastFailureCategory : FailureCategory
  lastStatusCode : Int

abbrev StatsStore := Nat → Option CredentialStatsWindow

structure Report where
  event : StatsEvent
  category : FailureCategory
  statusCode : Int
  moment : Time

/-- `UnixNano` is an int64 and wraps; the division of Go rounds towards zero. -/
def minuteOf (t : Time) : Int := (t.bmod (2 ^ 64)).tdiv statsBucketWidth

theorem minuteOf_eq {t : Int} (hpos : 0 ≤ t) (hlt : t < 2 ^ 63) :
    minuteOf t = t / statsBucketWidth := by
  rw [minuteOf, Int.bmod_eq_of_le (by omega) (by omega), Int.tdiv_eq_ediv_of_nonneg hpos]

def Report.minute (report : Report) : Int := minuteOf report.moment

def statsBucketSlot (minute : Int) : Fin statsBucketCount :=
  let slot := minute.tmod statsBucketCount
  Fin.ofNat statsBucketCount (if slot < 0 then slot + statsBucketCount else slot).toNat

def StatsBucket.add (bucket : StatsBucket) : StatsEvent → StatsBucket
  | .success => { bucket with success := bucket.success + 1 }
  | .failure => { bucket with problem := bucket.problem + 1, failure := bucket.failure + 1 }
  | .problem => { bucket with problem := bucket.problem + 1 }

/-- The bucket in which the minute is counted, none where a later minute has taken it. -/
def StatsBucket.reopen (bucket : StatsBucket) (minute : Int) : Option StatsBucket :=
  if bucket.valid = false ∨ minute > bucket.minute then some ⟨minute, true, 0, 0, 0⟩
  else if minute < bucket.minute then none
  else some bucket

def StatsBucket.record (bucket : StatsBucket) (report : Report) : StatsBucket :=
  match bucket.reopen report.minute with
  | none => bucket
  | some opened => opened.add report.event

namespace CredentialStatsWindow

def empty : CredentialStatsWindow := ⟨fun _ => ⟨0, false, 0, 0, 0⟩, 0, 0, none, .ambiguous, 0⟩

def clearProblemState (window : CredentialStatsWindow) : CredentialStatsWindow :=
  { window with
    consecutiveFailure := 0
    consecutiveProblem := 0
    lastFailureCategory := .ambiguous
    lastStatusCode := 0 }

def note (window : CredentialStatsWindow) (report : Report) : CredentialStatsWindow :=
  if window.lastEventAt.any fun last => decide (report.moment < last) then window
  else
    let window := { window with lastEventAt := some report.moment }
    if report.event = .success then window.clearProblemState
    else
      { window with
        consecutiveFailure :=
          if report.event = .failure then window.consecutiveFailure + 1
          else window.consecutiveFailure
        consecutiveProblem := window.consecutiveProblem + 1
        lastFailureCategory := report.category
        lastStatusCode := report.statusCode }

def record (window : CredentialStatsWindow) (report : Report) : CredentialStatsWindow :=
  let slot := statsBucketSlot report.minute
  match (window.buckets slot).reopen report.minute with
  | none => window
  | some bucket =>
    note { window with buckets := Function.update window.buckets slot (bucket.add report.event) }
      report

end CredentialStatsWindow

def CredentialStats.absorb (stats : CredentialStats) (first last : Int) (bucket : StatsBucket) :
    CredentialStats :=
  if bucket.valid = false ∨ bucket.minute < first ∨ bucket.minute > last then stats
  else
    { stats with
      success := stats.success + bucket.success
      failure := stats.failure + bucket.failure
      problem := stats.problem + bucket.problem }

namespace StatsStore

inductive Call where
  | record (report : Report)
  | reset
  | clearProblemState

structure Command where
  credentialID : Nat
  call : Call

def Call.apply (window : Option CredentialStatsWindow) : Call → Option CredentialStatsWindow
  | .record report => some ((window.getD .empty).record report)
  | .reset => none
  | .clearProblemState => window.map (·.clearProblemState)

def step (store : StatsStore) (command : Command) : StatsStore :=
  if command.credentialID = 0 then store
  else Function.update store command.credentialID (command.call.apply (store command.credentialID))

def run (commands : List Command) : StatsStore := commands.foldl step fun _ => none

def snapshot (store : StatsStore) (credentialID : Nat) (now : Time) : CredentialStats :=
  let current := minuteOf now
  match if credentialID = 0 then none else store credentialID with
  | none => ⟨0, 0, 0, 0, 0, .ambiguous, 0⟩
  | some window =>
    (List.finRange statsBucketCount).foldl
      (fun stats slot =>
        stats.absorb (current - (statsBucketCount - 1)) current (window.buckets slot))
      ⟨0, 0, 0, window.consecutiveFailure, window.consecutiveProblem, window.lastFailureCategory,
        window.lastStatusCode⟩

end StatsStore

/-! ## The counters -/

inductive Counter where
  | success
  | failure
  | problem

/-- A failure is a problem, too. -/
def StatsEvent.counts : StatsEvent → Counter → Bool
  | .success, .success | .failure, .failure | .failure, .problem | .problem, .problem => true
  | _, _ => false

def StatsBucket.count (bucket : StatsBucket) : Counter → UInt64
  | .success => bucket.success
  | .failure => bucket.failure
  | .problem => bucket.problem

def CredentialStats.count (stats : CredentialStats) : Counter → UInt64
  | .success => stats.success
  | .failure => stats.failure
  | .problem => stats.problem

theorem StatsBucket.count_add (bucket : StatsBucket) (event : StatsEvent) (c : Counter) :
    (bucket.add event).count c = bucket.count c + UInt64.ofNat (event.counts c).toNat := by
  cases event <;> cases c <;> simp [StatsBucket.add, count, StatsEvent.counts]

theorem CredentialStats.count_absorb (stats : CredentialStats) (first last : Int)
    (bucket : StatsBucket) (c : Counter) :
    (stats.absorb first last bucket).count c =
      if bucket.valid = false ∨ bucket.minute < first ∨ bucket.minute > last then stats.count c
      else stats.count c + bucket.count c := by
  unfold absorb
  split
  · rfl
  · cases c <;> rfl

/-! ## What a bucket holds of its reports -/

variable {log : List Report} {report : Report} {bucket : StatsBucket}
  {window : CredentialStatsWindow}

/-- No report is of a later minute than the bucket's, and those of its minute are counted. -/
structure Counted (log : List Report) (bucket : StatsBucket) : Prop where
  latest : ∀ report ∈ log, report.minute ≤ bucket.minute
  counts : ∀ c, bucket.count c = UInt64.ofNat (log.countP fun report =>
    decide (report.minute = bucket.minute) && report.event.counts c)

def Tallied (log : List Report) (bucket : StatsBucket) : Prop :=
  if bucket.valid then Counted log bucket ∧ ∃ report ∈ log, report.minute = bucket.minute
  else log = []

theorem counted_fresh {minute : Int} (h : ∀ report ∈ log, report.minute < minute) :
    Counted log ⟨minute, true, 0, 0, 0⟩ where
  latest report hreport := Int.le_of_lt (h report hreport)
  counts c := by
    rw [countP_eq_zero.mpr]
    · cases c <;> rfl
    · intro report hreport
      simp [Int.ne_of_lt (h report hreport)]

theorem Counted.same (h : Counted log bucket) (hvalid : bucket.valid = true)
    (hminute : report.minute = bucket.minute) :
    Tallied (log ++ [report]) (bucket.add report.event) := by
  obtain ⟨hsame, hused⟩ : (bucket.add report.event).minute = bucket.minute ∧
      (bucket.add report.event).valid = bucket.valid := by
    cases report.event <;> exact ⟨rfl, rfl⟩
  rw [Tallied, hused, if_pos hvalid]
  refine ⟨⟨?_, ?_⟩, report, by simp, hminute.trans hsame.symm⟩
  · simpa [or_imp, forall_and, hsame, hminute] using h.latest
  · intro c
    rw [StatsBucket.count_add, h.counts, hsame]
    cases hcounts : report.event.counts c <;> simp [hminute, hcounts]

theorem Counted.late (h : Counted log bucket) (hlate : report.minute < bucket.minute) :
    Counted (log ++ [report]) bucket where
  latest := by simpa [or_imp, forall_and, Int.le_of_lt hlate] using h.latest
  counts c := by simp [h.counts, Int.ne_of_lt hlate]

theorem Tallied.record (h : Tallied log bucket) (report : Report) :
    Tallied (log ++ [report]) (bucket.record report) := by
  unfold StatsBucket.record StatsBucket.reopen
  unfold Tallied at h
  split_ifs with hfresh hlate
  · refine (counted_fresh fun other hother => ?_).same rfl rfl
    split at h
    · rename_i hvalid
      exact Int.lt_of_le_of_lt (h.1.latest other hother) (hfresh.resolve_left (by simp [hvalid]))
    · rw [h] at hother
      cases hother
  · rw [not_or, Bool.not_eq_false] at hfresh
    rw [if_pos hfresh.1] at h
    rw [Tallied, if_pos hfresh.1]
    exact ⟨h.1.late hlate, h.2.imp fun _ hother => ⟨mem_append_left _ hother.1, hother.2⟩⟩
  · rw [not_or, Bool.not_eq_false] at hfresh
    rw [if_pos hfresh.1] at h
    exact h.1.same hfresh.1 (by omega)

/-! ## The window -/

def slotOf (report : Report) : Fin statsBucketCount := statsBucketSlot report.minute

def Kept (log : List Report) (window : CredentialStatsWindow) : Prop :=
  ∀ slot, Tallied (log.filter fun report => slotOf report = slot) (window.buckets slot)

theorem Kept.eq_nil (h : Kept log .empty) : log = [] := by
  apply eq_nil_iff_forall_not_mem.mpr
  intro report hreport
  have hnone : log.filter (fun other => slotOf other = slotOf report) = [] := h (slotOf report)
  simp at hnone
  exact hnone report hreport rfl

theorem CredentialStatsWindow.buckets_note (window : CredentialStatsWindow) (report : Report) :
    (window.note report).buckets = window.buckets := by
  unfold note
  split
  · rfl
  · split <;> rfl

theorem CredentialStatsWindow.buckets_record (window : CredentialStatsWindow) (report : Report) :
    (window.record report).buckets =
      Function.update window.buckets (slotOf report)
        ((window.buckets (slotOf report)).record report) := by
  unfold CredentialStatsWindow.record StatsBucket.record slotOf
  dsimp only
  split
  · exact (update_eq_self _ _).symm
  · exact buckets_note _ _

theorem Kept.record (h : Kept log window) (report : Report) :
    Kept (log ++ [report]) (window.record report) := by
  intro slot
  rw [CredentialStatsWindow.buckets_record]
  rcases eq_or_ne (slotOf report) slot with rfl | hne
  · simpa using (h _).record report
  · simpa [hne, update_of_ne hne.symm] using h slot

theorem statsBucketSlot_val {minute : Int} (h : 0 ≤ minute) :
    ((statsBucketSlot minute).val : Int) = minute % 5 := by
  have hmod : minute.tmod (statsBucketCount : Int) = minute % 5 := Int.tmod_eq_emod_of_nonneg h
  have hpos : ¬ minute % 5 < 0 := by omega
  simp only [statsBucketSlot, hmod, Fin.ofNat, statsBucketCount]
  omega

def Within (current : Int) (report : Report) : Prop :=
  current - 5 < report.minute ∧ report.minute ≤ current

instance decidableWithin (current : Int) (report : Report) : Decidable (Within current report) :=
  inferInstanceAs (Decidable (_ ∧ _))

section Window

variable {current : Int} (hlog : ∀ report ∈ log, 0 ≤ report.minute ∧ report.minute ≤ current)

include hlog

theorem Tallied.absorb {slot : Fin statsBucketCount}
    (h : Tallied (log.filter fun report => slotOf report = slot) bucket) (stats : CredentialStats)
    (c : Counter) :
    (stats.absorb (current - 4) current bucket).count c = stats.count c +
      UInt64.ofNat ((log.filter fun report => slotOf report = slot).countP fun report =>
        decide (Within current report) && report.event.counts c) := by
  rw [CredentialStats.count_absorb]
  unfold Tallied at h
  split at h
  · rename_i hvalid
    obtain ⟨⟨hlatest, hcounts⟩, witness, hwitness, hminute⟩ := h
    obtain ⟨hmem, hslot⟩ := mem_filter.mp hwitness
    have hreached := hlog witness hmem
    rw [hminute] at hreached
    split
    · rename_i hout
      rw [countP_eq_zero.mpr]
      · exact (UInt64.add_zero _).symm
      · intro other hother hin
        have hbefore := hlatest other hother
        obtain ⟨hfirst, -⟩ := of_decide_eq_true (Bool.and_eq_true_iff.mp hin).1
        have hminutes := hout.resolve_left (by simp [hvalid])
        omega
    · rw [hcounts]
      congr 2
      apply countP_congr
      intro other hother
      obtain ⟨hold, hother⟩ := mem_filter.mp hother
      -- of five minutes in a row no two share a bucket
      have hmod := statsBucketSlot_val (hlog other hold).1
      rw [show statsBucketSlot other.minute = statsBucketSlot witness.minute from
        (of_decide_eq_true hother).trans (of_decide_eq_true hslot).symm, hminute,
        statsBucketSlot_val hreached.1] at hmod
      have hsame : other.minute = bucket.minute ↔ Within current other := by
        unfold Within
        omega
      simp [hsame]
  · rename_i hunused
    rw [h, if_pos (.inl (by simpa using hunused))]
    exact (UInt64.add_zero _).symm

theorem Kept.absorbAll (h : Kept log window) (c : Counter) {slots : List (Fin statsBucketCount)}
    (hnodup : slots.Nodup) (stats : CredentialStats) :
    (slots.foldl (fun stats slot => stats.absorb (current - 4) current (window.buckets slot))
      stats).count c = stats.count c + UInt64.ofNat (log.countP fun report =>
        (decide (Within current report) && report.event.counts c) &&
          decide (slotOf report ∈ slots)) := by
  induction slots generalizing stats with
  | nil => simp
  | cons slot slots ih =>
    obtain ⟨hnew, hnodup⟩ := nodup_cons.mp hnodup
    rw [foldl_cons, ih hnodup, (h slot).absorb hlog, UInt64.add_assoc, ← UInt64.ofNat_add]
    congr 2
    symm
    rw [countP_eq_countP_filter_add log _ fun report => decide (slotOf report = slot),
      countP_filter, countP_filter, countP_filter]
    congr 1 <;>
    · apply countP_congr
      intro report _
      rcases eq_or_ne (slotOf report) slot with heq | hne
      · simp [heq, hnew]
      · simp [hne]

end Window

namespace StatsStore

def Call.recorded : Call → Option Report
  | .record report => some report
  | _ => none

/-- The reports of a credential that are recorded: there is no credential zero. -/
def recorded (credentialID : Nat) (commands : List Command) : List Report :=
  commands.filterMap fun command =>
    if command.credentialID = credentialID ∧ credentialID ≠ 0 then command.call.recorded else none

theorem step_kept {store : StatsStore} {credentialID : Nat} (hid : credentialID ≠ 0)
    (h : Kept log ((store credentialID).getD .empty)) {command : Command}
    (hreset : command ≠ ⟨credentialID, .reset⟩) :
    Kept (log ++ recorded credentialID [command])
      ((store.step command credentialID).getD .empty) := by
  obtain ⟨id, call⟩ := command
  rcases eq_or_ne id credentialID with rfl | hne
  · rw [step, if_neg hid, update_self]
    cases call with
    | record report => simpa [recorded, Call.recorded, Call.apply, hid] using h.record report
    | reset => exact absurd rfl hreset
    | clearProblemState =>
      have hnone : recorded id [⟨id, .clearProblemState⟩] = [] := by simp [recorded, Call.recorded]
      rw [hnone, append_nil]
      cases hwindow : store id with
      | none => simpa [hwindow, Call.apply] using h
      | some window =>
        rw [hwindow] at h
        exact h
  · have hsame : store.step ⟨id, call⟩ credentialID = store credentialID := by
      rw [step]
      split
      · rfl
      · exact update_of_ne hne.symm _ _
    simpa [recorded, hne, hsame] using h

theorem run_kept {commands : List Command} {credentialID : Nat} (hid : credentialID ≠ 0)
    (hreset : ⟨credentialID, .reset⟩ ∉ commands) :
    Kept (recorded credentialID commands) ((run commands credentialID).getD .empty) := by
  induction commands using List.reverseRecOn with
  | nil => exact fun _ => rfl
  | append_singleton commands command ih =>
    rw [mem_append, not_or, mem_singleton] at hreset
    rw [recorded, filterMap_append, run, foldl_append]
    exact step_kept hid (ih hreset.1) (Ne.symm hreset.2)

/-- Nothing of the five minutes is missed, however late it was reported, while nanoseconds fit
an int64. -/
theorem snapshot_counts_window (commands : List Command) (credentialID : Nat) (now : Time)
    (hnow : now < 2 ^ 63) (hreset : ⟨credentialID, .reset⟩ ∉ commands)
    (htimes : ∀ report ∈ recorded credentialID commands, 0 ≤ report.moment ∧ report.moment ≤ now)
    (c : Counter) :
    (snapshot (run commands) credentialID now).count c =
      UInt64.ofNat ((recorded credentialID commands).countP fun report =>
        decide (Within (minuteOf now) report) && report.event.counts c) := by
  have hlog : ∀ report ∈ recorded credentialID commands,
      0 ≤ report.minute ∧ report.minute ≤ minuteOf now := by
    intro report hreport
    obtain ⟨hpos, hle⟩ := htimes report hreport
    rw [Report.minute, minuteOf_eq hpos (Int.lt_of_le_of_lt hle hnow),
      minuteOf_eq (Int.le_trans hpos hle) hnow]
    exact ⟨Int.ediv_nonneg hpos (by decide), Int.ediv_le_ediv (by decide) hle⟩
  unfold snapshot
  by_cases hid : credentialID = 0
  · have hnone : recorded credentialID commands = [] := by simp [recorded, hid]
    rw [hnone, if_pos hid]
    cases c <;> rfl
  · have hkept := run_kept hid hreset
    rw [if_neg hid]
    cases hwindow : run commands credentialID with
    | none =>
      rw [hwindow] at hkept
      rw [hkept.eq_nil]
      cases c <;> rfl
    | some window =>
      rw [hwindow] at hkept
      refine (hkept.absorbAll hlog c (nodup_finRange statsBucketCount) _).trans ?_
      simp only [mem_finRange, decide_true, Bool.and_true]
      cases c <;> exact UInt64.zero_add _

/-- A failure of the fourth minute, reported after a success of the sixth. -/
theorem late_failure_counted :
    (snapshot (run [⟨7, .record ⟨.success, .ok, 0, 6 * statsBucketWidth⟩⟩,
      ⟨7, .record ⟨.failure, .ambiguous, 500, 4 * statsBucketWidth⟩⟩]) 7
        (8 * statsBucketWidth)).count .problem = 1 := by
  rw [snapshot_counts_window _ _ _ (by decide) (by simp)
    (by simp [recorded, Call.recorded, statsBucketWidth])]
  decide

/-- A success of the last nanosecond before the wrap, read in the same minute. -/
theorem wrapped_minute_missed :
    (2 ^ 63 - 1) / statsBucketWidth = 2 ^ 63 / statsBucketWidth ∧
    (snapshot (run [⟨7, .record ⟨.success, .ok, 0, 2 ^ 63 - 1⟩⟩]) 7 (2 ^ 63)).count .success = 0 :=
  ⟨by decide, by decide⟩

end StatsStore

end EchoJoyGateway.Stats
