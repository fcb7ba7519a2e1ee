import EchoJoyGateway.Control.Recovery
import Mathlib.Algebra.Order.Ring.Int
import Mathlib.Data.List.Nodup
import EchoJoyGateway.Lib.Update

/-!
# Progress of a recovery

Over all interleavings the row only moves forward, every copy lies behind the row,
and a run that returns without an error has executed all that its copy was missing.
-/

namespace EchoJoyGateway.Control

variable {canonicalize : List UInt8 → Option (List UInt8)}

section Stages

variable {stages : List OperationStage} {a b : OperationStage}

theorem operationStageIndex_of_getElem {k : Nat} (hnodup : stages.Nodup)
    (hk : stages[k]? = some a) : operationStageIndex stages a = k := by
  obtain ⟨hlt, hget⟩ := List.getElem?_eq_some_iff.mp hk
  have hfind : stages.findIdx? (· == a) = some k := by
    rw [List.findIdx?_eq_some_iff_getElem]
    refine ⟨hlt, by simpa using hget, ?_⟩
    intro j hj
    rw [Bool.not_eq_true, beq_eq_false_iff_ne]
    intro heq
    have hsame : j = k := (List.Nodup.getElem_inj_iff hnodup).mp (heq.trans hget.symm)
    omega
  unfold operationStageIndex
  rw [hfind]

theorem getElem_of_operationStageIndex (h : 0 ≤ operationStageIndex stages a) :
    ∃ k : Nat, operationStageIndex stages a = k ∧ stages[k]? = some a := by
  unfold operationStageIndex at h ⊢
  cases hfind : stages.findIdx? (· == a) with
  | none =>
    rw [hfind] at h
    exact absurd h (by decide)
  | some k =>
    obtain ⟨hlt, hbeq, -⟩ := List.findIdx?_eq_some_iff_getElem.mp hfind
    refine ⟨k, rfl, ?_⟩
    rw [List.getElem?_eq_getElem hlt, eq_of_beq hbeq]

theorem operationStageIndex_inj (ha : 0 ≤ operationStageIndex stages a)
    (h : operationStageIndex stages a = operationStageIndex stages b) : a = b := by
  obtain ⟨k, hk, hgeta⟩ := getElem_of_operationStageIndex ha
  obtain ⟨j, hj, hgetb⟩ := getElem_of_operationStageIndex (h ▸ ha)
  have hkj : k = j := by
    rw [hk, hj] at h
    exact_mod_cast h
  rw [hkj, hgetb] at hgeta
  exact (Option.some.inj hgeta).symm

theorem operationStageIndex_lt : operationStageIndex stages a < stages.length := by
  rcases lt_or_ge (operationStageIndex stages a) 0 with hneg | hpos
  · omega
  · obtain ⟨k, hk, hget⟩ := getElem_of_operationStageIndex hpos
    obtain ⟨hlt, -⟩ := List.getElem?_eq_some_iff.mp hget
    omega

variable {kind : OperationKind}

theorem requiredStages_nodup (h : operationRequiredStages kind = some stages) : stages.Nodup := by
  cases kind <;> cases h <;> decide

theorem requiredStages_last (h : operationRequiredStages kind = some stages) :
    operationStageIndex stages .completed = stages.length - 1 := by
  cases kind <;> cases h <;> rfl

end Stages

def stageIndex (operation : ControlOperation) : Int :=
  operationStageIndex ((operationRequiredStages operation.operationKind).getD [])
    operation.lastCompletedStage

/-- The first is no further than the second, and complete only as the second is. -/
structure Behind (a b : ControlOperation) : Prop where
  kind : a.operationKind = b.operationKind
  index : stageIndex a ≤ stageIndex b
  completed : a.lastCompletedStage = .completed →
    b.lastCompletedStage = .completed ∧ a.completedAtMS = b.completedAtMS

theorem Behind.refl (a : ControlOperation) : Behind a a := ⟨rfl, le_rfl, fun h => ⟨h, rfl⟩⟩

theorem Behind.trans {a b c : ControlOperation} (h : Behind a b) (h' : Behind b c) :
    Behind a c where
  kind := h.kind.trans h'.kind
  index := h.index.trans h'.index
  completed ha := by
    obtain ⟨hb, hab⟩ := h.completed ha
    obtain ⟨hc, hbc⟩ := h'.completed hb
    exact ⟨hc, hab.trans hbc⟩

/-- The side effects of the stages after the begun copy up to the `n`-th are executed, in order. -/
structure Executed (r : Instance) (n : Nat) : Prop where
  kind : r.begun.operationKind = r.operation.operationKind
  plan : operationRequiredStages r.operation.operationKind = some r.storedStages
  bound : n ≤ r.storedStages.length
  effects : ∃ s : Nat, stageIndex r.begun = s ∧ s < n ∧
    r.executed = (r.storedStages.take n).drop (s + 1)

def Recorded (r : Instance) (n : Nat) : Prop := (n : Int) ≤ stageIndex r.operation + 1

/-- What holds of a run in each of its phases. -/
def Sane (r : Instance) (row : ControlOperation) : Prop :=
  match r.phase with
  | .stage k => Executed r k ∧ Recorded r k ∧ k < r.storedStages.length
  | .advancing k => Executed r (k + 1) ∧ Recorded r k ∧ 0 < k
  | .missed k => Executed r (k + 1) ∧ Recorded r k ∧ (k : Int) ≤ stageIndex row
  | .failing _ _ => True
  | .returned (.ok ()) =>
    Executed r r.storedStages.length ∧ Recorded r r.storedStages.length
  | .returned (.error _) => True

def Complains (r : Instance) : Prop :=
  (∃ stage, r.phase = .failing stage .durableStageChanged) ∨
    r.phase = .returned (.error .durableStageChanged)

section Instances

variable {r : Instance} {row row' : ControlOperation} {n : Nat}

theorem Executed.stageIndex_eq (h : Executed r n) (operation : ControlOperation)
    (hkind : operation.operationKind = r.operation.operationKind) :
    stageIndex operation = r.indexOf operation.lastCompletedStage := by
  unfold stageIndex Instance.indexOf
  rw [hkind, h.plan, Option.getD_some]

theorem Executed.indexOf_stageAt (h : Executed r (n + 1)) : r.indexOf (r.stageAt n) = n := by
  have hlt : n < r.storedStages.length := h.bound
  apply operationStageIndex_of_getElem (requiredStages_nodup h.plan)
  unfold Instance.stageAt
  rw [List.getD_eq_getElem?_getD, List.getElem?_eq_getElem hlt, Option.getD_some]

theorem Sane.mono (h : Sane r row) (hrow : Behind row row') : Sane r row' := by
  unfold Sane at h ⊢
  split at h
  · exact h
  · exact h
  · exact ⟨h.1, h.2.1, h.2.2.trans hrow.index⟩
  · trivial
  · exact h
  · trivial

theorem sane_enter (hexecuted : Executed r n) (hrecorded : Recorded r n) :
    Sane (r.enter n) row := by
  unfold Instance.enter
  by_cases hlt : n < r.storedStages.length
  · rw [if_pos hlt]
    exact ⟨⟨hexecuted.kind, hexecuted.plan, hexecuted.bound, hexecuted.effects⟩, hrecorded, hlt⟩
  · rw [if_neg hlt]
    obtain rfl : n = r.storedStages.length := Nat.le_antisymm hexecuted.bound (not_lt.mp hlt)
    exact ⟨⟨hexecuted.kind, hexecuted.plan, hexecuted.bound, hexecuted.effects⟩, hrecorded⟩

theorem not_complains_enter (r : Instance) (n : Nat) : ¬ Complains (r.enter n) := by
  unfold Complains Instance.enter
  by_cases hlt : n < r.storedStages.length
  · simp [hlt]
  · simp [hlt]

variable {operation : ControlOperation}

theorem stagePlan_ok {stages : List OperationStage} {index : Nat}
    (h : stagePlan canonicalize operation = .ok (stages, index)) :
    operationRequiredStages operation.operationKind = some stages ∧
      stageIndex operation = index := by
  unfold stagePlan at h
  split at h
  · cases h
  · split at h
    · cases h
    · rename_i want hwant
      split at h
      · cases h
      · split at h
        · cases h
        · rename_i current hcurrent
          cases h
          refine ⟨hwant, ?_⟩
          unfold stageIndex operationStageIndex
          rw [hwant, Option.getD_some, hcurrent]

theorem validate_error :
    validateRecoverableOperation canonicalize operation ≠ .error .durableStageChanged := by
  unfold validateRecoverableOperation
  repeat' split
  all_goals simp

theorem stagePlan_error : stagePlan canonicalize operation ≠ .error .durableStageChanged := by
  unfold stagePlan
  split
  · rename_i e he
    intro h
    obtain rfl := Except.error.inj h
    exact validate_error he
  · split
    · simp
    · split
      · simp
      · split <;> simp

theorem start_operation (canonicalize : List UInt8 → Option (List UInt8))
    (operation : ControlOperation) :
    (Instance.start canonicalize operation).operation = operation := by
  unfold Instance.start
  split <;> rfl

theorem sane_start (canonicalize : List UInt8 → Option (List UInt8))
    (operation : ControlOperation) : Sane (.start canonicalize operation) row := by
  unfold Instance.start
  cases hplan : stagePlan canonicalize operation with
  | error e => trivial
  | ok plan =>
    obtain ⟨stages, index⟩ := plan
    obtain ⟨hstages, hindex⟩ := stagePlan_ok hplan
    have hlt : index < stages.length := by
      have hbound := @operationStageIndex_lt stages operation.lastCompletedStage
      unfold stageIndex at hindex
      rw [hstages, Option.getD_some] at hindex
      omega
    apply sane_enter
    · refine ⟨rfl, hstages, hlt, index, hindex, Nat.lt_succ_self index, ?_⟩
      simp
    · unfold Recorded
      rw [hindex]
      omega

theorem not_complains_start (canonicalize : List UInt8 → Option (List UInt8))
    (operation : ControlOperation) : ¬ Complains (.start canonicalize operation) := by
  unfold Instance.start
  cases hplan : stagePlan canonicalize operation with
  | error e =>
    rintro (⟨stage, hphase⟩ | hphase)
    · cases hphase
    · obtain rfl := Except.error.inj (Phase.returned.inj hphase)
      exact stagePlan_error hplan
  | ok plan => exact not_complains_enter _ _

theorem Executed.effect {k : Nat} (h : Executed r k) (hk : k < r.storedStages.length) :
    Executed { r with executed := r.executed ++ [r.stageAt k], phase := .advancing k } (k + 1) := by
  obtain ⟨s, hs, hlt, heffects⟩ := h.effects
  refine ⟨h.kind, h.plan, hk, s, hs, Nat.lt_succ_of_lt hlt, ?_⟩
  have htake : r.storedStages.take (k + 1) = r.storedStages.take k ++ [r.stageAt k] := by
    rw [List.take_add_one]
    unfold Instance.stageAt
    rw [List.getD_eq_getElem?_getD, List.getElem?_eq_getElem hk]
    rfl
  have hlength : s + 1 ≤ (r.storedStages.take k).length := by
    rw [List.length_take]
    omega
  simp only [htake, heffects]
  rw [List.drop_append_of_le_length hlength]

end Instances

def Event.id : Event → Nat
  | .begin id _ | .effect id _ | .advance id _ _ _ | .read id _ _ | .recordFailure id _ _ => id

def Event.readFailed : Event → Prop
  | .read _ ok _ => ok = false
  | _ => False

/-- What one event does: one run changes, the row stays or moves forward, and a run
complains only if it did before or if its read failed. -/
structure Moves (c c' : Cluster) (id : Nat) (readFailed : Prop) (r' : Instance) : Prop where
  instances : c'.instances = Function.update c.instances id (some r')
  row : Behind c.row c'.row
  history : ∀ h ∈ c'.history, h ∈ c.history ∨ h = c'.row
  copy : Behind r'.operation c'.row
  sane : Sane r' c'.row
  complains : Complains r' → (∃ r, c.instances id = some r ∧ Complains r) ∨ readFailed

/-- Every copy, and all that the row was, lies behind the row. -/
structure Sound (c : Cluster) : Prop where
  history : ∀ h ∈ c.history, Behind h c.row
  copies : ∀ id r, c.instances id = some r → Behind r.operation c.row ∧ Sane r c.row

theorem sound_initial (row : ControlOperation) : Sound (.initial row) where
  history h hh := by
    rw [List.mem_singleton.mp hh]
    exact .refl row
  copies id r hr := by cases hr

section Steps

variable {c c' : Cluster} {id : Nat} {r r' : Instance} {readFailed : Prop} {k : Nat}

theorem Sound.moves (h : Sound c) (hmoves : Moves c c' id readFailed r') : Sound c' where
  history x hx := by
    rcases hmoves.history x hx with hold | rfl
    · exact (h.history x hold).trans hmoves.row
    · exact .refl _
  copies j x hx := by
    rw [hmoves.instances] at hx
    rcases Update.cases hx with ⟨rfl, heq⟩ | ⟨-, hx⟩
    · cases heq
      exact ⟨hmoves.copy, hmoves.sane⟩
    · obtain ⟨hbehind, hsane⟩ := h.copies j x hx
      exact ⟨hbehind.trans hmoves.row, hsane.mono hmoves.row⟩

theorem moves_setInstance (hcopy : Behind r'.operation c.row) (hsane : Sane r' c.row)
    (hcomplains : Complains r' → (∃ r, c.instances id = some r ∧ Complains r) ∨ readFailed) :
    Moves c (c.setInstance id r') id readFailed r' :=
  ⟨rfl, .refl _, fun _ hx => .inl hx, hcopy, hsane, hcomplains⟩

theorem moves_setRow {row : ControlOperation} (hrow : Behind c.row row)
    (hcopy : Behind r'.operation row) (hsane : Sane r' row)
    (hcomplains : Complains r' → (∃ r, c.instances id = some r ∧ Complains r) ∨ readFailed) :
    Moves c ((c.setRow row).setInstance id r') id readFailed r' := by
  refine ⟨rfl, hrow, ?_, hcopy, hsane, hcomplains⟩
  intro x hx
  rcases List.mem_cons.mp hx with rfl | hx
  · exact .inr rfl
  · exact .inl hx

variable {error : RecoveryError}

theorem not_complains_fail (h : error ≠ .durableStageChanged) : ¬ Complains (r.fail k error) := by
  rintro (⟨stage, hphase⟩ | hphase)
  · exact h (Phase.failing.inj hphase).2
  · cases hphase

theorem moves_fail (h : Behind r.operation c.row) (herror : error ≠ .durableStageChanged) :
    Moves c (c.setInstance id (r.fail k error)) id readFailed (r.fail k error) :=
  moves_setInstance h trivial fun hcomplains => absurd hcomplains (not_complains_fail herror)

theorem complete_behind (hexecuted : Executed r (k + 1)) (hcopy : Behind r.operation c.row)
    (hstage : c.row.lastCompletedStage = r.operation.lastCompletedStage)
    (hnext : r.indexOf r.operation.lastCompletedStage < r.indexOf (r.stageAt k)) (nowMS : Int) :
    Behind c.row (c.row.complete (r.stageAt k) nowMS) ∧
      Behind (r.operation.complete (r.stageAt k) nowMS) (c.row.complete (r.stageAt k) nowMS) := by
  have hcurrent : stageIndex c.row = r.indexOf r.operation.lastCompletedStage := by
    rw [hexecuted.stageIndex_eq c.row hcopy.kind.symm, hstage]
  have hrow : ∀ op : ControlOperation, op.operationKind = r.operation.operationKind →
      stageIndex (op.complete (r.stageAt k) nowMS) = r.indexOf (r.stageAt k) :=
    fun op hkind => hexecuted.stageIndex_eq (op.complete (r.stageAt k) nowMS) hkind
  constructor
  · refine ⟨rfl, ?_, ?_⟩
    · rw [hcurrent, hrow _ hcopy.kind.symm]
      exact hnext.le
    · intro hcompleted
      have hlast := requiredStages_last hexecuted.plan
      have hbound := @operationStageIndex_lt r.storedStages (r.stageAt k)
      unfold Instance.indexOf at hnext
      rw [← hstage, hcompleted] at hnext
      omega
  · refine ⟨hcopy.kind, ?_, ?_⟩
    · rw [hrow _ rfl, hrow _ hcopy.kind.symm]
    · intro hcompleted
      have hsame : r.stageAt k = .completed := hcompleted
      refine ⟨hsame, ?_⟩
      simp [ControlOperation.complete, hsame]

theorem moves_advance (h : Sound c) (hr : c.instances id = some r) (hphase : r.phase = .advancing k)
    (hookOK : Bool) (now : Clock.Time) (outcome : TransactionOutcome) :
    ∃ r', Moves c (c.advance id r k hookOK now outcome) id False r' := by
  obtain ⟨hcopy, hsane⟩ := h.copies id r hr
  unfold Sane at hsane
  rw [hphase] at hsane
  obtain ⟨hexecuted, hrecorded, hpositive⟩ := hsane
  have hindex := hexecuted.indexOf_stageAt
  have hcurrent := hexecuted.stageIndex_eq r.operation rfl
  unfold Cluster.advance
  simp only
  split
  · refine ⟨_, moves_setInstance hcopy (sane_enter hexecuted ?_)
      fun hcomplains => absurd hcomplains (not_complains_enter _ _)⟩
    unfold Recorded
    omega
  · rename_i hnext
    split
    · exact ⟨_, moves_fail hcopy (by decide)⟩
    · split
      · exact ⟨_, moves_fail hcopy (by decide)⟩
      · rename_i nowMS _
        split
        · exact ⟨_, moves_fail hcopy (by decide)⟩
        · split
          · rename_i hstage
            obtain ⟨hrow, hcopy'⟩ := complete_behind hexecuted hcopy hstage (not_le.mp hnext) nowMS
            split
            · refine ⟨_, moves_setRow hrow hcopy' (sane_enter ?_ ?_)
                fun hcomplains => absurd hcomplains (not_complains_enter _ _)⟩
              · exact ⟨hexecuted.kind, hexecuted.plan, hexecuted.bound, hexecuted.effects⟩
              · have hdone := hexecuted.stageIndex_eq (r.operation.complete (r.stageAt k) nowMS) rfl
                unfold Recorded
                rw [hdone]
                change ((k + 1 : Nat) : Int) ≤ r.indexOf (r.stageAt k) + 1
                omega
            · exact ⟨_, moves_setRow hrow (hcopy.trans hrow) trivial
                fun hcomplains => absurd hcomplains (not_complains_fail (by decide))⟩
            · exact ⟨_, moves_fail hcopy (by decide)⟩
            · exact ⟨_, moves_fail hcopy (by decide)⟩
          · rename_i hstage
            refine ⟨_, moves_setInstance hcopy ?_ ?_⟩
            · refine ⟨⟨hexecuted.kind, hexecuted.plan, hexecuted.bound, hexecuted.effects⟩,
                hrecorded, ?_⟩
              -- the copy is at the stage before, and the row is at another one
              have hle := hcopy.index
              have hrow := hexecuted.stageIndex_eq c.row hcopy.kind.symm
              unfold Recorded at hrecorded
              by_contra hlt
              refine hstage (@operationStageIndex_inj r.storedStages _ _ ?_ ?_).symm
              · change 0 ≤ r.indexOf r.operation.lastCompletedStage
                omega
              · change r.indexOf r.operation.lastCompletedStage = r.indexOf c.row.lastCompletedStage
                omega
            · rintro (⟨stage, hfailing⟩ | hreturned)
              · cases hfailing
              · cases hreturned

theorem moves_read (h : Sound c) (hr : c.instances id = some r) (hphase : r.phase = .missed k)
    (ok commitOK : Bool) :
    ∃ r', Moves c (c.readRow id r k ok commitOK) id (ok = false) r' := by
  obtain ⟨hcopy, hsane⟩ := h.copies id r hr
  unfold Sane at hsane
  rw [hphase] at hsane
  obtain ⟨hexecuted, -, hahead⟩ := hsane
  have hindex := hexecuted.indexOf_stageAt
  have hrow := hexecuted.stageIndex_eq c.row hcopy.kind.symm
  unfold Cluster.readRow
  split
  · rename_i hfailed
    exact ⟨_, moves_setInstance hcopy trivial fun _ => .inr hfailed⟩
  · split
    · omega
    · split
      · exact ⟨_, moves_fail hcopy (by decide)⟩
      · refine ⟨_, moves_setInstance ?_ (sane_enter ?_ ?_)
          fun hcomplains => absurd hcomplains (not_complains_enter _ _)⟩
        · have hadopted := hexecuted.stageIndex_eq (r.operation.adopt c.row) rfl
          refine ⟨hcopy.kind, ?_, fun hcompleted => ⟨hcompleted, rfl⟩⟩
          change stageIndex (r.operation.adopt c.row) ≤ stageIndex c.row
          rw [hadopted, hrow]
          exact le_rfl
        · exact ⟨hexecuted.kind, hexecuted.plan, hexecuted.bound, hexecuted.effects⟩
        · have hadopted := hexecuted.stageIndex_eq (r.operation.adopt c.row) rfl
          unfold Recorded
          rw [hadopted]
          change ((k + 1 : Nat) : Int) ≤ r.indexOf c.row.lastCompletedStage + 1
          omega

theorem markFailed_behind {a b : ControlOperation} (h : Behind a b) (stage : OperationStage)
    (nowMS : Int) : Behind a (b.markFailed stage nowMS) :=
  ⟨h.kind, h.index, h.completed⟩

theorem moves_recordFailure (h : Sound c) (hr : c.instances id = some r) {stage : OperationStage}
    (hphase : r.phase = .failing stage error) (now : Clock.Time) (outcome : TransactionOutcome) :
    ∃ r', Moves c (c.recordFailure id r stage error now outcome) id False r' := by
  obtain ⟨hcopy, -⟩ := h.copies id r hr
  have hcomplains : ∀ operation, Complains
      { r with operation := operation, phase := .returned (.error error) } →
      (∃ r, c.instances id = some r ∧ Complains r) ∨ False := by
    rintro operation (⟨_, hfailing⟩ | hreturned)
    · cases hfailing
    · obtain rfl := Except.error.inj (Phase.returned.inj hreturned)
      exact .inl ⟨r, hr, .inl ⟨stage, hphase⟩⟩
  unfold Cluster.recordFailure
  split
  · exact ⟨_, moves_setInstance hcopy trivial (hcomplains r.operation)⟩
  · rename_i nowMS _
    have hrow := markFailed_behind (.refl c.row) stage nowMS
    split
    · exact ⟨_, moves_setInstance hcopy trivial (hcomplains r.operation)⟩
    · exact ⟨_, moves_setInstance hcopy trivial (hcomplains r.operation)⟩
    · exact ⟨_, moves_setRow hrow (hcopy.trans hrow) trivial (hcomplains r.operation)⟩
    · exact ⟨_, moves_setRow hrow ⟨hcopy.kind, hcopy.index, hcopy.completed⟩ trivial
        (hcomplains (r.operation.markFailed stage nowMS))⟩

theorem moves_effect (h : Sound c) (hr : c.instances id = some r) (hphase : r.phase = .stage k)
    (ok : Bool) : ∃ r', Moves c (c.setInstance id (r.runEffect k ok)) id False r' := by
  obtain ⟨hcopy, hsane⟩ := h.copies id r hr
  unfold Sane at hsane
  rw [hphase] at hsane
  obtain ⟨hexecuted, hrecorded, hlt⟩ := hsane
  unfold Instance.runEffect
  simp only
  split
  · obtain ⟨s, -, hs, -⟩ := hexecuted.effects
    refine ⟨_, moves_setInstance hcopy ⟨hexecuted.effect hlt, hrecorded, by omega⟩ ?_⟩
    rintro (⟨stage, hfailing⟩ | hreturned)
    · cases hfailing
    · cases hreturned
  · refine ⟨_, moves_setInstance hcopy trivial ?_⟩
    rintro (⟨stage, hfailing⟩ | hreturned)
    · cases (Phase.failing.inj hfailing).2
    · cases hreturned

variable {canonicalize : List UInt8 → Option (List UInt8)}

theorem step_moves (h : Sound c) {e : Event} (hstep : c.step canonicalize e = some c') :
    ∃ r', Moves c c' e.id e.readFailed r' := by
  unfold Cluster.step at hstep
  split at hstep
  · split at hstep
    · rename_i operation hnone hcopy
      cases hstep
      refine ⟨_, moves_setInstance ?_ (sane_start canonicalize operation)
        fun hcomplains => absurd hcomplains (not_complains_start _ _)⟩
      rw [start_operation]
      exact h.history _ (List.mem_of_getElem? hcopy)
    · cases hstep
  · split at hstep
    · cases hstep
    · split at hstep
      · cases hstep
        exact moves_effect h (by assumption) (by assumption) _
      · cases hstep
  · split at hstep
    · cases hstep
    · split at hstep
      · cases hstep
        exact moves_advance h (by assumption) (by assumption) _ _ _
      · cases hstep
  · split at hstep
    · cases hstep
    · split at hstep
      · cases hstep
        exact moves_read h (by assumption) (by assumption) _ _
      · cases hstep
  · split at hstep
    · cases hstep
    · split at hstep
      · cases hstep
        exact moves_recordFailure h (by assumption) (by assumption) _ _
      · cases hstep

end Steps

section Runs

open Runs

variable {canonicalize : List UInt8 → Option (List UInt8)} {c c' : Cluster} {events : List Event}

theorem sound_run (h : Sound c) (hrun : run (Cluster.step canonicalize) c events = some c') :
    Sound c' := by
  refine run_invariant ?_ hrun h
  intro c c' e hsound hstep
  obtain ⟨r', hmoves⟩ := step_moves hsound hstep
  exact hsound.moves hmoves

theorem row_run (h : Sound c) (hrun : run (Cluster.step canonicalize) c events = some c') :
    Behind c.row c'.row := by
  have hboth : Sound c' ∧ Behind c.row c'.row := by
    refine @run_invariant _ _ _ (fun d => Sound d ∧ Behind c.row d.row) _ _ _ ?_ hrun ⟨h, .refl _⟩
    rintro d d' e ⟨hsound, hbehind⟩ hstep
    obtain ⟨r', hmoves⟩ := step_moves hsound hstep
    exact ⟨hsound.moves hmoves, hbehind.trans hmoves.row⟩
  exact hboth.2

variable {r : Instance}

theorem complains_run (h : Sound c) (hrun : run (Cluster.step canonicalize) c events = some c')
    {id : Nat} (hstart : c.instances id = none) (hr : c'.instances id = some r)
    (hcomplains : Complains r) : ∃ commitOK, .read id false commitOK ∈ events := by
  have hboth : Sound c' ∧ ∀ r, c'.instances id = some r → Complains r →
      ∃ commitOK, .read id false commitOK ∈ events := by
    refine @run_invariant_mem _ _ _ (fun d => Sound d ∧ ∀ r, d.instances id = some r →
      Complains r → ∃ commitOK, .read id false commitOK ∈ events) _ _ _ ?_ hrun ⟨h, ?_⟩
    · rintro d d' e hmem ⟨hsound, hold⟩ hstep
      obtain ⟨r', hmoves⟩ := step_moves hsound hstep
      refine ⟨hsound.moves hmoves, ?_⟩
      intro x hx hcomplains
      rw [hmoves.instances] at hx
      rcases Update.cases hx with ⟨rfl, heq⟩ | ⟨-, hx⟩
      · cases heq
        rcases hmoves.complains hcomplains with ⟨before, hbefore, hcomplained⟩ | hfailed
        · exact hold before hbefore hcomplained
        · cases e with
          | read id ok commitOK =>
            obtain rfl : ok = false := hfailed
            exact ⟨commitOK, hmem⟩
          | _ => exact hfailed.elim
      · exact hold x hx hcomplains
    · intro x hx
      rw [hstart] at hx
      cases hx
  exact hboth.2 r hr hcomplains

theorem Sane.returned {row : ControlOperation} (hsane : Sane r row) (hcopy : Behind r.operation row)
    (hphase : r.phase = .returned (.ok ())) :
    operationRequiredStages row.operationKind = some r.storedStages ∧
    (∃ s : Nat, stageIndex r.begun = s ∧ r.executed = r.storedStages.drop (s + 1)) ∧
    r.operation.lastCompletedStage = .completed ∧
    r.operation.completedAtMS = row.completedAtMS := by
  unfold Sane at hsane
  rw [hphase] at hsane
  obtain ⟨hexecuted, hrecorded⟩ := hsane
  obtain ⟨s, hs, hlength, heffects⟩ := hexecuted.effects
  have hindex := hexecuted.stageIndex_eq r.operation rfl
  have hlast := requiredStages_last hexecuted.plan
  have hbound := @operationStageIndex_lt r.storedStages r.operation.lastCompletedStage
  unfold Recorded at hrecorded
  unfold Instance.indexOf at hindex
  have hcompleted : r.operation.lastCompletedStage = .completed := by
    refine (@operationStageIndex_inj r.storedStages .completed _ ?_ ?_).symm
    · omega
    · omega
  refine ⟨hcopy.kind ▸ hexecuted.plan, ⟨s, hs, ?_⟩, hcompleted, (hcopy.completed hcompleted).2⟩
  rw [heffects, List.take_length]

end Runs

def keyOperation : ControlOperation where
  commitSequence := 1
  operationID := "33a1f47a-9c35-4d6e-8b1a-1234567890ab"
  idempotencyKey := "44a1f47a-9c35-4d6e-8b1a-1234567890ab"
  digestVersion := 1
  requestDigest := List.replicate 32 0
  operationKind := .accessKeyCreate
  resourceIdentity := "access-key:7"
  canonicalResult := [123, 125]
  requiredStages := some [.dbCommitted, .snapshotPublished, .completed]
  lastCompletedStage := .dbCommitted
  failedStage := .other ""
  completedAtMS := none
  compactedAtMS := none
  createdAtMS := 0
  updatedAtMS := 0

/-- Two instances begin on the same row; the second finishes first, the first adopts
its progress. -/
def overtakenRun : List Event :=
  [.begin 0 0, .effect 0 true, .begin 1 0, .effect 1 true, .advance 1 true 1000000 .committed,
    .effect 1 true, .advance 1 true 2000000 .committed, .advance 0 true 3000000 .committed,
    .read 0 true true, .effect 0 true, .advance 0 true 4000000 .committed]

/-- Recovery of a durable operation, over all interleavings of any number of
instances and all failures of their calls: the durable stage never moves
backwards; only a run whose read of the row failed, after an update that changed
no row, returns that the durable stage changed; and a run that returns without an
error has executed every required stage after that of the copy it began with, in
order, and has its copy completed as the row is. -/
theorem recovery_progress {canonicalize : List UInt8 → Option (List UInt8)}
    {row : ControlOperation} {events : List Event} {c : Cluster}
    (hrun : Runs.run (Cluster.step canonicalize) (.initial row) events = some c) :
    (∀ more c', Runs.run (Cluster.step canonicalize) c more = some c' →
      stageIndex c.row ≤ stageIndex c'.row) ∧
    (∀ id r, c.instances id = some r → Complains r →
      ∃ commitOK, Event.read id false commitOK ∈ events) ∧
    ∀ id r, c.instances id = some r → r.phase = .returned (.ok ()) →
      operationRequiredStages c.row.operationKind = some r.storedStages ∧
      (∃ s : Nat, stageIndex r.begun = s ∧ r.executed = r.storedStages.drop (s + 1)) ∧
      r.operation.lastCompletedStage = .completed ∧
      r.operation.completedAtMS = c.row.completedAtMS := by
  have hsound := sound_run (sound_initial row) hrun
  refine ⟨?_, ?_, ?_⟩
  · intro more c' hmore
    exact (row_run hsound hmore).index
  · intro id r hr hcomplains
    exact complains_run (sound_initial row) hrun rfl hr hcomplains
  · intro id r hr hphase
    obtain ⟨hcopy, hsane⟩ := hsound.copies id r hr
    exact hsane.returned hcopy hphase

theorem overtakenRun_progress :
    ∃ c, Runs.run (Cluster.step some) (.initial keyOperation) overtakenRun = some c ∧
      (c.instances 0).map Instance.executed = some [.snapshotPublished, .completed] ∧
      c.row.completedAtMS = some 2 ∧
      ∀ id r, c.instances id = some r → r.phase = .returned (.ok ()) →
        r.operation.completedAtMS = c.row.completedAtMS := by
  have hend : (Runs.run (Cluster.step some) (.initial keyOperation) overtakenRun).map
      (fun c => ((c.instances 0).map Instance.executed, c.row.completedAtMS)) =
      some (some [.snapshotPublished, .completed], some 2) := rfl
  obtain ⟨c, hrun, hc⟩ := Option.map_eq_some_iff.mp hend
  obtain ⟨hexecuted, hcompleted⟩ := Prod.mk.inj hc
  refine ⟨c, hrun, hexecuted, hcompleted, ?_⟩
  intro id r hr hphase
  exact ((recovery_progress hrun).2.2 id r hr hphase).2.2.2

/-- The second instance advances the row, and the read of the first fails. -/
def failedReadRun : List Event :=
  [.begin 0 0, .effect 0 true, .begin 1 0, .effect 1 true, .advance 1 true 1000000 .committed,
    .advance 0 true 2000000 .committed, .read 0 false true, .recordFailure 0 3000000 .committed]

/-- A read that fails is returned as a changed stage, though the row only moved
forward. -/
theorem failedRead_reported_as_changed :
    (Runs.run (Cluster.step some) (.initial keyOperation) failedReadRun).bind
        (fun c => (c.instances 0).map Instance.phase) =
      some (.returned (.error .durableStageChanged)) ∧
    (Runs.run (Cluster.step some) (.initial keyOperation) failedReadRun).map
        (fun c => c.row.lastCompletedStage) = some .snapshotPublished :=
  ⟨rfl, rfl⟩

/-- A completed operation is never reopened, and its time of completion is one. -/
theorem completed_stays_completed {canonicalize : List UInt8 → Option (List UInt8)}
    {row : ControlOperation} {events more : List Event} {c c' : Cluster}
    (hrun : Runs.run (Cluster.step canonicalize) (.initial row) events = some c)
    (hdone : c.row.lastCompletedStage = .completed)
    (hmore : Runs.run (Cluster.step canonicalize) c more = some c') :
    c'.row.lastCompletedStage = .completed ∧ c'.row.completedAtMS = c.row.completedAtMS ∧
      ∀ id r, c'.instances id = some r → r.operation.lastCompletedStage = .completed →
        r.operation.completedAtMS = c.row.completedAtMS := by
  have hsound := sound_run (sound_initial row) hrun
  obtain ⟨hlast, htime⟩ := (row_run hsound hmore).completed hdone
  refine ⟨hlast, htime.symm, fun id r hr hcopy => ?_⟩
  exact (((sound_run hsound hmore).copies id r hr).1.completed hcopy).2.trans htime.symm

theorem overtakenRun_stays_completed :
    ∃ c c', Runs.run (Cluster.step some) (.initial keyOperation) (overtakenRun.take 7) = some c ∧
      Runs.run (Cluster.step some) c (overtakenRun.drop 7) = some c' ∧
      c'.row.completedAtMS = c.row.completedAtMS :=
  ⟨_, _, rfl, rfl, (@completed_stays_completed some keyOperation (overtakenRun.take 7)
    (overtakenRun.drop 7) _ _ rfl rfl rfl).2.1⟩

end EchoJoyGateway.Control
