import EchoJoyGateway.Subscription.Refresh

/-!
# What one turn of a refresh can do

Every step of the system is a turn of one refresh, a change of the lease alone, or a
sweep. The turns are listed once; the invariants are proved over this list.
-/

namespace EchoJoyGateway.Subscription

open Option

variable {C : Type}

inductive Wrote (row : Row) (version : Nat) (authState : AuthState) (code : String) :
    Row → Bool → Prop where
  | applied (h : row.secretVersion = version) (ok : Bool) :
    Wrote row version authState code { row with authState, authErrorCode := code } ok
  | refused : Wrote row version authState code row false

variable {version : Nat} {authState : AuthState} {code : String}

theorem writeAuthState_wrote {row row' : Row} {choice : Choice C} {ok : Bool}
    (h : writeAuthState row version authState code choice = some (row', ok)) :
    Wrote row version authState code row' ok := by
  cases choice with
  | succeed =>
    unfold writeAuthState setAuthState at h
    by_cases hversion : row.secretVersion = version
    · rw [if_pos hversion] at h
      cases h
      exact .applied hversion true
    · rw [if_neg hversion] at h
      cases h
      exact .refused
  | fail applied =>
    unfold writeAuthState setAuthState at h
    cases h
    by_cases hversion : row.secretVersion = version
    · cases applied with
      | true =>
        rw [if_pos hversion]
        exact .applied hversion false
      | false => exact .refused
    · rw [if_neg hversion, getD_none, ite_self]
      exact .refused
  | _ => cases h

theorem Wrote.secret {row row' : Row} {ok : Bool} (h : Wrote row version authState code row' ok) :
    row'.secretVersion = row.secretVersion ∧ row'.data = row.data := by
  cases h with
  | applied hversion ok => exact ⟨rfl, rfl⟩
  | refused => exact ⟨rfl, rfl⟩

inductive Idle : Phase C → Prop where
  | waiting : Idle .waiting
  | leased : Idle .leased
  | locked : Idle .locked
  | committed (version : Nat) (refreshed : C) : Idle (.committed version refreshed)
  | unlocking (result : Result C) : Idle (.unlocking result)
  | releasing (result : Result C) : Idle (.releasing result)
  | done (result : Result C) : Idle (.done result)

/-- The lease stays, runs out or is given back, or is taken while it is free. -/
def LeaseMoves (i : Nat) (lease lease' : Option Nat) : Prop :=
  lease' = lease ∨ lease' = none ∨ lease = none ∧ lease' = some i

namespace System

inductive Turn (provider : Provider C) (s : System C) (i : Nat) (options : Options) :
    Phase C → System C → Phase C → Prop where
  | idle {phase phase' : Phase C} {lease : Option Nat} {locks : Nat → Option Nat}
      (hphase : Idle phase) (hphase' : Idle phase') (hlease : LeaseMoves i s.lease lease)
      (hnew : ∀ version refreshed, phase' ≠ .committed version refreshed) :
      Turn provider s i options phase { s with lease, locks } phase'
  | examine (reading : Reading) :
      Turn provider s i options .locked s (examine provider options s.row reading)
  | start {row row' : Row} {current : C} {ok : Bool}
      (hwrote : Wrote s.row row.secretVersion .refreshing "" row' ok) :
      Turn provider s i options (.checked row current) { s with row := row' }
        (if ok then .refreshing row current else .startFailed row)
  | restore {row row' : Row} {ok : Bool} {result : Result C}
      (hwrote : Wrote s.row row.secretVersion (refreshRestoreState row).1
        (refreshRestoreState row).2 row' ok) :
      Turn provider s i options (.startFailed row) { s with row := row' } (.unlocking result)
  | call {row : Row} {current : C} :
      Turn provider s i options (.refreshing row current)
        { s with calls := s.calls ++ [⟨i, row.secretVersion, current, none⟩] }
        (.calling row current s.calls.length)
  | answer {row : Row} {current : C} {k : Nat} (answer : Except (RefreshFailure × Bool) C) :
      Turn provider s i options (.calling row current k)
        { s with
          calls := s.calls.set k ⟨i, row.secretVersion, current, some (answer.mapError Prod.fst)⟩ }
        (afterAnswer row current answer)
  | discard {row : Row} {current refreshed : C} {authState : AuthState} {code evidence : String}
      (hstate : authState ≠ .ready) :
      Turn provider s i options (.returned row current refreshed) s
        (.recording row.secretVersion authState code evidence)
  | encrypt {row : Row} {current refreshed : C} {ciphertext : String}
      (hpreserves : provider.preservesIdentity current refreshed = true)
      (hcipher : provider.decrypt ciphertext = some (provider.canonical refreshed)) :
      Turn provider s i options (.returned row current refreshed) s
        (.committing row refreshed ciphertext)
  | commit {row : Row} {refreshed : C} {ciphertext : String} {phase' : Phase C}
      (hversion : s.row.secretVersion = row.secretVersion)
      (hphase' : phase' = .committed (row.secretVersion + 1) refreshed ∨ phase' =
        .recording row.secretVersion .outcomeUnknown "refresh_commit_failed"
          "refresh_commit_failed") :
      Turn provider s i options (.committing row refreshed ciphertext)
        { s with
          row := ⟨row.secretVersion + 1, ciphertext, .ready, ""⟩
          durable := ⟨row.secretVersion + 1, ciphertext, .ready, ""⟩ :: s.durable }
        phase'
  | uncommitted {row : Row} {refreshed : C} {ciphertext : String} :
      Turn provider s i options (.committing row refreshed ciphertext) s
        (.recording row.secretVersion .outcomeUnknown "refresh_commit_failed"
          "refresh_commit_failed")
  | mismatched {version : Nat} {refreshed : C} :
      Turn provider s i options (.committed version refreshed) s
        (.recording version .outcomeUnknown "refresh_registry_mismatch"
          "refresh_registry_mismatch")
  | record {version : Nat} {authState : AuthState} {code evidence : String} {row' : Row}
      {ok : Bool} {result : Result C} (hwrote : Wrote s.row version authState code row' ok) :
      Turn provider s i options (.recording version authState code evidence)
        { s with row := row' } (.unlocking result)

variable {provider : Provider C} {s s' : System C} {i : Nat} {r : Refresher C}

variable {choice : Choice C} {phase : Phase C} {options : Options}

theorem afterReturn_turn {row : Row} {current refreshed : C}
    (h : afterReturn provider row current refreshed choice = some phase) :
    Turn provider s i options (.returned row current refreshed) s phase := by
  unfold afterReturn at h
  split at h
  · cases h
    exact .discard nofun
  · rename_i hidentity
    split at h
    · cases h
      exact .discard nofun
    · cases choice with
      | encrypted ciphertext =>
        obtain ⟨hcipher, heq⟩ := ite_none_right_eq_some.mp h
        cases heq
        exact .encrypt (by simpa using hidentity) hcipher
      | fail applied =>
        cases h
        exact .discard nofun
      | _ => cases h

variable {version : Nat} {ciphertext : String}

theorem landSecret_of_eq (h : s.row.secretVersion = version) : s.landSecret version ciphertext =
      { s with
        row := ⟨version + 1, ciphertext, .ready, ""⟩
        durable := ⟨version + 1, ciphertext, .ready, ""⟩ :: s.durable } := by
  unfold landSecret commitSecret
  rw [if_pos h]

theorem landSecret_of_ne (h : s.row.secretVersion ≠ version) :
    s.landSecret version ciphertext = s := by
  unfold landSecret commitSecret
  rw [if_neg h]

theorem act_turn (h : s.act provider i r choice = some s') :
    ∃ mid phase, Turn provider s i r.options r.phase mid phase ∧ s' = mid.goto i r phase := by
  have hnew : ∀ result : Result C, ∀ version refreshed,
      Phase.unlocking result ≠ .committed version refreshed := nofun
  unfold act at h
  generalize r.phase = current at h ⊢
  cases current with
  | waiting =>
    cases choice with
    | succeed =>
      obtain ⟨hfree, heq⟩ := ite_none_right_eq_some.mp h
      cases heq
      exact ⟨_, _, .idle .waiting .leased (.inr (.inr ⟨hfree, rfl⟩)) nofun,
        rfl⟩
    | fail applied =>
      cases h
      refine ⟨_, _, .idle .waiting (.done _) ?_ nofun, rfl⟩
      split
      · rename_i htaken
        exact .inr (.inr ⟨htaken.2, rfl⟩)
      · exact .inl rfl
    | timeout canceled =>
      cases h
      exact ⟨_, _, .idle .waiting (.done _) (.inl rfl) nofun, rfl⟩
    | _ => cases h
  | leased =>
    cases choice with
    | succeed =>
      obtain ⟨-, heq⟩ := ite_none_right_eq_some.mp h
      cases heq
      exact ⟨_, _, .idle .leased .locked (.inl rfl) nofun, rfl⟩
    | _ => cases h
  | locked =>
    cases choice with
    | read reading =>
      cases h
      exact ⟨_, _, .examine reading, rfl⟩
    | fail applied | mismatch =>
      cases h
      exact ⟨_, _, .idle .locked (.unlocking _) (.inl rfl) (hnew _), rfl⟩
    | _ => cases h
  | checked row current =>
    dsimp only at h
    split at h
    · rename_i row' ok hwrite
      cases h
      exact ⟨_, _, .start (writeAuthState_wrote hwrite), rfl⟩
    · cases h
  | startFailed row =>
    dsimp only at h
    split at h
    · rename_i row' ok hwrite
      cases h
      exact ⟨_, _, .restore (writeAuthState_wrote hwrite), rfl⟩
    · cases h
  | refreshing row current =>
    cases choice with
    | succeed =>
      cases h
      exact ⟨_, _, .call, rfl⟩
    | _ => cases h
  | calling row current k =>
    cases choice with
    | answer answer =>
      cases h
      exact ⟨_, _, .answer answer, rfl⟩
    | _ => cases h
  | returned row current refreshed =>
    obtain ⟨phase, hafter, rfl⟩ := map_eq_some_iff.mp h
    exact ⟨s, phase, afterReturn_turn hafter, rfl⟩
  | committing row refreshed ciphertext =>
    cases choice with
    | succeed =>
      obtain ⟨-, heq⟩ := ite_none_right_eq_some.mp h
      cases heq
      by_cases hversion : s.row.secretVersion = row.secretVersion
      · rw [if_pos hversion, landSecret_of_eq hversion]
        exact ⟨_, _, .commit hversion (.inl rfl), rfl⟩
      · rw [if_neg hversion, landSecret_of_ne hversion]
        exact ⟨_, _, .uncommitted, rfl⟩
    | fail applied =>
      cases h
      split
      · by_cases hversion : s.row.secretVersion = row.secretVersion
        · rw [landSecret_of_eq hversion]
          exact ⟨_, _, .commit hversion (.inr rfl), rfl⟩
        · rw [landSecret_of_ne hversion]
          exact ⟨_, _, .uncommitted, rfl⟩
      · exact ⟨_, _, .uncommitted, rfl⟩
    | _ => cases h
  | committed version refreshed =>
    cases choice with
    | succeed =>
      cases h
      exact ⟨_, _, .idle (.committed _ _) (.unlocking _) (.inl rfl) (hnew _), rfl⟩
    | fail applied =>
      cases h
      exact ⟨_, _, .mismatched, rfl⟩
    | _ => cases h
  | recording version authState code evidence =>
    dsimp only at h
    split at h
    · rename_i row' ok hwrite
      cases h
      exact ⟨_, _, .record (writeAuthState_wrote hwrite), rfl⟩
    · cases h
  | unlocking result =>
    cases choice with
    | succeed =>
      cases h
      exact ⟨_, _, .idle (.unlocking _) (.releasing _) (.inl rfl) nofun, rfl⟩
    | _ => cases h
  | releasing result =>
    have hgiven : ∀ p : Prop, ∀ [Decidable p],
        LeaseMoves i s.lease (if p then none else s.lease) := by
      intro p _
      split
      · exact .inr (.inl rfl)
      · exact .inl rfl
    cases choice with
    | succeed | fail applied =>
      cases h
      exact ⟨_, _, .idle (.releasing _) (.done _) (hgiven _) nofun, rfl⟩
    | _ => cases h
  | done result =>
    cases h

variable {mid : System C}

theorem Turn.refreshers {phase' : Phase C} (h : Turn provider s i options phase mid phase') :
    mid.refreshers = s.refreshers := by
  cases h <;> rfl

theorem Turn.secret {phase' : Phase C} (h : Turn provider s i options phase mid phase') :
    (mid.durable = s.durable ∧ mid.row.secretVersion = s.row.secretVersion ∧
        mid.row.data = s.row.data) ∨
      ∃ row refreshed ciphertext, phase = .committing row refreshed ciphertext ∧
        s.row.secretVersion = row.secretVersion ∧ mid.calls = s.calls ∧
        mid.row = ⟨row.secretVersion + 1, ciphertext, .ready, ""⟩ ∧
        mid.durable = mid.row :: s.durable := by
  cases h with
  | start hwrote | restore hwrote | record hwrote => exact .inl ⟨rfl, hwrote.secret⟩
  | commit hversion => exact .inr ⟨_, _, _, rfl, hversion, rfl, rfl, rfl⟩
  | _ => exact .inl ⟨rfl, rfl, rfl⟩

inductive StepKind (provider : Provider C) (s : System C) (command : Command C)
    (s' : System C) : Prop where
  | prepare {i : Nat} {options : Options} (hcommand : command = .prepare i options)
      (hfresh : s.refreshers i = none)
      (heq : s' =
        { s with refreshers := Function.update s.refreshers i (some ⟨options, .waiting⟩) })
  | turn {i : Nat} {choice : Choice C} {r : Refresher C} {mid : System C} {phase : Phase C}
      (hcommand : command = .act i choice) (hr : s.refreshers i = some r)
      (hturn : Turn provider s i r.options r.phase mid phase)
      (heq : s' = mid.goto i r phase)
  | expire (heq : s' = { s with lease := none })
  | sweep {sweeps : List Sweep} (heq : s' = { s with sweeps })
  | swept {code : String} (heq : s' = { s with
      row := { s.row with authState := .outcomeUnknown, authErrorCode := code } })

theorem step_kind {command : Command C} (h : s.step provider command = some s') :
    StepKind provider s command s' := by
  cases command with
  | prepare i options =>
    obtain ⟨hfresh, heq⟩ := ite_none_right_eq_some.mp h
    exact .prepare rfl (isNone_iff_eq_none.mp hfresh) (Option.some.inj heq).symm
  | act i choice =>
    simp only [step] at h
    cases hr : s.refreshers i with
    | none =>
      rw [hr] at h
      cases h
    | some r =>
      rw [hr] at h
      obtain ⟨mid, phase, hturn, heq⟩ := act_turn h
      exact .turn rfl hr hturn heq
  | expire => exact .expire (Option.some.inj h).symm
  | sweepRead =>
    obtain ⟨-, heq⟩ := ite_none_right_eq_some.mp h
    exact .sweep (Option.some.inj heq).symm
  | sweepProbe k =>
    simp only [step] at h
    cases hsweep : s.sweeps[k]? with
    | none =>
      rw [hsweep] at h
      cases h
    | some sweep =>
      rw [hsweep] at h
      obtain ⟨-, heq⟩ := ite_none_right_eq_some.mp h
      exact .sweep (Option.some.inj heq).symm
  | sweepWrite k =>
    simp only [step] at h
    cases hsweep : s.sweeps[k]? with
    | none =>
      rw [hsweep] at h
      cases h
    | some sweep =>
      rw [hsweep] at h
      obtain ⟨-, heq⟩ := ite_none_right_eq_some.mp h
      exact .swept (Option.some.inj heq).symm

end System

end EchoJoyGateway.Subscription
