import EchoJoyGateway.Subscription.Turns
import Mathlib.Order.Nat
import EchoJoyGateway.Lib.Update

/-!
# A refresh token is spent once

Automatic refreshes start from a ready row only, but they write `refreshing` under the
secret version alone. As long as no refresh starts after it lost its lease, a second
upstream call with a secret follows only retryable failures of the earlier ones.
-/

namespace EchoJoyGateway.Subscription

open List

variable {C : Type}

theorem getElem?_concat_cases {α : Type} {xs : List α} {x y : α} {k : Nat}
    (h : (xs ++ [x])[k]? = some y) : xs[k]? = some y ∨ k = xs.length ∧ y = x := by
  rcases Nat.lt_or_ge k xs.length with hlt | hge
  · exact .inl ((getElem?_append_left hlt).symm.trans h)
  · rw [getElem?_append_right hge] at h
    rw [getElem?_singleton] at h
    obtain ⟨hzero, heq⟩ := Option.ite_none_right_eq_some.mp h
    exact .inr ⟨by omega, (Option.some.inj heq).symm⟩

theorem getElem?_set_cases {α : Type} {xs : List α} {x y : α} {k l : Nat}
    (h : (xs.set k x)[l]? = some y) : l = k ∧ y = x ∨ l ≠ k ∧ xs[l]? = some y := by
  rcases eq_or_ne l k with rfl | hne
  · obtain ⟨hlt, heq⟩ := List.getElem?_eq_some_iff.mp h
    rw [List.getElem_set_self] at heq
    exact .inl ⟨rfl, heq.symm⟩
  · exact .inr ⟨hne, (getElem?_set_ne hne.symm).symm.trans h⟩

/-- The version of the secret whose refresh the phase is about to start, or to undo. -/
def Phase.startingAt : Phase C → Option Nat
  | .checked row _ => some row.secretVersion
  | .startFailed row => some row.secretVersion
  | _ => none

/-- The version at which a refresh is under way, or about to be made ready again. -/
def Phase.opens : Phase C → Option Nat
  | .refreshing row _ => some row.secretVersion
  | .calling row _ _ => some row.secretVersion
  | .recording version .ready _ _ => some version
  | _ => none

def Phase.version : Phase C → Option Nat
  | .checked row _ => some row.secretVersion
  | .startFailed row => some row.secretVersion
  | .refreshing row _ => some row.secretVersion
  | .calling row _ _ => some row.secretVersion
  | .returned row _ _ => some row.secretVersion
  | .committing row _ _ => some row.secretVersion
  | .committed version _ => some version
  | .recording version _ _ _ => some version
  | _ => none

/-- No refresh is started by an operator. -/
def Command.automatic : Command C → Bool
  | .prepare _ options => !options.allowRecovery
  | _ => true

namespace System

/-- Whoever starts a refresh, or undoes a failed start, still holds the lease. -/
def fenced (s : System C) : Command C → Bool
  | .act i _ =>
    match s.refreshers i with
    | some r => r.phase.startingAt.isNone || decide (s.lease = some i)
    | none => true
  | _ => true

variable {provider : Provider C} {s mid : System C} {i : Nat} {r : Refresher C}
  {phase' : Phase C} {v : Nat}

/-- No refresh is under way at the version, and all that were have failed retryably. -/
structure Quiet (s : System C) (v : Nat) : Prop where
  shut : ∀ i r, s.refreshers i = some r → r.phase.opens ≠ some v
  retryable : ∀ call ∈ s.calls, call.version = v → call.outcome = some (.error .retryable)

structure Exclusive (s : System C) : Prop where
  automatic : ∀ i r, s.refreshers i = some r → r.options.allowRecovery = false
  versions : ∀ i r, s.refreshers i = some r → ∀ v ∈ r.phase.version, v ≤ s.row.secretVersion
  callVersions : ∀ call ∈ s.calls, call.version ≤ s.row.secretVersion
  ready : s.row.authState = .ready → s.Quiet s.row.secretVersion
  leased : ∀ i r, s.lease = some i → s.refreshers i = some r →
    r.phase.startingAt = some s.row.secretVersion → s.Quiet s.row.secretVersion
  opened : ∀ i r v, s.refreshers i = some r → r.phase.opens = some v →
    (∀ j r', j ≠ i → s.refreshers j = some r' → r'.phase.opens ≠ some v) ∧
      ∀ (k : Nat) call, s.calls[k]? = some call → call.version = v →
        call.outcome = some (.error .retryable) ∨ ∃ row current, r.phase = .calling row current k

variable {phase : Phase C}

theorem version_of_opens (h : phase.opens = some v) : phase.version = some v := by
  cases phase with
  | refreshing row current => exact h
  | calling row current k => exact h
  | recording version authState code evidence =>
    cases authState with
    | ready => exact h
    | _ => cases h
  | _ => cases h

theorem version_of_startingAt (h : phase.startingAt = some v) : phase.version = some v := by
  cases phase with
  | checked row current => exact h
  | startFailed row => exact h
  | _ => cases h

theorem goto_cases (href : mid.refreshers = s.refreshers) {j : Nat} {r' : Refresher C}
    (h : (mid.goto i r phase').refreshers j = some r') :
    j = i ∧ r' = { r with phase := phase' } ∨ j ≠ i ∧ s.refreshers j = some r' := by
  rcases Update.cases h with ⟨rfl, heq⟩ | ⟨hne, h⟩
  · exact .inl ⟨rfl, (Option.some.inj heq).symm⟩
  · rw [href] at h
    exact .inr ⟨hne, h⟩

theorem Quiet.goto (h : s.Quiet v) (href : mid.refreshers = s.refreshers)
    (hcalls : ∀ call ∈ mid.calls, call.version = v → call ∈ s.calls)
    (hopen : phase'.opens ≠ some v) : (mid.goto i r phase').Quiet v := by
  refine ⟨fun j r' hr' => ?_, fun call hmem hversion =>
    h.retryable call (hcalls call hmem hversion) hversion⟩
  rcases goto_cases href hr' with ⟨rfl, rfl⟩ | ⟨-, hold⟩
  · exact hopen
  · exact h.shut j r' hold

variable {s' : System C}

theorem Exclusive.move {new : Refresher C} (hs : s.Exclusive)
    (hcases : ∀ j r', s'.refreshers j = some r' → j = i ∧ r' = new ∨ j ≠ i ∧
      s.refreshers j = some r')
    (hauto : new.options.allowRecovery = false) (hrow : s.row.secretVersion ≤ s'.row.secretVersion)
    (hversion : ∀ v ∈ new.phase.version, v ≤ s'.row.secretVersion)
    (hcalls : ∀ (k : Nat) call, s'.calls[k]? = some call → s.calls[k]? = some call ∨
      call.version ≤ s'.row.secretVersion ∧
        ∀ j r', j ≠ i → s.refreshers j = some r' → r'.phase.opens ≠ some call.version)
    (hready : s'.row.authState = .ready → s'.Quiet s'.row.secretVersion)
    (hlease : ∀ j, j ≠ i → s'.lease = some j → s.lease = some j ∧ ∀ v, s.Quiet v → s'.Quiet v)
    (hstart : s'.lease = some i → new.phase.startingAt = some s'.row.secretVersion →
      s'.Quiet s'.row.secretVersion) (hopened : ∀ v, new.phase.opens = some v →
      (∀ j r', j ≠ i → s.refreshers j = some r' → r'.phase.opens ≠ some v) ∧
        ∀ (k : Nat) call, s'.calls[k]? = some call → call.version = v →
          call.outcome = some (.error .retryable) ∨
            ∃ row current, new.phase = .calling row current k) : s'.Exclusive where
  automatic j r' hr' := by
    rcases hcases j r' hr' with ⟨-, rfl⟩ | ⟨-, hold⟩
    · exact hauto
    · exact hs.automatic j r' hold
  versions j r' hr' v hv := by
    rcases hcases j r' hr' with ⟨-, rfl⟩ | ⟨-, hold⟩
    · exact hversion v hv
    · exact (hs.versions j r' hold v hv).trans hrow
  callVersions call hmem := by
    obtain ⟨k, hk⟩ := mem_iff_getElem?.mp hmem
    rcases hcalls k call hk with hold | ⟨hle, -⟩
    · exact (hs.callVersions call (mem_of_getElem? hold)).trans hrow
    · exact hle
  ready := hready
  leased j r' hj hr' hstarting := by
    rcases hcases j r' hr' with ⟨rfl, rfl⟩ | ⟨hne, hold⟩
    · exact hstart hj hstarting
    · -- The row has not moved: the refresh remembers its version.
      obtain ⟨hheld, hquiet⟩ := hlease j hne hj
      have heq := le_antisymm (hs.versions j r' hold _ (version_of_startingAt hstarting)) hrow
      rw [heq] at hstarting ⊢
      exact hquiet _ (hs.leased j r' hheld hold hstarting)
  opened j r' v hr' hv := by
    rcases hcases j r' hr' with ⟨rfl, rfl⟩ | ⟨hne, hold⟩
    · obtain ⟨halone, hown⟩ := hopened v hv
      refine ⟨fun k r'' hk hr'' => ?_, hown⟩
      rcases hcases k r'' hr'' with ⟨rfl, -⟩ | ⟨-, hold⟩
      · exact absurd rfl hk
      · exact halone k r'' hk hold
    · obtain ⟨hothers, hown⟩ := hs.opened j r' v hold hv
      refine ⟨fun k r'' hk hr'' => ?_, fun k call hk hcall => ?_⟩
      · rcases hcases k r'' hr'' with ⟨rfl, rfl⟩ | ⟨-, hold'⟩
        · exact fun hx => (hopened v hx).1 j r' hne hold hv
        · exact hothers k r'' hk hold'
      · rcases hcalls k call hk with hk | ⟨-, halone⟩
        · exact hown k call hk hcall
        · exact absurd (hcall ▸ hv) (halone j r' hne hold)

theorem Exclusive.shut (hs : s.Exclusive) (hr : s.refreshers i = some r)
    (href : mid.refreshers = s.refreshers) (hcalls : mid.calls = s.calls)
    (hopen : phase'.opens = none) (hrow : s.row.secretVersion ≤ mid.row.secretVersion)
    (hversion : ∀ v ∈ phase'.version, v ≤ mid.row.secretVersion)
    (hready : mid.row.authState = .ready → (mid.goto i r phase').Quiet mid.row.secretVersion)
    (hlease : ∀ j, mid.lease = some j → s.lease = some j ∨ j = i)
    (hstart : mid.lease = some i → phase'.startingAt = some mid.row.secretVersion →
      (mid.goto i r phase').Quiet mid.row.secretVersion) :
    (mid.goto i r phase').Exclusive := by
  have hnone : ∀ v, phase'.opens ≠ some v := by
    rw [hopen]
    rintro v ⟨⟩
  refine hs.move (fun j r' => goto_cases href) (hs.automatic i r hr) hrow hversion
    (fun k call hk => .inl (hcalls ▸ hk)) hready (fun j hne hj => ?_) hstart
    fun v hv => absurd hv (hnone v)
  refine ⟨(hlease j hj).resolve_right hne, fun v h => h.goto href (fun call hmem _ => ?_) (hnone v)⟩
  rwa [hcalls] at hmem

theorem Exclusive.within (hs : s.Exclusive) (hr : s.refreshers i = some r)
    (hopen : r.phase.opens = some v) (href : mid.refreshers = s.refreshers)
    (hrow : mid.row = s.row) (hlease : mid.lease = s.lease)
    (hcalls : ∀ (k : Nat) call, mid.calls[k]? = some call → call.version ≠ v →
      s.calls[k]? = some call)
    (hversion : phase'.version = some v) (hstart : phase'.startingAt = none)
    (hown : phase'.opens = none ∨ phase'.opens = some v ∧
      ∀ (k : Nat) call, mid.calls[k]? = some call → call.version = v →
        call.outcome = some (.error .retryable) ∨ ∃ row current, phase' = .calling row current k) :
    (mid.goto i r phase').Exclusive := by
  have hbound : v ≤ mid.row.secretVersion := hrow ▸ hs.versions i r hr v (version_of_opens hopen)
  have halone := (hs.opened i r v hr hopen).1
  have hopen' : ∀ w, phase'.opens = some w → w = v := by
    intro w heq
    rcases hown with hnone | ⟨hsome, -⟩
    · rw [hnone] at heq
      cases heq
    · exact Option.some.inj (heq.symm.trans hsome)
  have hquiet : ∀ w, s.Quiet w → (mid.goto i r phase').Quiet w := by
    intro w h
    have hne : w ≠ v := by
      rintro rfl
      exact h.shut i r hr hopen
    refine h.goto href (fun call hmem hw => ?_) fun hx => hne (hopen' w hx)
    obtain ⟨k, hk⟩ := mem_iff_getElem?.mp hmem
    exact mem_of_getElem? (hcalls k call hk (hw ▸ hne))
  refine hs.move (fun j r' => goto_cases href) (hs.automatic i r hr) (hrow ▸ le_rfl) ?_ ?_ ?_
    (fun j _ hj => ⟨hlease ▸ hj, hquiet⟩) ?_ ?_
  · intro w hw
    obtain rfl := Option.some.inj (hversion.symm.trans hw)
    exact hbound
  · intro k call hk
    rcases eq_or_ne call.version v with rfl | hne
    · exact .inr ⟨hbound, halone⟩
    · exact .inl (hcalls k call hk hne)
  · intro hready
    change mid.row.authState = .ready at hready
    change (mid.goto i r phase').Quiet mid.row.secretVersion
    rw [hrow] at hready ⊢
    exact hquiet _ (hs.ready hready)
  · intro _ hstarting
    exact absurd (hstart.symm.trans hstarting) nofun
  · intro w hw
    obtain rfl := hopen' w hw
    refine ⟨halone, ?_⟩
    rcases hown with hnone | ⟨-, hcallsOwn⟩
    · exact absurd (hnone.symm.trans hw) nofun
    · exact hcallsOwn

theorem failureRecord_ready {row : Row} {failure : RefreshFailure} {cooldownSet : Bool}
    (h : (failureRecord row failure cooldownSet).1 = .ready) : failure = .retryable := by
  cases failure with
  | retryable => rfl
  | outcomeUnknown =>
    unfold failureRecord at h
    dsimp only at h
    split at h
    · rename_i hne
      exact absurd h hne
    · cases h
  | reauthorizationRequired => cases h
  | identityChanged => cases h

theorem opens_of_idle (h : Idle phase) : phase.opens = none ∧ phase.startingAt = none := by
  cases h <;> exact ⟨rfl, rfl⟩

theorem version_of_idle (h : Idle phase)
    (hnew : ∀ version refreshed, phase ≠ .committed version refreshed) : phase.version = none := by
  cases h with
  | committed version refreshed => exact absurd rfl (hnew version refreshed)
  | _ => rfl

variable {authState : AuthState}

theorem opens_recording {version : Nat} {code evidence : String} (h : authState ≠ .ready) :
    (.recording version authState code evidence : Phase C).opens = none := by
  cases authState with
  | ready => exact absurd rfl h
  | _ => rfl

variable {options : Options}

theorem examine_cases (hauto : options.allowRecovery = false) (row : Row) (reading : Reading) :
    (∃ result, examine provider options row reading = .unlocking result) ∨
      (∃ code evidence, examine provider options row reading =
        .recording row.secretVersion .outcomeUnknown code evidence) ∨
      row.authState = .ready ∧ ∃ current, examine provider options row reading =
        .checked row current := by
  unfold examine
  by_cases hrefreshing : row.authState = .refreshing
  · rw [if_pos ⟨hrefreshing, hauto⟩]
    unfold refreshRestoreState
    rw [hrefreshing]
    exact .inr (.inl ⟨_, _, rfl⟩)
  · rw [if_neg fun hx => hrefreshing hx.1]
    by_cases hready : row.authState = .ready
    · rw [if_neg fun hx => hx.1 hready]
      split
      · exact .inl ⟨_, rfl⟩
      split
      · exact .inl ⟨_, rfl⟩
      split
      · split
        · exact .inl ⟨_, rfl⟩
        · exact .inl ⟨_, rfl⟩
      split
      · exact .inl ⟨_, rfl⟩
      split
      · exact .inl ⟨_, rfl⟩
      · exact .inr (.inr ⟨hready, _, rfl⟩)
    · rw [if_pos ⟨hready, hauto⟩]
      exact .inl ⟨_, rfl⟩

theorem Exclusive.ready_goto (hs : s.Exclusive) (href : mid.refreshers = s.refreshers)
    (hcalls : mid.calls = s.calls) (hopen : phase'.opens = none)
    (hrow : mid.row = s.row ∨ mid.row.authState ≠ .ready) (hready : mid.row.authState = .ready) :
    (mid.goto i r phase').Quiet mid.row.secretVersion := by
  rcases hrow with hsame | hother
  · rw [hsame] at hready ⊢
    refine (hs.ready hready).goto href (fun call hmem _ => ?_) ?_
    · rwa [hcalls] at hmem
    · rw [hopen]
      exact nofun
  · exact absurd hready hother

theorem Exclusive.still (hs : s.Exclusive) (hr : s.refreshers i = some r)
    (hopen : phase'.opens = none) (hstart : phase'.startingAt = none)
    (hversion : ∀ v ∈ phase'.version, v ≤ s.row.secretVersion) : (s.goto i r phase').Exclusive := by
  refine hs.shut hr rfl rfl hopen le_rfl hversion (hs.ready_goto rfl rfl hopen (.inl rfl))
    (fun j hj => .inl hj) fun _ hstarting => ?_
  rw [hstart] at hstarting
  cases hstarting

theorem Exclusive.wrote (hs : s.Exclusive) (hr : s.refreshers i = some r) {row' : Row} {w : Nat}
    {code : String} {ok : Bool} (hwrote : Wrote s.row w authState code row' ok)
    (hopen : phase'.opens = none) (hversion : ∀ v ∈ phase'.version, v ≤ s.row.secretVersion)
    (hready : s.row.secretVersion = w → authState = .ready →
      ({ s with row := row' }.goto i r phase').Quiet s.row.secretVersion)
    (hstart : s.lease = some i → phase'.startingAt = some s.row.secretVersion →
      ({ s with row := row' }.goto i r phase').Quiet s.row.secretVersion) :
    ({ s with row := row' }.goto i r phase').Exclusive := by
  obtain ⟨hsame, -⟩ := hwrote.secret
  refine hs.shut hr rfl rfl hopen hsame.ge (fun v hv => (hversion v hv).trans hsame.ge) ?_
    (fun j hj => .inl hj) ?_
  · intro hafter
    change (System.goto _ i r phase').Quiet row'.secretVersion
    cases hwrote with
    | applied heq ok => exact hready heq hafter
    | refused => exact hs.ready_goto rfl rfl hopen (.inl rfl) hafter
  · intro hlease hstarting
    rw [hsame] at hstarting ⊢
    exact hstart hlease hstarting

theorem Exclusive.start (hs : s.Exclusive) (hr : s.refreshers i = some r)
    (hquiet : s.Quiet s.row.secretVersion) (hlease : s.lease = some i) {row' : Row}
    (hversion : row'.secretVersion = s.row.secretVersion) (hstate : row'.authState ≠ .ready)
    (hopen : phase'.opens = some s.row.secretVersion) (hstart : phase'.startingAt = none) :
    ({ s with row := row' }.goto i r phase').Exclusive := by
  refine hs.move (fun j r' => goto_cases (s := s) rfl) (hs.automatic i r hr) hversion.ge ?_
    (fun k call hk => .inl hk) (fun hready => absurd hready hstate) ?_ ?_ ?_
  · intro v hv
    obtain rfl := Option.some.inj ((version_of_opens hopen).symm.trans hv)
    exact hversion.ge
  · intro j hne hj
    exact absurd (Option.some.inj (Eq.trans (Eq.symm hj) hlease)) hne
  · intro _ hstarting
    exact absurd (hstart.symm.trans hstarting) nofun
  · intro v hv
    obtain rfl := Option.some.inj (Eq.trans (Eq.symm hopen) hv)
    exact ⟨fun j r' _ hold => hquiet.shut j r' hold, fun k call hk hcall =>
      .inl (hquiet.retryable call (mem_of_getElem? hk) hcall)⟩

theorem Turn.exclusive (h : Turn provider s i r.options r.phase mid phase')
    (hr : s.refreshers i = some r) (hs : s.Exclusive)
    (hfenced : r.phase.startingAt.isSome = true → s.lease = some i) :
    (mid.goto i r phase').Exclusive := by
  have hversions := hs.versions i r hr
  have hleased := fun hlease => hs.leased i r hlease hr
  have hopened := fun v => hs.opened i r v hr
  have hauto := hs.automatic i r hr
  generalize hphase : r.phase = phase at *
  cases h with
  | @idle _ _ lease locks hidle hidle' hlease hnew =>
    obtain ⟨hopen, hstarting⟩ := opens_of_idle hidle'
    refine hs.shut hr rfl rfl hopen le_rfl ?_ (hs.ready_goto rfl rfl hopen (.inl rfl)) ?_ ?_
    · rw [version_of_idle hidle' hnew]
      rintro _ ⟨⟩
    · intro j hj
      rcases hlease with rfl | rfl | ⟨-, rfl⟩
      · exact .inl hj
      · cases hj
      · exact .inr (Option.some.inj hj).symm
    · rw [hstarting]
      rintro _ ⟨⟩
  | examine reading =>
    rcases @examine_cases _ provider _ hauto s.row reading with ⟨result, heq⟩ |
      ⟨code, evidence, heq⟩ | ⟨hready, current, heq⟩
    · rw [heq]
      exact hs.still hr rfl rfl (by rintro _ ⟨⟩)
    · rw [heq]
      exact hs.still hr rfl rfl (by rintro _ ⟨⟩; exact le_rfl)
    · rw [heq]
      refine hs.shut hr rfl rfl rfl le_rfl (by rintro _ ⟨⟩; exact le_rfl)
        (hs.ready_goto rfl rfl rfl (.inl rfl)) (fun j hj => .inl hj) fun _ _ => ?_
      exact hs.ready_goto rfl rfl rfl (.inl rfl) hready
  | @start row row' current ok hwrote =>
    have hquiet : s.row.secretVersion = row.secretVersion → s.Quiet s.row.secretVersion :=
      fun heq => hleased (hfenced rfl) (congrArg some heq.symm)
    cases ok with
    | false =>
      refine hs.wrote hr hwrote rfl hversions nofun fun _ hstarting => ?_
      exact (hquiet (Option.some.inj hstarting).symm).goto rfl (fun _ hmem _ => hmem) nofun
    | true =>
      cases hwrote with
      | applied heq _ =>
        exact hs.start hr (hquiet heq) (hfenced rfl) rfl nofun (congrArg some heq.symm) rfl
  | @restore row row' ok result hwrote =>
    refine hs.wrote hr hwrote rfl (by rintro _ ⟨⟩) (fun heq _ => ?_) nofun
    exact (hleased (hfenced rfl) (congrArg some heq.symm)).goto rfl (fun _ hmem _ => hmem) nofun
  | @call row current =>
    refine hs.within (v := row.secretVersion) hr (by rw [hphase]; rfl) rfl rfl rfl ?_ rfl rfl
      (.inr ⟨rfl, ?_⟩)
    · intro k call hk hne
      rcases getElem?_concat_cases hk with hold | ⟨-, rfl⟩
      · exact hold
      · exact absurd rfl hne
    · intro k call hk hcall
      rcases getElem?_concat_cases hk with hold | ⟨rfl, -⟩
      · rcases (hopened _ rfl).2 k call hold hcall with hretryable | ⟨_, _, hx⟩
        · exact .inl hretryable
        · cases hx
      · exact .inr ⟨row, current, rfl⟩
  | @answer row current k answer =>
    refine hs.within (v := row.secretVersion) hr (by rw [hphase]; rfl) rfl rfl rfl ?_ ?_ ?_ ?_
    · intro l call hl hne
      rcases getElem?_set_cases hl with ⟨-, rfl⟩ | ⟨-, hold⟩
      · exact absurd rfl hne
      · exact hold
    · cases answer <;> rfl
    · cases answer <;> rfl
    · cases answer with
      | ok refreshed => exact .inl rfl
      | error failure =>
        obtain ⟨failure, cooldownSet⟩ := failure
        by_cases hready : (failureRecord row failure cooldownSet).1 = .ready
        · obtain rfl := failureRecord_ready hready
          refine .inr ⟨?_, fun l call hl hcall => ?_⟩
          · unfold afterAnswer
            dsimp only
            rw [hready]
            rfl
          · rcases getElem?_set_cases hl with ⟨-, rfl⟩ | ⟨hne, hold⟩
            · exact .inl rfl
            · rcases (hopened _ rfl).2 l call hold hcall with hretryable | ⟨_, _, hx⟩
              · exact .inl hretryable
              · cases hx
                exact absurd rfl hne
        · exact .inl (opens_recording hready)
  | @discard row current refreshed authState code evidence hstate =>
    exact hs.still hr (opens_recording hstate) rfl hversions
  | @encrypt row current refreshed ciphertext hpreserves hcipher =>
    exact hs.still hr rfl rfl hversions
  | @commit row refreshed ciphertext _ hversion hphase' =>
    have hopen : phase'.opens = none ∧ phase'.startingAt = none ∧
        ∀ v ∈ phase'.version, v ≤ row.secretVersion + 1 := by
      rcases hphase' with rfl | rfl
      · exact ⟨rfl, rfl, by rintro _ ⟨⟩; exact le_rfl⟩
      · exact ⟨rfl, rfl, by rintro _ ⟨⟩; exact Nat.le_succ _⟩
    obtain ⟨hopen, hstarting, hbound⟩ := hopen
    refine hs.shut hr rfl rfl hopen (by rw [hversion]; exact Nat.le_succ _) hbound (fun _ => ?_)
      (fun j hj => .inl hj) fun _ hx => by rw [hstarting] at hx; cases hx
    -- Nothing has been done at the new version.
    refine ⟨fun j r' hr' hv => ?_, fun call hmem hcall => ?_⟩
    · rcases goto_cases (s := s) rfl hr' with ⟨rfl, rfl⟩ | ⟨-, hold⟩
      · rw [hopen] at hv
        cases hv
      · have hle := hs.versions j r' hold _ (version_of_opens hv)
        change row.secretVersion + 1 ≤ s.row.secretVersion at hle
        omega
    · have hle := hs.callVersions call hmem
      change call.version = row.secretVersion + 1 at hcall
      omega
  | @uncommitted row refreshed ciphertext => exact hs.still hr rfl rfl hversions
  | @mismatched version refreshed => exact hs.still hr rfl rfl hversions
  | @record version authState code evidence row' ok result hwrote =>
    refine hs.wrote hr hwrote rfl (by rintro _ ⟨⟩) (fun heq hready => ?_) nofun
    subst hready
    obtain ⟨hothers, hcalls⟩ := hopened version rfl
    rw [heq]
    refine ⟨fun j r' hr' => ?_, fun call hmem hcall => ?_⟩
    · rcases goto_cases (s := s) rfl hr' with ⟨rfl, rfl⟩ | ⟨hne, hold⟩
      · exact nofun
      · exact hothers j r' hne hold
    · obtain ⟨k, hk⟩ := mem_iff_getElem?.mp hmem
      rcases hcalls k call hk hcall with hretryable | ⟨_, _, hx⟩
      · exact hretryable
      · cases hx

theorem Exclusive.of_same (hs : s.Exclusive) (href : s'.refreshers = s.refreshers)
    (hcalls : s'.calls = s.calls) (hversion : s'.row.secretVersion = s.row.secretVersion)
    (hstate : s'.row.authState = .ready → s.row.authState = .ready)
    (hlease : ∀ i, s'.lease = some i → s.lease = some i) : s'.Exclusive := by
  have hquiet : ∀ v, s.Quiet v → s'.Quiet v := by
    intro v h
    refine ⟨?_, ?_⟩
    · rw [href]
      exact h.shut
    · rw [hcalls]
      exact h.retryable
  refine ⟨?_, ?_, ?_, fun hready => ?_, fun i r hi hr hstarting => ?_, ?_⟩
  · rw [href]
    exact hs.automatic
  · rw [href, hversion]
    exact hs.versions
  · rw [hcalls, hversion]
    exact hs.callVersions
  · rw [hversion]
    exact hquiet _ (hs.ready (hstate hready))
  · rw [href] at hr
    rw [hversion] at hstarting ⊢
    exact hquiet _ (hs.leased i r (hlease i hi) hr hstarting)
  · rw [href, hcalls]
    exact hs.opened

theorem Exclusive.prepare (hs : s.Exclusive) (hauto : options.allowRecovery = false) :
    ({ s with refreshers := Function.update s.refreshers i (some ⟨options, .waiting⟩) } :
      System C).Exclusive := by
  have hcases : ∀ j r', Function.update s.refreshers i (some ⟨options, .waiting⟩) j = some r' →
      j = i ∧ r' = ⟨options, .waiting⟩ ∨ j ≠ i ∧ s.refreshers j = some r' := by
    intro j r' hr'
    rcases Update.cases hr' with ⟨rfl, heq⟩ | ⟨hne, hr'⟩
    · exact .inl ⟨rfl, (Option.some.inj heq).symm⟩
    · exact .inr ⟨hne, hr'⟩
  have hquiet : ∀ v, s.Quiet v → Quiet
      { s with refreshers := Function.update s.refreshers i (some ⟨options, .waiting⟩) } v := by
    refine fun v h => ⟨fun j r' hr' => ?_, h.retryable⟩
    rcases hcases j r' hr' with ⟨-, rfl⟩ | ⟨-, hold⟩
    · exact nofun
    · exact h.shut j r' hold
  exact hs.move hcases hauto le_rfl nofun (fun k call hk => .inl hk)
    (fun hready => hquiet _ (hs.ready hready)) (fun j _ hj => ⟨hj, hquiet⟩) nofun nofun

variable {command : Command C}

theorem step_exclusive (hs : s.Exclusive) (hauto : command.automatic = true)
    (hfenced : s.fenced command = true) (h : s.step provider command = some s') : s'.Exclusive := by
  cases step_kind h with
  | prepare hcommand hfresh heq =>
    subst heq hcommand
    exact hs.prepare (by simpa [Command.automatic] using hauto)
  | @turn i choice r mid phase hcommand hr hturn heq =>
    subst heq hcommand
    refine hturn.exclusive hr hs fun hstarting => ?_
    simp only [fenced, hr, Bool.or_eq_true] at hfenced
    rcases hfenced with hnone | hheld
    · rw [Option.isNone_iff_eq_none.mp hnone] at hstarting
      cases hstarting
    · exact of_decide_eq_true hheld
  | expire heq =>
    subst heq
    exact hs.of_same rfl rfl rfl id nofun
  | sweep heq =>
    subst heq
    exact hs.of_same rfl rfl rfl id fun _ hi => hi
  | swept heq =>
    subst heq
    exact hs.of_same rfl rfl rfl nofun fun _ hi => hi

theorem initial_exclusive (row : Row) : (initial row : System C).Exclusive where
  automatic _ _ hr := by cases hr
  versions _ _ hr := by cases hr
  callVersions _ hmem := by cases hmem
  ready _ := ⟨nofun, nofun⟩
  leased _ _ hi := by cases hi
  opened _ _ _ hr := by cases hr

theorem call_of_step {call : Call C} (h : s.step provider command = some s')
    (hcall : s'.calls = s.calls ++ [call]) :
    ∃ i r, s.refreshers i = some r ∧ ∃ row current, r.phase = .refreshing row current ∧
      call = ⟨i, row.secretVersion, current, none⟩ := by
  have hnone : s'.calls.length = s.calls.length → False := by
    intro hlength
    rw [hcall, length_append] at hlength
    exact Nat.succ_ne_self _ hlength
  cases step_kind h with
  | @turn i choice r mid phase hcommand hr hturn heq =>
    subst heq
    generalize hphase : r.phase = before at hturn
    cases hturn with
    | @call row current =>
      obtain ⟨-, heq⟩ := append_inj hcall rfl
      exact ⟨i, r, hr, row, current, hphase, (List.cons.inj heq).1.symm⟩
    | answer answer => exact absurd (length_set ..) hnone
    | _ => exact absurd rfl hnone
  | prepare hcommand hfresh heq | expire heq | sweep heq | swept heq =>
    exact absurd (by rw [heq]) hnone

/-- The lease of the first refresh runs out between its read and its start. -/
def staleStart : List (Command String) :=
  [.prepare 0 (Subscription.automatic 0), .prepare 1 (Subscription.automatic 1),
    .act 0 .succeed, .act 0 .succeed, .act 0 (.read ⟨true, false, true⟩), .expire,
    .act 1 .succeed, .act 1 .succeed, .act 1 (.read ⟨true, false, true⟩),
    .act 1 .succeed, .act 1 .succeed, .act 0 .succeed]

/-- A retryable failure, then a refresh of another instance up to its call. -/
def retriedRun : List (Command String) :=
  [.prepare 0 (Subscription.automatic 0), .prepare 1 (Subscription.automatic 1),
    .act 0 .succeed, .act 0 .succeed, .act 0 (.read ⟨true, false, true⟩), .act 0 .succeed,
    .act 0 .succeed, .expire, .act 0 (.answer (.error (.retryable, true))), .act 0 .succeed,
    .act 0 .succeed, .act 0 .succeed,
    .act 1 .succeed, .act 1 .succeed, .act 1 (.read ⟨true, false, true⟩), .act 1 .succeed]

/-- In a run of automatic refreshes that start only under their lease, a call with a secret is
made only after every earlier call with it has failed retryably. -/
theorem refresh_token_spent_once {start : Row} {commands : List (Command C)}
    (h : Runs.run (Runs.guarded (fun s command => command.automatic && s.fenced command)
      (step provider)) (initial start) commands = some s) {command : Command C} {s' : System C}
    {call : Call C} (hstep : s.step provider command = some s')
    (hcall : s'.calls = s.calls ++ [call]) :
    ∀ earlier ∈ s.calls, earlier.version = call.version →
      earlier.outcome = some (.error .retryable) := by
  have hs : s.Exclusive := by
    refine Runs.run_invariant (fun hbefore hmid => ?_) h (initial_exclusive start)
    obtain ⟨hok, hmid⟩ := Runs.guarded_eq_some.mp hmid
    obtain ⟨hauto, hfenced⟩ := Bool.and_eq_true_iff.mp hok
    exact step_exclusive hbefore hauto hfenced hmid
  obtain ⟨i, r, hr, row, current, hphase, rfl⟩ := call_of_step hstep hcall
  intro earlier hmem hversion
  obtain ⟨k, hk⟩ := mem_iff_getElem?.mp hmem
  obtain ⟨-, hcalls⟩ := hs.opened i r row.secretVersion hr (by rw [hphase]; rfl)
  rcases hcalls k earlier hk hversion with hretryable | ⟨_, _, hx⟩
  · exact hretryable
  · rw [hphase] at hx
    cases hx

theorem retriedRun_spends_once : ∃ s s',
    Runs.run (Runs.guarded (fun s command => command.automatic && s.fenced command)
        (step plainProvider)) (initial firstRow) retriedRun = some s ∧
      s.step plainProvider (.act 1 .succeed) = some s' ∧
      s'.calls = s.calls ++ [⟨1, 1, "first", none⟩] ∧ s.calls.length = 1 ∧
      ∀ earlier ∈ s.calls, earlier.outcome = some (.error .retryable) := by
  obtain ⟨s, s', hrun, hstep, hcall, hlength, hversion⟩ : ∃ s s',
      Runs.run (Runs.guarded (fun s command => command.automatic && s.fenced command)
          (step plainProvider)) (initial firstRow) retriedRun = some s ∧
        s.step plainProvider (.act 1 .succeed) = some s' ∧
        s'.calls = s.calls ++ [⟨1, 1, "first", none⟩] ∧ s.calls.length = 1 ∧
        s.calls.map Call.version = [1] :=
    ⟨_, _, rfl, rfl, rfl, rfl, rfl⟩
  refine ⟨s, s', hrun, hstep, hcall, hlength, fun earlier hmem => ?_⟩
  have hone : earlier.version ∈ s.calls.map Call.version := mem_map_of_mem hmem
  rw [hversion] at hone
  exact refresh_token_spent_once hrun hstep hcall earlier hmem (mem_singleton.mp hone)

/-- Two calls with one secret are under way at once. -/
theorem stale_start_spends_twice : ∃ s s',
    Runs.run (Runs.guarded (fun _ command => command.automatic) (step plainProvider))
        (initial firstRow) staleStart = some s ∧
      s.step plainProvider (.act 0 .succeed) = some s' ∧
      s.calls = [⟨1, 1, "first", none⟩] ∧ s'.calls = s.calls ++ [⟨0, 1, "first", none⟩] :=
  ⟨_, _, rfl, rfl, rfl, rfl⟩

end System

end EchoJoyGateway.Subscription
