import EchoJoyGateway.Gateway.Log
import Mathlib

/-!
# The dispatch discipline of a request

Each stage of a round is described by what it leaves of the calls made, the candidates
seen and the slots held; the rounds of a request follow by induction.
-/

namespace EchoJoyGateway.Gateway

open Std.Do List
open State (CredentialRef)

variable {s : Loop} {selection : Selection}

set_option mvcgen.warning false

structure View where
  calls : List Attempt
  seen : List Nat
  refreshRetry : Option (Selection × CredentialRef)
  authRefreshReplayUsed : Bool

structure Core where
  log : List Event
  forwardAttempts : Nat
  admitted : Bool
  refreshRetry : Option (Selection × CredentialRef)
  authRefreshReplayUsed : Bool

def Loop.core (s : Loop) : Core :=
  ⟨s.log, s.forwardAttempts, s.admitted, s.refreshRetry, s.authRefreshReplayUsed⟩

def Core.view (c : Core) : View :=
  ⟨attempts c.log, selections c.log, c.refreshRetry, c.authRefreshReplayUsed⟩

namespace View

/-- Between two rounds, `rounds` of them being over. A replay that is due repeats the last
call, and every round was paid for by a candidate or by a replay that was due. -/
structure Waiting (v : View) (rounds : Nat) : Prop where
  known : ∀ call ∈ v.calls, call.credentialID ∈ v.seen
  fresh : v.authRefreshReplayUsed = false → v.seen.Nodup → (v.calls.map (·.credentialID)).Nodup
  replay : ∀ selection ref, v.refreshRetry = some (selection, ref) →
    v.authRefreshReplayUsed = false ∧ ∃ before last, v.calls = before ++ [last] ∧
      last.credentialID = selection.credentialID ∧ last.retry = .refreshCredential
  spent : rounds + (if v.refreshRetry.isSome then 1 else 0) ≤ 2 * v.seen.length

structure Ready (v : View) (rounds credentialID : Nat) : Prop where
  idle : v.refreshRetry = none
  known : ∀ call ∈ v.calls, call.credentialID ∈ v.seen
  seen : credentialID ∈ v.seen
  once : v.seen.Nodup → ∀ call : Attempt, call.credentialID = credentialID →
    CalledOnce (v.calls ++ [call])
  fresh : v.authRefreshReplayUsed = false → v.seen.Nodup → ∀ call : Attempt,
    call.credentialID = credentialID → ((v.calls ++ [call]).map (·.credentialID)).Nodup
  spent : rounds + 1 + (if v.authRefreshReplayUsed then 0 else 1) ≤ 2 * v.seen.length

variable {v : View} {rounds credentialID : Nat}

theorem Ready.waiting (h : v.Ready rounds credentialID) : v.Waiting (rounds + 1) where
  known := h.known
  fresh := by
    intro hused hseen
    have hnodup := h.fresh hused hseen ⟨credentialID, false, .none⟩ rfl
    rw [map_append] at hnodup
    exact hnodup.of_append_left
  replay := by
    intro selection ref hretry
    rw [h.idle] at hretry
    cases hretry
  spent := by
    have hspent := h.spent
    rw [h.idle]
    exact (Nat.le_add_right _ _).trans hspent

theorem Waiting.next (h : v.Waiting rounds) (hidle : v.refreshRetry = none)
    (honce : v.seen.Nodup → CalledOnce v.calls) (credentialID : Nat) :
    Ready { v with seen := v.seen ++ [credentialID] } rounds credentialID := by
  have hnew : (v.seen ++ [credentialID]).Nodup →
      v.seen.Nodup ∧ credentialID ∉ v.calls.map (·.credentialID) := by
    intro hnodup
    obtain ⟨hseen, -, hdisjoint⟩ := nodup_append'.mp hnodup
    refine ⟨hseen, ?_⟩
    intro hmem
    obtain ⟨call, hcall, rfl⟩ := mem_map.mp hmem
    exact hdisjoint (h.known call hcall) (mem_singleton.mpr rfl)
  constructor
  · exact hidle
  · intro call hcall
    exact mem_append_left _ (h.known call hcall)
  · simp
  · rintro hnodup call rfl
    obtain ⟨hseen, hfresh⟩ := hnew hnodup
    exact calledOnce_concat_fresh (honce hseen) hfresh
  · rintro hused hnodup call rfl
    obtain ⟨hseen, hfresh⟩ := hnew hnodup
    rw [map_append]
    exact nodup_append'.mpr ⟨h.fresh hused hseen, nodup_singleton _, disjoint_singleton.mpr hfresh⟩
  · have hspent := h.spent
    simp only [length_append, length_singleton] at hspent ⊢
    split <;> omega

variable {ref : CredentialRef}

theorem Waiting.repeat (h : v.Waiting rounds) (hretry : v.refreshRetry = some (selection, ref)) :
    Ready { v with refreshRetry := none, authRefreshReplayUsed := true } rounds
      selection.credentialID := by
  obtain ⟨hused, before, last, hcalls, hlast, hrefresh⟩ := h.replay selection ref hretry
  have hspent := h.spent
  rw [hretry] at hspent
  constructor
  · rfl
  · exact h.known
  · rw [← hlast]
    apply h.known
    rw [hcalls]
    simp
  · intro hseen call hcall
    have hnodup := h.fresh hused hseen
    rw [hcalls] at hnodup ⊢
    exact calledOnce_concat_replay hnodup (hlast.trans hcall.symm) hrefresh
  · exact Bool.noConfusion
  · simpa using hspent

theorem Waiting.drop (h : v.Waiting rounds) (hretry : v.refreshRetry = some (selection, ref)) :
    Waiting { v with refreshRetry := none } (rounds + 1) where
  known := h.known
  fresh := h.fresh
  replay := by
    intro selection ref hnone
    cases hnone
  spent := by
    have hspent := h.spent
    rw [hretry] at hspent
    simpa using hspent

variable {call : Attempt}

theorem Ready.called (h : v.Ready rounds credentialID) (hcall : call.credentialID = credentialID) :
    Waiting { v with calls := v.calls ++ [call] } (rounds + 1) where
  known := by
    intro other hother
    rcases mem_append.mp hother with hother | hother
    · exact h.known other hother
    · cases mem_singleton.mp hother
      rw [hcall]
      exact h.seen
  fresh := by
    intro hused hseen
    exact h.fresh hused hseen call hcall
  replay := by
    intro selection ref hretry
    rw [h.idle] at hretry
    cases hretry
  spent := h.waiting.spent

theorem Ready.refreshing (h : v.Ready rounds credentialID)
    (hcall : call.credentialID = credentialID) (hused : v.authRefreshReplayUsed = false)
    (hretry : call.retry = .refreshCredential) (ref : CredentialRef)
    (hselection : selection.credentialID = credentialID) :
    Waiting { v with calls := v.calls ++ [call], refreshRetry := some (selection, ref) }
      (rounds + 1) where
  known := (h.called hcall).known
  fresh := (h.called hcall).fresh
  replay := by
    rintro _ _ ⟨⟩
    exact ⟨hused, v.calls, call, rfl, hcall.trans hselection.symm, hretry⟩
  spent := by
    have hspent := h.spent
    rw [hused] at hspent
    simpa using hspent

end View

/-- A moment of a round: the slots held and, while `live` holds, that nothing has ended the
request. -/
structure At (limit : Nat) (live : Prop) (v : View) (groups credentials : List Nat) (c : Core) :
    Prop where
  kept : Kept limit c.log c.forwardAttempts c.admitted false
  going : live → Going c.log
  view : c.view = v
  groups : held .group c.log = groups
  credentials : held .credential c.log = credentials

structure Over (limit : Nat) (s : Loop) : Prop where
  kept : Kept limit s.log s.forwardAttempts s.admitted false
  groups : ∀ slot ∈ held .group s.log, s.groupRelease = some slot
  credentials : ∀ slot ∈ held .credential s.log, s.attemptRelease = some slot

section

variable {limit : Nat} {live : Prop} {v : View} {groups credentials : List Nat} {c : Core}

theorem At.over (h : At limit live v groups credentials s.core)
    (hgroups : ∀ slot ∈ groups, s.groupRelease = some slot)
    (hcredentials : ∀ slot ∈ credentials, s.attemptRelease = some slot) : Over limit s where
  kept := h.kept
  groups := h.groups ▸ hgroups
  credentials := h.credentials ▸ hcredentials

theorem At.idle (h : At limit live v [] [] s.core) : Over limit s :=
  h.over (fun _ => nofun) (fun _ => nofun)

variable {live' : Prop}

theorem At.weaken (h : At limit live v groups credentials c) (hlive : live' → live) :
    At limit live' v groups credentials c :=
  { h with going := fun hl => h.going (hlive hl) }

/-- An event that changes neither the calls, the candidates nor the slots. -/
def Event.still : Event → Bool
  | .freed _ _ => false
  | e => e.quiet

variable {e : Event}

theorem At.note (h : At limit live v groups credentials c) (he : e.still = true)
    (hlive : live' → live ∧ e.final = false ∧ e ≠ .exhausted) :
    At limit live' v groups credentials { c with log := c.log ++ [e] } := by
  have hquiet : e.quiet = true := by
    cases e <;> first | rfl | cases he
  have hheld : ∀ scope, held scope (c.log ++ [e]) = held scope c.log := by
    intro scope
    rw [held_concat]
    cases e <;> first | rfl | cases he
  refine ⟨h.kept.quiet hquiet, ?_, ?_, (hheld _).trans h.groups, (hheld _).trans h.credentials⟩
  · intro hl
    obtain ⟨hbefore, hfinal, hexhausted⟩ := hlive hl
    exact (h.going hbefore).concat hfinal hexhausted
  · rw [← h.view]
    simp only [Core.view, attempts_append, selections_append, attempts_quiet hquiet,
      selections_quiet hquiet, append_nil]

theorem At.notes (h : At limit live v groups credentials c) {es : List Event}
    (hes : ∀ e ∈ es, e.still = true ∧ e.final = false ∧ e ≠ .exhausted) :
    At limit live v groups credentials { c with log := c.log ++ es } := by
  induction es generalizing c with
  | nil =>
    rw [append_nil]
    exact h
  | cons e es ih =>
    obtain ⟨hstill, hends⟩ := hes e (.head _)
    have hnoted := h.note hstill fun hlive => ⟨hlive, hends⟩
    have hrest := ih hnoted fun x hx => hes x (.tail _ hx)
    rw [append_cons]
    exact hrest

theorem mem_skipping {effect : Effect} (h : e ∈ skipping effect selection) :
    e.still = true ∧ e.final = false ∧ e ≠ .exhausted := by
  unfold skipping at h
  split at h
  · cases mem_singleton.mp h
    exact ⟨rfl, rfl, Event.noConfusion⟩
  · cases h

theorem mem_advancing {retry : RetryDirective} (h : e ∈ advancing retry selection) :
    e.still = true ∧ e.final = false ∧ e ≠ .exhausted := by
  unfold advancing at h
  split at h
  · cases h
  · cases mem_singleton.mp h
    exact ⟨rfl, rfl, Event.noConfusion⟩

theorem At.event (h : At limit live v groups credentials c) {admitted : Bool}
    (hkept : Kept limit (c.log ++ [e]) c.forwardAttempts admitted false)
    (hends : e.final = false ∧ e ≠ .exhausted) (hviews : attempts [e] = [] ∧ selections [e] = []) :
    At limit live v (hold .group groups e) (hold .credential credentials e)
      { c with log := c.log ++ [e], admitted := admitted } where
  kept := hkept
  going := fun hlive => (h.going hlive).concat hends.1 hends.2
  view := by
    rw [← h.view]
    simp only [Core.view, attempts_append, selections_append, hviews, append_nil]
  groups := by rw [held_concat, h.groups]
  credentials := by rw [held_concat, h.credentials]

theorem At.takeGroup (h : At limit live v [] credentials c) (slot : Nat) :
    At limit live v [slot] credentials { c with log := c.log ++ [.taken .group slot] } :=
  h.event (h.kept.taken h.groups slot) ⟨rfl, Event.noConfusion⟩ ⟨rfl, rfl⟩

theorem At.takeCredential (h : At limit live v groups [] c) (slot : Nat) :
    At limit live v groups [slot] { c with log := c.log ++ [.taken .credential slot] } :=
  h.event (h.kept.taken h.credentials slot) ⟨rfl, Event.noConfusion⟩ ⟨rfl, rfl⟩

variable {slot : Nat}

theorem filter_of_all {slots : List Nat} (h : ∀ x ∈ slots, x = slot) :
    slots.filter (· ≠ slot) = [] := by
  rw [filter_eq_nil_iff]
  intro x hx
  simp [h x hx]

theorem At.freeGroup (h : At limit live v groups credentials c) (hall : ∀ x ∈ groups, x = slot) :
    At limit live v [] credentials { c with log := c.log ++ [.freed .group slot] } := by
  have hfreed := h.event (h.kept.quiet (e := .freed .group slot) rfl)
    ⟨rfl, Event.noConfusion⟩ ⟨rfl, rfl⟩
  exact filter_of_all hall ▸ hfreed

theorem At.freeCredential (h : At limit live v groups credentials c)
    (hall : ∀ x ∈ credentials, x = slot) :
    At limit live v groups [] { c with log := c.log ++ [.freed .credential slot] } := by
  have hfreed := h.event (h.kept.quiet (e := .freed .credential slot) rfl)
    ⟨rfl, Event.noConfusion⟩ ⟨rfl, rfl⟩
  exact filter_of_all hall ▸ hfreed

variable {release : Option Nat}

theorem At.releaseGroup (h : At limit live v groups credentials c)
    (hall : ∀ slot ∈ groups, release = some slot) :
    At limit live v [] credentials { c with log := c.log ++ releasing .group release } := by
  cases release with
  | some slot => exact h.freeGroup fun x hx => (Option.some.inj (hall x hx)).symm
  | none =>
    have hnone : groups = [] := eq_nil_iff_forall_not_mem.mpr fun x hx => nomatch hall x hx
    rw [releasing, append_nil, ← hnone]
    exact h

theorem At.releaseCredential (h : At limit live v groups credentials c)
    (hall : ∀ slot ∈ credentials, release = some slot) :
    At limit live v groups [] { c with log := c.log ++ releasing .credential release } := by
  cases release with
  | some slot => exact h.freeCredential fun x hx => (Option.some.inj (hall x hx)).symm
  | none =>
    have hnone : credentials = [] := eq_nil_iff_forall_not_mem.mpr fun x hx => nomatch hall x hx
    rw [releasing, append_nil, ← hnone]
    exact h

theorem acquireCandidate_spec (answers : List SlotAnswer) :
    ⦃fun s => ⌜At limit live v groups [] s.core⌝⦄ acquireCandidate answers
    ⦃⇓ slot s => ⌜At limit live v groups slot.toList s.core⌝⦄ := by
  induction answers with
  | nil => mvcgen [acquireCandidate]
  | cons answer rest ih =>
    cases answer with
    | acquired =>
      mvcgen [acquireCandidate, take, record]
      rename_i h _ _ _
      exact h.takeCredential _
    | full => mvcgen [acquireCandidate, ih]
    | unavailable => mvcgen [acquireCandidate]

theorem executeJevDecision_spec (jev : JevTurn) :
    ⦃fun s => ⌜At limit live v [] [] s.core⌝⦄ executeJevDecision jev
    ⦃⇓ _ s => ⌜At limit live v [] [] s.core⌝⦄ := by
  have hcandidate := @acquireCandidate_spec limit live v [] jev.candidates
  mvcgen [executeJevDecision, hcandidate, take, free, record]
  case vc7 =>
    rename_i h slot _ _ _ _ _ _
    have hgroup := h.takeGroup slot
    have hcalled := hgroup.note (e := .audited) rfl fun hlive => ⟨hlive, rfl, Event.noConfusion⟩
    have hfreed := hcalled.freeGroup fun _ => mem_singleton.mp
    exact (hfreed.freeGroup fun _ hx => absurd hx not_mem_nil).freeCredential fun _ =>
      mem_singleton.mp
  all_goals
    rename_i h _
    exact h.freeCredential fun _ => mem_singleton.mp

theorem At.admitted (h : At limit live v groups credentials c) (hopen : c.admitted = false) :
    At limit live v groups credentials
      { c with log := c.log ++ [.admitted], admitted := true } := by
  have hkept := h.kept
  rw [hopen] at hkept
  exact h.event hkept.admitted ⟨rfl, Event.noConfusion⟩ ⟨rfl, rfl⟩

theorem admitAutoQuota_spec (request : Request) (answer : AdmitAnswer) :
    ⦃fun s => ⌜At limit live v groups credentials s.core⌝⦄ admitAutoQuota request answer
    ⦃⇓ _ s => ⌜At limit live v groups credentials s.core⌝⦄ := by
  mvcgen [admitAutoQuota, accessQuotaAdmit, record]
  case vc2 =>
    rename_i h hopen _ _ _
    refine h.admitted ?_
    simp only [Bool.or_eq_true, not_or, Bool.not_eq_true] at hopen
    exact hopen.2
  all_goals
    rename_i h _ _ _
    exact h.note (e := .notAdmitted) rfl fun hlive => ⟨hlive, rfl, Event.noConfusion⟩

theorem checkRequestAudit_spec (request : Request) (audit : AuditTurn) :
    ⦃fun s => ⌜At limit live v [] [] s.core⌝⦄ checkRequestAudit request audit
    ⦃⇓ _ s => ⌜At limit live v [] [] s.core⌝⦄ := by
  have hadmit := @admitAutoQuota_spec limit live v [] [] request audit.admission
  have hjev := @executeJevDecision_spec limit live v audit.jev
  mvcgen [checkRequestAudit, hadmit, hjev]

end

def Left (limit : Nat) (v : View) : Exit → Loop → Prop
  | .next, s => At limit True v [] [] s.core
  | _, s => Over limit s

section

variable {limit : Nat} {v : View} {groups credentials : List Nat} (request : Request)
  (turn : Turn)

theorem prepareCandidate_spec (selection : Selection) :
    ⦃fun s => ⌜At limit True v [] [] s.core⌝⦄ prepareCandidate turn selection
    ⦃post⟨fun _ s => ⌜At limit True v [] [] s.core⌝, fun exit s => ⌜Left limit v exit s⌝⟩⦄ := by
  have hskip : ∀ {c : Core}, At limit True v [] [] c →
      At limit True v [] [] { c with log := c.log ++ [.skippedGroup selection.groupID] } :=
    fun h => h.note rfl fun hlive => ⟨hlive, rfl, Event.noConfusion⟩
  have hfail : ∀ {decision : Decision} {c : Core}, At limit True v [] [] c →
      At limit (decision.retry ≠ .none) v [] []
        { c with log := c.log ++ [.unprepared selection decision.retry] ++
          skipping decision.effect selection } := by
    intro decision c h
    refine .notes (h.note rfl fun hretry => ⟨trivial, ?_, Event.noConfusion⟩) fun _ => mem_skipping
    simpa [Event.final] using hretry
  mvcgen [prepareCandidate, recordCandidatePreparationFailure, record]
  case vc2 h => exact At.idle h
  case vc3 h _ _ => exact hskip h
  case vc4 h _ _ => exact hskip h
  case vc6 h _ _ _ => exact At.idle (hfail h)
  case vc7 h _ _ hretry => exact (hfail h).weaken fun _ => hretry

theorem auditCandidate_spec  :
    ⦃fun s => ⌜At limit True v [] [] s.core⌝⦄ auditCandidate request turn
    ⦃post⟨fun _ s => ⌜At limit True v [] [] s.core⌝, fun exit s => ⌜Left limit v exit s⌝⟩⦄ := by
  have haudit := @checkRequestAudit_spec limit True v request turn.audit
  mvcgen [auditCandidate, haudit]
  rename_i h
  exact At.idle h

theorem acquireGroupConcurrency_spec  :
    ⦃fun s => ⌜At limit True v [] [] s.core⌝⦄ acquireGroupConcurrency request turn
    ⦃post⟨fun _ s => ⌜∃ groups, At limit True v groups [] s.core ∧
        ∀ slot ∈ groups, s.groupRelease = some slot⌝,
      fun exit s => ⌜Left limit v exit s⌝⟩⦄ := by
  mvcgen [acquireGroupConcurrency, take, record]
  case vc1 h => exact ⟨[], h, fun _ => nofun⟩
  case vc2 h => exact At.idle h
  case vc3 h => exact At.idle h
  case vc4 h => exact At.idle h
  case vc5 h slot _ _ _ =>
    exact ⟨[slot], h.takeGroup slot, fun x hx => congrArg some (mem_singleton.mp hx).symm⟩

structure Armed (limit : Nat) (v : View) (s : Loop) : Prop where
  leaving : Over limit s
  going : Going s.log
  view : s.core.view = v

theorem Armed.at (h : Armed limit v s) :
    At limit True v (held .group s.log) (held .credential s.log) s.core :=
  ⟨h.leaving.kept, fun _ => h.going, h.view, rfl, rfl⟩

theorem At.armed (h : At limit True v groups credentials s.core)
    (hgroups : ∀ slot ∈ groups, s.groupRelease = some slot)
    (hcredentials : ∀ slot ∈ credentials, s.attemptRelease = some slot) : Armed limit v s :=
  ⟨h.over hgroups hcredentials, h.going trivial, h.view⟩

theorem acquireCredential_spec  :
    ⦃fun s => ⌜∃ groups, At limit True v groups [] s.core ∧
        ∀ slot ∈ groups, s.groupRelease = some slot⌝⦄ acquireCredential turn
    ⦃post⟨fun _ s => ⌜Armed limit v s⌝, fun exit s => ⌜Left limit v exit s⌝⟩⦄ := by
  mvcgen [acquireCredential, groupRelease, free, take, record]
  case vc1 h =>
    obtain ⟨groups, h, hcover⟩ := h
    exact h.over hcover fun _ => nofun
  case vc2 h _ _ =>
    obtain ⟨groups, h, hcover⟩ := h
    exact h.releaseGroup hcover
  case vc3 h slot _ _ _ =>
    obtain ⟨groups, h, hcover⟩ := h
    exact At.armed (h.takeCredential slot) hcover fun x hx =>
      congrArg some (mem_singleton.mp hx).symm

theorem admitAttempt_spec  :
    ⦃fun s => ⌜Armed limit v s⌝⦄ admitAttempt request turn
    ⦃post⟨fun _ s => ⌜Armed limit v s⌝, fun exit s => ⌜Left limit v exit s⌝⟩⦄ := by
  have hrefused : ∀ {s : Loop}, Armed limit v s →
      Over limit { s with log := s.log ++ [.notAdmitted] } := by
    intro s h
    have hnoted : At limit True v _ _ _ :=
      h.at.note (e := .notAdmitted) rfl fun _ => ⟨trivial, rfl, Event.noConfusion⟩
    exact hnoted.over h.leaving.groups h.leaving.credentials
  mvcgen [admitAttempt, admitAutoQuota, accessQuotaAdmit, record]
  case vc2 h hopen _ _ _ =>
    simp only [Bool.or_eq_true, not_or, Bool.not_eq_true] at hopen
    exact At.armed (h.at.admitted hopen.2) h.leaving.groups h.leaving.credentials
  case vc3 h _ _ _ => exact hrefused h
  case vc4 h _ _ _ => exact hrefused h
  case vc5 h _ _ _ => exact hrefused h

theorem At.called {c : Core} (h : At limit True v groups credentials c) {rounds : Nat}
    (call : Attempt) (hready : v.Ready rounds call.credentialID)
    (hroom : c.forwardAttempts < limit) :
    At limit ((Event.called call).final = false) { v with calls := v.calls ++ [call] } groups
      credentials
      { c with log := c.log ++ [.called call], forwardAttempts := c.forwardAttempts + 1 } where
  kept := by
    refine h.kept.called (h.going trivial) hroom ?_
    have hview := h.view
    intro hseen
    subst hview
    exact hready.once hseen call rfl
  going := fun hfinal => (h.going trivial).concat hfinal Event.noConfusion
  view := by
    rw [← h.view]
    simp [Core.view, attempts, selections]
  groups := by
    rw [held_concat, h.groups]
    rfl
  credentials := by
    rw [held_concat, h.credentials]
    rfl

/-- The call that a turn makes of a selected credential. -/
def Turn.call (turn : Turn) (selection : Selection) : Attempt :=
  ⟨selection.credentialID, (normalizeUpstreamResultContract turn.result).committed,
    turn.decision.retry⟩

theorem forward_spec (selection : Selection) {rounds : Nat}
    (hready : v.Ready rounds selection.credentialID) :
    ⦃fun s => ⌜Armed limit v s ∧ s.forwardAttempts < limit⌝⦄ forward turn selection
    ⦃⇓ result s => ⌜result = normalizeUpstreamResultContract turn.result ∧
      At limit ((Event.called (turn.call selection)).final = false)
        { v with calls := v.calls ++ [turn.call selection] } [] [] s.core⌝⦄ := by
  mvcgen [forward, attemptRelease, groupRelease, free, record]
  case vc1 h _ _ _ _ =>
    obtain ⟨h, hroom⟩ := h
    have hcalled := h.at.called (turn.call selection) hready hroom
    have hfreed := hcalled.releaseCredential h.leaving.credentials
    exact ⟨rfl, hfreed.releaseGroup h.leaving.groups⟩

end

/-- A moment between two rounds, `rounds` of them being over. -/
def Between (limit : Nat) (live : Prop) (rounds : Nat) (s : Loop) : Prop :=
  ∃ v : View, v.Waiting rounds ∧ At limit live v [] [] s.core

def Ended (limit rounds : Nat) : Exit → Loop → Prop
  | .next, s => Between limit True rounds s
  | _, s => Over limit s

section

variable {limit rounds : Nat} {v : View} {live : Prop} (request : Request) (turn : Turn)

theorem Between.over (h : Between limit live rounds s) : Over limit s := by
  obtain ⟨v, -, hat⟩ := h
  exact hat.idle

variable {credentials groups : List Nat} {c : Core}

theorem At.retrying (h : At limit live v groups credentials c)
    (retry : Option (Selection × CredentialRef)) :
    At limit live { v with refreshRetry := retry } groups credentials
      { c with refreshRetry := retry } where
  kept := h.kept
  going := h.going
  view := by
    rw [← h.view]
    rfl
  groups := h.groups
  credentials := h.credentials

theorem applyDecision_spec (selection : Selection) (ref : CredentialRef)
    (decision : Decision) {call : Attempt} (hready : v.Ready rounds selection.credentialID)
    (hcall : call.credentialID = selection.credentialID) (hretry : call.retry = decision.retry) :
    ⦃fun s => ⌜At limit live { v with calls := v.calls ++ [call] } [] [] s.core⌝⦄
      applyDecision request selection ref decision
    ⦃⇓ _ s => ⌜Between limit live (rounds + 1) s⌝⦄ := by
  mvcgen [applyDecision]
  case vc1 s h t =>
    have hnotes : ∀ e ∈ advancing decision.retry selection ++ skipping decision.effect selection,
        e.still = true ∧ e.final = false ∧ e ≠ .exhausted := by
      intro e he
      exact (mem_append.mp he).elim mem_advancing mem_skipping
    have hused := congrArg View.authRefreshReplayUsed h.view
    by_cases hrefresh : decision.retry = .refreshCredential ∧ s.authRefreshReplayUsed = false ∧
        s.forwardAttempts < request.forwardAttemptLimit
    · have hat := (h.retrying (some (selection, ref))).notes hnotes
      refine ⟨_, hready.refreshing hcall (hused.symm.trans hrefresh.2.1)
        (hretry.trans hrefresh.1) ref rfl, ?_⟩
      simp only [t, if_pos hrefresh]
      exact hat
    · refine ⟨_, hready.called hcall, ?_⟩
      simp only [t, if_neg hrefresh]
      exact h.notes hnotes

theorem conclude_spec (decision : Decision) (result : UpstreamResult) :
    ⦃fun s => ⌜Between limit live rounds s⌝⦄ conclude request decision result
    ⦃post⟨fun _ s => ⌜decision.retry ≠ .none ∧ Between limit live rounds s⌝,
      fun exit s => ⌜Ended limit rounds exit s⌝⟩⦄ := by
  mvcgen [conclude]
  case vc1 h => exact h.over
  case vc2 h hretry _ => exact ⟨hretry.1, h⟩
  case vc3 h _ => exact h.over
  case vc5 h => exact h.over
  case vc7 h _ _ => exact Between.over h
  case vc8 h => exact h.over
  case vc11 h => exact h.over

theorem settle_spec (selection : Selection)
    (ref : CredentialRef) (result : UpstreamResult)
    (hready : v.Ready rounds selection.credentialID) :
    ⦃fun s => ⌜result.committed = (turn.call selection).committed ∧
      At limit ((Event.called (turn.call selection)).final = false)
        { v with calls := v.calls ++ [turn.call selection] } [] [] s.core⌝⦄
      settle request turn selection ref result
    ⦃post⟨fun _ s => ⌜Between limit True (rounds + 1) s⌝,
      fun exit s => ⌜Ended limit (rounds + 1) exit s⌝⟩⦄ := by
  have happly := @applyDecision_spec limit rounds v
    ((Event.called (turn.call selection)).final = false) request selection ref turn.decision
    (turn.call selection) hready rfl rfl
  have hconclude := @conclude_spec limit (rounds + 1)
    ((Event.called (turn.call selection)).final = false) request turn.decision result
  mvcgen [settle, happly, hconclude]
  case vc1 h => exact h.2.idle
  case vc2 h => exact h.2.idle
  case vc3 h => exact h.2
  case vc5 hcommitted _ _ h _ _ _ _ _ =>
    rintro hretry ⟨w, hwaiting, hat⟩
    refine ⟨w, hwaiting, hat.weaken fun _ => ?_⟩
    rw [h.1, Bool.not_eq_true] at hcommitted
    change ((turn.call selection).committed || turn.decision.retry == .none) = false
    rw [hcommitted]
    simpa using hretry

theorem bindResponse_committed (result : UpstreamResult) :
    (bindResponse request turn result).committed = result.committed := by
  unfold bindResponse
  split
  · split <;> rfl
  · rfl

theorem Left.ended {exit : Exit} (h : Left limit v exit s) (hready : v.Waiting rounds) :
    Ended limit rounds exit s := by
  cases exit with
  | next => exact ⟨v, hready, h⟩
  | leave => exact h
  | done outcome => exact h

theorem At.room (h : At limit live v groups credentials c) :
    c.forwardAttempts = v.calls.length := by
  rw [← h.kept.counted, ← h.view]
  rfl

theorem dispatch_spec (selection : Selection)
    (ref : CredentialRef) (hready : v.Ready rounds selection.credentialID)
    (hroom : v.calls.length < limit) :
    ⦃fun s => ⌜At limit True v [] [] s.core⌝⦄ dispatch request turn selection ref
    ⦃post⟨fun _ s => ⌜Between limit True (rounds + 1) s⌝,
      fun exit s => ⌜Ended limit (rounds + 1) exit s⌝⟩⦄ := by
  have hgroup := @acquireGroupConcurrency_spec limit v request turn
  have hcredential := @acquireCredential_spec limit v turn
  have hadmit := @admitAttempt_spec limit v request turn
  have hforward := @forward_spec limit v turn selection rounds hready
  have hsettle := fun result => @settle_spec limit rounds v request turn selection ref result hready
  mvcgen [dispatch, hgroup, hcredential, hadmit, hforward, hsettle]
  case vc4 h => exact ⟨h, h.at.room.trans_lt hroom⟩
  case vc5 h =>
    obtain ⟨rfl, hat⟩ := h
    exact ⟨bindResponse_committed _ _ _, hat⟩
  case vc6 => exact fun h => h.ended hready.waiting
  case vc7 => exact fun h => h.ended hready.waiting
  case vc8 => exact fun h => h.ended hready.waiting

theorem proceed_spec (selection : Selection)
    (ref : CredentialRef) (hready : v.Ready rounds selection.credentialID)
    (hroom : v.calls.length < limit) :
    ⦃fun s => ⌜At limit True v [] [] s.core⌝⦄ proceed request turn selection ref
    ⦃post⟨fun _ s => ⌜Between limit True (rounds + 1) s⌝,
      fun exit s => ⌜Ended limit (rounds + 1) exit s⌝⟩⦄ := by
  have hprepare := @prepareCandidate_spec limit v turn selection
  have haudit := @auditCandidate_spec limit v request turn
  have hdispatch := @dispatch_spec limit rounds v request turn selection ref hready hroom
  mvcgen [proceed, hprepare, haudit, hdispatch]
  case vc3 h => exact h.idle
  case vc5 => exact fun h => h.ended hready.waiting
  case vc6 => exact fun h => h.ended hready.waiting

def Picked (limit rounds credentialID : Nat) (s : Loop) : Prop :=
  ∃ v : View, v.Ready rounds credentialID ∧ v.calls.length < limit ∧ At limit True v [] [] s.core

theorem At.selected (h : At limit True v [] [] c) (selection : Selection) :
    At limit True { v with seen := v.seen ++ [selection.credentialID] } [] []
      { c with log := c.log ++ [.selected selection] } where
  kept := h.kept.selected (h.going trivial) selection
  going := fun _ => (h.going trivial).concat rfl Event.noConfusion
  view := by
    rw [← h.view]
    simp [Core.view, attempts, selections]
  groups := by
    rw [held_concat, h.groups]
    rfl
  credentials := by
    rw [held_concat, h.credentials]
    rfl

theorem At.replaying (h : At limit True v [] [] c) :
    At limit True { v with refreshRetry := none, authRefreshReplayUsed := true } [] []
      { c with refreshRetry := none, authRefreshReplayUsed := true } where
  kept := h.kept
  going := h.going
  view := by
    rw [← h.view]
    rfl
  groups := h.groups
  credentials := h.credentials

theorem At.once (h : At limit live v groups credentials c) : v.seen.Nodup → CalledOnce v.calls := by
  rw [← h.view]
  exact h.kept.once

theorem replayCandidate_spec (selection : Selection) (ref : CredentialRef)
    (hwaiting : v.Waiting rounds) (hretry : v.refreshRetry = some (selection, ref))
    (hroom : v.calls.length < limit) :
    ⦃fun s => ⌜At limit True v [] [] s.core⌝⦄ replayCandidate turn selection ref
    ⦃post⟨fun candidate s => ⌜Picked limit rounds candidate.1.credentialID s⌝,
      fun exit s => ⌜Ended limit (rounds + 1) exit s⌝⟩⦄ := by
  mvcgen [replayCandidate]
  case vc1 h _ _ => exact ⟨_, hwaiting.drop hretry, h.retrying none⟩
  case vc2 h _ _ _ _ => exact ⟨_, hwaiting.drop hretry, h.retrying none⟩
  case vc3 h _ _ _ _ _ _ => exact ⟨_, hwaiting.repeat hretry, hroom, h.replaying⟩
  case vc4 h _ _ _ _ _ _ => exact ⟨_, (hwaiting.repeat hretry).waiting, h.replaying⟩

theorem nextCandidate_spec
    (hwaiting : v.Waiting rounds) (hidle : v.refreshRetry = none)
    (hroom : v.calls.length < limit) :
    ⦃fun s => ⌜At limit True v [] [] s.core⌝⦄ nextCandidate request turn
    ⦃post⟨fun candidate s => ⌜Picked limit rounds candidate.1.credentialID s⌝,
      fun exit s => ⌜Ended limit (rounds + 1) exit s⌝⟩⦄ := by
  mvcgen [nextCandidate, record]
  case vc1 h _ =>
    have hnoted : At limit False v [] [] _ := h.note (e := .exhausted) rfl False.elim
    exact At.idle hnoted
  case vc2 h _ _ =>
    exact ⟨_, (hwaiting.next hidle h.once _).waiting, h.selected _⟩
  case vc3 h _ _ _ _ =>
    exact ⟨_, (hwaiting.next hidle h.once _).waiting, h.selected _⟩
  case vc4 h _ _ _ _ =>
    exact ⟨_, hwaiting.next hidle h.once _, hroom, h.selected _⟩

theorem selectCandidate_spec  :
    ⦃fun s => ⌜Between limit True rounds s ∧ s.forwardAttempts < limit⌝⦄
      selectCandidate request turn
    ⦃post⟨fun candidate s => ⌜Picked limit rounds candidate.1.credentialID s⌝,
      fun exit s => ⌜Ended limit (rounds + 1) exit s⌝⟩⦄ := by
  mvcgen [selectCandidate]
  case vc1 s h selection ref hretry =>
    obtain ⟨⟨v, hwaiting, hat⟩, hroom⟩ := h
    have hview : v.refreshRetry = some (selection, ref) := by
      rw [← hretry, ← hat.view]
      rfl
    exact replayCandidate_spec turn selection ref hwaiting hview (hat.room ▸ hroom) s hat
  case vc2 s h hretry =>
    obtain ⟨⟨v, hwaiting, hat⟩, hroom⟩ := h
    have hview : v.refreshRetry = none := by
      rw [← hretry, ← hat.view]
      rfl
    exact nextCandidate_spec request turn hwaiting hview (hat.room ▸ hroom) s hat

theorem attempt_spec  :
    ⦃fun s => ⌜Between limit True rounds s ∧ s.forwardAttempts < limit⌝⦄ attempt request turn
    ⦃post⟨fun _ s => ⌜Between limit True (rounds + 1) s⌝,
      fun exit s => ⌜Ended limit (rounds + 1) exit s⌝⟩⦄ := by
  have hselect := @selectCandidate_spec limit rounds request turn
  have hproceed : ∀ selection ref, ⦃fun s => ⌜Picked limit rounds selection.credentialID s⌝⦄
      proceed request turn selection ref
      ⦃post⟨fun _ s => ⌜Between limit True (rounds + 1) s⌝,
        fun exit s => ⌜Ended limit (rounds + 1) exit s⌝⟩⦄ := by
    rintro selection ref s ⟨v, hready, hroom, hat⟩
    exact @proceed_spec limit rounds v request turn selection ref hready hroom s hat
  mvcgen [attempt, hselect, hproceed]
  rename_i h
  exact h.1.over

theorem attemptExit_spec  :
    ⦃fun s => ⌜Between limit True rounds s ∧ s.forwardAttempts < limit⌝⦄ attemptExit request turn
    ⦃⇓ exit s => ⌜Ended limit (rounds + 1) exit s⌝⦄ := by
  have hattempt := @attempt_spec limit rounds request turn
  mvcgen [attemptExit, hattempt]

theorem rounds_spec (turns : List Turn) (n : Nat) :
    ⦃fun s => ⌜Between request.forwardAttemptLimit True n s⌝⦄ Gateway.rounds request turns
    ⦃⇓ exit s => ⌜(exit = none → Between request.forwardAttemptLimit True (n + turns.length) s) ∧
      (exit ≠ none → Over request.forwardAttemptLimit s)⌝⦄ := by
  induction turns generalizing n with
  | nil =>
    mvcgen [Gateway.rounds]
    case vc1 h _ => exact ⟨h, fun hsome => absurd rfl hsome⟩
    case vc2 h _ => exact ⟨nofun, fun _ => h.over⟩
  | cons turn turns ih =>
    have hattempt := @attemptExit_spec request.forwardAttemptLimit n request turn
    have hrest := ih (n + 1)
    mvcgen [Gateway.rounds, hattempt, hrest]
    case vc3 =>
      intro hwaits hends
      refine ⟨fun hnone => ?_, hends⟩
      rw [length_cons, Nat.add_comm turns.length, ← Nat.add_assoc]
      exact hwaits hnone
    case vc4 h => exact ⟨nofun, fun _ => h⟩
    case vc5 h => exact ⟨nofun, fun _ => h⟩
    case vc6 h _ => exact ⟨nofun, fun _ => h.over⟩

structure Finished (limit : Nat) (s : Loop) : Prop where
  kept : Kept limit s.log s.forwardAttempts s.admitted false
  free : ∀ scope, held scope s.log = []

theorem Over.at (h : Over limit s) :
    At limit False s.core.view (held .group s.log) (held .credential s.log) s.core :=
  ⟨h.kept, False.elim, rfl, rfl, rfl⟩

theorem At.finished (h : At limit live v [] [] s.core) : Finished limit s where
  kept := h.kept
  free := by
    intro scope
    cases scope with
    | group => exact h.groups
    | credential => exact h.credentials

/-- A request waits for the environment between two rounds, or is over. -/
def Reached (limit rounds : Nat) : Option Outcome → Loop → Prop
  | none, s => Between limit True rounds s
  | some _, s => Finished limit s

theorem executeAttempts_spec (surroundings : Surroundings)
    (turns : List Turn) :
    ⦃fun s => ⌜Between request.forwardAttemptLimit True 0 s⌝⦄
      executeAttempts request surroundings turns
    ⦃⇓ outcome s => ⌜Reached request.forwardAttemptLimit turns.length outcome s⌝⦄ := by
  have hrounds := rounds_spec request turns 0
  mvcgen [executeAttempts, hrounds, groupRelease, attemptRelease, free]
  case vc1 h =>
    obtain ⟨v, -, hat⟩ := h
    exact hat.finished
  case vc3 h =>
    rw [Nat.zero_add] at h
    exact h.1
  case vc4 h _ _ _ _ =>
    have hover := h.2 (Option.some_ne_none _)
    exact At.finished ((hover.at.releaseGroup hover.groups).releaseCredential hover.credentials)
  case vc5 h _ _ _ _ _ =>
    have hover := h.2 (Option.some_ne_none _)
    exact At.finished ((hover.at.releaseGroup hover.groups).releaseCredential hover.credentials)

theorem prepareAutoModel_spec (auto : AutoTurn) :
    ⦃fun s => ⌜At limit True v [] [] s.core⌝⦄ prepareAutoModel request auto
    ⦃⇓ _ s => ⌜At limit True v [] [] s.core⌝⦄ := by
  have hadmit := @admitAutoQuota_spec limit True v [] [] request auto.admission
  have hjev := @executeJevDecision_spec limit True v
  mvcgen [prepareAutoModel, executeAutoDecision, hadmit, hjev]

theorem respond_spec (surroundings : Surroundings) (turns : List Turn)
    (hwaiting : v.Waiting 0) :
    ⦃fun s => ⌜At request.forwardAttemptLimit True v [] [] s.core⌝⦄
      respond request surroundings turns
    ⦃⇓ outcome s => ⌜Reached request.forwardAttemptLimit turns.length outcome s⌝⦄ := by
  have hauto := @prepareAutoModel_spec request.forwardAttemptLimit v request
  have hexecute := executeAttempts_spec request surroundings turns
  mvcgen [respond, hauto, hexecute]
  case vc1 h => exact ⟨v, hwaiting, h⟩
  case vc3 h => exact h.finished
  case vc4 h => exact ⟨v, hwaiting, h⟩

structure Closed (limit rounds : Nat) (outcome : Option Outcome) (s : Loop) : Prop where
  kept : Kept limit s.log s.forwardAttempts s.admitted (outcome.isSome && s.admitted)
  free : outcome.isSome = true → ∀ scope, held scope s.log = []
  waits : outcome = none → Between limit True rounds s

theorem handle_spec (surroundings : Surroundings) (turns : List Turn)
    (hwaiting : v.Waiting 0) :
    ⦃fun s => ⌜At request.forwardAttemptLimit True v [] [] s.core⌝⦄
      handle request surroundings turns
    ⦃⇓ outcome s => ⌜Closed request.forwardAttemptLimit turns.length outcome s⌝⦄ := by
  have hrespond := respond_spec request surroundings turns hwaiting
  mvcgen [handle, hrespond, record]
  case vc2 outcome s h hdue _ =>
    obtain ⟨hsome, hadmitted⟩ := Bool.and_eq_true_iff.mp hdue
    obtain ⟨result, rfl⟩ := Option.isSome_iff_exists.mp hsome
    refine ⟨?_, ?_, nofun⟩
    · change Kept _ (s.log ++ [.completed]) s.forwardAttempts s.admitted (true && s.admitted)
      simpa only [hadmitted, Bool.and_true] using h.kept.completed
    · intro _ scope
      exact (held_concat _ _ _).trans (h.free scope)
  case vc3 outcome _ h hdue =>
    rw [Bool.not_eq_true] at hdue
    cases outcome with
    | none =>
      obtain ⟨w, hw, hat⟩ := h
      exact ⟨hat.kept, nofun, fun _ => ⟨w, hw, hat⟩⟩
    | some result =>
      refine ⟨?_, fun _ => h.free, nofun⟩
      rw [hdue]
      exact h.kept

end

theorem start_at (limit : Nat) : At limit True ⟨[], [], none, false⟩ [] [] Loop.start.core where
  kept :=
    { counted := rfl
      limited := Nat.zero_le _
      once := fun _ => .inl nodup_nil
      stops := by simp [Loop.start, Loop.core]
      ends := by simp [Loop.start, Loop.core]
      admissions := rfl
      completions := rfl
      slots := by simp [Loop.start, Loop.core, held] }
  going := by simp [Going, Loop.start, Loop.core]
  view := rfl
  groups := rfl
  credentials := rfl

theorem start_waiting : View.Waiting ⟨[], [], none, false⟩ 0 := by
  constructor <;> simp

theorem handle_closed {request : Request} {surroundings : Surroundings} {turns : List Turn}
    {outcome : Option Outcome} (h : (handle request surroundings turns).run .start = (outcome, s)) :
    Closed request.forwardAttemptLimit turns.length outcome s := by
  have hspec := handle_spec request surroundings turns start_waiting .start (start_at _)
  exact StateM.of_wp_run_eq h
    (fun run => Closed request.forwardAttemptLimit turns.length run.1 run.2) fun _ => hspec

def loneRef : CredentialRef where
  name := "lone"
  id := 7
  groupID := 3
  version := 1
  identityGeneration := 1
  fingerprint := "f"
  encryptedValue := "v"
  encryptedProxy := ""
  proxyFingerprint := ""
  failureGeneration := 0
  modelCooldownGeneration := 0
  concurrencyLimit := 1

def loneRequest : Request where
  forwardAttemptLimit := 2
  allowedCredentialRefs := fun id => if id = 7 then some loneRef else none
  stream := true
  responsesCancel := false
  quotaAdmission := true

def quietSurroundings : Surroundings := ⟨none, true, false, false⟩

def loneTurn (committed : Bool) (statusCode : Nat) (retry : RetryDirective) : Turn where
  canceled := false
  currentRef := some loneRef
  charged := true
  next := some ⟨7, 3⟩
  active := true
  prepared := none
  unprepared := none
  audit := ⟨false, false, false, false, .allowed, ⟨false, [], true, true, .acquired⟩, false⟩
  canceledBeforeSlots := false
  groupKnown := true
  groupSlot := .acquired
  credentialSlot := .acquired
  admission := .allowed
  result :=
    { statusCode := statusCode, hasHeader := true, hasBody := true, err := none,
      requestWritten := true, committed := committed, providerErrorBeforeCommit := false,
      emptyResponseBeforeCommit := false, dispatchState := .maybeSent, responseStarted := true,
      executionError := none }
  ownership := none
  canceledAfter := false
  decision := ⟨retry, .none⟩

def refreshedTurns : List Turn := [loneTurn false 401 .refreshCredential, loneTurn true 200 .none]

/-- The dispatch discipline of one request, whatever the environment answers. The request
waits for more answers while it has no outcome; it cannot have used more rounds than twice
the candidates it was given. -/
theorem dispatch_discipline (request : Request) (surroundings : Surroundings)
    (turns : List Turn) {outcome : Option Outcome} {s : Loop}
    (h : (handle request surroundings turns).run .start = (outcome, s))
    (hiterator : (selections s.log).Nodup) :
    (attempts s.log).length ≤ request.forwardAttemptLimit ∧
    CalledOnce (attempts s.log) ∧
    (∀ before e after, s.log = before ++ e :: after → e.final = true → attempts after = []) ∧
    s.log.count .admitted ≤ 1 ∧
    s.log.count .completed = (if outcome.isSome then s.log.count .admitted else 0) ∧
    (∀ scope before, before <+: s.log → (held scope before).length ≤ 1) ∧
    (outcome.isSome = true → ∀ scope, held scope s.log = []) ∧
    (∀ before after, s.log = before ++ .exhausted :: after →
      outcome.isSome = true ∧ attempts after = [] ∧ selections after = []) ∧
    (outcome = none → turns.length ≤ 2 * (selections s.log).length) := by
  obtain ⟨hkept, hfree, hwaits⟩ := handle_closed h
  have hgoing : outcome = none → Going s.log := by
    intro hnone
    obtain ⟨v, -, hat⟩ := hwaits hnone
    exact hat.going trivial
  refine ⟨hkept.counted.trans_le hkept.limited, hkept.once hiterator, hkept.stops, ?_, ?_,
    hkept.slots, hfree, ?_, ?_⟩
  · rw [hkept.admissions]
    split <;> decide
  · rw [hkept.completions, hkept.admissions]
    cases outcome <;> rfl
  · intro before after hsplit
    refine ⟨?_, hkept.ends before after hsplit⟩
    cases outcome with
    | some result => rfl
    | none =>
      have hmem : .exhausted ∈ s.log := by
        rw [hsplit]
        simp
      exact absurd rfl (hgoing rfl _ hmem).2
  · intro hnone
    obtain ⟨v, hwaiting, hat⟩ := hwaits hnone
    have hspent := hwaiting.spent
    rw [← hat.view] at hspent
    exact (Nat.le_add_right _ _).trans hspent

theorem refreshed_request_calls_twice :
    ∃ outcome s, (handle loneRequest quietSurroundings refreshedTurns).run .start = (outcome, s) ∧
      outcome.isSome = true ∧ (attempts s.log).map (·.credentialID) = [7, 7] ∧
      (selections s.log).Nodup ∧ CalledOnce (attempts s.log) ∧ s.log.count .completed = 1 := by
  obtain ⟨outcome, s, hrun, hsome, hcalls, hseen, hadmitted⟩ :
      ∃ outcome s,
        (handle loneRequest quietSurroundings refreshedTurns).run .start = (outcome, s) ∧
        outcome.isSome = true ∧ (attempts s.log).map (·.credentialID) = [7, 7] ∧
        (selections s.log).Nodup ∧ s.log.count .admitted = 1 :=
    ⟨_, _, rfl, rfl, rfl, by decide, by decide⟩
  obtain ⟨-, honce, -, -, hcompleted, -⟩ :=
    dispatch_discipline loneRequest quietSurroundings refreshedTurns hrun hseen
  rw [hsome, hadmitted] at hcompleted
  exact ⟨outcome, s, hrun, hsome, hcalls, hseen, honce, hcompleted⟩

end EchoJoyGateway.Gateway
