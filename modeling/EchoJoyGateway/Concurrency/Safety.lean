import EchoJoyGateway.Concurrency.Limiter

/-!
# No scope exceeds its limit and no slot comes back

What one step of the system can do to a key and to the slots is said once; the bound,
the owners of the members and the fate of a rejected request follow for every run.
-/

namespace EchoJoyGateway.Concurrency

open List

open Function (update update_eq_self update_of_ne update_self)

variable {token : Token} {scope : Scope} {phase : Phase}

section Moves

variable {t : Instant} {limit : Int} {token : Token} {key key' : Option SlotKey} {event : Event}
  {phase phase' : Phase}

def Phase.executed : Phase → Bool
  | .asked => false
  | .failed pending => !pending
  | _ => true

/-- The token may be a member of the scope. -/
def Phase.mayHold : Phase → Bool
  | .answered taken => taken
  | .failed pending => !pending
  | .holding => true
  | .dropped => true
  | .unreleased pending => pending
  | _ => false

def Phase.ended : Phase → Bool
  | .full => true
  | .failed _ => true
  | .released => true
  | .unreleased _ => true
  | _ => false

structure Moves (t : Instant) (limit : Int) (token : Token) (phase phase' : Phase)
    (key key' : Option SlotKey) : Prop where
  evolves : Evolves t ∅ key key' ∨
    Evolves t {token} key key' ∧ phase.executed = false ∧ phase'.mayHold = true ∧
      ((members key').card : Int) ≤ limit
  executed : phase.executed = true → phase'.executed = true
  ended : phase.ended = true → phase'.ended = true
  gone : phase.mayHold = true → phase'.mayHold = false → token ∉ members key'

theorem acquireSlot_moves (hphase : phase.executed = false) (hhold : phase.mayHold = false)
    (hmay : (acquireSlot t limit token key).2 = true → phase'.mayHold = true)
    (hended : phase.ended = true → phase'.ended = true) :
    Moves t limit token phase phase' key (acquireSlot t limit token key).1 where
  evolves := by
    have hevolves := @acquireSlot_evolves t token key limit
    cases htaken : (acquireSlot t limit token key).2 with
    | false =>
      rw [htaken] at hevolves
      exact .inl hevolves
    | true =>
      rw [htaken] at hevolves
      exact .inr ⟨hevolves, hphase, hmay htaken, acquireSlot_card htaken⟩
  executed h := absurd (hphase.symm.trans h) Bool.false_ne_true
  ended := hended
  gone h _ := absurd (hhold.symm.trans h) Bool.false_ne_true

theorem releaseSlot_moves (hexecuted : phase.executed = true → phase'.executed = true)
    (hended : phase.ended = true → phase'.ended = true) :
    Moves t limit token phase phase' key (releaseSlot t token key) where
  evolves := .inl releaseSlot_evolves
  executed := hexecuted
  ended := hended
  gone _ _ := not_mem_releaseSlot

theorem still_moves (hexecuted : phase.executed = true → phase'.executed = true)
    (hended : phase.ended = true → phase'.ended = true)
    (hhold : phase.mayHold = true → phase'.mayHold = true) :
    Moves t limit token phase phase' key key where
  evolves := .inl .refl
  executed := hexecuted
  ended := hended
  gone h hgone := absurd ((hhold h).symm.trans hgone) Bool.false_ne_true.symm

theorem move_moves (h : phase.move t limit token key event = some (phase', key')) :
    Moves t limit token phase phase' key key' := by
  unfold Phase.move at h
  split at h
  · cases h
    exact acquireSlot_moves rfl rfl id nofun
  all_goals cases h
  -- The cases are in the order of `Phase.move`.
  · exact still_moves (fun _ => rfl) nofun (fun _ => rfl)
  · exact still_moves (fun _ => rfl) nofun nofun
  · exact acquireSlot_moves rfl rfl (fun _ => rfl) (fun _ => rfl)
  · exact still_moves (fun _ => rfl) nofun (fun _ => rfl)
  · exact releaseSlot_moves (fun _ => rfl) nofun
  · exact still_moves (fun _ => rfl) nofun nofun
  · exact releaseSlot_moves (fun _ => rfl) (fun _ => rfl)
  · exact still_moves nofun (fun _ => rfl) nofun
  · exact still_moves (fun _ => rfl) (fun _ => rfl) (fun _ => rfl)
  · exact still_moves (fun _ => rfl) (fun _ => rfl) (fun _ => rfl)
  · exact still_moves (fun _ => rfl) (fun _ => rfl) nofun

end Moves

/-- The stage that an action leads to, with the token it draws. -/
def Action.next (token : Token) : Action → Option Stage
  | .wait => none
  | .goto stage => some stage
  | .ask _ _ next => some (next token)
  | .release _ stage => some stage

namespace System

def live (s : System) (scope : Scope) : Finset Token :=
  Concurrency.live (s.clock scope) (s.keys scope)

section Effects

variable {s s' : System}

structure Enters (s s' : System) (scope : Scope) (token : Token) : Prop where
  before : ∃ slot, s.slots token = some slot ∧ slot.phase.executed = false
  after : ∃ slot, s'.slots token = some slot ∧ slot.scope = scope ∧ slot.phase.mayHold = true ∧
    ((members (s'.keys scope)).card : Int) ≤ slot.limit

structure Effect (s s' : System) : Prop where
  clock : ∀ scope, (s.clock scope).us ≤ (s'.clock scope).us
  keys : ∀ scope, ∃ added, Evolves (s.clock scope) added (s.keys scope) (s'.keys scope) ∧
    ∀ token ∈ added, Enters s s' scope token
  slots : ∀ token slot, s.slots token = some slot → ∃ phase,
    s'.slots token = some { slot with phase } ∧
      (slot.phase.executed = true → phase.executed = true) ∧
      (slot.phase.ended = true → phase.ended = true) ∧
      (slot.phase.mayHold = true → phase.mayHold = false → token ∉ members (s'.keys slot.scope))

variable {slot : Slot}

theorem kept_slot {slots : Token → Option Slot} {keys : Scope → Option SlotKey}
    (h : slots token = some slot) : ∃ phase,
    slots token = some { slot with phase } ∧
      (slot.phase.executed = true → phase.executed = true) ∧
      (slot.phase.ended = true → phase.ended = true) ∧
      (slot.phase.mayHold = true → phase.mayHold = false → token ∉ members (keys slot.scope)) :=
  ⟨slot.phase, h, id, id, fun hx hy => absurd (hx.symm.trans hy) Bool.false_ne_true.symm⟩

theorem Effect.of_slots (hclock : ∀ scope, (s.clock scope).us ≤ (s'.clock scope).us)
    (hkeys : ∀ scope, Evolves (s.clock scope) ∅ (s.keys scope) (s'.keys scope))
    (hslots : ∀ token slot, s.slots token = some slot → s'.slots token = some slot) :
    Effect s s' where
  clock := hclock
  keys scope := ⟨∅, hkeys scope, fun _ hmem => absurd hmem (Finset.notMem_empty _)⟩
  slots token slot h := kept_slot (hslots token slot h)

theorem draw_effect {node : Nat} {limit : Int} (h : (s.slots token).isNone = true)
    (hclock : s'.clock = s.clock) (hkeys : s'.keys = s.keys)
    (hslots : s'.slots = update s.slots token (some ⟨node, scope, limit, .asked⟩)) :
    Effect s s' := by
  refine .of_slots (fun scope => by rw [hclock])
    (fun scope => by rw [hkeys]; exact .refl) fun other slot hother => ?_
  have hne : other ≠ token := by
    rintro rfl
    rw [hother] at h
    cases h
  rw [hslots, update_of_ne hne]
  exact hother

theorem slot_effect {key : Option SlotKey} {event : Event} (hslot : s.slots token = some slot)
    (hmove : slot.phase.move (s.clock slot.scope) slot.limit token (s.keys slot.scope) event =
      some (phase, key)) (hclock : s'.clock = s.clock)
    (hkeys : s'.keys = update s.keys slot.scope key)
    (hslots : s'.slots = update s.slots token (some { slot with phase })) :
    Effect s s' := by
  have hmoves := move_moves hmove
  have hafter : s'.slots token = some { slot with phase } := by
    rw [hslots, update_self]
  refine ⟨fun scope => by rw [hclock], fun scope => ?_, fun other old hold => ?_⟩
  · rcases eq_or_ne scope slot.scope with rfl | hne
    · rw [hkeys, update_self]
      rcases hmoves.evolves with hsame | ⟨hadds, hbefore, hmay, hcard⟩
      · exact ⟨∅, hsame, fun _ hmem => absurd hmem (Finset.notMem_empty _)⟩
      · refine ⟨{token}, hadds, fun other hmem => ?_⟩
        obtain rfl := Finset.mem_singleton.mp hmem
        refine ⟨⟨slot, hslot, hbefore⟩, ⟨_, hafter, rfl, hmay, ?_⟩⟩
        rw [hkeys, update_self]
        exact hcard
    · rw [hkeys, update_of_ne hne]
      exact ⟨∅, .refl, fun _ hmem => absurd hmem (Finset.notMem_empty _)⟩
  · rcases eq_or_ne other token with rfl | hne
    · obtain rfl := Option.some.inj (hold.symm.trans hslot)
      refine ⟨phase, hafter, hmoves.executed, hmoves.ended, ?_⟩
      rw [hkeys, update_self]
      exact hmoves.gone
    · refine kept_slot ?_
      rw [hslots, update_of_ne hne]
      exact hold

theorem Effect.live_of_executed (h : Effect s s') (hslot : s.slots token = some slot)
    (hexecuted : slot.phase.executed = true) (hlive : token ∈ s'.live scope) :
    token ∈ s.live scope := by
  obtain ⟨added, hevolves, hadded⟩ := h.keys scope
  have hbefore := hevolves.live (live_anti (h.clock scope) hlive)
  rcases Finset.mem_union.mp hbefore with hold | hnew
  · exact hold
  · obtain ⟨other, hother, hnot⟩ := (hadded token hnew).before
    obtain rfl := Option.some.inj (hother.symm.trans hslot)
    exact absurd (hnot.symm.trans hexecuted) Bool.false_ne_true

end Effects

section Steps

variable {s s' : System}

theorem moveSlot_effect {event : Event} (h : s.moveSlot token event = some s') :
    Effect s s' := by
  unfold moveSlot at h
  split at h
  · cases h
  · rename_i slot hslot
    split at h
    · cases h
    · rename_i phase key hmove
      split at h
      · cases h
      · cases h
        exact slot_effect hslot hmove rfl rfl rfl

theorem advance_spec {i : Nat} (h : s.advance i token = some s') :
    ∃ request stage, s.requests[i]? = some request ∧
      s'.requests = s.requests.set i { request with stage } ∧
      (request.action s.phaseOf).next token = some stage ∧ Effect s s' := by
  unfold advance at h
  split at h
  · cases h
  · rename_i request hrequest
    split at h
    · cases h
    · rename_i stage haction
      cases h
      exact ⟨request, stage, hrequest, rfl, by rw [haction, Action.next],
        .of_slots (fun _ => le_rfl) (fun _ => .refl) (fun _ _ hslot => hslot)⟩
    · rename_i scope limit next haction
      split at h
      · rename_i hfresh
        cases h
        exact ⟨request, next token, hrequest, rfl, by rw [haction, Action.next],
          draw_effect hfresh rfl rfl rfl⟩
      · cases h
    · rename_i global stage haction
      cases hslot : s.slots global with
      | none =>
        rw [hslot] at h
        cases h
      | some slot =>
        rw [hslot] at h
        dsimp only at h
        split at h
        · rename_i hphase
          cases h
          have hmove : slot.phase.move (s.clock slot.scope) slot.limit global
              (s.keys slot.scope) .proceed = some (.dropped, s.keys slot.scope) := by
            rw [hphase]
            rfl
          exact ⟨request, stage, hrequest, rfl, by rw [haction, Action.next],
            slot_effect hslot hmove rfl (update_eq_self _ _).symm rfl⟩
        · cases h

theorem renew_effect {i : Nat} {renewal : Renewal} :
    Effect s (({ s with renewals := s.renewals.eraseIdx i }).write renewal.scope
      (renewSlots (s.clock renewal.scope) renewal.tokens (s.keys renewal.scope)).1) := by
  refine .of_slots (fun _ => le_rfl) (fun scope => ?_) (fun _ _ hslot => hslot)
  change Evolves _ _ _ (update s.keys renewal.scope _ scope)
  rcases eq_or_ne scope renewal.scope with rfl | hne
  · rw [update_self]
    exact renewSlots_evolves
  · rw [update_of_ne hne]
    exact .refl

theorem tick_effect {later : Instant} (h : (s.clock scope).us ≤ later.us) :
    Effect s { s with clock := update s.clock scope later } := by
  refine .of_slots (fun other => ?_) (fun _ => .refl) (fun _ _ hslot => hslot)
  change _ ≤ (update s.clock scope later other).us
  rcases eq_or_ne other scope with rfl | hne
  · rw [update_self]
    exact h
  · rw [update_of_ne hne]

theorem step_effect {command : Command} (h : s.step command = some s') : Effect s s' := by
  cases command with
  | tick scope later =>
    obtain ⟨hle, heq⟩ := Option.ite_none_right_eq_some.mp h
    cases heq
    exact tick_effect hle
  | ask node scope limit token =>
    obtain ⟨⟨-, hfresh⟩, heq⟩ := Option.ite_none_right_eq_some.mp h
    cases heq
    exact draw_effect hfresh rfl rfl rfl
  | slot token event => exact moveSlot_effect h
  | renew i =>
    simp only [step] at h
    cases hrenewal : s.renewals[i]? with
    | none =>
      rw [hrenewal] at h
      cases h
    | some renewal =>
      rw [hrenewal] at h
      cases h
      exact renew_effect
  | advance i token =>
    obtain ⟨-, -, -, -, -, heffect⟩ := advance_spec h
    exact heffect
  | _ =>
    cases h
    exact .of_slots (fun _ => le_rfl) (fun _ => .refl) (fun _ _ hslot => hslot)

end Steps

end System

section Requests

def Stage.settled : Stage → List Token
  | .giveBack _ key => [key]
  | .rejected global key => global.toList ++ key.toList
  | _ => []

theorem ended_of_not_acquired (h : phase.acquired = some false) : phase.ended = true := by
  cases phase with
  | full => rfl
  | failed pending => rfl
  | _ => cases h

theorem ended_of_releaseReturned (h : phase.releaseReturned = true) : phase.ended = true := by
  cases phase with
  | released => rfl
  | unreleased pending => rfl
  | _ => cases h

variable {request : Request} {phase : Token → Option Phase}

def Ended (phase : Token → Option Phase) (token : Token) : Prop :=
  ∃ p, phase token = some p ∧ p.ended = true

theorem ended_of_acquire (h : (phase token).bind Phase.acquired = some false) :
    Ended phase token := by
  obtain ⟨p, hp, hfalse⟩ := Option.bind_eq_some_iff.mp h
  exact ⟨p, hp, ended_of_not_acquired hfalse⟩

theorem action_settled {stage : Stage} {drawn : Token}
    (h : (request.action phase).next drawn = some stage) :
    ∀ token ∈ stage.settled, token ∈ request.stage.settled ∨ Ended phase token := by
  unfold Request.action at h
  intro token htoken
  cases hstage : request.stage with
  | start | startKey global =>
    rw [hstage] at h
    dsimp only at h
    split at h
    · cases h
      cases htoken
    · cases h
      cases htoken
  | awaitGlobal global =>
    rw [hstage] at h
    dsimp only at h
    split at h
    · cases h
    · cases h
      cases htoken
    · rename_i hrefused
      cases h
      obtain rfl := mem_singleton.mp htoken
      exact .inr (ended_of_acquire hrefused)
  | awaitKey global key =>
    rw [hstage] at h
    dsimp only at h
    split at h
    · cases h
    · cases h
      cases htoken
    · rename_i hrefused
      cases h
      obtain rfl := mem_singleton.mp htoken
      exact .inr (ended_of_acquire hrefused)
    · rename_i hrefused
      cases h
      obtain rfl := mem_singleton.mp htoken
      exact .inr (ended_of_acquire hrefused)
  | giveBack global key =>
    rw [hstage] at h
    dsimp only at h
    split at h
    · rename_i hreturned
      cases h
      obtain ⟨p, hp, hreleased⟩ := Option.map_eq_some_iff.mp hreturned
      rcases mem_cons.mp htoken with rfl | hkey
      · exact .inr ⟨p, hp, ended_of_releaseReturned hreleased⟩
      · exact .inl hkey
    · cases h
  | rejected global key =>
    rw [hstage] at h
    cases h
  | admitted global key =>
    rw [hstage] at h
    cases h

end Requests

namespace System

variable {s s' : System}

/-- Every acquisition of the scope so far asked with the limit. -/
def Uniform (s : System) (scope : Scope) (limit : Int) : Prop :=
  ∀ token slot, s.slots token = some slot → slot.scope = scope → slot.limit = limit

structure Safe (s : System) : Prop where
  sound : ∀ scope, Sound (s.clock scope) (s.keys scope)
  owned : ∀ scope, ∀ token ∈ members (s.keys scope), ∃ slot, s.slots token = some slot ∧
    slot.scope = scope ∧ slot.phase.mayHold = true
  bounded : ∀ scope limit, 0 < limit → s.Uniform scope limit → ((s.live scope).card : Int) ≤ limit
  settled : ∀ request ∈ s.requests, ∀ token ∈ request.stage.settled, Ended s.phaseOf token

theorem initial_safe (clock : Scope → Instant) : (initial clock).Safe where
  sound _ := by rintro _ ⟨⟩
  owned _ _ hmem := absurd hmem (Finset.notMem_empty _)
  bounded _ _ hlimit _ := hlimit.le
  settled _ hmem := by cases hmem

variable {limit : Int}

theorem Effect.uniform (h : Effect s s') (hafter : s'.Uniform scope limit) :
    s.Uniform scope limit := by
  intro token slot hslot hscope
  obtain ⟨phase, hphase, -⟩ := h.slots token slot hslot
  exact hafter token { slot with phase } hphase hscope

theorem Effect.owned (h : Effect s s') (hs : s.Safe) (hmem : token ∈ members (s'.keys scope)) :
    ∃ slot, s'.slots token = some slot ∧ slot.scope = scope ∧ slot.phase.mayHold = true := by
  obtain ⟨added, hevolves, hadded⟩ := h.keys scope
  rcases Finset.mem_union.mp (hevolves.members hmem) with hold | hnew
  · obtain ⟨slot, hslot, hscope, hmay⟩ := hs.owned scope token hold
    obtain ⟨phase, hphase, -, -, hgone⟩ := h.slots token slot hslot
    refine ⟨_, hphase, hscope, ?_⟩
    by_contra hnot
    rw [hscope] at hgone
    exact hgone hmay (Bool.eq_false_iff.mpr hnot) hmem
  · obtain ⟨slot, hslot, hscope, hmay, -⟩ := (hadded token hnew).after
    exact ⟨slot, hslot, hscope, hmay⟩

theorem Effect.bounded (h : Effect s s') (hs : s.Safe) (hlimit : 0 < limit)
    (huniform : s'.Uniform scope limit) :
    ((s'.live scope).card : Int) ≤ limit := by
  obtain ⟨added, hevolves, hadded⟩ := h.keys scope
  rcases Finset.eq_empty_or_nonempty added with rfl | ⟨token, hnew⟩
  · have hsubset : s'.live scope ⊆ s.live scope := by
      intro token hlive
      have hbefore := hevolves.live (live_anti (h.clock scope) hlive)
      rwa [Finset.union_empty] at hbefore
    have hcard := Finset.card_le_card hsubset
    have hbefore := hs.bounded scope limit hlimit (h.uniform huniform)
    omega
  · obtain ⟨slot, hslot, hscope, -, hcard⟩ := (hadded token hnew).after
    rw [huniform token slot hslot hscope] at hcard
    have hle := Finset.card_le_card (@live_subset (s'.clock scope) (s'.keys scope))
    unfold live
    omega

theorem Effect.ended (h : Effect s s') (hended : Ended s.phaseOf token) :
    Ended s'.phaseOf token := by
  obtain ⟨p, hp, hend⟩ := hended
  obtain ⟨slot, hslot, rfl⟩ := Option.map_eq_some_iff.mp hp
  obtain ⟨phase, hphase, -, hkeeps, -⟩ := h.slots token slot hslot
  exact ⟨phase, by rw [phaseOf, hphase, Option.map_some], hkeeps hend⟩

variable {command : Command}

theorem step_settled (h : s.step command = some s') :
    ∀ request ∈ s'.requests, ∀ token ∈ request.stage.settled,
      (∃ old ∈ s.requests, token ∈ old.stage.settled) ∨ Ended s.phaseOf token := by
  have hsame : s'.requests = s.requests → ∀ request ∈ s'.requests,
      ∀ token ∈ request.stage.settled,
        (∃ old ∈ s.requests, token ∈ old.stage.settled) ∨ Ended s.phaseOf token := by
    intro heq request hmem token htoken
    exact .inl ⟨request, heq ▸ hmem, htoken⟩
  cases command with
  | tick scope later | ask node scope limit token =>
    obtain ⟨-, heq⟩ := Option.ite_none_right_eq_some.mp h
    cases heq
    exact hsame rfl
  | slot token event =>
    simp only [step, moveSlot] at h
    split at h
    · cases h
    · split at h
      · cases h
      · split at h
        · cases h
        · cases h
          exact hsame rfl
  | renewHeld node | abandon i =>
    cases h
    exact hsame rfl
  | renew i =>
    simp only [step] at h
    cases hrenewal : s.renewals[i]? with
    | none =>
      rw [hrenewal] at h
      cases h
    | some renewal =>
      rw [hrenewal] at h
      cases h
      exact hsame rfl
  | acquireRequest node accessKeyID globalLimit keyLimit =>
    cases h
    intro request hmem token htoken
    rcases mem_append.mp hmem with hold | hnew
    · exact .inl ⟨request, hold, htoken⟩
    · obtain rfl := mem_singleton.mp hnew
      cases htoken
  | advance i token =>
    obtain ⟨old, stage, hold, hrequests, haction, -⟩ := advance_spec h
    intro request hmem settled hsettled
    rw [hrequests] at hmem
    rcases mem_or_eq_of_mem_set hmem with hother | rfl
    · exact .inl ⟨request, hother, hsettled⟩
    · rcases action_settled haction settled hsettled with hbefore | hended
      · exact .inl ⟨old, mem_of_getElem? hold, hbefore⟩
      · exact .inr hended

theorem step_safe (hs : s.Safe) (h : s.step command = some s') : s'.Safe := by
  have heffect := step_effect h
  refine ⟨fun scope => ?_, fun scope token hmem => heffect.owned hs hmem,
    fun scope limit hlimit huniform => heffect.bounded hs hlimit huniform,
    fun request hmem token htoken => ?_⟩
  · obtain ⟨added, hevolves, -⟩ := heffect.keys scope
    exact (hevolves.sound (hs.sound scope)).of_le (heffect.clock scope)
  · rcases step_settled h request hmem token htoken with ⟨old, hold, hbefore⟩ | hended
    · exact heffect.ended (hs.settled old hold token hbefore)
    · exact heffect.ended hended

variable {commands : List Command}

theorem run_induction {P : System → Prop} (hstep : ∀ {s s' : System} {command : Command},
    P s → s.step command = some s' → P s') (hs : P s) (h : s.run commands = some s') : P s' := by
  induction commands generalizing s with
  | nil =>
    cases h
    exact hs
  | cons command commands ih =>
    obtain ⟨mid, hmid, hrest⟩ := Option.bind_eq_some_iff.mp h
    exact ih (hstep hs hmid) hrest

theorem run_safe (hs : s.Safe) (h : s.run commands = some s') :
    s'.Safe :=
  run_induction step_safe hs h

/-- The token was asked for and is no unexpired member of any scope. -/
def Lapsed (s : System) (token : Token) : Prop :=
  (∃ slot, s.slots token = some slot ∧ slot.phase.executed = true) ∧ ∀ scope, token ∉ s.live scope

theorem step_lapsed (hlapsed : s.Lapsed token) (h : s.step command = some s') :
    s'.Lapsed token := by
  have heffect := step_effect h
  obtain ⟨⟨slot, hslot, hexecuted⟩, hnot⟩ := hlapsed
  obtain ⟨phase, hphase, hkeeps, -⟩ := heffect.slots token slot hslot
  exact ⟨⟨_, hphase, hkeeps hexecuted⟩,
    fun scope hlive => hnot scope (heffect.live_of_executed hslot hexecuted hlive)⟩

def Released (s : System) (token : Token) : Prop :=
  s.phaseOf token = some .removed ∨ s.phaseOf token = some .released ∨
    s.phaseOf token = some (.unreleased false)

def Expired (s : System) (token : Token) : Prop :=
  ∃ scope key, s.keys scope = some key ∧ token ∈ key.slots.members ∧
    key.slots.score token ≤ (s.clock scope).now

theorem Safe.not_mem (hs : s.Safe) (hphase : s.phaseOf token = some phase)
    (hgone : phase.mayHold = false) (scope : Scope) :
    token ∉ members (s.keys scope) := by
  intro hmem
  obtain ⟨slot, hslot, -, hmay⟩ := hs.owned scope token hmem
  rw [phaseOf, hslot] at hphase
  cases hphase
  exact absurd (hgone.symm.trans hmay) Bool.false_ne_true

theorem Safe.lapsed_of_released (hs : s.Safe) (h : s.Released token) :
    s.Lapsed token := by
  have hgone : ∃ phase, s.phaseOf token = some phase ∧ phase.mayHold = false ∧
      phase.executed = true := by
    rcases h with h | h | h
    · exact ⟨_, h, rfl, rfl⟩
    · exact ⟨_, h, rfl, rfl⟩
    · exact ⟨_, h, rfl, rfl⟩
  obtain ⟨phase, hphase, hnot, hexecuted⟩ := hgone
  obtain ⟨slot, hslot, rfl⟩ := Option.map_eq_some_iff.mp hphase
  exact ⟨⟨slot, hslot, hexecuted⟩,
    fun scope hlive => hs.not_mem hphase hnot scope (live_subset hlive)⟩

theorem executed_of_mayHold (h : phase.mayHold = true) : phase.executed = true := by
  cases phase with
  | asked => cases h
  | failed pending => exact h
  | _ => rfl

theorem Safe.lapsed_of_expired (hs : s.Safe) (h : s.Expired token) :
    s.Lapsed token := by
  obtain ⟨scope, key, hkey, hmem, hscore⟩ := h
  obtain ⟨slot, hslot, hscope, hmay⟩ := hs.owned scope token (by rw [hkey]; exact hmem)
  refine ⟨⟨slot, hslot, executed_of_mayHold hmay⟩, fun other hlive => ?_⟩
  -- The token is a member of its own scope only.
  obtain ⟨slot', hslot', hscope', -⟩ := hs.owned other token (live_subset hlive)
  obtain rfl := Option.some.inj (hslot.symm.trans hslot')
  obtain rfl := hscope.symm.trans hscope'
  unfold live at hlive
  rw [hkey] at hlive
  obtain ⟨-, hlate⟩ := SortedSet.mem_above.mp hlive
  omega

def Succeeded (s : System) (token : Token) : Prop :=
  ∀ pending, s.phaseOf token ≠ some (.failed pending) ∧ s.phaseOf token ≠ some (.unreleased pending)

theorem not_mayHold_of_ended (h : phase.ended = true) (hfailed : ∀ pending, phase ≠ .failed pending)
    (hunreleased : ∀ pending, phase ≠ .unreleased pending) : phase.mayHold = false := by
  cases phase with
  | failed pending => exact absurd rfl (hfailed pending)
  | unreleased pending => exact absurd rfl (hunreleased pending)
  | full => rfl
  | released => rfl
  | _ => cases h

def globalA : Token := ⟨0, 1⟩

def keyA : Token := ⟨0, 2⟩

def globalB : Token := ⟨1, 1⟩

def keyB : Token := ⟨1, 2⟩

/-- The second request finds the access key full; a renewal that was computed while it held
the global slot runs after the release. -/
def contested : List Command :=
  [.acquireRequest 0 1 2 1, .advance 0 globalA, .slot globalA .proceed, .slot globalA .proceed,
    .advance 0 globalA, .advance 0 keyA, .slot keyA .proceed, .slot keyA .proceed,
    .advance 0 keyA,
    .acquireRequest 1 1 2 1, .advance 1 globalB, .slot globalB .proceed, .slot globalB .proceed,
    .advance 1 globalB, .renewHeld 1, .advance 1 keyB, .slot keyB .proceed, .slot keyB .proceed,
    .advance 1 keyB, .slot globalB .proceed, .slot globalB .proceed, .advance 1 globalB,
    .renew 0]

def epoch : Scope → Instant := fun _ => ⟨0, by decide⟩

theorem contested_outcome : ((initial epoch).run contested).map (fun s =>
    (s.requests.map Request.stage, s.phaseOf globalB, s.phaseOf keyB)) =
      some ([.admitted (some globalA) (some keyA), .rejected (some globalB) (some keyB)],
        some .released, some .full) := by
  decide

/-- In every state of every run: a scope whose acquisitions all ask with one positive limit
has at most that many unexpired members; a token that was released or has expired is never
an unexpired member again; the key of an unexpired member has not expired; and no token of a
rejected request is left in a set once its calls have succeeded. -/
theorem slots_stay_within_limit {clock : Scope → Instant} {commands : List Command}
    (h : (initial clock).run commands = some s) :
    (∀ scope limit, 0 < limit → s.Uniform scope limit → ((s.live scope).card : Int) ≤ limit) ∧
      (∀ token, s.Released token ∨ s.Expired token → ∀ more s', s.run more = some s' →
        ∀ scope, token ∉ s'.live scope) ∧
      (∀ scope key, s.keys scope = some key → (s.live scope).Nonempty →
        key.expired (s.clock scope) = false) ∧
      ∀ request ∈ s.requests, ∀ global key, request.stage = .rejected global key →
        ∀ token, token ∈ global ∨ token ∈ key → s.Succeeded token →
          ∀ scope, token ∉ members (s.keys scope) := by
  have hs : s.Safe := run_safe (initial_safe clock) h
  refine ⟨hs.bounded, fun token hended more s' hmore => ?_, fun scope key hkey hlive => ?_,
    fun request hmem global key hstage token htoken hcalls => ?_⟩
  · have hlapsed : s.Lapsed token := by
      rcases hended with hreleased | hexpired
      · exact hs.lapsed_of_released hreleased
      · exact hs.lapsed_of_expired hexpired
    exact (run_induction step_lapsed hlapsed hmore).2
  · obtain ⟨token, hlive⟩ := hlive
    unfold live at hlive
    rw [hkey] at hlive
    exact (hs.sound scope key hkey).not_expired hlive
  · have hsettled : token ∈ request.stage.settled := by
      rw [hstage]
      rcases htoken with hglobal | hkey
      · exact mem_append_left _ (Option.mem_toList.mpr hglobal)
      · exact mem_append_right _ (Option.mem_toList.mpr hkey)
    obtain ⟨phase, hphase, hended⟩ := hs.settled request hmem token hsettled
    refine hs.not_mem hphase (not_mayHold_of_ended hended ?_ ?_)
    · rintro pending rfl
      exact (hcalls pending).1 hphase
    · rintro pending rfl
      exact (hcalls pending).2 hphase

theorem contested_within_limit :
    ∃ s, (initial epoch).run contested = some s ∧ (∀ scope, globalB ∉ s.live scope) ∧
      ∀ scope, keyB ∉ members (s.keys scope) := by
  obtain ⟨s, hrun, hs⟩ := Option.map_eq_some_iff.mp contested_outcome
  obtain ⟨hstages, hphases⟩ := Prod.mk.inj hs
  obtain ⟨hglobal, hkey⟩ := Prod.mk.inj hphases
  obtain ⟨request, hmem, hstage⟩ : ∃ request ∈ s.requests,
      request.stage = .rejected (some globalB) (some keyB) := by
    rw [← mem_map, hstages]
    exact mem_cons_of_mem _ (.head _)
  obtain ⟨-, hlapsed, -, hrejected⟩ := slots_stay_within_limit hrun
  refine ⟨s, hrun, hlapsed globalB (.inl (.inr (.inl hglobal))) [] s rfl,
    hrejected request hmem _ _ hstage keyB (.inr rfl) fun pending => ?_⟩
  rw [hkey]
  exact ⟨nofun, nofun⟩

/-- In every run the warning of a renewal is about a token that the instance still holds and
that was no unexpired member when the script ran. -/
theorem leaseLost_lapsed {clock : Scope → Instant} {commands : List Command}
    (hrun : (initial clock).run commands = some s) {limiter : Limiter} {tokens : List Token}
    (h : limiter.leaseLost scope tokens
      (renewSlots (s.clock scope) tokens (s.keys scope)).2 = true) :
    ∃ token ∈ tokens, token ∈ limiter.heldAt scope ∧ token ∉ s.live scope := by
  have hs := run_safe (initial_safe clock) hrun
  by_contra hnone
  push Not at hnone
  refine absurd (of_decide_eq_true h) (not_lt.mpr ?_)
  rw [renewSlots_count]
  refine countP_mono_left fun token hmem hheld => ?_
  exact decide_eq_true ((hs.sound scope).live_purged (hnone token hmem (of_decide_eq_true hheld)))

def forgotten : List Command :=
  [.ask 0 .global 1 globalA, .slot globalA .proceed, .slot globalA .proceed,
    .tick .global ⟨31000000, by decide⟩]

theorem forgotten_lapsed : ∃ s, (initial epoch).run forgotten = some s ∧
    ∃ token ∈ [globalA], token ∈ (s.limiters 0).heldAt .global ∧ token ∉ s.live .global := by
  have hend : ((initial epoch).run forgotten).map (fun s => (s.limiters 0).leaseLost .global
      [globalA] (renewSlots (s.clock .global) [globalA] (s.keys .global)).2) = some true := by
    decide
  obtain ⟨s, hrun, hlost⟩ := Option.map_eq_some_iff.mp hend
  exact ⟨s, hrun, leaseLost_lapsed hrun hlost⟩

end System

end EchoJoyGateway.Concurrency
