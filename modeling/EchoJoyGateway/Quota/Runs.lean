import EchoJoyGateway.Quota.Calls

/-!
# Runs of the scripts

Any number of instances issue calls in any order; each script is one atomic
step. A run starts from missing keys. Every call does one of four things to
the record of a key, and the run invariants are read off those four moves.
-/

namespace EchoJoyGateway.Quota

open Decimal LuaNumber Redis List

variable {ticket : Ticket} {store : QuotaStore}

structure SharedState where
  store : QuotaStore
  tickets : List Ticket

def SharedState.empty : SharedState where
  store := fun _ => none
  tickets := []

inductive Call where
  | evaluate (mode : Mode) (accessKeyID : Nat) (rules : List Rule) (nowMS : Int)
  | hydrate (targets : List (Rule × RestoredState))
  | complete (ticket : Ticket) (costNano : Int)
  deriving DecidableEq

def issue (mode : Mode) (answer : Option (Ticket × List Mark)) (tickets : List Ticket) :
    List Ticket :=
  match mode, answer with
  | .admission, some (ticket, _) => ticket :: tickets
  | _, _ => tickets

def Call.apply (call : Call) (w : SharedState) : SharedState :=
  match call with
  | .evaluate mode accessKeyID rules nowMS =>
    let result := runQuota mode accessKeyID rules nowMS w.store
    { store := result.1
      tickets := issue mode (admitted accessKeyID rules result.2) w.tickets }
  | .hydrate targets => { w with store := runInit (targets.map Prod.snd) w.store }
  | .complete ticket costNano => { w with store := (Quota.complete ticket costNano w.store).1 }

/-- The values of a checkpoint are values of the fields' Go types. -/
structure Representable (s : RestoredState) : Prop where
  used : inInt64 s.usedNano = true
  started : ∀ t, s.windowStartedAtMS = some t → inInt64 t = true
  ends : ∀ t, s.windowEndsAtMS = some t → inInt64 t = true

/-- What the callers promise: the rules of one access key are valid and have
distinct ids, `hydrate` has validated its checkpoints, and a ticket comes from
`Admit`. -/
inductive Call.Legal (w : SharedState) : Call → Prop
  | evaluate {mode : Mode} {accessKeyID : Nat} {rules : List Rule} {nowMS : Int}
      (hkey : accessKeyID ≠ 0) (hvalid : validRules rules = true)
      (hnow : inInt64 nowMS = true) :
      Call.Legal w (.evaluate mode accessKeyID rules nowMS)
  | hydrate {targets : List (Rule × RestoredState)}
      (hnodup : (targets.map fun p => stateKey p.2).Nodup)
      (hvalid : ∀ p ∈ targets, ruleShapeValid p.1 = true)
      (haccepted : ∀ p ∈ targets, Accepted p.1 p.2)
      (htypes : ∀ p ∈ targets, Representable p.2) :
      Call.Legal w (.hydrate targets)
  | complete {ticket : Ticket} {costNano : Int} (hissued : ticket ∈ w.tickets)
      (hcost : inInt64 costNano = true) :
      Call.Legal w (.complete ticket costNano)

inductive Run : List Call → SharedState → Prop
  | start : Run [] SharedState.empty
  | step {calls : List Call} {w : SharedState} (call : Call) (hrun : Run calls w)
      (hlegal : call.Legal w) : Run (calls ++ [call]) (call.apply w)

def replay (calls : List Call) : SharedState :=
  calls.foldl (fun w call => call.apply w) SharedState.empty

def Call.rules : Call → List Rule
  | .evaluate _ _ rules _ => rules
  | .hydrate targets => targets.map Prod.fst
  | .complete _ _ => []

def Call.checkpoints : Call → List RestoredState
  | .hydrate targets => targets.map Prod.snd
  | _ => []

/-- Revisions are exact in Lua and hydrated counters are at most `counters`. -/
structure Call.InRange (counters : Nat) (call : Call) : Prop where
  rules : ∀ rule ∈ call.rules, rule.revision ≤ 2 ^ 53
  checkpoints : ∀ s ∈ call.checkpoints, s.ruleRevision ≤ 2 ^ 53 ∧
    s.windowGeneration ≤ counters ∧ s.snapshotVersion ≤ counters

def Call.charge (key : RuleKey) (revision generation : Nat) : Call → Int
  | .complete ticket costNano =>
    if ticket.accessKeyID = key.1 ∧
        { ruleID := key.2, ruleRevision := revision, windowGeneration := generation } ∈
          ticket.rules then costNano
    else 0
  | _ => 0

def Reached (revision generation : Nat) (s : RestoredState) : Prop :=
  revision < s.ruleRevision ∨ (revision = s.ruleRevision ∧ generation ≤ s.windowGeneration)

structure Issued (store : QuotaStore) (ticket : Ticket) : Prop where
  key : ticket.accessKeyID ≠ 0
  nodup : (ticket.rules.map TicketRule.ruleID).Nodup
  reached : ∀ rule ∈ ticket.rules, ∃ s, stateKey s = (ticket.accessKeyID, rule.ruleID) ∧
    store (ticket.accessKeyID, rule.ruleID) = some (checkpointHash s) ∧
    Reached rule.ruleRevision rule.windowGeneration s

variable {b : Nat}

theorem Issued.revisions (h : Issued store ticket) (htyped : Typed b store) :
    ∀ rule ∈ ticket.rules, rule.ruleRevision ≤ 2 ^ 53 := by
  intro rule hmem
  obtain ⟨s, hkey, hstored, hreached⟩ := h.reached rule hmem
  obtain ⟨t, htkey, ht, hfits⟩ := htyped _ _ hstored
  obtain rfl := checkpointHash_injective (hkey.trans htkey.symm) ht
  have hrev := hfits.revision
  rcases hreached with hlt | ⟨heq, -⟩
  · exact hlt.le.trans hrev
  · exact heq.le.trans hrev

/-- The four things a call can do to the record of a key. -/
inductive Move (b : Nat) (call : Call) (key : RuleKey) (before after : Option QuotaHash) : Prop
  | same (hafter : after = before)
      (hcharge : ∀ s, stateKey s = key → before = some (checkpointHash s) →
        call.charge key s.ruleRevision s.windowGeneration = 0)
      (hcheckpoints : ∀ checkpoint ∈ call.checkpoints, stateKey checkpoint = key →
        ∃ s, stateKey s = key ∧ before = some (checkpointHash s) ∧
          checkpoint.ruleRevision ≤ s.ruleRevision)
  | seeded (targets : List (Rule × RestoredState)) (rule : Rule) (checkpoint : RestoredState)
      (hcall : call = .hydrate targets) (hmem : (rule, checkpoint) ∈ targets)
      (hkey : stateKey checkpoint = key) (hfits : Fits (2 ^ 53) b checkpoint)
      (hafter : after = some (checkpointHash checkpoint))
      (hbefore : before = none ∨ ∃ s, stateKey s = key ∧ before = some (checkpointHash s) ∧
        s.ruleRevision < checkpoint.ruleRevision)
  | opened (s : RestoredState) (rules : List Rule) (rule : Rule) (nowMS : Int)
      (hcall : call = .evaluate .admission key.1 rules nowMS) (hmem : rule ∈ rules)
      (hnow : inInt64 nowMS = true) (hkey : stateKey s = key) (hid : key.2 = rule.id)
      (hfits : Fits (2 ^ 53) b s) (hrevision : s.ruleRevision = rule.revision)
      (hidle : idle nowMS rule.kind s = true) (hbefore : before = some (checkpointHash s))
      (hafter : after = some (checkpointHash (opened s nowMS (windowEnd rule nowMS))))
  | settled (s : RestoredState) (ticket : Ticket) (rule : TicketRule) (costNano : Int)
      (hcall : call = .complete ticket costNano) (hmem : rule ∈ ticket.rules)
      (hid : (ticket.accessKeyID, rule.ruleID) = key)
      (hcharge : call.charge key s.ruleRevision s.windowGeneration = costNano)
      (hkey : stateKey s = key) (hfits : Fits (2 ^ 53) b s) (hrule : stillCurrent rule s)
      (hbefore : before = some (checkpointHash s))
      (hafter : after = some (checkpointHash (settled s costNano)))

theorem Fits.of_accepted {rule : Rule} {s : RestoredState} (h : Accepted rule s)
    (htypes : Representable s) (hrev : s.ruleRevision ≤ 2 ^ 53) (hgen : s.windowGeneration ≤ b)
    (hver : s.snapshotVersion ≤ b) : Fits (2 ^ 53) b s where
  revision := hrev
  used_nonneg := (validateRestoredState_ok.mp (accepted_iff.mp h).1).2.2.2.1
  used_lt := (inInt64_iff.mp htypes.used).2
  started := htypes.started
  ends := htypes.ends
  generation := hgen
  version := hver

theorem move_evaluate (htyped : Typed b store) (hb : b + 1 < 2 ^ 63) (mode : Mode) (a : Nat)
    {rules : List Rule} {nowMS : Int} (hnodup : (rules.map Rule.id).Nodup)
    (hrev : ∀ rule ∈ rules, rule.revision ≤ 2 ^ 53) (hnow : inInt64 nowMS = true) (key : RuleKey) :
    Move b (.evaluate mode a rules nowMS) key (store key)
      ((runQuota mode a rules nowMS store).1 key) := by
  have hsame : (runQuota mode a rules nowMS store).1 key = store key →
      Move b (.evaluate mode a rules nowMS) key (store key)
        ((runQuota mode a rules nowMS store).1 key) :=
    fun h => .same h (fun _ _ _ => rfl) nofun
  rcases runQuota_spec htyped hb mode a nowMS hnodup hrev with
    ⟨hstore, -⟩ | ⟨s, allowed, hs, -, hother⟩
  · exact hsame (congrFun hstore key)
  · by_cases hkey : ∃ rule ∈ rules, (a, rule.id) = key
    · obtain ⟨rule, hmem, rfl⟩ := hkey
      obtain ⟨hcur, hafter⟩ := hs rule hmem
      by_cases hopen : opens mode allowed nowMS rule (s rule) = true
      · have hparts := hopen
        simp only [opens, Bool.and_eq_true, decide_eq_true_eq] at hparts
        obtain ⟨⟨rfl, -⟩, hidle⟩ := hparts
        rw [evaluated_of_opens hopen] at hafter
        exact .opened (s rule) rules rule nowMS rfl hmem hnow hcur.key rfl hcur.fits
          hcur.revision hidle hcur.stored hafter
      · rw [evaluated_of_not_opens hopen] at hafter
        exact hsame (hafter.trans hcur.stored.symm)
    · exact hsame (hother key fun rule hmem heq => hkey ⟨rule, hmem, heq⟩)

theorem move_hydrate (htyped : Typed b store) {targets : List (Rule × RestoredState)}
    (hnodup : (targets.map fun p => stateKey p.2).Nodup)
    (hfits : ∀ p ∈ targets, Fits (2 ^ 53) b p.2) (key : RuleKey) :
    Move b (.hydrate targets) key (store key) (runInit (targets.map Prod.snd) store key) := by
  have hkeys : ((targets.map Prod.snd).map stateKey).Nodup := by
    rw [map_map]
    exact hnodup
  have hrevs : ∀ s ∈ targets.map Prod.snd, s.ruleRevision ≤ 2 ^ 53 := by
    intro s hs
    obtain ⟨p, hp, rfl⟩ := mem_map.mp hs
    exact (hfits p hp).revision
  obtain ⟨hwrote, hother⟩ := runInit_spec htyped hkeys hrevs
  by_cases hkey : ∃ p ∈ targets, stateKey p.2 = key
  · obtain ⟨⟨rule, checkpoint⟩, hmem, rfl⟩ := hkey
    have hmem' : checkpoint ∈ targets.map Prod.snd := mem_map_of_mem hmem
    rcases hwrote checkpoint hmem' with ⟨hnone, hafter⟩ | ⟨s, hs, hsfits, hbefore, hafter⟩
    · exact .seeded targets rule checkpoint rfl hmem rfl (hfits _ hmem) hafter (.inl hnone)
    · rcases Nat.lt_or_ge s.ruleRevision checkpoint.ruleRevision with hlt | hge
      · rw [hydrated, if_pos hlt] at hafter
        exact .seeded targets rule checkpoint rfl hmem rfl (hfits _ hmem) hafter
          (.inr ⟨s, hs, hbefore, hlt⟩)
      · rw [hydrated, if_neg (Nat.not_lt.mpr hge)] at hafter
        refine .same (hafter.trans hbefore.symm) (fun _ _ _ => rfl) fun other hother heq => ?_
        have hunique : other = checkpoint := inj_on_of_nodup_map hkeys hother hmem' heq
        exact ⟨s, hs, hbefore, hunique ▸ hge⟩
  · refine .same (hother key ?_) (fun _ _ _ => rfl) fun checkpoint hmem heq => ?_
    · intro checkpoint hmem heq
      obtain ⟨p, hp, rfl⟩ := mem_map.mp hmem
      exact hkey ⟨p, hp, heq⟩
    · obtain ⟨p, hp, rfl⟩ := mem_map.mp hmem
      exact absurd ⟨p, hp, heq⟩ hkey

theorem complete_fst (ticket : Ticket) (cost : Int) (store : QuotaStore)
    (h : skipsCompletion ticket cost = false) :
    (complete ticket cost store).1 = (runComplete ticket cost store).1 := by
  simp only [complete, h, Bool.false_eq_true, if_false]
  split <;> simp_all

theorem charge_complete {cost : Int} {key : RuleKey} {revision generation : Nat} :
    Call.charge key revision generation (.complete ticket cost) =
      if ticket.accessKeyID = key.1 ∧
        { ruleID := key.2, ruleRevision := revision, windowGeneration := generation } ∈
          ticket.rules then cost else 0 := rfl

theorem move_complete (htyped : Typed b store) (hb : b + 1 < 2 ^ 63) (hissued : Issued store ticket)
    {cost : Int} (hcost : inInt64 cost = true) (key : RuleKey) :
    Move b (.complete ticket cost) key (store key) ((complete ticket cost store).1 key) := by
  have hnone : ∀ checkpoint ∈ (Call.complete ticket cost).checkpoints, stateKey checkpoint = key →
      ∃ s, stateKey s = key ∧ store key = some (checkpointHash s) ∧
        checkpoint.ruleRevision ≤ s.ruleRevision := nofun
  cases hskip : skipsCompletion ticket cost with
  | true =>
    refine .same (by simp [complete, hskip]) (fun s _ _ => ?_) hnone
    simp only [skipsCompletion, Bool.or_eq_true, decide_eq_true_eq, List.isEmpty_iff] at hskip
    rcases hskip with (hzero | hempty) | hcost0
    · exact absurd hzero hissued.key
    · rw [charge_complete, if_neg]
      rintro ⟨-, hmem⟩
      rw [hempty] at hmem
      exact List.not_mem_nil hmem
    · rw [charge_complete, hcost0, ite_self]
  | false =>
    rw [complete_fst ticket cost store hskip]
    obtain ⟨change, reply, -, -, hsettles, hother⟩ :=
      runComplete_spec htyped hb hcost hissued.nodup (hissued.revisions htyped)
    by_cases hkey : ∃ rule ∈ ticket.rules, (ticket.accessKeyID, rule.ruleID) = key
    · obtain ⟨rule, hmem, rfl⟩ := hkey
      have huncharged : ∀ s : RestoredState, ¬ stillCurrent rule s →
          Call.charge (ticket.accessKeyID, rule.ruleID) s.ruleRevision s.windowGeneration
            (.complete ticket cost) = 0 := by
        intro s hrule
        rw [charge_complete, if_neg]
        rintro ⟨-, hentry⟩
        have heq := inj_on_of_nodup_map hissued.nodup hentry hmem rfl
        exact hrule ⟨(congrArg TicketRule.ruleRevision heq).symm,
          (congrArg TicketRule.windowGeneration heq).symm⟩
      have hrow := hsettles rule hmem
      generalize change rule = entry at hrow
      cases hrow with
      | absent hbefore hafter =>
        refine .same (hafter.trans hbefore.symm) (fun s _ hs => ?_) hnone
        rw [hbefore] at hs
        cases hs
      | outdated s hskey hfits hbefore hrule hafter =>
        refine .same (hafter.trans hbefore.symm) (fun t ht hts => ?_) hnone
        obtain rfl := checkpointHash_injective (ht.trans hskey.symm)
          (Option.some.inj (hts.symm.trans hbefore))
        exact huncharged t hrule
      | current s hskey hfits hbefore hrule hafter =>
        refine .settled s ticket rule cost rfl hmem rfl ?_ hskey hfits hrule hbefore hafter
        rw [charge_complete, if_pos]
        obtain ⟨hr, hg⟩ := hrule
        exact ⟨rfl, hr ▸ hg ▸ hmem⟩
    · refine .same (hother key fun rule hmem heq => hkey ⟨rule, hmem, heq⟩) (fun s _ _ => ?_) hnone
      rw [charge_complete, if_neg]
      rintro ⟨ha, hmem⟩
      exact hkey ⟨_, hmem, by rw [ha]⟩

theorem Call.move {counters : Nat} {w : SharedState} (htyped : Typed b w.store)
    (hb : b + 1 < 2 ^ 63) (hissued : ∀ ticket ∈ w.tickets, Issued w.store ticket) {call : Call}
    (hlegal : call.Legal w) (hrange : call.InRange counters) (hcounters : counters ≤ b)
    (key : RuleKey) : Move b call key (w.store key) ((call.apply w).store key) := by
  cases hlegal with
  | evaluate hkey hvalid hnow =>
    exact move_evaluate htyped hb _ _ (validRules_nodup hvalid) hrange.rules hnow key
  | hydrate hnodup hvalid haccepted htypes =>
    refine move_hydrate htyped hnodup (fun p hp => ?_) key
    obtain ⟨hrev, hgen, hver⟩ := hrange.checkpoints p.2 (mem_map_of_mem hp)
    exact .of_accepted (haccepted p hp) (htypes p hp) hrev (hgen.trans hcounters)
      (hver.trans hcounters)
  | complete hticket hcost => exact move_complete htyped hb (hissued _ hticket) hcost key

section Moves

variable {b : Nat} {call : Call} {key : RuleKey} {before after : Option QuotaHash}

theorem Move.typed (h : Move b call key before after)
    (hbefore : ∀ row, before = some row →
      ∃ s, stateKey s = key ∧ row = checkpointHash s ∧ Fits (2 ^ 53) b s) :
    ∀ row, after = some row →
      ∃ s, stateKey s = key ∧ row = checkpointHash s ∧ Fits (2 ^ 53) (b + 1) s := by
  intro row hrow
  cases h with
  | same hafter =>
    obtain ⟨s, hkey, hs, hfits⟩ := hbefore row (hafter ▸ hrow)
    exact ⟨s, hkey, hs, hfits.mono le_rfl (Nat.le_succ b)⟩
  | seeded targets rule checkpoint hcall hmem hkey hfits hafter =>
    rw [hafter] at hrow
    exact ⟨checkpoint, hkey, (Option.some.inj hrow).symm, hfits.mono le_rfl (Nat.le_succ b)⟩
  | opened s rules rule nowMS hcall hmem hnow hkey hid hfits hrevision hidle hbefore' hafter =>
    rw [hafter] at hrow
    exact ⟨Quota.opened s nowMS (windowEnd rule nowMS), hkey, (Option.some.inj hrow).symm,
      hfits.opened hnow (inInt64_wrapInt64 _)⟩
  | settled s ticket rule cost hcall hmem hid hcharge hkey hfits hrule hbefore' hafter =>
    rw [hafter] at hrow
    exact ⟨Quota.settled s cost, (stateKey_settled s cost).trans hkey,
      (Option.some.inj hrow).symm, hfits.settled cost⟩

theorem Move.grows (h : Move b call key before after) {s : RestoredState}
    (hkey : stateKey s = key) (hbefore : before = some (checkpointHash s)) :
    ∃ t, stateKey t = key ∧ after = some (checkpointHash t) ∧
      (s.ruleRevision < t.ruleRevision ∨ (s.ruleRevision = t.ruleRevision ∧
        s.windowGeneration ≤ t.windowGeneration ∧
          (t = s ∨ s.snapshotVersion < t.snapshotVersion))) := by
  have hunique : ∀ t, stateKey t = key → before = some (checkpointHash t) → t = s :=
    fun t ht htb => checkpointHash_injective (ht.trans hkey.symm)
      (Option.some.inj (htb.symm.trans hbefore))
  cases h with
  | same hafter => exact ⟨s, hkey, hafter.trans hbefore, .inr ⟨rfl, le_rfl, .inl rfl⟩⟩
  | seeded targets rule checkpoint hcall hmem hckey hfits hafter hold =>
    refine ⟨checkpoint, hckey, hafter, .inl ?_⟩
    rcases hold with hnone | ⟨t, ht, htb, hlt⟩
    · rw [hbefore] at hnone
      cases hnone
    · rwa [hunique t ht htb] at hlt
  | opened t rules rule nowMS hcall hmem hnow htkey hid hfits hrevision hidle htb hafter =>
    obtain rfl := hunique t htkey htb
    exact ⟨Quota.opened t nowMS (windowEnd rule nowMS), htkey, hafter,
      .inr ⟨rfl, Nat.le_succ _, .inr (Nat.lt_succ_self _)⟩⟩
  | settled t ticket rule cost hcall hmem hid hcharge htkey hfits hrule htb hafter =>
    obtain rfl := hunique t htkey htb
    refine ⟨Quota.settled t cost, (stateKey_settled t cost).trans htkey, hafter, .inr ?_⟩
    exact ⟨(settled_revision t cost).symm, (settled_generation t cost).ge, settled_version t cost⟩

end Moves

theorem Reached.trans {revision generation : Nat} {s t : RestoredState}
    (h : Reached revision generation s)
    (hgrows : s.ruleRevision < t.ruleRevision ∨ (s.ruleRevision = t.ruleRevision ∧
      s.windowGeneration ≤ t.windowGeneration)) : Reached revision generation t := by
  unfold Reached at h ⊢
  omega

variable {call : Call}

theorem Issued.preserved {b : Nat} {store' : QuotaStore} (h : Issued store ticket)
    (hmove : ∀ key, Move b call key (store key) (store' key)) :
    Issued store' ticket where
  key := h.key
  nodup := h.nodup
  reached := by
    intro rule hmem
    obtain ⟨s, hkey, hstored, hdom⟩ := h.reached rule hmem
    obtain ⟨t, htkey, hafter, hgrows⟩ := (hmove _).grows hkey hstored
    exact ⟨t, htkey, hafter, hdom.trans (hgrows.imp id fun h => ⟨h.1, h.2.1⟩)⟩

theorem Reached.refl (s : RestoredState) : Reached s.ruleRevision s.windowGeneration s :=
  .inr ⟨rfl, le_rfl⟩

variable {mode : Mode}

theorem stateKey_evaluated {allowed : Bool} {nowMS : Int} {rule : Rule} {s : RestoredState} :
    stateKey (evaluated mode allowed nowMS rule s) = stateKey s := by
  unfold evaluated
  split <;> rfl

theorem issued_of_admitted {b a : Nat} {rules : List Rule} {nowMS : Int} (htyped : Typed b store)
    (hb : b + 1 < 2 ^ 63) (hkey : a ≠ 0) (hnodup : (rules.map Rule.id).Nodup)
    (hrev : ∀ rule ∈ rules, rule.revision ≤ 2 ^ 53) (hnow : inInt64 nowMS = true)
    {marks : List Mark}
    (h : admitted a rules (runQuota .admission a rules nowMS store).2 = some (ticket, marks)) :
    Issued (runQuota .admission a rules nowMS store).1 ticket := by
  obtain ⟨s, hs, rfl, hrules, -⟩ := admitted_spec htyped hb hnodup hrev hnow h
  have hids : ∀ rule ∈ rules, (evaluated .admission true nowMS rule (s rule)).ruleID = rule.id := by
    intro rule hmem
    have hk := (@stateKey_evaluated .admission true nowMS rule (s rule)).trans (hs rule hmem).1.key
    exact (Prod.mk.inj hk).2
  refine ⟨hkey, ?_, ?_⟩
  · have hsame : ticket.rules.map TicketRule.ruleID = rules.map Rule.id := by
      rw [hrules, map_map]
      exact map_congr_left fun rule hmem => hids rule hmem
    rw [hsame]
    exact hnodup
  · intro entry hentry
    rw [hrules] at hentry
    obtain ⟨rule, hmem, rfl⟩ := mem_map.mp hentry
    refine ⟨_, ?_, ?_, .refl _⟩
    · rw [stateKey_evaluated, (hs rule hmem).1.key]
      simp only [ticketRule, hids rule hmem]
    · simp only [ticketRule, hids rule hmem]
      exact (hs rule hmem).2

theorem mem_issue {answer : Option (Ticket × List Mark)} {tickets : List Ticket}
    (h : ticket ∈ issue mode answer tickets) :
    ticket ∈ tickets ∨ mode = .admission ∧ ∃ marks, answer = some (ticket, marks) := by
  unfold issue at h
  split at h
  · rcases mem_cons.mp h with rfl | h
    · exact .inr ⟨rfl, _, rfl⟩
    · exact .inl h
  · exact .inl h

structure Sound (b : Nat) (w : SharedState) : Prop where
  typed : Typed b w.store
  issued : ∀ ticket ∈ w.tickets, Issued w.store ticket

variable {w : SharedState}

theorem Sound.apply {b counters : Nat} (h : Sound b w) (hb : b + 1 < 2 ^ 63) (hlegal : call.Legal w)
    (hrange : call.InRange counters) (hcounters : counters ≤ b) :
    Sound (b + 1) (call.apply w) := by
  have hmove := Call.move h.typed hb h.issued hlegal hrange hcounters
  refine ⟨fun key row hrow => (hmove key).typed (fun row => h.typed key row) row hrow, ?_⟩
  intro ticket hticket
  have hkept : ticket ∈ w.tickets → Issued (call.apply w).store ticket :=
    fun hmem => (h.issued ticket hmem).preserved hmove
  cases hlegal with
  | evaluate hkey hvalid hnow =>
    rcases mem_issue hticket with hold | ⟨rfl, marks, hanswer⟩
    · exact hkept hold
    · exact issued_of_admitted h.typed hb hkey (validRules_nodup hvalid) hrange.rules hnow hanswer
  | hydrate => exact hkept hticket
  | complete => exact hkept hticket

theorem Run.sound {calls : List Call} (hrun : Run calls w) {counters : Nat}
    (hrange : ∀ call ∈ calls, call.InRange counters) (hcount : counters + calls.length < 2 ^ 63) :
    Sound (counters + calls.length) w := by
  induction hrun with
  | start =>
    refine ⟨fun key row hrow => ?_, nofun⟩
    cases hrow
  | @step calls w call hrun hlegal ih =>
    rw [length_append] at hcount ⊢
    have hbefore := ih (fun c hc => hrange c (mem_append_left _ hc)) (by omega)
    exact hbefore.apply hcount hlegal (hrange call (by simp)) (Nat.le_add_right _ _)

end EchoJoyGateway.Quota
