import EchoJoyGateway.Quota.Runs

/-!
# Every charge is counted once

The amount stored for the current window of a rule is the amount the window
was hydrated with plus the costs of all settlements of tickets of exactly that
revision and generation, capped at the largest `int64`.
-/

namespace EchoJoyGateway.Quota

open Decimal LuaNumber Redis List

def charges (key : RuleKey) (revision generation : Nat) (calls : List Call) : Int :=
  (calls.map (Call.charge key revision generation)).sum

def firstHydrated (key : RuleKey) (revision : Nat) (calls : List Call) : Option RestoredState :=
  (calls.flatMap Call.checkpoints).find? fun s =>
    decide (stateKey s = key ∧ s.ruleRevision = revision)

def carried (checkpoint : RestoredState) (generation : Nat) : Int :=
  if generation = checkpoint.windowGeneration then checkpoint.usedNano else 0

theorem charges_append (key : RuleKey) (revision generation : Nat) (calls : List Call)
    (call : Call) :
    charges key revision generation (calls ++ [call]) =
      charges key revision generation calls + call.charge key revision generation := by
  simp [charges]

theorem checkpoints_append (calls : List Call) (call : Call) :
    (calls ++ [call]).flatMap Call.checkpoints =
      calls.flatMap Call.checkpoints ++ call.checkpoints := by
  simp

variable {key : RuleKey} {calls : List Call} {checkpoint : RestoredState}

theorem firstHydrated_append_of_some {revision : Nat}
    (h : firstHydrated key revision calls = some checkpoint) (call : Call) :
    firstHydrated key revision (calls ++ [call]) = some checkpoint := by
  unfold firstHydrated at h ⊢
  rw [checkpoints_append, find?_append, h, Option.some_or]

theorem firstHydrated_append_of_fresh {call : Call} (hkey : stateKey checkpoint = key)
    (hold : ∀ s ∈ calls.flatMap Call.checkpoints, stateKey s = key →
      s.ruleRevision ≠ checkpoint.ruleRevision) (hnodup : (call.checkpoints.map stateKey).Nodup)
    (hmem : checkpoint ∈ call.checkpoints) :
    firstHydrated key checkpoint.ruleRevision (calls ++ [call]) = some checkpoint := by
  unfold firstHydrated
  rw [checkpoints_append, find?_append]
  have hnone : (calls.flatMap Call.checkpoints).find? (fun s =>
      decide (stateKey s = key ∧ s.ruleRevision = checkpoint.ruleRevision)) = none := by
    refine find?_eq_none.mpr fun s hs => ?_
    simp only [decide_eq_true_eq]
    rintro ⟨hskey, hrev⟩
    exact hold s hs hskey hrev
  rw [hnone]
  cases hfind : call.checkpoints.find? (fun s =>
      decide (stateKey s = key ∧ s.ruleRevision = checkpoint.ruleRevision)) with
  | none =>
    have hno := find?_eq_none.mp hfind checkpoint hmem
    exact absurd (decide_eq_true ⟨hkey, rfl⟩) hno
  | some s =>
    have hs := mem_of_find?_eq_some hfind
    have hp := find?_some hfind
    simp only [decide_eq_true_eq] at hp
    exact congrArg some (inj_on_of_nodup_map hnodup hs hmem (hp.1.trans hkey.symm))

/-- How the record of a key accounts for the calls made so far. -/
inductive Account (calls : List Call) (key : RuleKey) : Option QuotaHash → Prop
  | absent (hcharges : ∀ revision generation, charges key revision generation calls = 0)
      (hcheckpoints : ∀ s ∈ calls.flatMap Call.checkpoints, stateKey s ≠ key) :
      Account calls key none
  | held (s checkpoint : RestoredState) (hkey : stateKey s = key)
      (hfirst : firstHydrated key s.ruleRevision calls = some checkpoint)
      (hgeneration : checkpoint.windowGeneration ≤ s.windowGeneration)
      (hused : s.usedNano = min (2 ^ 63 - 1) (carried checkpoint s.windowGeneration +
        charges key s.ruleRevision s.windowGeneration calls))
      (hlater : ∀ revision generation,
        ¬ Reached revision generation s → charges key revision generation calls = 0)
      (hcheckpoints : ∀ t ∈ calls.flatMap Call.checkpoints, stateKey t = key →
        t.ruleRevision ≤ s.ruleRevision) :
      Account calls key (some (checkpointHash s))

theorem settled_used {s : RestoredState} {cost : Int} (hcost : 0 ≤ cost) :
    (settled s cost).usedNano = min (2 ^ 63 - 1) (s.usedNano + cost) := by
  by_cases hover : overflows s cost
  · have hbig : 2 ^ 63 - 1 ≤ s.usedNano + cost := by
      unfold overflows at hover
      omega
    rw [min_eq_left hbig]
    by_cases hfull : s.usedNano = 2 ^ 63 - 1
    · rw [settled_of_full hover hfull, hfull]
    · rw [settled_of_overflows hover hfull]
      rfl
  · rw [settled_of_not_overflows hover]
    unfold overflows at hover
    change s.usedNano + cost = _
    omega

section Step

variable {b : Nat} {calls : List Call} {call : Call} {key : RuleKey}
  {before after : Option QuotaHash}

/-- A call charges only windows that the key's record has reached. -/
def ChargesReached (call : Call) (key : RuleKey) (before : Option QuotaHash) : Prop :=
  ∀ revision generation, call.charge key revision generation ≠ 0 →
    ∃ s, stateKey s = key ∧ before = some (checkpointHash s) ∧ Reached revision generation s

theorem Account.none_charge (hreached : ChargesReached call key none) (revision generation : Nat) :
    call.charge key revision generation = 0 := by
  by_contra hne
  obtain ⟨s, -, hs, -⟩ := hreached revision generation hne
  cases hs

theorem Account.later_charge {s : RestoredState} (hkey : stateKey s = key)
    (hreached : ChargesReached call key (some (checkpointHash s))) {revision generation : Nat}
    (hlater : ¬ Reached revision generation s) :
    call.charge key revision generation = 0 := by
  by_contra hne
  obtain ⟨t, ht, hts, hdom⟩ := hreached revision generation hne
  obtain rfl := checkpointHash_injective (ht.trans hkey.symm) (Option.some.inj hts.symm)
  exact hlater hdom

theorem Account.seed (hacc : Account calls key before) (hreached : ChargesReached call key before)
    {checkpoint : RestoredState} (hkey : stateKey checkpoint = key)
    (hfits : Fits (2 ^ 53) b checkpoint) (hmem : checkpoint ∈ call.checkpoints)
    (hnodup : (call.checkpoints.map stateKey).Nodup)
    (hbefore : before = none ∨ ∃ s, stateKey s = key ∧ before = some (checkpointHash s) ∧
      s.ruleRevision < checkpoint.ruleRevision) :
    Account (calls ++ [call]) key (some (checkpointHash checkpoint)) := by
  have hzero : ∀ revision generation, checkpoint.ruleRevision ≤ revision →
      charges key revision generation (calls ++ [call]) = 0 := by
    intro revision generation hrev
    rw [charges_append]
    cases hacc with
    | absent hcharges _ =>
      rw [hcharges, Account.none_charge hreached, add_zero]
    | held s cp hskey _ _ _ hlater _ =>
      rcases hbefore with hnone | ⟨t, ht, htb, hlt⟩
      · cases hnone
      · obtain rfl := checkpointHash_injective (ht.trans hskey.symm) (Option.some.inj htb.symm)
        have hnot : ¬ Reached revision generation t := by
          unfold Reached
          omega
        rw [hlater _ _ hnot, Account.later_charge ht hreached hnot, add_zero]
  have hold : ∀ t ∈ calls.flatMap Call.checkpoints, stateKey t = key →
      t.ruleRevision < checkpoint.ruleRevision := by
    intro t ht htkey
    cases hacc with
    | absent _ hnone => exact absurd htkey (hnone t ht)
    | held s cp hskey _ _ _ _ hall =>
      rcases hbefore with hnone | ⟨u, hu, hub, hlt⟩
      · cases hnone
      · obtain rfl := checkpointHash_injective (hu.trans hskey.symm) (Option.some.inj hub.symm)
        exact (hall t ht htkey).trans_lt hlt
  refine .held checkpoint checkpoint hkey
    (firstHydrated_append_of_fresh hkey (fun t ht htkey => (hold t ht htkey).ne) hnodup hmem)
    le_rfl ?_ ?_ ?_
  · rw [hzero _ _ le_rfl, carried]
    have := hfits.used_lt
    omega
  · intro revision generation hnot
    rcases Nat.lt_or_ge revision checkpoint.ruleRevision with hlt | hge
    · exact absurd (.inl hlt) hnot
    · exact hzero revision generation hge
  · intro t ht htkey
    rw [checkpoints_append] at ht
    rcases mem_append.mp ht with ht | ht
    · exact (hold t ht htkey).le
    · rw [inj_on_of_nodup_map hnodup ht hmem (htkey.trans hkey.symm)]

theorem Account.keep (hacc : Account calls key before) (hreached : ChargesReached call key before)
    (hcharge : ∀ s, stateKey s = key → before = some (checkpointHash s) →
      call.charge key s.ruleRevision s.windowGeneration = 0)
    (hcheckpoints : ∀ checkpoint ∈ call.checkpoints, stateKey checkpoint = key →
      ∃ s, stateKey s = key ∧ before = some (checkpointHash s) ∧
        checkpoint.ruleRevision ≤ s.ruleRevision) :
    Account (calls ++ [call]) key before := by
  cases hacc with
  | absent hcharges hnone =>
    refine .absent (fun revision generation => ?_) fun s hs hskey => ?_
    · rw [charges_append, hcharges, Account.none_charge hreached, add_zero]
    · rw [checkpoints_append] at hs
      rcases mem_append.mp hs with hs | hs
      · exact hnone s hs hskey
      · obtain ⟨t, -, ht, -⟩ := hcheckpoints s hs hskey
        cases ht
  | held s checkpoint hkey hfirst hgeneration hused hlater hall =>
    refine .held s checkpoint hkey (firstHydrated_append_of_some hfirst call) hgeneration ?_ ?_ ?_
    · rw [charges_append, hcharge s hkey rfl, add_zero]
      exact hused
    · intro revision generation hnot
      rw [charges_append, hlater _ _ hnot, Account.later_charge hkey hreached hnot, add_zero]
    · intro t ht htkey
      rw [checkpoints_append] at ht
      rcases mem_append.mp ht with ht | ht
      · exact hall t ht htkey
      · obtain ⟨u, hu, hub, hle⟩ := hcheckpoints t ht htkey
        rwa [checkpointHash_injective (hkey.trans hu.symm) (Option.some.inj hub)]

theorem Account.move (hacc : Account calls key before) (hmove : Move b call key before after)
    (hreached : ChargesReached call key before)
    (hnodup : (call.checkpoints.map stateKey).Nodup)
    (hcost : ∀ ticket cost, call = .complete ticket cost → 0 ≤ cost) :
    Account (calls ++ [call]) key after := by
  cases hmove with
  | same hafter hcharge hcheckpoints =>
    rw [hafter]
    exact hacc.keep hreached hcharge hcheckpoints
  | seeded targets rule checkpoint hcall hmem hkey hfits hafter hbefore =>
    rw [hafter]
    refine hacc.seed hreached hkey hfits ?_ hnodup hbefore
    rw [hcall]
    exact mem_map_of_mem hmem
  | opened s rules rule nowMS hcall hmem hnow hkey hid hfits hrevision hidle hbefore hafter =>
    subst hbefore hafter
    have hkept := hacc.keep hreached (fun _ _ _ => by rw [hcall]; rfl)
      (fun t ht _ => by rw [hcall] at ht; exact absurd ht not_mem_nil)
    generalize hrow : some (checkpointHash s) = row at hkept
    cases hkept with
    | absent => cases hrow
    | held t checkpoint htkey hfirst hgeneration hused hlater hall =>
      obtain rfl := checkpointHash_injective (hkey.trans htkey.symm) (Option.some.inj hrow)
      have hnext : ¬ Reached s.ruleRevision (s.windowGeneration + 1) s := by
        unfold Reached
        omega
      refine .held (Quota.opened s nowMS (windowEnd rule nowMS)) checkpoint hkey hfirst
        (hgeneration.trans (Nat.le_succ _)) ?_ ?_ hall
      · change (0 : Int) = min _ (carried checkpoint (s.windowGeneration + 1) +
          charges key s.ruleRevision (s.windowGeneration + 1) (calls ++ [call]))
        rw [hlater _ _ hnext, carried, if_neg (by omega)]
        rfl
      · intro revision generation hnot
        refine hlater revision generation fun hdom => hnot (hdom.trans (.inr ⟨rfl, ?_⟩))
        exact Nat.le_succ _
  | settled s ticket rule cost hcall hmem hid hcharge hkey hfits hrule hbefore hafter =>
    subst hbefore hafter
    generalize hrow : some (checkpointHash s) = row at hacc
    cases hacc with
    | absent => cases hrow
    | held t checkpoint htkey hfirst hgeneration hused hlater hall =>
      obtain rfl := checkpointHash_injective (hkey.trans htkey.symm) (Option.some.inj hrow)
      have hpos := hcost ticket cost hcall
      refine .held (Quota.settled s cost) checkpoint ((stateKey_settled s cost).trans hkey) ?_ ?_ ?_
        ?_ ?_
      · rw [settled_revision]
        exact firstHydrated_append_of_some hfirst call
      · rw [settled_generation]
        exact hgeneration
      · rw [settled_revision, settled_generation, charges_append,
          settled_used hpos]
        omega
      · intro revision generation hnot
        have hnot' : ¬ Reached revision generation s := by
          unfold Reached at hnot ⊢
          rwa [settled_revision, settled_generation] at hnot
        rw [charges_append, hlater _ _ hnot', Account.later_charge hkey hreached hnot', add_zero]
      · intro u hu hukey
        rw [settled_revision]
        rw [checkpoints_append, hcall] at hu
        rcases mem_append.mp hu with hu | hu
        · exact hall u hu hukey
        · exact absurd hu not_mem_nil

end Step

variable {w : SharedState} {call : Call}

theorem chargesReached (hissued : ∀ ticket ∈ w.tickets, Issued w.store ticket)
    (hlegal : call.Legal w) (key : RuleKey) :
    ChargesReached call key (w.store key) := by
  intro revision generation hne
  cases hlegal with
  | evaluate => exact absurd rfl hne
  | hydrate => exact absurd rfl hne
  | @complete ticket cost hticket _ =>
    rw [charge_complete] at hne
    split at hne
    · rename_i hentry
      obtain ⟨s, hkey, hstored, hdom⟩ := (hissued ticket hticket).reached _ hentry.2
      rw [hentry.1] at hkey hstored
      exact ⟨s, hkey, hstored, hdom⟩
    · exact absurd rfl hne

theorem checkpoints_nodup (hlegal : call.Legal w) : (call.checkpoints.map stateKey).Nodup := by
  cases hlegal with
  | evaluate => exact nodup_nil
  | complete => exact nodup_nil
  | hydrate hnodup =>
    change ((_ : List _).map Prod.snd |>.map stateKey).Nodup
    rw [map_map]
    exact hnodup

theorem Run.account {calls : List Call} (hrun : Run calls w) {counters : Nat}
    (hrange : ∀ call ∈ calls, call.InRange counters) (hcount : counters + calls.length < 2 ^ 63)
    (hcost : ∀ ticket cost, .complete ticket cost ∈ calls → 0 ≤ cost) (key : RuleKey) :
    Account calls key (w.store key) := by
  induction hrun with
  | start => exact .absent (fun _ _ => rfl) nofun
  | @step calls w call hrun hlegal ih =>
    rw [length_append] at hcount
    have hrange' := fun c hc => hrange c (mem_append_left [call] hc)
    have hsound := hrun.sound hrange' (by omega)
    have hacc := ih hrange' (by omega) fun ticket cost hmem =>
      hcost ticket cost (mem_append_left _ hmem)
    refine hacc.move (Call.move hsound.typed hcount hsound.issued hlegal (hrange call (by simp))
      (Nat.le_add_right _ _) key) (chargesReached hsound.issued hlegal key)
      (checkpoints_nodup hlegal) fun ticket cost heq => hcost ticket cost ?_
    rw [heq]
    simp

theorem complete_outdated {b : Nat} {store : QuotaStore} (htyped : Typed b store)
    (hb : b + 1 < 2 ^ 63) {ticket : Ticket} (hissued : Issued store ticket) {cost : Int}
    (hcost : inInt64 cost = true) {rule : TicketRule} (hmem : rule ∈ ticket.rules) {row : QuotaHash}
    (hrow : store (ticket.accessKeyID, rule.ruleID) = some row)
    (hold : row.rev ≠ digits rule.ruleRevision ∨ row.gen ≠ digits rule.windowGeneration) :
    (complete ticket cost store).1 (ticket.accessKeyID, rule.ruleID) = some row := by
  cases hskip : skipsCompletion ticket cost with
  | true =>
    rw [complete, if_pos hskip]
    exact hrow
  | false =>
    rw [complete_fst ticket cost store hskip]
    obtain ⟨change, reply, -, -, hsettles, -⟩ :=
      runComplete_spec htyped hb hcost hissued.nodup (hissued.revisions htyped)
    have hkey := hsettles rule hmem
    generalize change rule = entry at hkey
    cases hkey with
    | absent hbefore _ =>
      rw [hrow] at hbefore
      cases hbefore
    | outdated s hskey hfits hbefore hrule hafter => exact hafter.trans (hbefore.symm.trans hrow)
    | current s hskey hfits hbefore hrule hafter =>
      obtain rfl := Option.some.inj (hbefore.symm.trans hrow)
      rcases hold with hrev | hgen
      · exact absurd (congrArg digits hrule.1.symm) hrev
      · exact absurd (congrArg digits hrule.2.symm) hgen

/-- After every run the stored amount of the current window is the carried
amount plus the charges of exactly that window, capped; a settlement for
another revision or generation leaves the record as it is. -/
theorem stored_used_eq_charges {calls : List Call} {w : SharedState} (hrun : Run calls w)
    {counters : Nat} (hrange : ∀ call ∈ calls, call.InRange counters)
    (hcount : counters + calls.length + 1 < 2 ^ 63) :
    ((∀ ticket cost, Call.complete ticket cost ∈ calls → 0 ≤ cost) →
      ∀ key row, w.store key = some row →
        ∃ revision generation checkpoint, row.rev = digits revision ∧
          row.gen = digits generation ∧ firstHydrated key revision calls = some checkpoint ∧
          row.used = formatInt (min (2 ^ 63 - 1)
            (carried checkpoint generation + charges key revision generation calls))) ∧
    ∀ ticket ∈ w.tickets, ∀ cost, inInt64 cost = true → ∀ rule ∈ ticket.rules, ∀ row,
      w.store (ticket.accessKeyID, rule.ruleID) = some row →
      (row.rev ≠ digits rule.ruleRevision ∨ row.gen ≠ digits rule.windowGeneration) →
      (complete ticket cost w.store).1 (ticket.accessKeyID, rule.ruleID) = some row := by
  have hsound := hrun.sound hrange (by omega)
  constructor
  · intro hcost key row hrow
    have hacc := hrun.account hrange (by omega) hcost key
    rw [hrow] at hacc
    generalize hstored : some row = stored at hacc
    cases hacc with
    | absent => cases hstored
    | held s checkpoint hkey hfirst hgeneration hused hlater hall =>
      cases hstored
      exact ⟨_, _, checkpoint, rfl, rfl, hfirst, congrArg formatInt hused⟩
  · intro ticket hticket cost hcost rule hmem row hrow hold
    exact complete_outdated hsound.typed hcount (hsound.issued ticket hticket) hcost hmem hrow hold

def totalRule (revision : Nat) : Rule where
  id := 7
  revision := revision
  kind := .total
  currency := "USD"
  limitNano := 100
  periodSeconds := 0

def hourlyRule : Rule where
  id := 8
  revision := 1
  kind := .periodic
  currency := "USD"
  limitNano := 100
  periodSeconds := 3600

def freshState (rule : Rule) (used : Int) (version : Nat) : RestoredState where
  accessKeyID := 1
  ruleID := rule.id
  ruleRevision := rule.revision
  usedNano := used
  windowStartedAtMS := none
  windowEndsAtMS := none
  windowGeneration := 0
  snapshotVersion := version

def meterTicket (revision : Nat) : Ticket where
  accessKeyID := 1
  rules := [{ ruleID := 7, ruleRevision := revision, windowGeneration := 0 }]

def twoRuleTicket : Ticket where
  accessKeyID := 1
  rules := [{ ruleID := 7, ruleRevision := 1, windowGeneration := 0 },
    { ruleID := 8, ruleRevision := 1, windowGeneration := 1 }]

/-- A total rule is hydrated with three units and an hourly one with none; one
request is admitted, which opens the hour, and is charged five. -/
def meterCalls : List Call :=
  [.hydrate [(totalRule 1, freshState (totalRule 1) 3 1), (hourlyRule, freshState hourlyRule 0 1)],
    .evaluate .admission 1 [totalRule 1, hourlyRule] 1000, .complete twoRuleTicket 5]

theorem legal_hydrate_fresh (w : SharedState) {rules : List (Rule × Int × Nat)}
    (hnodup : (rules.map fun p => p.1.id).Nodup)
    (hvalid : ∀ p ∈ rules, ruleShapeValid p.1 = true)
    (hstate : ∀ p ∈ rules, inInt64 p.2.1 = true ∧
      (validateStateOf p.1 (freshState p.1 p.2.1 p.2.2)).isOk = true) :
    Call.Legal w (.hydrate (rules.map fun p => (p.1, freshState p.1 p.2.1 p.2.2))) := by
  refine .hydrate ?_ ?_ ?_ ?_
  · rw [map_map]
    exact ruleKeys_nodup 1 hnodup
  · intro q hq
    obtain ⟨p, hp, rfl⟩ := mem_map.mp hq
    exact hvalid p hp
  · intro q hq
    obtain ⟨p, hp, rfl⟩ := mem_map.mp hq
    have hok := (hstate p hp).2
    cases hvalidated : validateStateOf p.1 (freshState p.1 p.2.1 p.2.2) with
    | ok runtime => exact ⟨runtime, hvalidated⟩
    | error e =>
      rw [hvalidated] at hok
      cases hok
  · intro q hq
    obtain ⟨p, hp, rfl⟩ := mem_map.mp hq
    exact ⟨(hstate p hp).1, nofun, nofun⟩

theorem meterRun : Run meterCalls (replay meterCalls) := by
  refine @Run.step [_, _] _ _ (@Run.step [_] _ _ (@Run.step [] _ _ .start ?_) ?_) ?_
  · exact @legal_hydrate_fresh _ [(totalRule 1, 3, 1), (hourlyRule, 0, 1)] (by decide)
      (by decide) (by decide)
  · exact .evaluate (by decide) (by decide) (by decide)
  · exact .complete (by decide) (by decide)

theorem meterCalls_inRange : ∀ call ∈ meterCalls, call.InRange 1 := by
  intro call hcall
  rcases mem_cons.mp hcall with rfl | hcall
  · exact ⟨by decide, by decide⟩
  · rcases mem_cons.mp hcall with rfl | hcall
    · exact ⟨by decide, by decide⟩
    · obtain rfl := mem_singleton.mp hcall
      exact ⟨by decide, by decide⟩

theorem meterCalls_used :
    ∃ row, (replay meterCalls).store (1, 7) = some row ∧ row.used = digits 8 ∧
      ∃ revision generation checkpoint, row.rev = digits revision ∧
        row.gen = digits generation ∧
        firstHydrated (1, 7) revision meterCalls = some checkpoint ∧
        row.used = formatInt (min (2 ^ 63 - 1)
          (carried checkpoint generation + charges (1, 7) revision generation meterCalls)) := by
  obtain ⟨hused, -⟩ := stored_used_eq_charges meterRun meterCalls_inRange (by decide)
  refine ⟨_, rfl, by decide, hused ?_ (1, 7) _ rfl⟩
  intro ticket cost hmem
  simp only [meterCalls, mem_cons, reduceCtorEq, Call.complete.injEq, not_mem_nil,
    or_false, false_or] at hmem
  rw [hmem.2]
  decide

/-- No run loses the records of a ticket or takes them back before its windows. -/
theorem tickets_keep_records {calls : List Call} {w : SharedState} (hrun : Run calls w)
    {counters : Nat} (hrange : ∀ call ∈ calls, call.InRange counters)
    (hcount : counters + calls.length < 2 ^ 63) {ticket : Ticket} (hticket : ticket ∈ w.tickets)
    {rule : TicketRule} (hrule : rule ∈ ticket.rules) :
    ∃ s, stateKey s = (ticket.accessKeyID, rule.ruleID) ∧
      w.store (ticket.accessKeyID, rule.ruleID) = some (checkpointHash s) ∧
      Reached rule.ruleRevision rule.windowGeneration s :=
  ((hrun.sound hrange hcount).issued ticket hticket).reached rule hrule

theorem meterTicket_keeps_records :
    ∃ s, (replay meterCalls).store (1, 7) = some (checkpointHash s) ∧ Reached 1 0 s := by
  obtain ⟨s, -, hs⟩ := tickets_keep_records meterRun meterCalls_inRange (by decide)
    (show twoRuleTicket ∈ _ by decide) (.head _)
  exact ⟨s, hs⟩

/-- The version counter of the first rule is at the largest `int64`. -/
def overflowCalls : List Call :=
  [.hydrate [(totalRule 1, freshState (totalRule 1) 0 (2 ^ 63 - 1)),
      (hourlyRule, freshState hourlyRule 0 1)],
    .evaluate .admission 1 [totalRule 1, hourlyRule] 1000, .complete twoRuleTicket 5]

/-- The caller's revision is the stored one plus one, beyond `2^53`. -/
def inexactCalls : List Call :=
  [.hydrate [(totalRule (2 ^ 53), freshState (totalRule (2 ^ 53)) 0 1)],
    .evaluate .admission 1 [totalRule (2 ^ 53 + 1)] 1000]

theorem overflowRun : Run overflowCalls (replay overflowCalls) := by
  refine @Run.step [_, _] _ _ (@Run.step [_] _ _ (@Run.step [] _ _ .start ?_) ?_) ?_
  · exact @legal_hydrate_fresh _ [(totalRule 1, 0, 2 ^ 63 - 1), (hourlyRule, 0, 1)] (by decide)
      (by decide) (by decide)
  · exact .evaluate (by decide) (by decide) (by decide)
  · exact .complete (by decide) (by decide)

theorem inexactRun : Run inexactCalls (replay inexactCalls) := by
  refine @Run.step [_] _ _ (@Run.step [] _ _ .start ?_) ?_
  · exact @legal_hydrate_fresh _ [(totalRule (2 ^ 53), 0, 1)] (by decide) (by decide) (by decide)
  · exact .evaluate (by decide) (by decide) (by decide)

/-- Outside the ranges a charge is lost, and a ticket of another revision
changes the record. -/
theorem charge_lost_or_misplaced :
    (Run overflowCalls (replay overflowCalls) ∧
      (∀ ticket cost, Call.complete ticket cost ∈ overflowCalls → 0 ≤ cost) ∧
      ((replay overflowCalls).store (1, 8)).map (fun row => (row.rev, row.gen, row.used)) =
        some (digits 1, digits 1, digits 0) ∧
      charges (1, 8) 1 1 overflowCalls = 5) ∧
    (Run inexactCalls (replay inexactCalls) ∧
      meterTicket (2 ^ 53 + 1) ∈ (replay inexactCalls).tickets ∧
      ((replay inexactCalls).store (1, 7)).map (fun row => (row.rev, row.used)) =
        some (digits (2 ^ 53), digits 0) ∧
      ((complete (meterTicket (2 ^ 53 + 1)) 5 (replay inexactCalls).store).1 (1, 7)).map
        QuotaHash.used = some (digits 5)) := by
  refine ⟨⟨overflowRun, ?_, by decide, by decide⟩, inexactRun, by decide, by decide, by decide⟩
  intro ticket cost hmem
  simp only [overflowCalls, mem_cons, reduceCtorEq, Call.complete.injEq, not_mem_nil,
    or_false, false_or] at hmem
  rw [hmem.2]
  decide

end EchoJoyGateway.Quota
