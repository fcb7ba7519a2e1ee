import EchoJoyGateway.Quota.Records

/-!
# The calls on a store of typed records

What `evaluate`, `hydrate` and `Complete` do to every key of a store whose
hashes were all written from states inside the ranges, and what their replies
say.
-/

namespace EchoJoyGateway.Quota

open Decimal LuaNumber Redis List

variable {store : QuotaStore} {s : RestoredState}

def Typed (counters : Nat) (store : QuotaStore) : Prop :=
  ∀ key row, store key = some row →
    ∃ s, stateKey s = key ∧ row = checkpointHash s ∧ Fits (2 ^ 53) counters s

theorem Typed.mono {b b' : Nat} (h : Typed b store) (hb : b ≤ b') :
    Typed b' store := by
  intro key row hrow
  obtain ⟨s, hkey, hs, hfits⟩ := h key row hrow
  exact ⟨s, hkey, hs, hfits.mono le_rfl hb⟩

def idle (nowMS : Int) (kind : Kind) (s : RestoredState) : Bool :=
  match kind, s.windowStartedAtMS, s.windowEndsAtMS with
  | .periodic, some _, some ends => decide (LuaNumber.round ends ≤ LuaNumber.round nowMS)
  | .periodic, _, _ => true
  | _, _, _ => false

theorem tonumber_formatInt_round (z : Int) : tonumber (formatInt z) = some (LuaNumber.round z) := by
  rw [tonumber, parseSigned_formatInt, Option.map_some]

theorem inactive_checkpointHash (nowMS : Int) (kind : Kind) (s : RestoredState) :
    inactive (formatInt nowMS) kind (checkpointHash s) = .ok (idle nowMS kind s) := by
  unfold inactive idle
  cases kind with
  | total => rfl
  | other name => rfl
  | periodic =>
    cases hws : s.windowStartedAtMS with
    | none => simp [checkpointHash, hws, formatOptionalMS]
    | some started =>
      cases hwe : s.windowEndsAtMS with
      | none => simp [checkpointHash, hwe, formatOptionalMS]
      | some ends =>
        simp [checkpointHash, hws, hwe, formatOptionalMS, formatInt_ne_nil,
          tonumber_formatInt_round]

def opens (mode : Mode) (allowed : Bool) (nowMS : Int) (rule : Rule) (s : RestoredState) : Bool :=
  decide (mode = .admission) && allowed && idle nowMS rule.kind s

def evaluated (mode : Mode) (allowed : Bool) (nowMS : Int) (rule : Rule) (s : RestoredState) :
    RestoredState :=
  if opens mode allowed nowMS rule s then opened s nowMS (windowEnd rule nowMS) else s

def replyRow (mode : Mode) (allowed : Bool) (nowMS : Int) (rule : Rule) (s : RestoredState) :
    QuotaRow :=
  if opens mode allowed nowMS rule s then
    { used := digits 0, ws := formatInt nowMS, we := formatInt (windowEnd rule nowMS),
      gen := tostring ((s.windowGeneration + 1 : Nat) : Int),
      ver := tostring ((s.snapshotVersion + 1 : Nat) : Int), opened := true }
  else rowOf (checkpointHash s)

variable {α : Type} {l : List α} {g : α → QuotaArg}

theorem survey_map {f : α → Standing}
    (h : ∀ x ∈ l, standing (store (g x).key) (g x).rev = .ok (f x)) :
    survey store (l.map g) = .ok (l.map f) := by
  induction l with
  | nil => rfl
  | cons x rest ih =>
    have hrest := ih fun y hy => h y (mem_cons_of_mem _ hy)
    simp only [map_cons, survey, h x (.head _), hrest]

theorem assess_map {now : Text} {row : α → QuotaHash} {idle : α → Bool}
    (h : ∀ x ∈ l, store (g x).key = some (row x) ∧ inactive now (g x).kind (row x) = .ok (idle x)) :
    assess now store (l.map g) =
      .ok (l.map fun x => { arg := g x, row := row x, inactive := idle x }) := by
  induction l with
  | nil => rfl
  | cons x rest ih =>
    have hrest := ih fun y hy => h y (mem_cons_of_mem _ hy)
    obtain ⟨hrow, hidle⟩ := h x (.head _)
    simp only [map_cons, assess, hrow, hidle, hrest]

def visitOf (a : Nat) (nowMS : Int) (rule : Rule) (s : RestoredState) : Visit where
  arg := quotaArg a nowMS rule
  row := checkpointHash s
  inactive := idle nowMS rule.kind s

variable {mode : Mode} {rule : Rule}

theorem quotaBody_ok {nowMS : Int} {allowed : Bool} {a : Nat} {out : QuotaRow}
    (h : (quotaBody mode (formatInt nowMS) allowed (visitOf a nowMS rule s)
      (some (checkpointHash s))).2 = .ok out) :
    quotaBody mode (formatInt nowMS) allowed (visitOf a nowMS rule s)
        (some (checkpointHash s)) =
      (some (checkpointHash (evaluated mode allowed nowMS rule s)),
        .ok (replyRow mode allowed nowMS rule s)) := by
  have hcond : (mode = .admission ∧ allowed = true ∧ idle nowMS rule.kind s = true) ↔
      opens mode allowed nowMS rule s = true := by
    simp [opens, and_assoc]
  unfold evaluated replyRow
  by_cases hopen : opens mode allowed nowMS rule s = true
  · have hwindow := hcond.mpr hopen
    rw [if_pos hopen, if_pos hopen]
    have hopened := (congrArg Prod.snd (if_pos hwindow)).symm.trans h
    exact (if_pos hwindow).trans (openWindow_ok hopened)
  · have hkeep := fun hx => hopen (hcond.mp hx)
    rw [if_neg hopen, if_neg hopen]
    exact if_neg hkeep

theorem quotaBody_succeeds {b : Nat} (h : Fits (2 ^ 53) b s) (hb : b + 1 < 2 ^ 63) (mode : Mode)
    (now : Text) (allowed : Bool) (visit : Visit) :
    ∃ out, (quotaBody mode now allowed visit (some (checkpointHash s))).2 = .ok out := by
  unfold quotaBody
  split
  · exact openWindow_succeeds h hb now _
  · exact ⟨_, rfl⟩

theorem ruleKeys_nodup {id : α → Nat} (a : Nat) (h : (l.map id).Nodup) :
    (l.map fun x => ((a, id x) : RuleKey)).Nodup := by
  have hmap := h.map (f := fun i => ((a, i) : RuleKey)) fun _ _ hij => (Prod.mk.inj hij).2
  rwa [map_map] at hmap

structure Current (b : Nat) (store : QuotaStore) (a : Nat) (rule : Rule) (s : RestoredState) :
    Prop where
  key : stateKey s = (a, rule.id)
  stored : store (a, rule.id) = some (checkpointHash s)
  fits : Fits (2 ^ 53) b s
  revision : s.ruleRevision = rule.revision

theorem exists_standing {b : Nat} (htyped : Typed b store) (a : Nat)
    (hrev : rule.revision ≤ 2 ^ 53) :
    ∃ st, standing (store (a, rule.id)) (digits rule.revision) = .ok st ∧
      (st = .current → ∃ s, Current b store a rule s) := by
  cases hrow : store (a, rule.id) with
  | none => exact ⟨.missing, rfl, nofun⟩
  | some row =>
    obtain ⟨s, hkey, rfl, hfits⟩ := htyped _ _ hrow
    refine ⟨_, standing_checkpointHash hfits.revision hrev, fun hcur => ⟨s, hkey, hrow, hfits, ?_⟩⟩
    split at hcur
    · cases hcur
    · split at hcur
      · cases hcur
      · omega

theorem quotaScript_of_not_current {now : Text} {args : List QuotaArg} {standings : List Standing}
    (hsurvey : survey store args = .ok standings) (h : ∃ st ∈ standings, st ≠ .current) :
    (quotaScript mode now args store).1 = store ∧
      ∀ allowed rows, (quotaScript mode now args store).2 ≠ .ok (.ok allowed rows) := by
  obtain ⟨st, hst, hne⟩ := h
  simp only [quotaScript, hsurvey]
  split
  · exact ⟨rfl, nofun⟩
  · split
    · exact ⟨rfl, nofun⟩
    · cases st <;> contradiction

section Evaluation

variable {mode : Mode} {a : Nat} {rules : List Rule} {nowMS : Int} {s : Rule → RestoredState}
  (hcurrent : ∀ rule ∈ rules, standing (store (a, rule.id)) (digits rule.revision) = .ok .current)
  (hstored : ∀ rule ∈ rules, store (a, rule.id) = some (checkpointHash (s rule)))

include hcurrent hstored

theorem runQuota_eq :
    let visits := rules.map fun rule => visitOf a nowMS rule (s rule)
    runQuota mode a rules nowMS store =
      match KeyedLoop.run (fun v => v.arg.key)
        (quotaBody mode (formatInt nowMS) (allAllowed visits)) visits store with
      | (store', .error e) => (store', .error e)
      | (store', .ok rows) => (store', .ok (.ok (allAllowed visits) rows)) := by
  have hsurvey : survey store (rules.map (quotaArg a nowMS)) =
      .ok (rules.map fun _ => .current) := survey_map hcurrent
  have hassess : assess (formatInt nowMS) store (rules.map (quotaArg a nowMS)) =
      .ok (rules.map fun rule => visitOf a nowMS rule (s rule)) :=
    assess_map fun rule hmem => ⟨hstored rule hmem, inactive_checkpointHash _ _ _⟩
  unfold runQuota quotaScript
  simp only [hsurvey, hassess, mem_map, reduceCtorEq, and_false, exists_false]
  rfl

theorem runQuota_replies {b : Nat} (hb : b + 1 < 2 ^ 63) (hnodup : (rules.map Rule.id).Nodup)
    (hfits : ∀ rule ∈ rules, Fits (2 ^ 53) b (s rule)) (mode : Mode) (nowMS : Int) :
    ∃ allowed rows, (runQuota mode a rules nowMS store).2 = .ok (.ok allowed rows) := by
  rw [runQuota_eq hcurrent hstored]
  generalize allAllowed _ = allowed
  obtain ⟨hrows, -⟩ := @KeyedLoop.run_map_ok _ _ _ _ _ _ (fun v => v.arg.key)
    (quotaBody mode (formatInt nowMS) allowed) _ rules (fun rule => visitOf a nowMS rule (s rule))
    store (ruleKeys_nodup a hnodup) _ (fun rule hmem => by
      change (quotaBody _ _ _ _ (store (a, rule.id))).2 = _
      rw [hstored rule hmem]
      obtain ⟨out, hout⟩ := quotaBody_succeeds (hfits rule hmem) hb mode (formatInt nowMS) allowed
        (visitOf a nowMS rule (s rule))
      exact congrArg Prod.snd (quotaBody_ok hout))
  split
  · rename_i heq
    rw [heq] at hrows
    cases hrows
  · exact ⟨_, _, rfl⟩

theorem runQuota_stored (hnodup : (rules.map Rule.id).Nodup) {store' : QuotaStore}
    {allowed : Bool} {rows : List QuotaRow}
    (hreply : runQuota mode a rules nowMS store = (store', .ok (.ok allowed rows))) :
    allowed = allAllowed (rules.map fun rule => visitOf a nowMS rule (s rule)) ∧
      rows = rules.map (fun rule => replyRow mode allowed nowMS rule (s rule)) ∧
      (∀ rule ∈ rules, store' (a, rule.id) =
        some (checkpointHash (evaluated mode allowed nowMS rule (s rule)))) ∧
      ∀ key, (∀ rule ∈ rules, (a, rule.id) ≠ key) → store' key = store key := by
  rw [runQuota_eq hcurrent hstored] at hreply
  split at hreply
  · cases hreply
  · rename_i store₁ rows₁ hrun
    obtain ⟨rfl, hanswer⟩ := Prod.mk.inj hreply
    obtain ⟨rfl, rfl⟩ := QuotaReply.ok.inj (Except.ok.inj hanswer)
    generalize allAllowed (rules.map fun rule => visitOf a nowMS rule (s rule)) = allowed at *
    have hbody : ∀ rule ∈ rules, quotaBody mode (formatInt nowMS) allowed
        (visitOf a nowMS rule (s rule)) (store (a, rule.id)) =
          (some (checkpointHash (evaluated mode allowed nowMS rule (s rule))),
            .ok (replyRow mode allowed nowMS rule (s rule))) := by
      intro rule hmem
      obtain ⟨out, hout⟩ := @KeyedLoop.body_of_run_ok _ _ _ _ _ _ (fun v => v.arg.key) _ _ rules
        (fun rule => visitOf a nowMS rule (s rule)) store (ruleKeys_nodup a hnodup) _
        (congrArg Prod.snd hrun) rule hmem
      change (quotaBody _ _ _ _ (store (a, rule.id))).2 = _ at hout
      rw [hstored rule hmem] at hout ⊢
      exact quotaBody_ok hout
    obtain ⟨hrows, hwrote⟩ := @KeyedLoop.run_map_ok _ _ _ _ _ _ (fun v => v.arg.key) _ _ rules
      (fun rule => visitOf a nowMS rule (s rule)) store (ruleKeys_nodup a hnodup) _
      (fun rule hmem => congrArg Prod.snd (hbody rule hmem))
    rw [hrun] at hrows hwrote
    refine ⟨rfl, Except.ok.inj hrows, fun rule hmem => ?_, fun key hkey => ?_⟩
    · exact (hwrote rule hmem).trans (congrArg Prod.fst (hbody rule hmem))
    · have hother := @KeyedLoop.run_of_not_mem _ _ _ _ _ _ (fun v : Visit => v.arg.key)
        (quotaBody mode (formatInt nowMS) allowed)
        (rules.map fun rule => visitOf a nowMS rule (s rule)) store key (by
          intro visit hvisit
          obtain ⟨rule, hmem, rfl⟩ := mem_map.mp hvisit
          exact hkey rule hmem)
      rwa [hrun] at hother

end Evaluation

variable {b : Nat}

/-- The script on typed records: either it only reports stale or missing rules,
or every rule has a record at the caller's revision and is evaluated on it. -/
theorem runQuota_spec (htyped : Typed b store) (hb : b + 1 < 2 ^ 63) (mode : Mode) (a : Nat)
    {rules : List Rule} (nowMS : Int) (hnodup : (rules.map Rule.id).Nodup)
    (hrev : ∀ rule ∈ rules, rule.revision ≤ 2 ^ 53) :
    ((runQuota mode a rules nowMS store).1 = store ∧
      ∀ allowed rows, (runQuota mode a rules nowMS store).2 ≠ .ok (.ok allowed rows)) ∨
    ∃ (s : Rule → RestoredState) (allowed : Bool),
      (∀ rule ∈ rules, Current b store a rule (s rule) ∧
        (runQuota mode a rules nowMS store).1 (a, rule.id) =
          some (checkpointHash (evaluated mode allowed nowMS rule (s rule)))) ∧
      (runQuota mode a rules nowMS store).2 =
        .ok (.ok allowed (rules.map fun rule => replyRow mode allowed nowMS rule (s rule))) ∧
      ∀ key, (∀ rule ∈ rules, (a, rule.id) ≠ key) →
        (runQuota mode a rules nowMS store).1 key = store key := by
  choose! st hst hcurrent using fun rule (hmem : rule ∈ rules) =>
    exists_standing htyped a (hrev rule hmem)
  have hsurvey : survey store (rules.map (quotaArg a nowMS)) = .ok (rules.map st) := survey_map hst
  by_cases hall : ∀ rule ∈ rules, st rule = .current
  · right
    choose! s hs using fun rule (hmem : rule ∈ rules) => hcurrent rule hmem (hall rule hmem)
    have hstanding := fun rule hmem => hall rule hmem ▸ hst rule hmem
    have hstored := fun rule hmem => (hs rule hmem).stored
    obtain ⟨allowed, rows, hreply⟩ := runQuota_replies hstanding hstored hb hnodup
      (fun rule hmem => (hs rule hmem).fits) mode nowMS
    obtain ⟨-, rfl, hwrote, hother⟩ := runQuota_stored hstanding hstored hnodup
      (Prod.ext rfl hreply)
    exact ⟨s, allowed, fun rule hmem => ⟨hs rule hmem, hwrote rule hmem⟩, hreply, hother⟩
  · left
    obtain ⟨rule, hrule⟩ := not_forall.mp hall
    obtain ⟨hmem, hne⟩ := Classical.not_imp.mp hrule
    exact quotaScript_of_not_current hsurvey ⟨st rule, mem_map_of_mem hmem, hne⟩

variable {nowMS : Int}

theorem Fits.opened {r : Nat} (h : Fits r b s) {ends : Int} (hnow : inInt64 nowMS = true)
    (hends : inInt64 ends = true) :
    Fits r (b + 1) (opened s nowMS ends) where
  revision := h.revision
  used_nonneg := le_rfl
  used_lt := by
    change (0 : Int) < 2 ^ 63
    decide
  started := by
    rintro t ⟨⟩
    exact hnow
  ends := by
    rintro t ⟨⟩
    exact hends
  generation := Nat.succ_le_succ h.generation
  version := Nat.succ_le_succ h.version

theorem inInt64_wrapInt64 (z : Int) : inInt64 (wrapInt64 z) = true := by
  rw [inInt64_iff, wrapInt64]
  have hlow := Int.le_bmod (x := z) (m := 2 ^ 64) (by decide)
  have hhigh := Int.bmod_lt (x := z) (m := 2 ^ 64) (by decide)
  omega

theorem Fits.charged (h : Fits (2 ^ 53) b s) {used : Int} (hnonneg : 0 ≤ used)
    (hlt : used < 2 ^ 63) : Fits (2 ^ 53) (b + 1) (charged s used) where
  revision := h.revision
  used_nonneg := hnonneg
  used_lt := hlt
  started := h.started
  ends := h.ends
  generation := h.generation.trans (Nat.le_succ b)
  version := Nat.succ_le_succ h.version

theorem Fits.settled (h : Fits (2 ^ 53) b s) (cost : Int) :
    Fits (2 ^ 53) (b + 1) (settled s cost) := by
  have hused := h.used_nonneg
  by_cases hover : overflows s cost
  · by_cases hfull : s.usedNano = 2 ^ 63 - 1
    · rw [settled_of_full hover hfull]
      exact h.mono le_rfl (Nat.le_succ b)
    · rw [settled_of_overflows hover hfull]
      exact h.charged (by decide) (by decide)
  · rw [settled_of_not_overflows hover]
    unfold overflows at hover
    exact h.charged (by omega) (by omega)

theorem parseRuleState_tostring {a i rev n m : Nat} {used ws we : Text} {st : RestoredState}
    (h : parseRuleState a i rev used ws we (tostring (n : Int)) (tostring (m : Int)) = some st) :
    n < 10 ^ 14 ∧ m < 10 ^ 14 := by
  unfold parseRuleState at h
  split at h
  · rename_i hgen hver
    exact ⟨lt_of_parseUint_tostring hgen, lt_of_parseUint_tostring hver⟩
  · cases h

theorem parseRuleState_opened {r : Nat} (h : Fits r b s) {ends : Int} (hnow : inInt64 nowMS = true)
    (hends : inInt64 ends = true) (hgen : s.windowGeneration + 1 < 10 ^ 14)
    (hver : s.snapshotVersion + 1 < 10 ^ 14) :
    parseRuleState s.accessKeyID s.ruleID s.ruleRevision (digits 0) (formatInt nowMS)
      (formatInt ends) (tostring ((s.windowGeneration + 1 : Nat) : Int))
      (tostring ((s.snapshotVersion + 1 : Nat) : Int)) = some (opened s nowMS ends) := by
  have hcounters : Fits r (10 ^ 14) s :=
    { h with
      generation := by omega
      version := by omega }
  have hparse := parseRuleState_fits (hcounters.opened hnow hends) (by norm_num)
  rw [tostring_of_lt hgen, tostring_of_lt hver]
  exact hparse

variable {allowed : Bool}

variable {mode : Mode} {rule : Rule}

theorem evaluated_of_opens (h : opens mode allowed nowMS rule s = true) :
    evaluated mode allowed nowMS rule s = opened s nowMS (windowEnd rule nowMS) := by
  rw [evaluated, if_pos h]

theorem evaluated_of_not_opens (h : opens mode allowed nowMS rule s ≠ true) :
    evaluated mode allowed nowMS rule s = s := by
  rw [evaluated, if_neg h]

section Reply

variable {r b a : Nat} {rule : Rule} {s : RestoredState}

structure AtRevision (r b a : Nat) (rule : Rule) (s : RestoredState) : Prop where
  key : stateKey s = (a, rule.id)
  revision : s.ruleRevision = rule.revision
  fits : Fits r b s

theorem Current.atRevision (h : Current b store a rule s) :
    AtRevision (2 ^ 53) b a rule s := ⟨h.key, h.revision, h.fits⟩

/-- The counters that the script prints without an exponent after it counts them. -/
def Printable (s : RestoredState) : Prop :=
  s.windowGeneration + 1 < 10 ^ 14 ∧ s.snapshotVersion + 1 < 10 ^ 14

theorem Fits.printable (h : Fits r b s) (hsmall : b + 1 < 10 ^ 14) : Printable s := by
  have hgen := h.generation
  have hver := h.version
  exact ⟨by omega, by omega⟩

theorem parse_replyRow (h : AtRevision r b a rule s) (hb : b < 2 ^ 64) (mode : Mode)
    (allowed : Bool) {nowMS : Int} (hnow : inInt64 nowMS = true) :
    let row := replyRow mode allowed nowMS rule s
    row.opened = opens mode allowed nowMS rule s ∧
      ((∀ st, parseRuleState a rule.id rule.revision row.used row.ws row.we row.gen row.ver =
          some st → st = evaluated mode allowed nowMS rule s) ∧
        (Printable s →
          parseRuleState a rule.id rule.revision row.used row.ws row.we row.gen row.ver =
            some (evaluated mode allowed nowMS rule s))) := by
  have hkey := h.key
  simp only [stateKey, Prod.mk.injEq] at hkey
  obtain ⟨rfl, hid⟩ := hkey
  rw [← hid, ← h.revision]
  by_cases hopen : opens mode allowed nowMS rule s = true
  · rw [replyRow, if_pos hopen, evaluated_of_opens hopen, hopen]
    have hends : inInt64 (windowEnd rule nowMS) = true := inInt64_wrapInt64 _
    refine ⟨rfl, fun st hst => ?_, fun hsmall => ?_⟩
    · obtain ⟨hgen, hver⟩ := parseRuleState_tostring hst
      rw [parseRuleState_opened h.fits hnow hends hgen hver] at hst
      exact (Option.some.inj hst).symm
    · exact parseRuleState_opened h.fits hnow hends hsmall.1 hsmall.2
  · rw [replyRow, if_neg hopen, evaluated_of_not_opens hopen]
    have hparse := parseRuleState_fits h.fits hb
    refine ⟨(Bool.eq_false_iff.mpr hopen).symm, fun st hst => ?_, fun _ => hparse⟩
    exact (Option.some.inj (hparse.symm.trans hst)).symm

end Reply

variable {b : Nat} {rules : List Rule} {nowMS : Int}

theorem parseEvaluation_eq {r a : Nat} {s : Rule → RestoredState}
    (h : ∀ rule ∈ rules, AtRevision r b a rule (s rule)) (hb : b < 2 ^ 64) {mode : Mode}
    (hnow : inInt64 nowMS = true) :
    (∀ states, parseEvaluation a rules
        (rules.map fun rule => replyRow mode allowed nowMS rule (s rule)) = some states →
      states = rules.map fun rule =>
        (evaluated mode allowed nowMS rule (s rule), opens mode allowed nowMS rule (s rule))) ∧
    ((∀ rule ∈ rules, Printable (s rule)) → ∃ states, parseEvaluation a rules
        (rules.map fun rule => replyRow mode allowed nowMS rule (s rule)) = some states) := by
  induction rules with
  | nil => exact ⟨fun states hst => (Option.some.inj hst).symm, fun _ => ⟨[], rfl⟩⟩
  | cons rule rest ih =>
    obtain ⟨hrest, hexists⟩ := ih fun x hx => h x (mem_cons_of_mem _ hx)
    obtain ⟨hflag, hhead, hheadSome⟩ := parse_replyRow (h rule (.head _)) hb mode allowed hnow
    constructor
    · intro states hst
      simp only [map_cons, parseEvaluation] at hst
      split at hst
      · rename_i st tail hparse htail
        cases hst
        rw [hhead _ hparse, hrest _ htail, hflag, map_cons]
      · cases hst
    · intro hsmall
      obtain ⟨tail, htail⟩ := hexists fun x hx => hsmall x (mem_cons_of_mem _ hx)
      simp only [map_cons, parseEvaluation, hheadSome (hsmall rule (.head _)), htail]
      exact ⟨_, rfl⟩

variable {ticket : Ticket}

theorem admitted_spec {a : Nat} (htyped : Typed b store) (hb : b + 1 < 2 ^ 63)
    (hnodup : (rules.map Rule.id).Nodup) (hrev : ∀ rule ∈ rules, rule.revision ≤ 2 ^ 53)
    (hnow : inInt64 nowMS = true) {marks : List Mark}
    (h : admitted a rules (runQuota .admission a rules nowMS store).2 = some (ticket, marks)) :
    ∃ s : Rule → RestoredState,
      (∀ rule ∈ rules, Current b store a rule (s rule) ∧
        (runQuota .admission a rules nowMS store).1 (a, rule.id) =
          some (checkpointHash (evaluated .admission true nowMS rule (s rule)))) ∧
      ticket.accessKeyID = a ∧
      ticket.rules =
        rules.map (fun rule => ticketRule (evaluated .admission true nowMS rule (s rule))) ∧
      marks = admissionMarks (rules.map fun rule =>
        (evaluated .admission true nowMS rule (s rule),
          opens .admission true nowMS rule (s rule))) := by
  rcases runQuota_spec htyped hb .admission a nowMS hnodup hrev with
    ⟨-, hno⟩ | ⟨s, allowed, hs, hreply, -⟩
  · unfold admitted at h
    split at h
    · rename_i heq
      exact absurd heq (hno _ _)
    · cases h
  · rw [hreply] at h
    cases allowed with
    | false => cases h
    | true =>
      simp only [admitted, Option.map_eq_some_iff] at h
      obtain ⟨states, hstates, rfl, rfl⟩ := h
      have hval := (parseEvaluation_eq (fun rule hmem => (hs rule hmem).1.atRevision) (by omega)
        hnow).1 _ hstates
      subst hval
      exact ⟨s, hs, rfl, by simp, rfl⟩

inductive Settles (b : Nat) (cost : Int) (store store' : QuotaStore) (key : RuleKey)
    (rule : TicketRule) : Option (Text × Text) → Prop
  | absent (hstore : store key = none) (hstore' : store' key = none) :
      Settles b cost store store' key rule none
  | outdated (s : RestoredState) (hkey : stateKey s = key) (hfits : Fits (2 ^ 53) b s)
      (hstore : store key = some (checkpointHash s)) (hrule : ¬ stillCurrent rule s)
      (hstore' : store' key = some (checkpointHash s)) :
      Settles b cost store store' key rule none
  | current (s : RestoredState) (hkey : stateKey s = key) (hfits : Fits (2 ^ 53) b s)
      (hstore : store key = some (checkpointHash s)) (hrule : stillCurrent rule s)
      (hstore' : store' key = some (checkpointHash (settled s cost))) :
      Settles b cost store store' key rule (changeOf s cost)

theorem exists_completeBody (htyped : Typed b store) (hb : b + 1 < 2 ^ 63) {cost : Int}
    (hcost : inInt64 cost = true) (a : Nat) {rule : TicketRule}
    (hrev : rule.ruleRevision ≤ 2 ^ 53) :
    ∃ out : Settlement, (completeBody (formatInt cost) (formatInt (headroom cost))
        (completeArg a rule) (store (a, rule.ruleID))).2 = .ok out ∧
      ∀ store' : QuotaStore, store' (a, rule.ruleID) =
          (completeBody (formatInt cost) (formatInt (headroom cost)) (completeArg a rule)
            (store (a, rule.ruleID))).1 →
        Settles b cost store store' (a, rule.ruleID) rule out.change := by
  cases hrow : store (a, rule.ruleID) with
  | none => exact ⟨_, rfl, fun store' hstore' => .absent hrow hstore'⟩
  | some row =>
    obtain ⟨s, hkey, rfl, hfits⟩ := htyped _ _ hrow
    by_cases hm : stillCurrent rule s
    · rw [completeBody_current hfits hb hcost hm]
      exact ⟨_, rfl, fun store' hstore' => .current s hkey hfits hrow hm hstore'⟩
    · rw [completeBody_outdated hfits.revision hrev hm]
      exact ⟨_, rfl, fun store' hstore' => .outdated s hkey hfits hrow hm hstore'⟩

def changedEntries (start : Nat) (changes : List (Option (Text × Text))) :
    List (Nat × Text × Text) :=
  (changes.zipIdx start).filterMap fun p => p.1.map fun c => (p.2, c)

theorem completeReply_changed (cost : Text) (outs : List Settlement) :
    (completeReply cost outs).changed = changedEntries 1 (outs.map Settlement.change) := by
  unfold completeReply changedEntries
  rw [zipIdx_map, filterMap_map]
  rfl

theorem runComplete_spec (htyped : Typed b store) (hb : b + 1 < 2 ^ 63) {cost : Int}
    (hcost : inInt64 cost = true) (hnodup : (ticket.rules.map TicketRule.ruleID).Nodup)
    (hrev : ∀ rule ∈ ticket.rules, rule.ruleRevision ≤ 2 ^ 53) :
    ∃ (change : TicketRule → Option (Text × Text)) (reply : CompleteReply),
      (runComplete ticket cost store).2 = .ok reply ∧
      reply.changed = changedEntries 1 (ticket.rules.map change) ∧
      (∀ rule ∈ ticket.rules, Settles b cost store (runComplete ticket cost store).1
        (ticket.accessKeyID, rule.ruleID) rule (change rule)) ∧
      ∀ key, (∀ rule ∈ ticket.rules, (ticket.accessKeyID, rule.ruleID) ≠ key) →
        (runComplete ticket cost store).1 key = store key := by
  choose! out hout hsettles using fun rule (hmem : rule ∈ ticket.rules) =>
    exists_completeBody htyped hb hcost ticket.accessKeyID (hrev rule hmem)
  obtain ⟨hrows, hwrote⟩ := @KeyedLoop.run_map_ok _ _ _ _ _ _ CompleteArg.key
    (completeBody (formatInt cost) (formatInt (headroom cost))) _ _
    (completeArg ticket.accessKeyID) store (ruleKeys_nodup ticket.accessKeyID hnodup) out hout
  have hscript : runComplete ticket cost store =
      ((KeyedLoop.run CompleteArg.key (completeBody (formatInt cost) (formatInt (headroom cost)))
        (ticket.rules.map (completeArg ticket.accessKeyID)) store).1,
        .ok (completeReply (formatInt cost) (ticket.rules.map out))) := by
    unfold runComplete completeScript
    split
    · rename_i heq
      rw [heq] at hrows
      cases hrows
    · rename_i heq
      rw [heq] at hrows
      cases hrows
      rw [heq]
  refine ⟨fun rule => (out rule).change, _, congrArg Prod.snd hscript, ?_, ?_, ?_⟩
  · rw [completeReply_changed, map_map]
    rfl
  · intro rule hmem
    exact hsettles rule hmem _ ((congrFun (congrArg Prod.fst hscript) _).trans (hwrote rule hmem))
  · intro key hkey
    refine (congrFun (congrArg Prod.fst hscript) key).trans (KeyedLoop.run_of_not_mem ?_)
    intro arg harg
    obtain ⟨rule, hmem, rfl⟩ := mem_map.mp harg
    exact hkey rule hmem

def runInit (checkpoints : List RestoredState) (store : QuotaStore) : QuotaStore :=
  (initScript (checkpoints.map initArg) store).1

theorem runInit_spec (htyped : Typed b store) {checkpoints : List RestoredState}
    (hnodup : (checkpoints.map stateKey).Nodup)
    (hrev : ∀ checkpoint ∈ checkpoints, checkpoint.ruleRevision ≤ 2 ^ 53) :
    (∀ checkpoint ∈ checkpoints,
      (store (stateKey checkpoint) = none ∧
        runInit checkpoints store (stateKey checkpoint) = some (checkpointHash checkpoint)) ∨
      ∃ s, stateKey s = stateKey checkpoint ∧ Fits (2 ^ 53) b s ∧
        store (stateKey checkpoint) = some (checkpointHash s) ∧
        runInit checkpoints store (stateKey checkpoint) =
          some (checkpointHash (hydrated s checkpoint))) ∧
    ∀ key, (∀ checkpoint ∈ checkpoints, stateKey checkpoint ≠ key) →
      runInit checkpoints store key = store key := by
  have hbody : ∀ checkpoint ∈ checkpoints,
      (initBody (initArg checkpoint) (store (stateKey checkpoint))).2 = .ok () := by
    intro checkpoint hmem
    cases hrow : store (stateKey checkpoint) with
    | none => rfl
    | some row =>
      obtain ⟨s, -, rfl, hfits⟩ := htyped _ _ hrow
      rw [initBody_checkpointHash hfits.revision (hrev checkpoint hmem)]
  obtain ⟨-, hwrote⟩ := @KeyedLoop.run_map_ok _ _ _ _ _ _ InitArg.key initBody _ _ initArg store
    hnodup (fun _ => ()) hbody
  refine ⟨fun checkpoint hmem => ?_, fun key hkey => KeyedLoop.run_of_not_mem ?_⟩
  · have hval : runInit checkpoints store (stateKey checkpoint) =
        (initBody (initArg checkpoint) (store (stateKey checkpoint))).1 := hwrote checkpoint hmem
    cases hrow : store (stateKey checkpoint) with
    | none =>
      rw [hrow] at hval
      exact .inl ⟨rfl, hval⟩
    | some row =>
      obtain ⟨s, hkey, rfl, hfits⟩ := htyped _ _ hrow
      rw [hrow, initBody_checkpointHash hfits.revision (hrev checkpoint hmem)] at hval
      exact .inr ⟨s, hkey, hfits, rfl, hval⟩
  · intro arg harg
    obtain ⟨checkpoint, hmem, rfl⟩ := mem_map.mp harg
    exact hkey checkpoint hmem

end EchoJoyGateway.Quota
