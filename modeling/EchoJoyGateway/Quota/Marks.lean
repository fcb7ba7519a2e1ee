import EchoJoyGateway.Quota.Calls

/-!
# The marks that a call records

While every counter prints without an exponent, a call marks exactly the
records it changed, each with the revision and the version it left behind, and
a changed record is one version further.
-/

namespace EchoJoyGateway.Quota

open Decimal LuaNumber Redis List Option

def markOf (t : RestoredState) : Mark :=
    ⟨t.accessKeyID, t.ruleID, t.ruleRevision, t.snapshotVersion⟩

structure Advanced (b : Nat) (store store' : QuotaStore) (s t : RestoredState) : Prop where
  before : store (stateKey t) = some (checkpointHash s)
  after : store' (stateKey t) = some (checkpointHash t)
  key : stateKey s = stateKey t
  revision : t.ruleRevision = s.ruleRevision
  version : t.snapshotVersion = s.snapshotVersion + 1
  fits : Fits (2 ^ 53) (b + 1) t

structure Changes (b : Nat) (store store' : QuotaStore) (marks : List Mark) : Prop where
  effect : ∀ key, store' key = store key ∨
    ∃ s t, stateKey t = key ∧ Advanced b store store' s t ∧ markOf t ∈ marks
  marks : ∀ m ∈ marks, ∃ s t, Advanced b store store' s t ∧ m = markOf t

theorem Changes.refl (b : Nat) (store : QuotaStore) : Changes b store store [] where
  effect _ := .inl rfl
  marks _ hm := absurd hm not_mem_nil

variable {b : Nat} {store store' : QuotaStore} {s : RestoredState} {nowMS : Int}

theorem Advanced.opened {a : Nat} {rule : Rule} (hcur : Current b store a rule s)
    (hnow : inInt64 nowMS = true) (hafter : store' (a, rule.id) =
      some (checkpointHash (Quota.opened s nowMS (windowEnd rule nowMS)))) :
    Advanced b store store' s (Quota.opened s nowMS (windowEnd rule nowMS)) where
  before := by
    rw [show stateKey (Quota.opened s nowMS (windowEnd rule nowMS)) = (a, rule.id) from hcur.key]
    exact hcur.stored
  after := by
    rw [show stateKey (Quota.opened s nowMS (windowEnd rule nowMS)) = (a, rule.id) from hcur.key]
    exact hafter
  key := rfl
  revision := rfl
  version := rfl
  fits := hcur.fits.opened hnow (inInt64_wrapInt64 _)

def evaluationMarks (mode : Mode) (answer : Option (Ticket × List Mark)) : List Mark :=
  match mode, answer with
  | .admission, some (_, marks) => marks
  | _, _ => []

theorem mem_admissionMarks {states : List (RestoredState × Bool)} {m : Mark} :
    m ∈ admissionMarks states ↔ ∃ t, (t, true) ∈ states ∧ m = markOf t := by
  unfold admissionMarks
  rw [mem_filterMap]
  constructor
  · rintro ⟨⟨t, flag⟩, hmem, hm⟩
    cases flag with
    | false => cases hm
    | true =>
      cases hm
      exact ⟨t, hmem, rfl⟩
  · rintro ⟨t, hmem, rfl⟩
    exact ⟨(t, true), hmem, rfl⟩

theorem evaluate_changes (htyped : Typed b store) (hb : b + 1 < 10 ^ 14) (mode : Mode) (a : Nat)
    {rules : List Rule} (hnodup : (rules.map Rule.id).Nodup)
    (hrev : ∀ rule ∈ rules, rule.revision ≤ 2 ^ 53) (hnow : inInt64 nowMS = true) :
    Changes b store (runQuota mode a rules nowMS store).1
      (evaluationMarks mode (admitted a rules (runQuota mode a rules nowMS store).2)) := by
  have hb' : b + 1 < 2 ^ 63 := hb.trans (by norm_num)
  rcases runQuota_spec htyped hb' mode a nowMS hnodup hrev with
    ⟨hstore, hno⟩ | ⟨s, allowed, hs, hreply, hother⟩
  · have hanswer : admitted a rules (runQuota mode a rules nowMS store).2 = none := by
      unfold admitted
      split
      · rename_i heq
        exact absurd heq (hno _ _)
      · rfl
    rw [hstore, hanswer]
    cases mode with
    | check => exact .refl b store
    | admission => exact .refl b store
  · have hmarks : ∀ rule ∈ rules, opens mode allowed nowMS rule (s rule) = true →
        markOf (opened (s rule) nowMS (windowEnd rule nowMS)) ∈
          evaluationMarks mode (admitted a rules (runQuota mode a rules nowMS store).2) := by
      intro rule hmem hopen
      have hparts := hopen
      simp only [opens, Bool.and_eq_true, decide_eq_true_eq] at hparts
      obtain ⟨⟨rfl, rfl⟩, -⟩ := hparts
      obtain ⟨hval, hexists⟩ := @parseEvaluation_eq true b rules nowMS (2 ^ 53) a s
        (fun rule hmem => (hs rule hmem).1.atRevision) (by omega) .admission hnow
      obtain ⟨states, hstates⟩ := hexists fun rule hmem => (hs rule hmem).1.fits.printable hb
      rw [hreply]
      simp only [admitted, hstates, map_some, evaluationMarks]
      rw [mem_admissionMarks, hval _ hstates]
      refine ⟨_, mem_map.mpr ⟨rule, hmem, ?_⟩, rfl⟩
      rw [evaluated_of_opens hopen, hopen]
    constructor
    · intro key
      by_cases hkey : ∃ rule ∈ rules, (a, rule.id) = key
      · obtain ⟨rule, hmem, rfl⟩ := hkey
        obtain ⟨hcur, hafter⟩ := hs rule hmem
        by_cases hopen : opens mode allowed nowMS rule (s rule) = true
        · rw [evaluated_of_opens hopen] at hafter
          exact .inr ⟨s rule, opened (s rule) nowMS (windowEnd rule nowMS), hcur.key,
            .opened hcur hnow hafter, hmarks rule hmem hopen⟩
        · rw [evaluated_of_not_opens hopen] at hafter
          exact .inl (hafter.trans hcur.stored.symm)
      · exact .inl (hother key fun rule hmem heq => hkey ⟨rule, hmem, heq⟩)
    · intro m hm
      cases mode with
      | check => exact absurd hm not_mem_nil
      | admission =>
        cases hanswer : admitted a rules (runQuota .admission a rules nowMS store).2 with
        | none =>
          rw [hanswer] at hm
          exact absurd hm not_mem_nil
        | some answer =>
          obtain ⟨ticket, marks⟩ := answer
          rw [hanswer] at hm
          obtain ⟨s', hs', -, -, rfl⟩ := admitted_spec htyped hb' hnodup hrev hnow hanswer
          obtain ⟨t, ht, rfl⟩ := mem_admissionMarks.mp hm
          obtain ⟨rule, hmem, heq⟩ := mem_map.mp ht
          obtain ⟨rfl, hopen⟩ := Prod.mk.inj heq
          obtain ⟨hcur, hafter⟩ := hs' rule hmem
          rw [evaluated_of_opens hopen] at hafter ⊢
          exact ⟨s' rule, _, .opened hcur hnow hafter, rfl⟩

variable {ticket : Ticket}

theorem completionMarks_append {change : TicketRule → Option (Text × Text)}
    {mark : TicketRule → Mark} {earlier rest : List TicketRule}
    (hrules : ticket.rules = earlier ++ rest)
    (hparse : ∀ rule ∈ rest, ∀ rev ver, change rule = some (rev, ver) →
      parseUint 64 rev = some (mark rule).revision ∧ parseUint 64 ver = some (mark rule).version ∧
        (mark rule).accessKeyID = ticket.accessKeyID ∧ (mark rule).ruleID = rule.ruleID) :
    completionMarks ticket (changedEntries (earlier.length + 1) (rest.map change)) =
      rest.filterMap fun rule => (change rule).map fun _ => mark rule := by
  induction rest generalizing earlier with
  | nil => rfl
  | cons rule rest ih =>
    have htail := @ih (earlier ++ [rule]) (by rw [hrules, append_assoc]; rfl)
      fun x hx => hparse x (mem_cons_of_mem _ hx)
    rw [length_append] at htail
    cases hchange : change rule with
    | none =>
      simp only [map_cons, filterMap_cons, hchange]
      exact htail
    | some entry =>
      obtain ⟨rev, ver⟩ := entry
      obtain ⟨hr, hv, ha, hi⟩ := hparse rule (.head _) rev ver hchange
      have hget : ticket.rules[earlier.length + 1 - 1]? = some rule := by
        rw [hrules, Nat.add_sub_cancel, getElem?_append_right le_rfl, Nat.sub_self]
        rfl
      simp only [changedEntries, map_cons, zipIdx_cons, filterMap_cons, hchange,
        map_some, completionMarks, hget, hr, hv]
      congr 1
      rw [← ha, ← hi]

variable {cost : Int}

theorem changeOf_parse (h : Fits (2 ^ 53) b s) (hb : b + 1 < 10 ^ 14) {rev ver : Text}
    (hchange : changeOf s cost = some (rev, ver)) :
    settled s cost ≠ s ∧ parseUint 64 rev = some s.ruleRevision ∧
      parseUint 64 ver = some (s.snapshotVersion + 1) := by
  unfold changeOf at hchange
  split at hchange
  · cases hchange
  · rename_i hne
    cases hchange
    have hrev := h.revision
    have hver := h.version
    refine ⟨hne, parseUint_digits (by omega), ?_⟩
    rw [tostring_of_lt (by omega)]
    exact parseUint_digits (by omega)

theorem settled_version_of_ne (h : settled s cost ≠ s) :
    (settled s cost).snapshotVersion = s.snapshotVersion + 1 := by
  rcases settled_cases s cost with hs | ⟨used, hs⟩
  · exact absurd hs h
  · rw [hs]
    rfl

theorem Advanced.settled (hfits : Fits (2 ^ 53) b s)
    (hbefore : store (stateKey s) = some (checkpointHash s))
    (hafter : store' (stateKey s) = some (checkpointHash (Quota.settled s cost)))
    (hne : Quota.settled s cost ≠ s) : Advanced b store store' s (Quota.settled s cost) where
  before := by rw [stateKey_settled]; exact hbefore
  after := by rw [stateKey_settled]; exact hafter
  key := (stateKey_settled s cost).symm
  revision := settled_revision s cost
  version := settled_version_of_ne hne
  fits := hfits.settled cost

theorem exists_mark (hb : b + 1 < 10 ^ 14) {a : Nat} {rule : TicketRule}
    {change : Option (Text × Text)} (h : Settles b cost store store' (a, rule.ruleID) rule change) :
    ∃ m : Mark, (∀ rev ver, change = some (rev, ver) →
        parseUint 64 rev = some m.revision ∧ parseUint 64 ver = some m.version ∧
          m.accessKeyID = a ∧ m.ruleID = rule.ruleID) ∧
      ((change = none ∧ store' (a, rule.ruleID) = store (a, rule.ruleID)) ∨
        ∃ s t, change ≠ none ∧ stateKey t = (a, rule.ruleID) ∧ Advanced b store store' s t ∧
          m = markOf t) := by
  cases h with
  | absent hbefore hafter | outdated s hkey hfits hbefore hrule hafter =>
    exact ⟨⟨a, rule.ruleID, 0, 0⟩, nofun, .inl ⟨rfl, hafter.trans hbefore.symm⟩⟩
  | current s hkey hfits hbefore hrule hafter =>
    by_cases hsame : settled s cost = s
    · refine ⟨markOf s, fun rev ver hchange => absurd hsame (changeOf_parse hfits hb hchange).1,
        .inl ⟨?_, ?_⟩⟩
      · rw [changeOf, if_pos hsame]
      · rw [hafter, hbefore, hsame]
    · have hkey' := (stateKey_settled s cost).trans hkey
      refine ⟨markOf (settled s cost), fun rev ver hchange => ?_, .inr ⟨s, _, ?_, hkey', ?_, rfl⟩⟩
      · obtain ⟨-, hr, hv⟩ := changeOf_parse hfits hb hchange
        refine ⟨?_, ?_, congrArg Prod.fst hkey', congrArg Prod.snd hkey'⟩
        · rw [hr]
          exact congrArg some (settled_revision s cost).symm
        · rw [hv]
          exact congrArg some (settled_version_of_ne hsame).symm
      · rw [changeOf, if_neg hsame]
        exact some_ne_none _
      · exact .settled hfits (by rw [hkey]; exact hbefore) (by rw [hkey]; exact hafter) hsame

theorem complete_changes (htyped : Typed b store) (hb : b + 1 < 10 ^ 14)
    (hcost : inInt64 cost = true) (hnodup : (ticket.rules.map TicketRule.ruleID).Nodup)
    (hrev : ∀ rule ∈ ticket.rules, rule.ruleRevision ≤ 2 ^ 53) :
    Changes b store (complete ticket cost store).1 (complete ticket cost store).2 := by
  cases hskip : skipsCompletion ticket cost with
  | true =>
    simp only [complete, hskip]
    exact .refl b store
  | false =>
    obtain ⟨change, reply, hreply, hchanged, hsettles, hother⟩ :=
      runComplete_spec htyped (hb.trans (by norm_num)) hcost hnodup hrev
    choose! mark hparse hmark using fun rule (hmem : rule ∈ ticket.rules) =>
      exists_mark hb (hsettles rule hmem)
    have hcomplete : complete ticket cost store = ((runComplete ticket cost store).1,
        ticket.rules.filterMap fun rule => (change rule).map fun _ => mark rule) := by
      have hmarks := @completionMarks_append ticket change mark [] ticket.rules rfl hparse
      rw [length_nil, ← hchanged] at hmarks
      rw [← hmarks]
      simp only [complete, hskip, Bool.false_eq_true, if_false]
      split
      · rename_i heq
        rw [heq] at hreply
        cases hreply
      · rename_i heq
        rw [heq] at hreply
        cases hreply
        rw [heq]
    rw [hcomplete]
    constructor
    · intro key
      by_cases hkey : ∃ rule ∈ ticket.rules, (ticket.accessKeyID, rule.ruleID) = key
      · obtain ⟨rule, hmem, rfl⟩ := hkey
        rcases hmark rule hmem with ⟨-, hsame⟩ | ⟨s, t, hne, hkey, hadv, hm⟩
        · exact .inl hsame
        · refine .inr ⟨s, t, hkey, hadv, mem_filterMap.mpr ⟨rule, hmem, ?_⟩⟩
          cases hc : change rule with
          | none => exact absurd hc hne
          | some entry => exact congrArg some hm
      · exact .inl (hother key fun rule hmem heq => hkey ⟨rule, hmem, heq⟩)
    · intro m hm
      obtain ⟨rule, hmem, hval⟩ := mem_filterMap.mp hm
      rcases hmark rule hmem with ⟨hnone, -⟩ | ⟨s, t, hne, hkey, hadv, hmt⟩
      · rw [hnone] at hval
        cases hval
      · obtain ⟨entry, -, rfl⟩ := map_eq_some_iff.mp hval
        exact ⟨s, t, hadv, hmt⟩

end EchoJoyGateway.Quota
