import EchoJoyGateway.Control.CostLimits

/-!
# Reconciling cost-limit rules

The statements of a reconciliation, stage by stage: the deletions, the moves to temporary
periods, and the definitions. No statement leaves two periodic rules with one period.
-/

namespace EchoJoyGateway.CostLimits

open Quota Traced List
open Function (update update_of_ne update_self)

/-- No two periodic rules have one period. -/
def Distinct (t : Tables) : Prop :=
  ∀ i j a b, t.rules i = some a → t.rules j = some b → a.kind = .periodic → b.kind = .periodic →
    a.periodSeconds = b.periodSeconds → i = j

theorem Distinct.put {t t' : Tables} (h : Distinct t) {id : Nat} {rule : Rule}
    (hrules : t'.rules = update t.rules id (some rule))
    (hnew : rule.kind = .periodic → ∀ j b, j ≠ id → t.rules j = some b → b.kind = .periodic →
      b.periodSeconds ≠ rule.periodSeconds) : Distinct t' := by
  intro i j a b ha hb hkind hkind' hperiod
  rw [hrules] at ha hb
  rcases eq_or_ne i id with rfl | hi
  · rcases eq_or_ne j i with rfl | hj
    · rfl
    · rw [update_self] at ha
      rw [update_of_ne hj] at hb
      cases ha
      exact absurd hperiod.symm (hnew hkind j b hj hb hkind')
  · rw [update_of_ne hi] at ha
    rcases Update.cases hb with ⟨rfl, heq⟩ | ⟨-, hb⟩
    · cases heq
      exact absurd hperiod (hnew hkind' i a hi ha hkind)
    · exact h i j a b ha hb hkind hkind' hperiod

theorem Distinct.of_subset {t t' : Tables} (h : Distinct t)
    (hsub : ∀ id rule, t'.rules id = some rule → t.rules id = some rule) : Distinct t' :=
  fun i j a b ha hb => h i j a b (hsub i a ha) (hsub j b hb)

section Stages

variable {t₀ : Tables} {desired : List Definition}

def Retained (desired : List Definition) (id : Nat) : Prop := ∃ d ∈ desired, d.id ≠ 0 ∧ d.id = id

/-! ## Deletions -/

structure Deleting (t₀ : Tables) (desired : List Definition) (done : List Rule) (t : Tables) :
    Prop where
  rules : ∀ id rule, t.rules id = some rule ↔
    t₀.rules id = some rule ∧ (Retained desired id ∨ rule ∉ done)
  states : ∀ id, Retained desired id → t.states id = t₀.states id
  nextID : t.nextID = t₀.nextID

theorem retained_iff {rule : Rule} :
    (desired.any fun d => d.id ≠ 0 && d.id == rule.id) = true ↔ Retained desired rule.id := by
  simp [Retained]

theorem deletions (hdistinct : Distinct t₀) {E : Failure → Prop} :
    Sat Distinct (Deleting t₀ desired t₀.all) E
      (each (deleteUnlessRetained desired) t₀.all t₀) := by
  have hsub : ∀ {done t}, Deleting t₀ desired done t → Distinct t := fun h =>
    hdistinct.of_subset fun id rule hrule => ((h.rules id rule).mp hrule).1
  refine .each (fun done rule todo t hall h => ?_) ⟨fun id rule => ?_, fun _ _ => rfl, rfl⟩
  · have hrule : t₀.rules rule.id = some rule := by
      rw [← Tables.mem_all, ← hall]
      exact mem_append_right _ (.head _)
    unfold deleteUnlessRetained
    split
    · rename_i hretained
      rw [retained_iff] at hretained
      refine .pure ⟨fun id other => ?_, h.states, h.nextID⟩
      rw [h.rules, mem_append, mem_singleton]
      constructor
      · rintro ⟨hother, hkept | hnot⟩
        · exact ⟨hother, .inl hkept⟩
        · rcases eq_or_ne other rule with rfl | hne
          · exact ⟨hother, .inl ((t₀.keyed id other hother).1 ▸ hretained)⟩
          · exact ⟨hother, .inr fun hmem => hmem.elim hnot hne⟩
      · rintro ⟨hother, hkept | hnot⟩
        · exact ⟨hother, .inl hkept⟩
        · exact ⟨hother, .inr fun hmem => hnot (.inl hmem)⟩
    · rename_i hgone
      rw [retained_iff] at hgone
      have hnext : Deleting t₀ desired (done ++ [rule]) (t.delete rule.id) := by
        refine ⟨fun id other => ?_, fun id hkept => ?_, h.nextID⟩
        · rw [mem_append, mem_singleton]
          change update t.rules rule.id none id = some other ↔ _
          rcases eq_or_ne id rule.id with rfl | hne
          · rw [update_self, hrule]
            constructor
            · exact nofun
            · rintro ⟨⟨⟩, hkept | hnot⟩
              · exact absurd hkept hgone
              · exact absurd (.inr rfl) hnot
          · rw [update_of_ne hne, h.rules]
            constructor
            · rintro ⟨hother, hcase⟩
              refine ⟨hother, hcase.imp_right fun hnot => ?_⟩
              rintro (hmem | rfl)
              · exact hnot hmem
              · exact hne (t₀.keyed id other hother).1.symm
            · rintro ⟨hother, hcase⟩
              exact ⟨hother, hcase.imp_right fun hnot hmem => hnot (.inl hmem)⟩
        · change update t.states rule.id none id = _
          rw [update_of_ne, h.states id hkept]
          rintro rfl
          exact hgone hkept
      exact .statement (hsub hnext) hnext
  · simp

/-! ## Temporary moves -/

/-- The rules that definitions name, and no others. A rule that keeps its period has it; another
has one that is nobody's. -/
structure Prepared (t₀ : Tables) (desired : List Definition) (t : Tables) : Prop where
  named : ∀ d ∈ desired, d.id ≠ 0 → ∃ c p, t₀.rules d.id = some c ∧ c.kind = d.kind ∧
    t.rules d.id = some { c with periodSeconds := p } ∧
    (c.periodSeconds = d.periodSeconds → p = d.periodSeconds) ∧
    (c.periodSeconds ≠ d.periodSeconds →
      p ∉ reservedPeriods t₀.all desired ∧ c.revision ≠ maxRevision)
  only : ∀ id rule, t.rules id = some rule → Retained desired id
  states : ∀ id, Retained desired id → t.states id = t₀.states id
  nextID : t.nextID = t₀.nextID

def place (moves : List PeriodMove) (id : Nat) (period : Int) : Int :=
  moves.foldl (fun p move => if move.ruleID = id then move.temporaryPeriod else p) period

theorem place_append (moves : List PeriodMove) (move : PeriodMove) (id : Nat) (period : Int) :
    place (moves ++ [move]) id period =
      if move.ruleID = id then move.temporaryPeriod else place moves id period := by
  rw [place, foldl_append]
  rfl

theorem place_eq (moves : List PeriodMove) (id : Nat) (period : Int) :
    (∀ move ∈ moves, move.ruleID ≠ id) ∧ place moves id period = period ∨
      ∃ move ∈ moves, move.ruleID = id ∧ place moves id period = move.temporaryPeriod := by
  induction moves using List.reverseRecOn with
  | nil => exact .inl ⟨nofun, rfl⟩
  | append_singleton moves move ih =>
    rw [place_append]
    by_cases hid : move.ruleID = id
    · rw [if_pos hid]
      exact .inr ⟨move, mem_append_right _ (.head _), hid, rfl⟩
    · rw [if_neg hid]
      rcases ih with ⟨hnone, hplace⟩ | ⟨other, hother, hfound⟩
      · refine .inl ⟨fun other hother => ?_, hplace⟩
        rcases mem_append.mp hother with hother | hother
        · exact hnone other hother
        · rwa [mem_singleton.mp hother]
      · exact .inr ⟨other, mem_append_left _ hother, hfound⟩

structure Moving (t₁ : Tables) (done : List PeriodMove) (t : Tables) : Prop where
  rules : ∀ id, t.rules id = (t₁.rules id).map fun rule =>
    { rule with periodSeconds := place done id rule.periodSeconds }
  states : t.states = t₁.states
  nextID : t.nextID = t₁.nextID
  distinct : Distinct t

theorem mem_reserved_current {id : Nat} {rule : Rule} (hrule : t₀.rules id = some rule)
    (hkind : rule.kind = .periodic) : rule.periodSeconds ∈ reservedPeriods t₀.all desired := by
  refine mem_append_left _ (mem_map.mpr ⟨rule, mem_filter.mpr ⟨?_, ?_⟩, rfl⟩)
  · rw [Tables.mem_all, (t₀.keyed id rule hrule).1]
    exact hrule
  · rw [hkind]
    rfl

theorem mem_reserved_desired {d : Definition} (hd : d ∈ desired) (hkind : d.kind = .periodic) :
    d.periodSeconds ∈ reservedPeriods t₀.all desired := by
  refine mem_append_right _ (mem_map.mpr ⟨d, mem_filter.mpr ⟨hd, ?_⟩, rfl⟩)
  rw [hkind]
  rfl

theorem eq_of_id (hapart : desired.Pairwise Apart) {d d' : Definition} (hd : d ∈ desired)
    (hd' : d' ∈ desired) (hne : d.id ≠ 0) (hid : d.id = d'.id) : d = d' := by
  by_contra hdiffer
  exact (hapart.forall hd hd' hdiffer).2 hne hid

def Known (t₀ : Tables) (desired : List Definition) : Prop :=
  ∀ d ∈ desired, d.id ≠ 0 → ∃ c, t₀.rules d.id = some c ∧ c.kind = d.kind

section Moves

variable {t₁ : Tables} {moves : List PeriodMove} (hdeleted : Deleting t₀ desired t₀.all t₁)
  (hknown : Known t₀ desired) (hplan : Plan t₀ desired moves)
include hdeleted

theorem rules_deleted {id : Nat} {rule : Rule} :
    t₁.rules id = some rule ↔ t₀.rules id = some rule ∧ Retained desired id := by
  rw [hdeleted.rules]
  constructor
  · rintro ⟨hrule, hkept | hnot⟩
    · exact ⟨hrule, hkept⟩
    · refine absurd (Tables.mem_all.mpr ?_) hnot
      rwa [(t₀.keyed id rule hrule).1]
  · exact fun h => ⟨h.1, .inl h.2⟩

include hknown hplan

theorem Moving.step {done todo : List PeriodMove} {move : PeriodMove} {t : Tables}
    (hall : done ++ move :: todo = moves) (h : Moving t₁ done t) :
    ∃ rule, t.rules move.ruleID = some rule ∧
      Moving t₁ (done ++ [move]) (t.update move.ruleID fun rule =>
        { rule with periodSeconds := move.temporaryPeriod }) := by
  have hmove : move ∈ moves := hall ▸ mem_append_right _ (.head _)
  obtain ⟨d, hd, hchanges, hid⟩ := (hplan.moved move.ruleID).mp ⟨move, hmove, rfl⟩
  have hne : d.id ≠ 0 := by
    simp only [changes, Bool.and_eq_true, decide_eq_true_eq] at hchanges
    exact hchanges.1
  obtain ⟨c, hc, -⟩ := hknown d hd hne
  rw [hid] at hc
  have hrule₁ := (rules_deleted hdeleted).mpr ⟨hc, ⟨d, hd, hne, hid⟩⟩
  have hrule : t.rules move.ruleID =
      some { c with periodSeconds := place done move.ruleID c.periodSeconds } := by
    rw [h.rules, hrule₁]
    rfl
  have hrules : (t.update move.ruleID fun rule =>
      { rule with periodSeconds := move.temporaryPeriod }).rules =
        update t.rules move.ruleID (some { c with periodSeconds := move.temporaryPeriod }) := by
    change update t.rules move.ruleID ((t.rules move.ruleID).map _) = _
    rw [hrule]
    rfl
  refine ⟨_, hrule, fun id => ?_, h.states, h.nextID, h.distinct.put hrules ?_⟩
  · rw [hrules]
    rcases eq_or_ne id move.ruleID with rfl | hother
    · rw [update_self, hrule₁, Option.map_some, place_append, if_pos rfl]
    · rw [update_of_ne hother, h.rules]
      simp only [place_append, if_neg hother.symm]
  · intro _ j b hj hb hkind hperiod
    rw [h.rules] at hb
    obtain ⟨r, hr, rfl⟩ := Option.map_eq_some_iff.mp hb
    have hr₀ := ((rules_deleted hdeleted).mp hr).1
    simp only at hperiod hkind
    rcases place_eq done j r.periodSeconds with ⟨-, hplace⟩ | ⟨other, hmem, -, hplace⟩
    · refine hplan.free move hmove ?_
      rw [← hperiod, hplace]
      exact mem_reserved_current hr₀ hkind
    · have hapart := hplan.apart
      rw [← hall, pairwise_append] at hapart
      exact hapart.2.2 other hmem move (.head _) (hplace ▸ hperiod)

theorem temporary_moves (hapart : desired.Pairwise Apart) (hdistinct : Distinct t₁)
    {E : Failure → Prop} :
    Sat Distinct (fun t => Distinct t ∧ Prepared t₀ desired t) E
      (each moveTemporarily moves t₁) := by
  have hstart : Moving t₁ [] t₁ := by
    refine ⟨fun id => ?_, rfl, rfl, hdistinct⟩
    cases t₁.rules id <;> rfl
  refine (Sat.each (fun done move todo t hall h => ?_) hstart).mono (fun t h => ?_) fun _ he => he
  · obtain ⟨rule, hrule, hnext⟩ := h.step hdeleted hknown hplan hall
    rw [moveTemporarily, hrule]
    exact .statement hnext.distinct hnext
  · refine ⟨h.distinct, fun d hd hne => ?_, fun id rule hrule => ?_, fun id hkept => ?_,
      h.nextID.trans hdeleted.nextID⟩
    · obtain ⟨c, hc, hkind⟩ := hknown d hd hne
      have hrule₁ := (rules_deleted hdeleted).mpr ⟨hc, ⟨d, hd, hne, rfl⟩⟩
      have hchanges : changes t₀ d = true ↔ c.periodSeconds ≠ d.periodSeconds := by
        simp [changes, hne, hc]
      refine ⟨c, place moves d.id c.periodSeconds, hc, hkind, ?_,
        fun hsame => ?_, fun hdiffer => ?_⟩
      · rw [h.rules, hrule₁]
        rfl
      · rcases place_eq moves d.id c.periodSeconds with ⟨-, hplace⟩ | ⟨move, hmove, hid, -⟩
        · exact hplace.trans hsame
        · obtain ⟨d', hd', hchanges', hid'⟩ := (hplan.moved d.id).mp ⟨move, hmove, hid⟩
          obtain rfl := eq_of_id hapart hd hd' hne hid'.symm
          exact absurd hsame (hchanges.mp hchanges')
      · have hadvance := hplan.advance d hd (hchanges.mpr hdiffer)
        rw [hc] at hadvance
        refine ⟨?_, hadvance⟩
        rcases place_eq moves d.id c.periodSeconds with ⟨hnone, -⟩ | ⟨move, hmove, -, hplace⟩
        · obtain ⟨move, hmove, hid⟩ := (hplan.moved d.id).mpr ⟨d, hd, hchanges.mpr hdiffer, rfl⟩
          exact absurd hid (hnone move hmove)
        · rw [hplace]
          exact hplan.free move hmove
    · rw [h.rules] at hrule
      obtain ⟨r, hr, -⟩ := Option.map_eq_some_iff.mp hrule
      exact ((rules_deleted hdeleted).mp hr).2
    · rw [h.states]
      exact hdeleted.states id hkept

end Moves

/-! ## Definitions -/

/-- A rule has what a definition asks for. A rule that it names has a new revision when its
period is new. -/
structure Carries (t₀ : Tables) (d : Definition) (id : Nat) (rule : Rule) : Prop where
  kind : rule.kind = d.kind
  limit : rule.limitNano = d.limitNano
  period : rule.periodSeconds = d.periodSeconds
  named : d.id ≠ 0 → id = d.id ∧ ∃ c, t₀.rules id = some c ∧
    rule.revision = c.revision + if c.periodSeconds = d.periodSeconds then 0 else 1
  created : d.id = 0 → t₀.nextID ≤ id ∧ rule.revision = 1

structure Applied (t₀ : Tables) (desired : List Definition) (t₂ : Tables) (done : List Definition)
    (t : Tables) : Prop where
  distinct : Distinct t
  applied : ∀ d ∈ done, ∃ id rule, t.rules id = some rule ∧ Carries t₀ d id rule
  only : ∀ id rule, t.rules id = some rule → (∃ d ∈ done, Carries t₀ d id rule) ∨
    ∃ d ∈ desired, d ∉ done ∧ d.id ≠ 0 ∧ d.id = id
  pending : ∀ d ∈ desired, d ∉ done → d.id ≠ 0 →
    t.rules d.id = t₂.rules d.id ∧ t.states d.id = t₀.states d.id
  nextID : t₀.nextID ≤ t.nextID

section Definitions

variable {t₂ t t' : Tables} {done todo : List Definition} {d : Definition} {id : Nat} {rule : Rule}
  (hapart : desired.Pairwise Apart) (hprepared : Prepared t₀ desired t₂)
  (h : Applied t₀ desired t₂ done t) (hd : d ∈ desired) (hnew : d ∉ done)
include hapart hprepared h hd hnew

theorem Applied.unused (hdone : ∀ d' ∈ done, d' ∈ desired) (hkind : d.kind = .periodic) {j : Nat}
    {b : Rule} (hb : t.rules j = some b) (hj : d.id ≠ 0 → j ≠ d.id)
    (hperiodic : b.kind = .periodic) : b.periodSeconds ≠ d.periodSeconds := by
  intro hperiod
  rcases h.only j b hb with ⟨d', hd', hcarries⟩ | ⟨d', hd', hpending, hne', rfl⟩
  · have hdiffer : d' ≠ d := fun heq => hnew (heq ▸ hd')
    refine (hapart.forall (hdone d' hd') hd hdiffer).1 ?_ ?_
    · rw [← hcarries.kind, hperiodic, hkind]
    · rw [← hcarries.period, hperiod]
  · have hdiffer : d' ≠ d := by
      rintro rfl
      exact hj hne' rfl
    obtain ⟨c, p, -, hckind, hrule, hkept, hmoved⟩ := hprepared.named d' hd' hne'
    rw [(h.pending d' hd' hpending hne').1, hrule] at hb
    cases hb
    simp only at hperiod hperiodic
    by_cases hsame : c.periodSeconds = d'.periodSeconds
    · refine (hapart.forall hd' hd hdiffer).1 ?_ ?_
      · rw [← hckind, hperiodic, hkind]
      · rw [← hkept hsame, hperiod]
    · refine (hmoved hsame).1 ?_
      rw [hperiod]
      exact mem_reserved_desired hd hkind

theorem Applied.put (hdone : ∀ d' ∈ done, d' ∈ desired)
    (hrules : t'.rules = update t.rules id (some rule)) (hcarries : Carries t₀ d id rule)
    (hfree : ∀ d' ∈ done, ∀ other, t.rules id = some other → ¬ Carries t₀ d' id other)
    (hstates : ∀ other, other ≠ id → t'.states other = t.states other)
    (hnext : t.nextID ≤ t'.nextID) : Applied t₀ desired t₂ (done ++ [d]) t' := by
  have hid : d.id ≠ 0 → id = d.id := fun hne => (hcarries.named hne).1
  refine ⟨h.distinct.put hrules fun hkind j b hj hb hperiodic => ?_, fun d' hd' => ?_,
    fun other r hr => ?_, fun d' hd' hpending hne => ?_, h.nextID.trans hnext⟩
  · rw [hcarries.period]
    exact h.unused hapart hprepared hd hnew hdone (hcarries.kind ▸ hkind) hb
      (fun hne => hid hne ▸ hj) hperiodic
  · rw [hrules]
    rcases mem_append.mp hd' with hd' | hd'
    · obtain ⟨id', r, hr, hcarries'⟩ := h.applied d' hd'
      have hother : id' ≠ id := by
        rintro rfl
        exact hfree d' hd' r hr hcarries'
      exact ⟨id', r, by rwa [update_of_ne hother], hcarries'⟩
    · obtain rfl := mem_singleton.mp hd'
      exact ⟨id, rule, update_self .., hcarries⟩
  · rw [hrules] at hr
    rcases Update.cases hr with ⟨rfl, heq⟩ | ⟨hother, hr⟩
    · cases heq
      exact .inl ⟨d, mem_append_right _ (.head _), hcarries⟩
    · rcases h.only other r hr with ⟨d', hd', hcarries'⟩ | ⟨d', hd', hpending, hne', rfl⟩
      · exact .inl ⟨d', mem_append_left _ hd', hcarries'⟩
      · refine .inr ⟨d', hd', fun hmem => ?_, hne', rfl⟩
        rcases mem_append.mp hmem with hmem | hmem
        · exact hpending hmem
        · obtain rfl := mem_singleton.mp hmem
          exact hother (hid hne').symm
  · have hother : d'.id ≠ id := by
      intro heq
      by_cases hzero : d.id = 0
      · -- A new identifier is not that of a rule from before.
        obtain ⟨c, p, hc, -⟩ := hprepared.named d' hd' hne
        have := (t₀.keyed _ _ hc).2
        have := (hcarries.created hzero).1
        omega
      · have hsame := eq_of_id hapart hd' hd hne (heq.trans (hid hzero))
        exact hpending (hsame ▸ mem_append_right _ (.head _))
    have hold := h.pending d' hd' (fun hmem => hpending (mem_append_left _ hmem)) hne
    rw [hrules, update_of_ne hother, hstates _ hother]
    exact hold

/-- Why a definition may not be applied: the currency of a new rule cannot be loaded, or the
state of a changed rule is not at its revision. -/
def Blocked (currency : Except String String) (t₀ : Tables) (desired : List Definition)
    (e : Failure) : Prop :=
  (∃ message, currency = .error message ∧ e = .currency message) ∨
    ∃ d ∈ desired, ∃ c, d.id ≠ 0 ∧ t₀.rules d.id = some c ∧ c.periodSeconds ≠ d.periodSeconds ∧
      (t₀.states d.id).any (·.ruleRevision == c.revision) = false ∧ e = .resetState d.id

theorem Applied.create (hdone : ∀ d' ∈ done, d' ∈ desired) (hzero : d.id = 0)
    (currency : Except String String) :
    Sat Distinct (Applied t₀ desired t₂ (done ++ [d])) (Blocked currency t₀ desired)
      (createRule currency d t) := by
  cases currency with
  | error message =>
    refine .lift nofun fun e he => ?_
    cases he
    exact .inl ⟨message, rfl, rfl⟩
  | ok code =>
    have hcarries : Carries t₀ d t.nextID
        ⟨t.nextID, 1, d.kind, code, d.limitNano, d.periodSeconds⟩ :=
      ⟨rfl, rfl, rfl, fun hne => absurd hzero hne, fun _ => ⟨h.nextID, rfl⟩⟩
    have hfree : ∀ d' ∈ done, ∀ other, t.rules t.nextID = some other →
        ¬ Carries t₀ d' t.nextID other := fun _ _ other hother =>
      absurd (t.keyed _ _ hother).2 (Nat.lt_irrefl _)
    have hinsert : Applied t₀ desired t₂ (done ++ [d])
        (t.insert ⟨0, 1, d.kind, code, d.limitNano, d.periodSeconds⟩) :=
      h.put hapart hprepared hd hnew hdone rfl hcarries hfree (fun _ _ => rfl) (Nat.le_succ _)
    refine .bind (.statement hinsert.distinct (Eq.refl _)) fun t' ht' => ?_
    subst ht'
    have hstate : Applied t₀ desired t₂ (done ++ [d])
        ((t.insert ⟨0, 1, d.kind, code, d.limitNano, d.periodSeconds⟩).setState t.nextID
          (.fresh 1)) :=
      h.put hapart hprepared hd hnew hdone rfl hcarries hfree
        (fun _ hne => update_of_ne hne _ _) (Nat.le_succ _)
    exact .statement hstate.distinct hstate

theorem Applied.rewrite (hdone : ∀ d' ∈ done, d' ∈ desired) (hne : d.id ≠ 0)
    (currency : Except String String) :
    Sat Distinct (Applied t₀ desired t₂ (done ++ [d])) (Blocked currency t₀ desired)
      (applyDefinition t₀.all currency d t) := by
  obtain ⟨c, p, hc, hkind, hrule, hkept, hmoved⟩ := hprepared.named d hd hne
  obtain ⟨hpending, hstate⟩ := h.pending d hd hnew hne
  rw [hrule] at hpending
  have hfree : ∀ d' ∈ done, ∀ other, t.rules d.id = some other → ¬ Carries t₀ d' d.id other := by
    intro d' hd' other _ hcarries
    by_cases hzero : d'.id = 0
    · have := (hcarries.created hzero).1
      have := (t₀.keyed _ _ hc).2
      omega
    · have hsame := eq_of_id hapart (hdone d' hd') hd hzero (hcarries.named hzero).1.symm
      exact hnew (hsame ▸ hd')
  have hupdate : ∀ (f : Rule → Rule) rule,
      rule = { f { c with periodSeconds := p } with id := c.id } →
      (t.update d.id f).rules = update t.rules d.id (some rule) := by
    rintro f rule rfl
    change update t.rules d.id ((t.rules d.id).map _) = _
    rw [hpending]
    rfl
  rw [applyDefinition, if_neg hne]
  simp only [currentByID_all, hc, Option.getD_some]
  split
  · rename_i hsame
    have hcarries : Carries t₀ d d.id { c with periodSeconds := p, limitNano := d.limitNano } :=
      ⟨hkind, rfl, hkept hsame, fun _ => ⟨rfl, c, hc, by rw [if_pos hsame]; rfl⟩,
        fun hzero => absurd hzero hne⟩
    have hnext : Applied t₀ desired t₂ (done ++ [d])
        (t.update d.id fun rule => { rule with limitNano := d.limitNano }) :=
      h.put hapart hprepared hd hnew hdone (hupdate _ _ rfl) hcarries hfree (fun _ _ => rfl)
        (Nat.le_refl _)
    exact .statement hnext.distinct hnext
  · rename_i hdiffer
    rw [if_neg (hmoved hdiffer).2]
    have hcarries : Carries t₀ d d.id
        ⟨c.id, c.revision + 1, d.kind, c.currency, d.limitNano, d.periodSeconds⟩ :=
      ⟨rfl, rfl, rfl, fun _ => ⟨rfl, c, hc, by rw [if_neg hdiffer]⟩, fun hzero => absurd hzero hne⟩
    have hnext : Applied t₀ desired t₂ (done ++ [d]) (t.update d.id fun rule =>
        { rule with
          limitNano := d.limitNano
          kind := d.kind
          periodSeconds := d.periodSeconds
          revision := c.revision + 1 }) :=
      h.put hapart hprepared hd hnew hdone (hupdate _ _ rfl) hcarries hfree (fun _ _ => rfl)
        (Nat.le_refl _)
    refine .bind (.statement hnext.distinct (Eq.refl _)) fun t' ht' => ?_
    subst ht'
    unfold resetRuleState
    split
    · have hreset : Applied t₀ desired t₂ (done ++ [d]) ((t.update d.id fun rule =>
          { rule with
            limitNano := d.limitNano
            kind := d.kind
            periodSeconds := d.periodSeconds
            revision := c.revision + 1 }).setState d.id (.fresh (c.revision + 1))) :=
        h.put hapart hprepared hd hnew hdone (hupdate _ _ rfl) hcarries hfree
          (fun _ hother => update_of_ne hother _ _) (Nat.le_refl _)
      exact .statement hreset.distinct hreset
    · rename_i hstale
      refine .lift nofun fun e he => ?_
      cases he
      refine .inr ⟨d, hd, c, hne, hc, hdiffer, ?_, rfl⟩
      rw [← hstate]
      exact Bool.not_eq_true _ ▸ hstale

end Definitions

theorem definitions {t₂ : Tables} (hapart : desired.Pairwise Apart)
    (hprepared : Prepared t₀ desired t₂) (hdistinct : Distinct t₂)
    (currency : Except String String) :
    Sat Distinct (Applied t₀ desired t₂ desired) (Blocked currency t₀ desired)
      (each (applyDefinition t₀.all currency) desired t₂) := by
  have hstart : Applied t₀ desired t₂ [] t₂ := by
    refine ⟨hdistinct, nofun, fun id rule hrule => ?_, fun d hd _ hne => ⟨rfl, ?_⟩,
      Nat.le_of_eq hprepared.nextID.symm⟩
    · obtain ⟨d, hd, hne, hid⟩ := hprepared.only id rule hrule
      exact .inr ⟨d, hd, not_mem_nil, hne, hid⟩
    · exact hprepared.states d.id ⟨d, hd, hne, rfl⟩
  refine Sat.each (fun done d todo t hall h => ?_) hstart
  have hd : d ∈ desired := hall ▸ mem_append_right _ (.head _)
  have hdone : ∀ d' ∈ done, d' ∈ desired := fun d' hd' => hall ▸ mem_append_left _ hd'
  have hnew : d ∉ done := by
    intro hmem
    rw [← hall, pairwise_append] at hapart
    exact (hapart.2.2 d hmem d (.head _)).1 rfl rfl
  by_cases hzero : d.id = 0
  · rw [applyDefinition, if_pos hzero]
    exact h.create hapart hprepared hd hnew hdone hzero currency
  · exact h.rewrite hapart hprepared hd hnew hdone hzero currency

theorem known_of_all (h : desired.all (known t₀.all) = true) : Known t₀ desired := by
  intro d hd hne
  have hknown := all_eq_true.mp h d hd
  rw [known, currentByID_all] at hknown
  cases hrule : t₀.rules d.id with
  | none => simp [hrule, hne] at hknown
  | some c =>
    refine ⟨c, rfl, ?_⟩
    simpa [hrule, hne] using hknown

/-- What a reconciliation leaves: for each definition a rule that has what it asks for, and no
other rules. -/
structure Reconciled (t₀ : Tables) (desired : List Definition) (t : Tables) : Prop where
  distinct : Distinct t
  carried : ∀ d ∈ desired, ∃ id rule, t.rules id = some rule ∧ Carries t₀ d id rule
  only : ∀ id rule, t.rules id = some rule → ∃ d ∈ desired, Carries t₀ d id rule

def Refused (currency : Except String String) (t₀ : Tables) (desired : List Definition)
    (e : Failure) : Prop :=
  e = .validation ∧ (∃ d ∈ desired, known t₀.all d = false) ∨
    planPeriodMoves t₀.all desired = .error e ∨ Blocked currency t₀ desired e

theorem reconcile_sat (hapart : desired.Pairwise Apart) (hdistinct : Distinct t₀)
    (currency : Except String String) :
    Sat Distinct (fun result => Reconciled t₀ desired result.1 ∧ result.2.Perm result.1.all)
      (Refused currency t₀ desired) (reconcileRules currency t₀ desired) := by
  simp only [reconcileRules]
  split
  · rename_i hunknown
    refine .lift nofun fun e he => ?_
    cases he
    rw [all_eq_false] at hunknown
    obtain ⟨d, hd, hnot⟩ := hunknown
    exact .inl ⟨rfl, d, hd, Bool.not_eq_true _ ▸ hnot⟩
  · rename_i hall
    have hknown := known_of_all (Bool.not_eq_false _ ▸ hall)
    refine .bind (deletions hdistinct) fun t₁ hdeleted => ?_
    have hdistinct₁ : Distinct t₁ := hdistinct.of_subset fun id rule hrule =>
      ((hdeleted.rules id rule).mp hrule).1
    refine .bind (.lift (fun moves hmoves => plan_ok hmoves) fun e he => .inr (.inl he))
      fun moves hplan => ?_
    have hmoves : Sat Distinct (fun t => Distinct t ∧ Prepared t₀ desired t)
        (Refused currency t₀ desired) (each moveTemporarily moves t₁) :=
      temporary_moves hdeleted hknown hplan hapart hdistinct₁
    refine .bind hmoves fun t₂ hprepared => ?_
    have happlied := (definitions hapart hprepared.2 hprepared.1 currency).mono (fun _ h => h)
      fun e he => (.inr (.inr he) : Refused currency t₀ desired e)
    refine .bind happlied fun t h => .pure ⟨⟨h.distinct, h.applied, fun id rule hrule => ?_⟩, ?_⟩
    · rcases h.only id rule hrule with hcarried | ⟨d, hd, hnot, -⟩
      · exact hcarried
      · exact absurd hd hnot
    · exact perm_insertionSort _ _

end Stages

def sampleTables : Tables where
  rules := fun id =>
    if id = 1 then some ⟨1, 1, .periodic, "USD", 1, 60⟩
    else if id = 2 then some ⟨2, 1, .periodic, "USD", 1, 120⟩
    else none
  states := fun id => if id = 1 ∨ id = 2 then some (StateRow.fresh 1) else none
  nextID := 3
  keyed := by
    intro id rule h
    split at h
    · rename_i hid
      cases h
      exact ⟨hid.symm, hid ▸ by decide⟩
    · split at h
      · rename_i hid
        cases h
        exact ⟨hid.symm, hid ▸ by decide⟩
      · cases h

def sampleField : OptionalRules := some [⟨1, .periodic, [49], 120⟩, ⟨2, .periodic, [49], 60⟩]

def sampleDesired : List Definition :=
  [⟨2, .periodic, 1000000000, 60⟩, ⟨1, .periodic, 1000000000, 120⟩]

/-- No statement leaves two periodic rules with one period; planning fails only for want of
periods or of a revision; and what is left are the rules asked for. -/
theorem period_changes_never_collide {field : OptionalRules} {desired : List Definition}
    (hnormal : normalizeRules field true = .ok desired) {t₀ : Tables} (hdistinct : Distinct t₀)
    (currency : Except String String) :
    (∀ t ∈ (reconcileRules currency t₀ desired).trace, Distinct t) ∧
    (∀ e, planPeriodMoves t₀.all desired = .error e →
      (∃ d ∈ desired, changes t₀ d = true ∧
        ((t₀.rules d.id).getD Rule.zero).revision = maxRevision) ∨
      (freePeriods (reservedPeriods t₀.all desired) maxPeriodSeconds).card <
        (desired.filter (changes t₀)).length) ∧
    (∀ t rows, (reconcileRules currency t₀ desired).result = .ok (t, rows) →
      Reconciled t₀ desired t ∧ rows.Perm t.all) ∧
    ∀ e, (reconcileRules currency t₀ desired).result = .error e →
      Refused currency t₀ desired e := by
  have hsat := reconcile_sat (normalizeRules_apart hnormal) hdistinct currency
  exact ⟨hsat.trace, fun e he => plan_error he, fun t rows h => hsat.ok (t, rows) h, hsat.error⟩

theorem period_changes_never_collide_swap :
    (reconcileRules (.ok "USD") sampleTables sampleDesired).trace.length = 6 ∧
      ∀ t ∈ (reconcileRules (.ok "USD") sampleTables sampleDesired).trace, Distinct t := by
  have hnormal : normalizeRules sampleField true = .ok sampleDesired := by
    decide
  have hrows : ∀ id rule, sampleTables.rules id = some rule →
      id = 1 ∧ rule.periodSeconds = 60 ∨ id = 2 ∧ rule.periodSeconds = 120 := by
    intro id rule h
    simp only [sampleTables] at h
    split at h
    · cases h
      exact .inl ⟨‹_›, rfl⟩
    · split at h
      · cases h
        exact .inr ⟨‹_›, rfl⟩
      · cases h
  have hdistinct : Distinct sampleTables := by
    intro i j a b ha hb _ _ hperiod
    have := hrows i a ha
    have := hrows j b hb
    omega
  exact ⟨by decide, (period_changes_never_collide hnormal hdistinct (.ok "USD")).1⟩

end EchoJoyGateway.CostLimits
