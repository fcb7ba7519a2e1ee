import EchoJoyGateway.Scheduler.Fairness
import EchoJoyGateway.State.Consistency
import EchoJoyGateway.State.Rotation

/-!
# The ledger over its calls

The ledger is changed by publications of groups, by alignment with
credentials and by selections. Its members stay filed under their own ids over
every sequence of such calls. A selection first prepares its pool, which leaves
every book but the members' progress alone, and then charges one member.
-/

namespace EchoJoyGateway.Scheduler

open State SchedulingProgress List Option

variable (state : SchedulingLedger × List Nat) (revision : Option Nat)

section Preparation

variable {d d' d'' : SchedulingLedger}

structure SameBooks (d d' : SchedulingLedger) : Prop where
  books : d' = { d with members := d'.members }
  identities : d'.identities = d.identities

theorem SameBooks.refl (d : SchedulingLedger) : SameBooks d d := ⟨rfl, rfl⟩

theorem SameBooks.trans (h : SameBooks d d') (h' : SameBooks d' d'') : SameBooks d d'' where
  books := by
    rw [h'.books, h.books]
  identities := h'.identities.trans h.identities

theorem SameBooks.lastMember (h : SameBooks d d') : d'.lastMember = d.lastMember := by
  rw [h.books]

theorem SameBooks.consecutive (h : SameBooks d d') : d'.consecutive = d.consecutive := by
  rw [h.books]

theorem SameBooks.sequence (h : SameBooks d d') : d'.sequence = d.sequence := by
  rw [h.books]

theorem SameBooks.jitter (h : SameBooks d d') : d'.jitter = d.jitter := by
  rw [h.books]

theorem sameBooks_setMember {id : Nat} {m m' : SchedulingMember} (hm : d.members id = some m)
    (hidentity : m'.identity = m.identity) : SameBooks d (d.setMember id m') where
  books := rfl
  identities := by
    rw [identities_setMember, hidentity]
    have hid : d.identities id = some m.identity := by
      simp [SchedulingLedger.identities, hm]
    rw [← hid, Function.update_eq_self]

theorem stagger_identity (d : SchedulingLedger) (m : SchedulingMember) (weight : Nat) :
    (d.stagger m weight).identity = m.identity := by
  unfold SchedulingLedger.stagger
  split
  · rfl
  · split <;> rfl

theorem SameBooks.intakeStep (acc : Intake) (c : WeightedCredential) :
    SameBooks acc.ledger (intakeStep acc c).ledger := by
  unfold Scheduler.intakeStep
  split
  · exact .refl _
  · rename_i m hm
    split
    · exact .refl _
    · exact sameBooks_setMember hm (stagger_identity _ _ _)

theorem SameBooks.admitStep (baseline : SchedulingProgress) (d : SchedulingLedger)
    (c : WeightedCredential) :
    SameBooks d (admitStep revision baseline d c) := by
  unfold Scheduler.admitStep
  split
  · exact .refl _
  · rename_i m hm
    split
    · exact sameBooks_setMember hm rfl
    · exact .refl _

theorem SameBooks.foldl {α : Type} {step : SchedulingLedger → α → SchedulingLedger}
    (hstep : ∀ d a, SameBooks d (step d a)) (l : List α) (d : SchedulingLedger) :
    SameBooks d (l.foldl step d) := by
  induction l generalizing d with
  | nil => exact .refl d
  | cons a l ih => exact (hstep d a).trans (ih (step d a))

def matched (d : SchedulingLedger) (c : WeightedCredential) : Bool :=
  match d.members c.credential.id with
  | none => false
  | some m =>
    m.groupID == c.credential.groupID && m.identityGeneration == c.credential.identityGeneration

theorem matched_iff {c : WeightedCredential} :
    matched d c = true ↔ ∃ m, d.members c.credential.id = some m ∧
      m.groupID = c.credential.groupID ∧
      m.identityGeneration = c.credential.identityGeneration := by
  unfold matched
  cases hm : d.members c.credential.id with
  | none => simp
  | some m => simp

theorem matched_eq (h : d'.identities = d.identities) (c : WeightedCredential) :
    matched d' c = matched d c := by
  have hc := congrFun h c.credential.id
  unfold matched
  unfold SchedulingLedger.identities at hc
  cases hm : d.members c.credential.id with
  | none =>
    rw [hm, map_none, map_eq_none_iff] at hc
    rw [hc]
  | some m =>
    rw [hm, map_some, map_eq_some_iff] at hc
    obtain ⟨m', hm', heq⟩ := hc
    rw [hm']
    simp only [SchedulingMember.identity, Prod.mk.injEq] at heq
    simp only [heq.2.1, heq.2.2]

theorem intakeStep_eligible (acc : Intake) (c : WeightedCredential) :
    (intakeStep acc c).eligible =
      acc.eligible ++ if matched acc.ledger c = true then [c] else [] := by
  unfold intakeStep matched
  cases hm : acc.ledger.members c.credential.id with
  | none => simp
  | some m =>
    by_cases hsame : m.groupID = c.credential.groupID ∧
        m.identityGeneration = c.credential.identityGeneration
    · simp [hsame.1, hsame.2]
    · have hne : m.groupID ≠ c.credential.groupID ∨
          m.identityGeneration ≠ c.credential.identityGeneration := by
        rw [← not_and_or]
        exact hsame
      simp only [hne, if_true, Bool.and_eq_true, beq_iff_eq, hsame, if_false, append_nil]

theorem intake_foldl (candidates : List WeightedCredential) (acc : Intake) :
    SameBooks acc.ledger (candidates.foldl intakeStep acc).ledger ∧
      (candidates.foldl intakeStep acc).eligible =
        acc.eligible ++ candidates.filter (matched acc.ledger) := by
  induction candidates generalizing acc with
  | nil => exact ⟨.refl _, by simp⟩
  | cons c rest ih =>
    have hstep := SameBooks.intakeStep acc c
    obtain ⟨hbooks, heligible⟩ := ih (intakeStep acc c)
    refine ⟨hstep.trans hbooks, ?_⟩
    have hmatched := funext fun e => matched_eq hstep.identities e
    rw [foldl_cons, heligible, intakeStep_eligible, hmatched, filter_cons]
    split <;> simp

theorem intake_books (d : SchedulingLedger) (candidates : List WeightedCredential) :
    SameBooks d (intake d candidates).ledger :=
  (intake_foldl candidates ⟨d, [], d.watermark, false⟩).1

theorem intake_eligible (d : SchedulingLedger) (candidates : List WeightedCredential) :
    (intake d candidates).eligible = candidates.filter (matched d) :=
  (intake_foldl candidates ⟨d, [], d.watermark, false⟩).2

theorem admitPending_books (d : SchedulingLedger) (revision : Option Nat)
    (baseline : SchedulingProgress) (eligible : List WeightedCredential) :
    SameBooks d (admitPending d revision baseline eligible) :=
  .foldl (.admitStep revision baseline) eligible d

def prepared (d : SchedulingLedger) (candidates : List WeightedCredential) : SchedulingLedger :=
  admitPending (intake d candidates).ledger revision (intake d candidates).baseline
    (intake d candidates).eligible

theorem prepared_books (d : SchedulingLedger) (candidates : List WeightedCredential) :
    SameBooks d (prepared revision d candidates) :=
  (intake_books d candidates).trans (admitPending_books _ _ _ _)

end Preparation

/-- All a selection can do: it fails, before or after the admission, or it
charges the member that is chosen on the prepared ledger. -/
theorem selectCredential_cases (d : SchedulingLedger) (candidates : List WeightedCredential)
    (preferred : Nat) :
    (∃ d', (d' = (intake d candidates).ledger ∨ d' = prepared revision d candidates) ∧
      selectCredential revision d candidates preferred = (d', none)) ∨
    ∃ first rest chosen m next, candidates.filter (matched d) = first :: rest ∧
      chooseCredential (prepared revision d candidates) first rest preferred = chosen ∧
      (prepared revision d candidates).members chosen.credential.id = some m ∧
      m.progress.advance chosen.weight = (next, true) ∧
      selectCredential revision d candidates preferred =
        (charge (prepared revision d candidates) chosen.credential.id m next,
          some chosen.credential) := by
  have heligible := intake_eligible d candidates
  cases hlist : candidates.filter (matched d) with
  | nil =>
    refine .inl ⟨(intake d candidates).ledger, .inl rfl, ?_⟩
    simp only [selectCredential, heligible, hlist]
  | cons first rest =>
    by_cases hseq : (intake d candidates).ledger.sequence = -1
    · refine .inl ⟨(intake d candidates).ledger, .inl rfl, ?_⟩
      simp only [selectCredential, heligible, hlist, hseq, if_true]
    · have hprepared : prepared revision d candidates =
          admitPending (intake d candidates).ledger revision (intake d candidates).baseline
            (first :: rest) := by
        rw [prepared, heligible, hlist]
      simp only [selectCredential, heligible, hlist, hseq]
      rw [← hprepared]
      generalize hchosen : chooseCredential (prepared revision d candidates) first rest preferred =
        chosen
      cases hm : (prepared revision d candidates).members chosen.credential.id with
      | none => exact .inl ⟨_, .inr rfl, rfl⟩
      | some m =>
        rcases hadv : m.progress.advance chosen.weight with ⟨next, ok⟩
        cases ok with
        | false => exact .inl ⟨_, .inr rfl, by simp [hadv]⟩
        | true => exact .inr ⟨first, rest, chosen, m, next, rfl, hchosen, hm, hadv, by simp [hadv]⟩

theorem sameBooks_of_failed {revision : Option Nat} {d d' : SchedulingLedger}
    {candidates : List WeightedCredential}
    (h : d' = (intake d candidates).ledger ∨ d' = prepared revision d candidates) :
    SameBooks d d' := by
  rcases h with rfl | rfl
  · exact intake_books d candidates
  · exact prepared_books revision d candidates

theorem charge_identities {d : SchedulingLedger} {id : Nat} {m : SchedulingMember}
    {next : SchedulingProgress} (hm : d.members id = some m) :
    (charge d id m next).identities = d.identities := by
  have hsame : SameBooks d
      (d.setMember id { m with progress := next, lastSelected := d.sequence + 1 }) :=
    sameBooks_setMember hm rfl
  exact hsame.identities

theorem selectCredential_identities (d : SchedulingLedger) (candidates : List WeightedCredential)
    (preferred : Nat) :
    (selectCredential revision d candidates preferred).1.identities = d.identities := by
  rcases selectCredential_cases revision d candidates preferred with
    ⟨d', hfailed, heq⟩ | ⟨first, rest, chosen, m, next, -, -, hm, -, heq⟩
  · rw [heq]
    exact (sameBooks_of_failed hfailed).identities
  · rw [heq]
    exact (charge_identities hm).trans (prepared_books _ _ _).identities

theorem selectCredential_jitter (d : SchedulingLedger) (candidates : List WeightedCredential)
    (preferred : Nat) :
    (selectCredential revision d candidates preferred).1.jitter = d.jitter := by
  rcases selectCredential_cases revision d candidates preferred with
    ⟨d', hfailed, heq⟩ | ⟨first, rest, chosen, m, next, -, -, -, -, heq⟩
  · rw [heq]
    exact (sameBooks_of_failed hfailed).jitter
  · rw [heq]
    exact (prepared_books revision d candidates).jitter

inductive LedgerCall where
  | syncGroups (snapshot : Option ConfigSnapshot)
  | syncCredential (view : CredentialRuntimeView) (clock : Clock.Time)
  | syncCredentials (groupID : Nat) (views : List CredentialRuntimeView) (clock : Clock.Time)
  | remove (id : Nat)
  | selectCredential (snapshotRevision : Option Nat) (candidates : List WeightedCredential)
      (preferred : Nat)
  | selectModel (groupID : Nat) (externalModel : String) (models : List String)

def LedgerCall.apply (d : SchedulingLedger) : LedgerCall → SchedulingLedger
  | .syncGroups snapshot => d.syncGroups snapshot
  | .syncCredential view clock => d.syncCredentialLocked view clock
  | .syncCredentials groupID views clock => d.syncCredentials groupID views clock
  | .remove id => d.removeLocked id
  | .selectCredential revision candidates preferred =>
    (Scheduler.selectCredential revision d candidates preferred).1
  | .selectModel groupID externalModel models => (d.selectModel groupID externalModel models).1

def ledgerRun (jitter : Option Jitter) (calls : List LedgerCall) : SchedulingLedger :=
  calls.foldl LedgerCall.apply (SchedulingLedger.new jitter)

section Reachable

variable {d : SchedulingLedger}

theorem forgetStreak_jitter (id : Nat) : (d.forgetStreak id).jitter = d.jitter := by
  unfold SchedulingLedger.forgetStreak
  split <;> rfl

theorem syncCredentialLocked_jitter (view : CredentialRuntimeView) (clock : Clock.Time) :
    (d.syncCredentialLocked view clock).jitter = d.jitter := by
  unfold SchedulingLedger.syncCredentialLocked
  split
  · split
    · rfl
    · exact forgetStreak_jitter _
  · exact forgetStreak_jitter _

theorem syncGroups_identities (snapshot : Option ConfigSnapshot) :
    (d.syncGroups snapshot).identities = d.identities := by
  cases snapshot with
  | none => rfl
  | some snapshot =>
    simp only [SchedulingLedger.syncGroups]
    split
    · rfl
    · funext id
      change ((d.members id).map _).map SchedulingMember.identity = _
      rw [Option.map_map]
      congr 1
      funext m
      rw [Function.comp_apply]
      split <;> rfl

variable {m : SchedulingMember}

theorem syncCredentials_members (groupID : Nat) (views : List CredentialRuntimeView)
    (clock : Clock.Time) {id : Nat}
    (hm : (d.syncCredentials groupID views clock).members id = some m) :
    (views.foldl (fun d view => d.syncCredentialLocked view clock) d).members id = some m := by
  simp only [SchedulingLedger.syncCredentials] at hm
  rw [apply_ite SchedulingLedger.members, ite_self] at hm
  exact (ite_none_left_eq_some.mp hm).2

theorem selectModel_identities (groupID : Nat) (externalModel : String) (models : List String) :
    (d.selectModel groupID externalModel models).1.identities = d.identities := by
  unfold SchedulingLedger.selectModel
  split
  · rfl
  · simp only
    split <;> rfl

structure WellFiled (jitter : Option Jitter) (d : SchedulingLedger) : Prop where
  keyed : d.Keyed
  jitter : d.jitter = jitter

variable {jitter : Option Jitter}

variable {d' : SchedulingLedger}

theorem WellFiled.congr (h : WellFiled jitter d) (hidentities : d'.identities = d.identities)
    (hjitter : d'.jitter = d.jitter) :
    WellFiled jitter d' where
  keyed id x hx := h.keyed id x (by rw [← hidentities, hx])
  jitter := hjitter.trans h.jitter

theorem WellFiled.syncCredential (h : WellFiled jitter d) (view : CredentialRuntimeView)
    (clock : Clock.Time) : WellFiled jitter (d.syncCredentialLocked view clock) where
  keyed := h.keyed.syncView clock view
  jitter := (syncCredentialLocked_jitter view clock).trans h.jitter

theorem WellFiled.syncAll (h : WellFiled jitter d) (views : List CredentialRuntimeView)
    (clock : Clock.Time) :
    WellFiled jitter (views.foldl (fun d view => d.syncCredentialLocked view clock) d) := by
  induction views generalizing d with
  | nil => exact h
  | cons view views ih => exact ih (h.syncCredential view clock)

theorem WellFiled.shrink (h : WellFiled jitter d)
    (hmembers : ∀ id m, d'.members id = some m → d.members id = some m)
    (hjitter : d'.jitter = d.jitter) : WellFiled jitter d' where
  keyed id x hx := by
    unfold SchedulingLedger.identities at hx
    rw [map_eq_some_iff] at hx
    obtain ⟨m, hm, rfl⟩ := hx
    exact h.keyed id m.identity (by simp [SchedulingLedger.identities, hmembers id m hm])
  jitter := hjitter.trans h.jitter

theorem WellFiled.apply (h : WellFiled jitter d) (call : LedgerCall) :
    WellFiled jitter (call.apply d) := by
  cases call with
  | syncGroups snapshot =>
    refine h.congr (syncGroups_identities snapshot) ?_
    cases snapshot with
    | none => rfl
    | some snapshot =>
      simp only [LedgerCall.apply, SchedulingLedger.syncGroups]
      split <;> rfl
  | syncCredential view clock => exact h.syncCredential view clock
  | syncCredentials groupID views clock =>
    refine (h.syncAll views clock).shrink ?_ ?_
    · intro id m hm
      exact syncCredentials_members groupID views clock hm
    · simp only [LedgerCall.apply, SchedulingLedger.syncCredentials]
      rw [apply_ite SchedulingLedger.jitter, ite_self]
  | remove id =>
    refine h.shrink ?_ (forgetStreak_jitter id)
    intro other m hm
    simp only [LedgerCall.apply, SchedulingLedger.removeLocked] at hm
    rcases eq_or_ne other id with rfl | hne
    · simp at hm
    · simpa [Function.update_of_ne hne] using hm
  | selectCredential revision candidates preferred =>
    exact h.congr (selectCredential_identities _ _ _ _) (selectCredential_jitter _ _ _ _)
  | selectModel groupID externalModel models =>
    refine h.congr (selectModel_identities groupID externalModel models) ?_
    simp only [LedgerCall.apply, SchedulingLedger.selectModel]
    split
    · rfl
    · split <;> rfl

theorem ledgerRun_wellFiled (jitter : Option Jitter) (calls : List LedgerCall) :
    WellFiled jitter (ledgerRun jitter calls) := by
  have hnew : WellFiled jitter (.new jitter) :=
    ⟨fun id x hx => by simp [SchedulingLedger.identities, SchedulingLedger.new] at hx, rfl⟩
  unfold ledgerRun
  generalize SchedulingLedger.new jitter = d at hnew
  induction calls generalizing d with
  | nil => exact hnew
  | cons call calls ih => exact ih _ (hnew.apply call)

theorem WellFiled.member_id (h : WellFiled jitter d) {id : Nat} (hm : d.members id = some m) :
    m.id = id :=
  h.keyed id m.identity (by simp [SchedulingLedger.identities, hm])

end Reachable

structure Offer where
  snapshotRevision : Option Nat
  candidates : List WeightedCredential
  preferred : Nat

/-- The selections of a run so far stand beside the ledger. -/
def offerStep (offer : Offer) :
    SchedulingLedger × List Nat :=
  match selectCredential offer.snapshotRevision state.1 offer.candidates offer.preferred with
  | (d, none) => (d, state.2)
  | (d, some selected) => (d, state.2 ++ [selected.id])

def offerRun (d : SchedulingLedger) (offers : List Offer) : SchedulingLedger × List Nat :=
  offers.foldl offerStep (d, [])

/-- Calls without preference whose candidates known to the ledger are one fixed
pool, in any order. No credential has the id zero, which the source takes for
none. -/
structure FixedPool (d : SchedulingLedger) (S : List WeightedCredential) (offers : List Offer) :
    Prop where
  distinct : (S.map fun c => c.credential.id).Nodup
  identified : ∀ c ∈ S, c.credential.id ≠ 0
  weighted : ∀ c ∈ S, 1 ≤ c.weight ∧ c.weight ≤ 10000
  eligible : ∀ offer ∈ offers, (offer.candidates.filter (matched d)).Perm S
  unpreferred : ∀ offer ∈ offers, ∀ c ∈ S, c.credential.id ≠ offer.preferred

section FixedPool

variable {d d' : SchedulingLedger} {S : List WeightedCredential} {offer : Offer}
  {offers : List Offer}

theorem FixedPool.congr (h : FixedPool d S offers) (hidentities : d'.identities = d.identities) :
    FixedPool d' S offers where
  distinct := h.distinct
  identified := h.identified
  weighted := h.weighted
  eligible other hother := by
    rw [show matched d' = matched d from funext (matched_eq hidentities)]
    exact h.eligible other hother
  unpreferred := h.unpreferred

theorem FixedPool.tail (h : FixedPool d S (offer :: offers)) : FixedPool d S offers where
  distinct := h.distinct
  identified := h.identified
  weighted := h.weighted
  eligible other hother := h.eligible other (.tail _ hother)
  unpreferred other hother := h.unpreferred other (.tail _ hother)

end FixedPool

theorem offerStep_ledger (offer : Offer) :
    (offerStep state offer).1 = (selectCredential offer.snapshotRevision state.1 offer.candidates
      offer.preferred).1 := by
  unfold offerStep
  split <;> simp [*]

theorem offerStep_identities (offer : Offer) :
    (offerStep state offer).1.identities = state.1.identities := by
  rw [offerStep_ledger, selectCredential_identities]

theorem offerStep_jitter (offer : Offer) : (offerStep state offer).1.jitter = state.1.jitter := by
  rw [offerStep_ledger, selectCredential_jitter]

variable {d : SchedulingLedger} {first : WeightedCredential}

theorem limitStreak_mem {l : List WeightedCredential} (hfirst : first ∈ l) :
    limitStreak d l first ∈ l := by
  unfold limitStreak
  split
  · split
    · exact hfirst
    · rename_i alternative halt
      split
      · exact (alternativeCredential_spec halt).1
      · exact hfirst
  · exact hfirst

theorem chooseCredential_unpreferred {rest : List WeightedCredential} {preferred : Nat}
    (h : ∀ c ∈ first :: rest, c.credential.id ≠ preferred) :
    chooseCredential d first rest preferred =
      limitStreak d (first :: rest) (leastCredential d first rest) := by
  have hfind : (first :: rest).find? (fun c => c.credential.id == preferred) = none := by
    rw [find?_eq_none]
    intro c hc
    simpa using h c hc
  simp only [chooseCredential, hfind]

end EchoJoyGateway.Scheduler
