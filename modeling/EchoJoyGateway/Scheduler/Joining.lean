import EchoJoyGateway.Scheduler.Rows

/-!
# Members that join or return

A member that waits is admitted at the leading progress of the pool, so it
gets no burst of selections to catch up. The consecutive-allocation cap can
divert a selection to it before its turn, but only after a row of another
member that is worth at least one of its own strides.
-/

namespace EchoJoyGateway.Scheduler

open State SchedulingProgress LeastProgress List

variable {d : SchedulingLedger} {candidates : List WeightedCredential}
  {state : SchedulingLedger × List Nat}

variable (revision : Option Nat) (baseline : SchedulingProgress)

section Admission

variable {d : SchedulingLedger}

def waiting (d : SchedulingLedger) (c : WeightedCredential) : Bool :=
  match d.members c.credential.id with
  | none => false
  | some m => m.pending

theorem intakeStep_ledger (hj : d.jitter = none) {acc : Intake} (hacc : acc.ledger = d)
    (c : WeightedCredential) : (intakeStep acc c).ledger = d := by
  unfold intakeStep
  rw [hacc]
  split
  · exact hacc
  · rename_i m hm
    split
    · exact hacc
    · simp only [SchedulingLedger.stagger, hj]
      exact setMember_self hm

theorem intakeStep_baseline (hj : d.jitter = none) {acc : Intake} (hacc : acc.ledger = d)
    (c : WeightedCredential) :
    (acc.hasBaseline = true → (intakeStep acc c).hasBaseline = true ∧
      acc.baseline.value ≤ (intakeStep acc c).baseline.value) ∧
    (matched d c = true → waiting d c = false → (intakeStep acc c).hasBaseline = true ∧
      position d c.credential.id ≤ (intakeStep acc c).baseline.value) := by
  unfold intakeStep matched waiting position
  rw [hacc]
  cases hm : d.members c.credential.id with
  | none => simp
  | some m =>
    by_cases hsame : m.groupID = c.credential.groupID ∧
        m.identityGeneration = c.credential.identityGeneration
    · have hstagger : d.stagger m c.weight = m := by
        simp only [SchedulingLedger.stagger, hj]
      simp only [hsame.1, hsame.2, hstagger]
      cases hp : m.pending with
      | true => simp
      | false =>
        cases hb : acc.hasBaseline with
        | false => simp
        | true =>
          cases hlt : acc.baseline.lt m.progress with
          | true =>
            have hlt' := ((lt_iff _ _).mp hlt).le
            simpa using hlt'
          | false =>
            have hle : m.progress.value ≤ acc.baseline.value := by
              by_contra hcon
              rw [(lt_iff _ _).mpr (not_le.mp hcon)] at hlt
              cases hlt
            simpa using hle
    · have hne : m.groupID ≠ c.credential.groupID ∨
          m.identityGeneration ≠ c.credential.identityGeneration := by
        rw [← not_and_or]
        exact hsame
      simp only [hne, Bool.and_eq_true, beq_iff_eq, hsame, false_imp_iff, and_true]
      exact fun hb => ⟨hb, le_rfl⟩

theorem intake_foldl_baseline (hj : d.jitter = none) (candidates : List WeightedCredential)
    {acc : Intake} (hacc : acc.ledger = d) :
    (candidates.foldl intakeStep acc).ledger = d ∧
    (acc.hasBaseline = true →
      acc.baseline.value ≤ (candidates.foldl intakeStep acc).baseline.value) ∧
    ∀ c ∈ candidates, matched d c = true → waiting d c = false →
      position d c.credential.id ≤ (candidates.foldl intakeStep acc).baseline.value := by
  induction candidates generalizing acc with
  | nil => exact ⟨hacc, fun _ => le_rfl, nofun⟩
  | cons c rest ih =>
    obtain ⟨hkeep, hnew⟩ := intakeStep_baseline hj hacc c
    obtain ⟨hledger, hmono, hrest⟩ := ih (intakeStep_ledger hj hacc c)
    refine ⟨hledger, ?_, ?_⟩
    · intro hb
      obtain ⟨hb', hle⟩ := hkeep hb
      exact hle.trans (hmono hb')
    · intro e he hmatched hready
      rcases mem_cons.mp he with rfl | he
      · obtain ⟨hb', hle⟩ := hnew hmatched hready
        exact hle.trans (hmono hb')
      · exact hrest e he hmatched hready

theorem intake_ledger (hj : d.jitter = none) (candidates : List WeightedCredential) :
    (intake d candidates).ledger = d :=
  (@intake_foldl_baseline d hj candidates ⟨d, [], d.watermark, false⟩ rfl).1

variable {c : WeightedCredential}

theorem position_le_baseline (hj : d.jitter = none) (hc : c ∈ candidates)
    (hmatched : matched d c = true) (hready : waiting d c = false) :
    position d c.credential.id ≤ (intake d candidates).baseline.value :=
  (@intake_foldl_baseline d hj candidates ⟨d, [], d.watermark, false⟩ rfl).2.2 c hc hmatched hready

theorem admitStep_members (c : WeightedCredential) (id : Nat) :
    (admitStep revision baseline d c).members id = (d.members id).map fun m =>
      if id = c.credential.id ∧ mayAdmit d revision m = true then m.admitAt baseline else m := by
  unfold admitStep
  rcases eq_or_ne id c.credential.id with rfl | hne
  · cases hm : d.members c.credential.id with
    | none => simp [hm]
    | some m =>
      by_cases hmay : mayAdmit d revision m = true
      · simp [hmay, SchedulingLedger.setMember]
      · simp [hmay, hm]
  · simp only [hne, false_and, if_false, Option.map_id']
    split
    · rfl
    · split
      · simp [SchedulingLedger.setMember, Function.update_of_ne hne]
      · rfl

theorem mayAdmit_admitStep (c : WeightedCredential) (m : SchedulingMember) :
    mayAdmit (admitStep revision baseline d c) revision m = mayAdmit d revision m := by
  unfold admitStep
  split
  · rfl
  · split <;> rfl

theorem mayAdmit_admitAt (m : SchedulingMember) :
    mayAdmit d revision (m.admitAt baseline) = false := rfl

theorem admitPending_members (eligible : List WeightedCredential) (id : Nat) :
    (admitPending d revision baseline eligible).members id = (d.members id).map fun m =>
      if id ∈ eligible.map (fun c => c.credential.id) ∧ mayAdmit d revision m = true then
        m.admitAt baseline
      else m := by
  unfold admitPending
  induction eligible generalizing d with
  | nil => simp
  | cons c rest ih =>
    rw [foldl_cons, ih, admitStep_members, Option.map_map]
    congr 1
    funext m
    simp only [mayAdmit_admitStep]
    by_cases hmay : mayAdmit d revision m = true
    · by_cases hid : id = c.credential.id
      · simp [hid, hmay, mayAdmit_admitAt]
      · simp [hid]
    · simp [hmay]

theorem le_admitAt (m : SchedulingMember) (baseline : SchedulingProgress) :
    baseline.value ≤ (m.admitAt baseline).progress.value := by
  unfold SchedulingMember.admitAt
  split
  · exact le_rfl
  · rename_i hlt
    exact not_lt.mp fun h => hlt ((lt_iff _ _).mpr h)

theorem position_admitPending {eligible : List WeightedCredential} (hready : waiting d c = false) :
    position (admitPending d revision baseline eligible) c.credential.id =
      position d c.credential.id := by
  unfold position
  rw [admitPending_members]
  unfold waiting at hready
  cases hm : d.members c.credential.id with
  | none => rfl
  | some m =>
    rw [hm] at hready
    simp [mayAdmit, hready]

end Admission

section Choice

variable {d : SchedulingLedger} {first : WeightedCredential}

theorem alternative_foldl_least (l : List WeightedCredential) (acc : Option WeightedCredential)
    (hl : ∀ c ∈ l, ∃ m, d.members c.credential.id = some m) {a : WeightedCredential}
    (ha : l.foldl (alternativeStep d first) acc = some a) :
    (∀ b, acc = some b → position d a.credential.id ≤ position d b.credential.id) ∧
      ∀ c ∈ l, c.credential.id ≠ first.credential.id →
        position d a.credential.id ≤ position d c.credential.id := by
  induction l generalizing acc with
  | nil =>
    refine ⟨?_, fun c hc => absurd hc not_mem_nil⟩
    intro b hb
    rw [hb] at ha
    rw [Option.some.inj ha]
  | cons c l ih =>
    obtain ⟨hacc, hrest⟩ := ih _ (fun e he => hl e (mem_cons_of_mem _ he)) ha
    obtain ⟨m, hm⟩ := hl c (.head _)
    by_cases hid : c.credential.id = first.credential.id
    · have hstep : alternativeStep d first acc c = acc := by
        simp [alternativeStep, hid]
      rw [hstep] at hacc
      refine ⟨hacc, ?_⟩
      intro e he hne
      rcases mem_cons.mp he with rfl | he
      · exact absurd hid hne
      · exact hrest e he hne
    · have hstep : ∃ e, alternativeStep d first acc c = some e ∧
          position d e.credential.id ≤ position d c.credential.id ∧
          ∀ b, acc = some b → position d e.credential.id ≤ position d b.credential.id := by
        unfold alternativeStep
        rw [if_neg hid]
        cases acc with
        | none =>
          refine ⟨c, rfl, le_rfl, ?_⟩
          rintro _ ⟨⟩
        | some b =>
          cases hless : less d c b with
          | true =>
            refine ⟨c, by simp [hless], le_rfl, ?_⟩
            rintro _ ⟨⟩
            exact position_le_of_less hless
          | false =>
            refine ⟨b, by simp [hless], position_le_of_not_less hm hless, ?_⟩
            rintro _ ⟨⟩
            exact le_rfl
      obtain ⟨e, heq, hc, hb⟩ := hstep
      have hae := hacc e heq
      refine ⟨fun b hacc' => hae.trans (hb b hacc'), ?_⟩
      intro x hx hne
      rcases mem_cons.mp hx with rfl | hx
      · exact hae.trans hc
      · exact hrest x hx hne

theorem limitStreak_least {rest : List WeightedCredential}
    (h : ∀ c ∈ first :: rest, ∃ m, d.members c.credential.id = some m) :
    (∀ c ∈ first :: rest,
      position d (limitStreak d (first :: rest) (leastCredential d first rest)).credential.id ≤
        position d c.credential.id) ∨
    ∃ f ∈ first :: rest, d.lastMember = f.credential.id ∧
      streakLimit f (limitStreak d (first :: rest) (leastCredential d first rest)) ≤
        d.consecutive ∧
      ∀ c ∈ first :: rest, c.credential.id ≠ f.credential.id →
        position d (limitStreak d (first :: rest) (leastCredential d first rest)).credential.id ≤
          position d c.credential.id := by
  obtain ⟨hmem, hleast⟩ := leastCredential_spec rest first fun c hc => h c (.tail _ hc)
  generalize leastCredential d first rest = f at hmem hleast
  unfold limitStreak
  split
  · rename_i hcond
    cases halt : alternativeCredential d (first :: rest) f with
    | none => exact .inl hleast
    | some alternative =>
      simp only
      split
      · rename_i hlimit
        exact .inr ⟨f, hmem, hcond.1, hlimit, (alternative_foldl_least _ none h halt).2⟩
      · exact .inl hleast
  · exact .inl hleast

end Choice

section Run

variable {S : List WeightedCredential} {late early : WeightedCredential}

structure Joined (S : List WeightedCredential) (late early : WeightedCredential)
    (state : SchedulingLedger × List Nat) : Prop where
  noJitter : state.1.jitter = none
  settled : Settled state.1 S
  late : Late (strideOf S) (position state.1) (fun id => state.2.count id) state.1.lastMember
    state.1.consecutive late.credential.id early.credential.id

theorem count_concat_eq_tally (l : List Nat) (f : Nat) :
    (fun id => (l ++ [f]).count id) = tally (fun id => l.count id) f := by
  funext id
  rw [count_append, count_singleton]
  rcases eq_or_ne id f with rfl | hne
  · simp
  · have hbeq : (f == id) = false := by
      simpa using hne.symm
    simp [hne, hbeq]

theorem stride_le_of_streakLimit {f c : WeightedCredential} {count : Nat}
    (hf : 1 ≤ f.weight ∧ f.weight ≤ 10000) (hc : 1 ≤ c.weight)
    (h : streakLimit f c ≤ count) : stride c.weight ≤ count * stride f.weight := by
  by_contra hlt
  have hcount := count_lt_streakLimit hf.1 hf.2 hc (le_of_lt (not_le.mp hlt))
  unfold streakLimit at h
  omega

theorem Settled.filter (h : Settled d S) (hperm : (candidates.filter (matched d)).Perm S) :
    Settled d (candidates.filter (matched d)) :=
  fun c hc => h c (hperm.mem_iff.mp hc)

theorem prepared_settled (hj : d.jitter = none) (h : Settled d (candidates.filter (matched d)))
    (revision : Option Nat) : prepared revision d candidates = d := by
  unfold prepared
  rw [intake_ledger hj, intake_eligible, admitPending_settled h]

theorem Joined.charge (h : Joined S late early state) (hd : (S.map fun c => c.credential.id).Nodup)
    (hw : ∀ c ∈ S, 1 ≤ c.weight ∧ c.weight ≤ 10000) (hlate : late ∈ S) (hearly : early ∈ S)
    (hne : late.credential.id ≠ early.credential.id) {chosen : WeightedCredential}
    (hin : chosen ∈ S)
    (hchosen : (∀ c ∈ S, position state.1 chosen.credential.id ≤ position state.1 c.credential.id) ∨
      ∃ f ∈ S, state.1.lastMember = f.credential.id ∧
        streakLimit f chosen ≤ state.1.consecutive ∧
        ∀ c ∈ S, c.credential.id ≠ f.credential.id →
          position state.1 chosen.credential.id ≤ position state.1 c.credential.id)
    {m : SchedulingMember} {next : SchedulingProgress}
    (hm : state.1.members chosen.credential.id = some m)
    (hadv : m.progress.advance chosen.weight = (next, true)) :
    Joined S late early (Scheduler.charge state.1 chosen.credential.id m next,
      state.2 ++ [chosen.credential.id]) := by
  have hid : m.id = chosen.credential.id := by
    obtain ⟨n, hn, hid, -⟩ := h.settled chosen hin
    obtain rfl : m = n := Option.some.inj (hm.symm.trans hn)
    exact hid
  refine ⟨h.noJitter, h.settled.charge hm, ?_⟩
  change Late _ (position (Scheduler.charge state.1 chosen.credential.id m next))
    (fun id => (state.2 ++ [chosen.credential.id]).count id) m.id (nextConsecutive state.1 m.id) _ _
  rw [position_charge_eq_serve hd (hw chosen hin).1 hin hm hadv, count_concat_eq_tally, hid]
  by_cases hl : chosen.credential.id = late.credential.id
  · obtain rfl := eq_of_id_eq hd hin hlate hl
    refine h.late.serve_late hne.symm ?_
    rcases hchosen with hleast | ⟨f, hf, hlast, hlimit, hothers⟩
    · exact .inl (hleast early hearly)
    · by_cases hfe : early.credential.id = f.credential.id
      · obtain rfl := eq_of_id_eq hd hearly hf hfe
        refine .inr ⟨hlast, ?_⟩
        rw [strideOf_mem hd hin, strideOf_mem hd hearly]
        exact stride_le_of_streakLimit (hw early hearly) (hw chosen hin).1 hlimit
      · exact .inl (hothers early hearly hfe)
  · by_cases he : chosen.credential.id = early.credential.id
    · rw [he]
      refine h.late.serve_early hne ?_
      unfold nextConsecutive
      by_cases hlast : state.1.lastMember = early.credential.id
      · rw [if_pos hlast, if_neg (not_not.mpr hlast)]
        split
        · exact le_rfl
        · exact Nat.le_succ _
      · rw [if_neg hlast, if_pos hlast]
    · exact h.late.serve_other (fun heq => hl heq.symm) fun heq => he heq.symm

variable {offer : Offer} {offers : List Offer}

theorem Joined.offerStep (h : Joined S late early state)
    (hpool : FixedPool state.1 S (offer :: offers)) (hlate : late ∈ S) (hearly : early ∈ S)
    (hne : late.credential.id ≠ early.credential.id) :
    Joined S late early (Scheduler.offerStep state offer) := by
  have hperm := hpool.eligible offer (.head _)
  have hunpreferred := hpool.unpreferred offer (.head _)
  have hprepared := prepared_settled h.noJitter (h.settled.filter hperm) offer.snapshotRevision
  rcases selectCredential_cases offer.snapshotRevision state.1 offer.candidates offer.preferred with
    ⟨d', hfailed, heq⟩ | ⟨first, rest, chosen, m, next, hlist, hchoose, hm, hadv, heq⟩
  · simp only [Scheduler.offerStep, heq]
    rw [intake_ledger h.noJitter, hprepared, or_self] at hfailed
    rw [hfailed]
    exact h
  · simp only [Scheduler.offerStep, heq]
    rw [hprepared] at hchoose hm ⊢
    rw [hlist] at hperm
    rw [chooseCredential_unpreferred fun c hc => hunpreferred c (hperm.mem_iff.mp hc)] at hchoose
    have hmembers : ∀ c ∈ first :: rest, ∃ mm, state.1.members c.credential.id = some mm := by
      intro c hc
      obtain ⟨mm, hmm, -⟩ := h.settled c (hperm.mem_iff.mp hc)
      exact ⟨mm, hmm⟩
    have hmem := @limitStreak_mem state.1 _ _ (leastCredential_spec rest first
      fun c hc => hmembers c (.tail _ hc)).1
    have hleast := limitStreak_least hmembers
    rw [hchoose] at hmem hleast
    refine h.charge hpool.distinct hpool.weighted hlate hearly hne
      (hperm.mem_iff.mp hmem) ?_ hm hadv
    rcases hleast with hleast | ⟨f, hf, hlast, hlimit, hothers⟩
    · exact .inl fun c hc => hleast c (hperm.mem_iff.mpr hc)
    · exact .inr ⟨f, hperm.mem_iff.mp hf, hlast, hlimit,
        fun c hc => hothers c (hperm.mem_iff.mpr hc)⟩

theorem Joined.foldl (offers : List Offer) (h : Joined S late early state)
    (hpool : FixedPool state.1 S offers) (hlate : late ∈ S) (hearly : early ∈ S)
    (hne : late.credential.id ≠ early.credential.id) :
    Joined S late early (offers.foldl Scheduler.offerStep state) := by
  induction offers generalizing state with
  | nil => exact h
  | cons offer offers ih =>
    exact ih (h.offerStep hpool hlate hearly hne)
      (hpool.tail.congr (offerStep_identities state offer))

theorem selectCredential_prepared (hj : d.jitter = none) (hseq : d.sequence ≠ -1)
    {revision : Option Nat}
    (h : Settled (prepared revision d candidates) (candidates.filter (matched d)))
    (preferred : Nat) :
    selectCredential revision d candidates preferred =
      selectCredential revision (prepared revision d candidates) candidates preferred := by
  have hbooks := prepared_books revision d candidates
  have hj' := hbooks.jitter.trans hj
  have hmatched := funext (matched_eq hbooks.identities)
  have hagain := prepared_settled hj' (by rw [hmatched]; exact h) revision
  simp only [selectCredential, intake_eligible, hmatched]
  cases hlist : candidates.filter (matched d) with
  | nil =>
    simp only [prepared, intake_eligible, hlist, intake_ledger hj, admitPending, foldl_nil]
  | cons first rest =>
    have hleft : admitPending (intake d candidates).ledger revision (intake d candidates).baseline
        (first :: rest) = prepared revision d candidates := by
      rw [prepared, intake_eligible, hlist]
    have hright : admitPending (intake (prepared revision d candidates) candidates).ledger revision
        (intake (prepared revision d candidates) candidates).baseline (first :: rest) =
        prepared revision d candidates := by
      rw [prepared, intake_eligible, hmatched, hlist] at hagain
      exact hagain
    simp only [hleft, hright]
    rw [intake_ledger hj, intake_ledger hj', hbooks.sequence, if_neg hseq, if_neg hseq]

theorem offerRun_full (hj : d.jitter = none) (hseq : d.sequence = -1) (offers : List Offer) :
    offerRun d offers = (d, []) := by
  have hstep : ∀ offer, offerStep (d, []) offer = (d, []) := by
    intro offer
    unfold offerStep
    simp only [selectCredential, intake_ledger hj, hseq]
    split
    · rename_i heq
      split at heq <;> cases heq <;> rfl
    · rename_i heq
      split at heq <;> cases heq
  unfold offerRun
  induction offers with
  | nil => rfl
  | cons offer offers ih => rw [foldl_cons, hstep, ih]

theorem Joined.start (hfiled : WellFiled none d) (hpool : FixedPool d S (offer :: offers))
    (hopen : d.groupsKnown = true → ∀ c ∈ S, d.groups c.credential.groupID = true)
    (hrevision : ∃ revision, offer.snapshotRevision = some revision ∧ d.groupRevision ≤ revision)
    (hlate : late ∈ S) (hearly : early ∈ S) (hwaiting : waiting d late = true)
    (hready : waiting d early = false) :
    Joined S late early (prepared offer.snapshotRevision d offer.candidates, []) := by
  have hperm := hpool.eligible offer (.head _)
  have heligible : ∀ c ∈ S, c ∈ offer.candidates.filter (matched d) :=
    fun c hc => hperm.mem_iff.mpr hc
  obtain ⟨revision, hrev, hle⟩ := hrevision
  have hmember : ∀ c ∈ S, ∃ m, d.members c.credential.id = some m ∧
      m.groupID = c.credential.groupID ∧ m.identityGeneration = c.credential.identityGeneration ∧
      (prepared offer.snapshotRevision d offer.candidates).members c.credential.id =
        some (if m.pending = true then m.admitAt (intake d offer.candidates).baseline else m) := by
    intro c hc
    obtain ⟨m, hm, hgroup, hgeneration⟩ := matched_iff.mp (mem_filter.mp (heligible c hc)).2
    refine ⟨m, hm, hgroup, hgeneration, ?_⟩
    have hmay : mayAdmit d offer.snapshotRevision m = m.pending := by
      have hgroups : (!d.groupsKnown || d.groups m.groupID) = true := by
        cases hknown : d.groupsKnown with
        | false => rfl
        | true => simpa [hgroup] using hopen hknown c hc
      simp only [mayAdmit, hgroups, hrev, Bool.and_true, decide_eq_true hle]
    have hin : c.credential.id ∈
        (offer.candidates.filter (matched d)).map fun e => e.credential.id :=
      mem_map.mpr ⟨c, heligible c hc, rfl⟩
    rw [prepared, admitPending_members, intake_ledger hfiled.jitter, intake_eligible, hm,
      Option.map_some, hmay]
    simp only [hin, true_and]
  refine ⟨(prepared_books _ _ _).jitter.trans hfiled.jitter, ?_, ?_, ?_, ?_⟩
  · intro c hc
    obtain ⟨m, hm, hgroup, hgeneration, hprepared⟩ := hmember c hc
    refine ⟨_, hprepared, ?_⟩
    have hid := hfiled.member_id hm
    cases hp : m.pending with
    | true => exact ⟨hid, hgroup, hgeneration, rfl⟩
    | false => exact ⟨hid, hgroup, hgeneration, hp⟩
  · obtain ⟨m, hm, -, -, hprepared⟩ := hmember late hlate
    have hearly' := heligible early hearly
    have hp : m.pending = true := by
      simpa [waiting, hm] using hwaiting
    have hbase : (intake d offer.candidates).baseline.value ≤
        position (prepared offer.snapshotRevision d offer.candidates) late.credential.id := by
      unfold position
      rw [hprepared, if_pos hp]
      exact le_admitAt _ _
    have hsame : position (prepared offer.snapshotRevision d offer.candidates)
        early.credential.id = position d early.credential.id := by
      rw [prepared, intake_ledger hfiled.jitter]
      exact position_admitPending _ _ hready
    have hlow := position_le_baseline hfiled.jitter (mem_filter.mp hearly').1
      (mem_filter.mp hearly').2 hready
    simp only [count_nil, Nat.zero_mul]
    exact hsame.trans_le (hlow.trans hbase)
  · simp
  · exact .inl count_nil

end Run

def openSnapshot : ConfigSnapshot where
  revision := 1
  routeStrategy := .nativeFirst
  executionCandidates := []
  executionRouteCatalog := []
  groups := [⟨1, 0, [⟨"model", ""⟩], false, none⟩]
  groupCatalog := [⟨1, "group", 0, true, none⟩]

/-- The light member joins after a first selection. -/
def lightJoins : List LedgerCall :=
  [.syncGroups (some openSnapshot), .syncCredential (activeView 11) Clock.zeroTime,
    .selectCredential (some 1) (heavyLight.take 1) 0,
    .syncCredential (activeView 12) Clock.zeroTime]

theorem lightJoins_pool : FixedPool (ledgerRun none lightJoins) heavyLight threeOffers where
  distinct := by decide
  identified := by simp [heavyLight]
  weighted := by simp [heavyLight]
  eligible offer hoffer := by
    obtain rfl := eq_of_mem_replicate hoffer
    exact List.Perm.refl _
  unpreferred offer hoffer := by
    obtain rfl := eq_of_mem_replicate hoffer
    simp [heavyLight]

/-- No catch-up burst: a member that waits at the first of some calls on a fixed
pool gets at most one selection more than its share against every member that
did not wait, also when the cap diverts selections to it. -/
theorem offerRun_no_catch_up (calls : List LedgerCall) {S : List WeightedCredential}
    {offers : List Offer} (h : FixedPool (ledgerRun none calls) S offers)
    (hopen : (ledgerRun none calls).groupsKnown = true →
      ∀ c ∈ S, (ledgerRun none calls).groups c.credential.groupID = true)
    (hrevision : ∀ offer ∈ offers, ∃ revision, offer.snapshotRevision = some revision ∧
      (ledgerRun none calls).groupRevision ≤ revision)
    {m i : WeightedCredential} (hm : m ∈ S) (hi : i ∈ S)
    (hwaiting : waiting (ledgerRun none calls) m = true)
    (hready : waiting (ledgerRun none calls) i = false) :
    (((offerRun (ledgerRun none calls) offers).2.count m.credential.id : Int) - 1) *
        stride m.weight ≤
      (offerRun (ledgerRun none calls) offers).2.count i.credential.id * stride i.weight := by
  have hfiled := ledgerRun_wellFiled none calls
  generalize ledgerRun none calls = d at *
  have hbounded : (offerRun d offers).2.count m.credential.id * stride m.weight ≤
      (offerRun d offers).2.count i.credential.id * stride i.weight + stride m.weight := by
    cases offers with
    | nil => simp [offerRun]
    | cons offer offers =>
      by_cases hseq : d.sequence = -1
      · rw [offerRun_full hfiled.jitter hseq]
        simp
      · have hne : m.credential.id ≠ i.credential.id := by
          intro heq
          rw [waiting, heq] at hwaiting
          rw [waiting, hwaiting] at hready
          cases hready
        have hstart := Joined.start hfiled h hopen (hrevision offer (.head _)) hm hi hwaiting hready
        have hbooks := prepared_books offer.snapshotRevision d offer.candidates
        have hpool := h.congr hbooks.identities
        have hfirst : offerStep (d, []) offer =
            offerStep (prepared offer.snapshotRevision d offer.candidates, []) offer := by
          have hset := hstart.settled.filter (hpool.eligible offer (.head _))
          rw [show matched (prepared offer.snapshotRevision d offer.candidates) = matched d from
            funext (matched_eq hbooks.identities)] at hset
          simp only [offerStep, selectCredential_prepared hfiled.jitter hseq hset]
        have hrun : offerRun d (offer :: offers) =
            offerRun (prepared offer.snapshotRevision d offer.candidates) (offer :: offers) := by
          unfold offerRun
          rw [foldl_cons, foldl_cons, hfirst]
        rw [hrun]
        have hjoined := (hstart.foldl (offer :: offers) hpool hm hi hne).late.bounded
        rw [strideOf_mem h.distinct hm, strideOf_mem h.distinct hi] at hjoined
        exact hjoined
  zify at hbounded
  linarith

theorem lightJoins_no_catch_up :
    (offerRun (ledgerRun none lightJoins) threeOffers).2 = [12, 11, 11] ∧
    (((offerRun (ledgerRun none lightJoins) threeOffers).2.count 12 : Int) - 1) * stride 1 ≤
      (offerRun (ledgerRun none lightJoins) threeOffers).2.count 11 * stride 100 := by
  refine ⟨by decide, offerRun_no_catch_up lightJoins lightJoins_pool ?_ ?_
    (mem_cons_of_mem _ (.head _)) (.head _) (by decide) (by decide)⟩
  · intro _ c hc
    rcases mem_pair.mp hc with rfl | rfl
    · decide
    · decide
  · intro offer hoffer
    obtain rfl := eq_of_mem_replicate hoffer
    exact ⟨1, rfl, by decide⟩

end EchoJoyGateway.Scheduler
