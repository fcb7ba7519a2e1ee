import EchoJoyGateway.Scheduler.Ledger

/-!
# Rows of selections

The consecutive-allocation cap bounds how often one member of a fixed pool is
selected in a row. The counter of the ledger may also hold selections from
before the run, so it is never below the row of the run, and a member whose
counter has reached the cap of the current alternative is passed over.
-/

namespace EchoJoyGateway.Scheduler

open State List

variable {state : SchedulingLedger × List Nat}

variable {d : SchedulingLedger} {first : WeightedCredential}

theorem alternative_foldl_isSome (l : List WeightedCredential) (acc : Option WeightedCredential)
    (h : acc.isSome = true ∨ ∃ c ∈ l, c.credential.id ≠ first.credential.id) :
    (l.foldl (alternativeStep d first) acc).isSome = true := by
  induction l generalizing acc with
  | nil =>
    rcases h with h | ⟨c, hc, -⟩
    · exact h
    · cases hc
  | cons c l ih =>
    apply ih
    by_cases hid : c.credential.id = first.credential.id
    · have hstep : alternativeStep d first acc c = acc := by
        simp [alternativeStep, hid]
      rw [hstep]
      rcases h with h | ⟨e, he, hne⟩
      · exact .inl h
      · rcases mem_cons.mp he with rfl | he
        · exact absurd hid hne
        · exact .inr ⟨e, he, hne⟩
    · refine .inl ?_
      unfold alternativeStep
      rw [if_neg hid]
      cases acc with
      | none => rfl
      | some best =>
        simp only
        split <;> rfl

variable {l : List WeightedCredential}

theorem alternativeCredential_ne_none (h : ∃ c ∈ l, c.credential.id ≠ first.credential.id) :
    alternativeCredential d l first ≠ none := by
  rw [Option.ne_none_iff_isSome]
  exact alternative_foldl_isSome l none (.inr h)

variable {w : Nat}

theorem ceil_le_ceil {a b : Nat} (ha : 1 ≤ a) (hab : a ≤ b) :
    (w + b - 1) / b ≤ (w + a - 1) / a := by
  have hceil : w ≤ a * ((w + a - 1) / a) := by
    have hdiv := Nat.div_add_mod (w + a - 1) a
    have hmod := Nat.mod_lt (w + a - 1) ha
    omega
  have hscale : a * ((w + a - 1) / a) ≤ b * ((w + a - 1) / a) := Nat.mul_le_mul_right _ hab
  apply Nat.le_of_lt_succ
  apply Nat.div_lt_of_lt_mul
  rw [Nat.mul_succ]
  omega

theorem ceil_le_self {a : Nat} (ha : 1 ≤ a) : (w + a - 1) / a ≤ w := by
  have h := @ceil_le_ceil w 1 a le_rfl ha
  simpa using h

theorem one_le_ceil {a : Nat} (hw : 1 ≤ w) (ha : 1 ≤ a) : 1 ≤ (w + a - 1) / a :=
  (Nat.one_le_div_iff ha).mpr (by omega)

theorem limitStreak_repeat {chosen : WeightedCredential} (hfirst : first ∈ l)
    (hchosen : limitStreak d l first = chosen) (hlast : d.lastMember = chosen.credential.id)
    (hother : ∃ c ∈ l, c.credential.id ≠ chosen.credential.id) (hpos : 1 ≤ chosen.weight)
    (hw : 1 ≤ w) (hmin : ∀ c ∈ l, c.credential.id ≠ chosen.credential.id → w ≤ c.weight) :
    d.consecutive < 99 + (chosen.weight + w - 1) / w := by
  unfold limitStreak at hchosen
  split at hchosen
  · rename_i hcond
    cases halt : alternativeCredential d l first with
    | none =>
      rw [halt] at hchosen
      subst hchosen
      exact absurd halt (alternativeCredential_ne_none hother)
    | some alternative =>
      obtain ⟨hmem, hne⟩ := alternativeCredential_spec halt
      rw [halt] at hchosen
      simp only at hchosen
      split at hchosen
      · subst hchosen
        exact absurd (hlast.symm.trans hcond.1) hne
      · rename_i hlimit
        subst hchosen
        have hceil := @ceil_le_ceil first.weight w alternative.weight hw (hmin _ hmem hne)
        unfold streakLimit at hlimit
        omega
  · subst hchosen
    have hlength : 1 < l.length := by
      obtain ⟨c, hc, hne⟩ := hother
      match l, hfirst, hc with
      | [only], hfirst, hc =>
        rw [mem_singleton] at hfirst hc
        exact absurd (by rw [hc, hfirst]) hne
      | _ :: _ :: _, _, _ => exact Nat.succ_lt_succ (Nat.succ_pos _)
    have hceil := one_le_ceil hpos hw
    omega

theorem replicate_suffix_concat {α : Type} {k : Nat} {f x : α} {l : List α}
    (h : List.replicate (k + 1) f <:+ l ++ [x]) : x = f ∧ List.replicate k f <:+ l := by
  rw [replicate_succ', suffix_concat_iff] at h
  rcases h with h | ⟨t, heq, hsuffix⟩
  · simp at h
  · obtain ⟨rfl, hlast⟩ := append_inj' heq rfl
    exact ⟨(singleton_inj.mp hlast).symm, hsuffix⟩

structure Rowed (f cap : Nat) (state : SchedulingLedger × List Nat) : Prop where
  counted : ∀ k, List.replicate (k + 1) f <:+ state.2 →
    state.1.lastMember = f ∧ k + 1 ≤ state.1.consecutive
  bounded : ∀ k, List.replicate k f <:+: state.2 → k ≤ cap

variable {d' : SchedulingLedger}

theorem Rowed.books {f cap : Nat} (h : Rowed f cap state) (hbooks : SameBooks state.1 d') :
    Rowed f cap (d', state.2) where
  counted k hk := by
    rw [hbooks.lastMember, hbooks.consecutive]
    exact h.counted k hk
  bounded := h.bounded

theorem Rowed.select {f cap id : Nat} (h : Rowed f cap state) (hcap : 1 ≤ cap)
    (hmax : cap ≤ maxConsecutive) (hlast : d'.lastMember = id)
    (hrow : d'.consecutive = nextConsecutive state.1 id)
    (hrepeat : id = f → state.1.lastMember = f → state.1.consecutive < cap) :
    Rowed f cap (d', state.2 ++ [id]) := by
  have hcounted : ∀ k, List.replicate (k + 1) f <:+ state.2 ++ [id] →
      id = f ∧ k + 1 ≤ d'.consecutive ∧ k + 1 ≤ cap := by
    intro k hk
    obtain ⟨rfl, hbefore⟩ := replicate_suffix_concat hk
    refine ⟨rfl, ?_⟩
    unfold nextConsecutive at hrow
    cases k with
    | zero =>
      refine ⟨?_, hcap⟩
      rw [hrow]
      split
      · exact le_rfl
      · split
        · exact Nat.le_add_left _ _
        · omega
    | succ k =>
      obtain ⟨hprevious, hle⟩ := h.counted k hbefore
      have hlt := hrepeat rfl hprevious
      rw [if_neg (not_not.mpr hprevious), if_pos (hlt.trans_le hmax)] at hrow
      omega
  constructor
  · intro k hk
    obtain ⟨rfl, hle, -⟩ := hcounted k hk
    exact ⟨hlast, hle⟩
  · intro k hk
    rcases infix_concat_iff.mp hk with hsuffix | hinfix
    · cases k with
      | zero => exact Nat.zero_le _
      | succ k => exact (hcounted k hsuffix).2.2
    · exact h.bounded k hinfix

section Run

variable {S : List WeightedCredential} {f : WeightedCredential} {w : Nat}

def otherWeights (S : List WeightedCredential) (f : WeightedCredential) : Set Nat :=
  {x | ∃ c ∈ S, c.credential.id ≠ f.credential.id ∧ c.weight = x}

variable {jitter : Option Jitter}

theorem Rowed.offerStep {offer : Offer} {offers : List Offer} (hfiled : WellFiled jitter state.1)
    (hpool : FixedPool state.1 S (offer :: offers)) (hf : f ∈ S) (hw : IsLeast (otherWeights S f) w)
    (h : Rowed f.credential.id (99 + (f.weight + w - 1) / w) state) :
    Rowed f.credential.id (99 + (f.weight + w - 1) / w) (Scheduler.offerStep state offer) := by
  have hperm := hpool.eligible offer (.head _)
  have hunpreferred := hpool.unpreferred offer (.head _)
  obtain ⟨other, hother, hne, hweight⟩ := hw.1
  have hwpos : 1 ≤ w := hweight ▸ (hpool.weighted other hother).1
  rcases selectCredential_cases offer.snapshotRevision state.1 offer.candidates offer.preferred with
    ⟨d', hfailed, heq⟩ | ⟨first, rest, chosen, m, next, hlist, hchoose, hm, -, heq⟩
  · simp only [Scheduler.offerStep, heq]
    exact h.books (sameBooks_of_failed hfailed)
  · simp only [Scheduler.offerStep, heq]
    rw [hlist] at hperm
    have hbooks := prepared_books offer.snapshotRevision state.1 offer.candidates
    have hmid : m.id = chosen.credential.id :=
      (hfiled.congr hbooks.identities hbooks.jitter).member_id hm
    have hmembers : ∀ c ∈ first :: rest, ∃ mm,
        (prepared offer.snapshotRevision state.1 offer.candidates).members c.credential.id =
          some mm := by
      intro c hc
      rw [← hlist] at hc
      obtain ⟨mm, hmm, -⟩ := matched_iff.mp
        ((matched_eq hbooks.identities c).trans (mem_filter.mp hc).2)
      exact ⟨mm, hmm⟩
    rw [chooseCredential_unpreferred fun c hc => hunpreferred c (hperm.mem_iff.mp hc)] at hchoose
    have hleast := (leastCredential_spec rest first fun c hc => hmembers c (.tail _ hc)).1
    refine h.select (Nat.le_trans (by decide) (Nat.le_add_right 99 _)) ?_ hmid ?_ ?_
    · have hle := @ceil_le_self f.weight w hwpos
      have hmax := (hpool.weighted f hf).2
      unfold maxConsecutive
      omega
    · change nextConsecutive (prepared _ _ _) m.id = _
      rw [hmid]
      unfold nextConsecutive
      rw [hbooks.lastMember, hbooks.consecutive]
    · intro hid hlast
      rw [← hbooks.consecutive]
      have hin : chosen ∈ S := by
        have hspec : chosen ∈ first :: rest := by
          rw [← hchoose]
          exact limitStreak_mem hleast
        exact hperm.mem_iff.mp hspec
      obtain rfl := eq_of_id_eq hpool.distinct hin hf hid
      refine limitStreak_repeat hleast hchoose (hbooks.lastMember.trans hlast)
        ⟨other, hperm.mem_iff.mpr hother, hne⟩ (hpool.weighted chosen hin).1 hwpos ?_
      intro c hc hcne
      exact hw.2 ⟨c, hperm.mem_iff.mp hc, hcne, rfl⟩

theorem Rowed.foldl (hf : f ∈ S) (hw : IsLeast (otherWeights S f) w) (offers : List Offer)
    (hfiled : WellFiled jitter state.1) (hpool : FixedPool state.1 S offers)
    (h : Rowed f.credential.id (99 + (f.weight + w - 1) / w) state) :
    Rowed f.credential.id (99 + (f.weight + w - 1) / w)
      (offers.foldl Scheduler.offerStep state) := by
  induction offers generalizing state with
  | nil => exact h
  | cons offer offers ih =>
    have hidentities := offerStep_identities state offer
    exact ih (hfiled.congr hidentities (offerStep_jitter state offer))
      (hpool.tail.congr hidentities) (h.offerStep hfiled hpool hf hw)

end Run

def activeView (id : Nat) : CredentialRuntimeView where
  id := id
  groupID := 1
  version := 1
  identityGeneration := 1
  proxyFingerprint := ""
  weightManual := none
  concurrencyLimit := 0
  status := .active
  authState := .ready
  cooldownUntil := Clock.zeroTime
  modelCooldowns := fun _ => none
  blacklisted := false
  failureCount := 0
  quotaRemaining := none
  quotaResetAt := Clock.zeroTime

/-- The heavy member was already selected alone. -/
def heavyAlone : List LedgerCall :=
  [.syncCredential (activeView 11) Clock.zeroTime, .syncCredential (activeView 12) Clock.zeroTime,
    .selectCredential (some 1) (heavyLight.take 1) 0]

def threeOffers : List Offer := List.replicate 3 ⟨some 1, heavyLight, 0⟩

theorem heavyAlone_pool : FixedPool (ledgerRun none heavyAlone) heavyLight threeOffers where
  distinct := by decide
  identified := by simp [heavyLight]
  weighted := by simp [heavyLight]
  eligible offer hoffer := by
    obtain rfl := eq_of_mem_replicate hoffer
    exact List.Perm.refl _
  unpreferred offer hoffer := by
    obtain rfl := eq_of_mem_replicate hoffer
    simp [heavyLight]

/-- Bounded monopolisation: from every reachable ledger, no member of a fixed
pool is selected more often in a row than its cap over the lightest other
member allows, whatever row stands in the ledger before. -/
theorem offerRun_rows_bounded (jitter : Option Jitter) (calls : List LedgerCall)
    {S : List WeightedCredential} {offers : List Offer}
    (h : FixedPool (ledgerRun jitter calls) S offers) {f : WeightedCredential} (hf : f ∈ S)
    {w : Nat} (hw : IsLeast (otherWeights S f) w) {k : Nat}
    (hk : List.replicate k f.credential.id <:+: (offerRun (ledgerRun jitter calls) offers).2) :
    k ≤ 99 + (f.weight + w - 1) / w := by
  have hstart : Rowed f.credential.id (99 + (f.weight + w - 1) / w)
      (ledgerRun jitter calls, []) := by
    constructor
    · intro k hk
      simp at hk
    · intro k hk
      simp only [infix_nil, replicate_eq_nil_iff] at hk
      rw [hk]
      exact Nat.zero_le _
  exact (hstart.foldl hf hw offers (ledgerRun_wellFiled jitter calls) h).bounded k hk

theorem heavyAlone_rows_bounded :
    List.replicate 2 11 <:+: (offerRun (ledgerRun none heavyAlone) threeOffers).2 ∧
      2 ≤ 99 + (100 + 1 - 1) / 1 := by
  have hrow : List.replicate 2 11 <:+: (offerRun (ledgerRun none heavyAlone) threeOffers).2 := by
    decide
  have hleast : IsLeast (otherWeights heavyLight (heavyLight.head (by simp [heavyLight]))) 1 := by
    constructor
    · exact ⟨_, mem_cons_of_mem _ (.head _), by decide, rfl⟩
    · rintro x ⟨c, hc, hne, rfl⟩
      exact (heavyAlone_pool.weighted c hc).1
  exact ⟨hrow, offerRun_rows_bounded none heavyAlone heavyAlone_pool (head_mem _) hleast hrow⟩

end EchoJoyGateway.Scheduler
