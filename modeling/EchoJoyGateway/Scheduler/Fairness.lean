import EchoJoyGateway.Scheduler.Select
import EchoJoyGateway.Lib.LeastProgress
import Mathlib.Data.List.Count
import Mathlib.Data.List.Nodup
import Mathlib.Tactic.Linarith

/-!
# Weighted fairness of a fixed pool

Repeated calls of `selectCredential` on one pool serve its members by least
progress, so the spread and streak bounds of the library apply. The streak
bound is far below the consecutive-allocation cap for every pair of weights,
hence the cap is never what decides.
-/

namespace EchoJoyGateway.Scheduler

open State SchedulingProgress LeastProgress List

variable {ledger : SchedulingLedger} {m : SchedulingMember} {S : List WeightedCredential}
  {next : SchedulingProgress} {candidates : List WeightedCredential}

def Settled (ledger : SchedulingLedger) (candidates : List WeightedCredential) : Prop :=
  ∀ c ∈ candidates, ∃ m, ledger.members c.credential.id = some m ∧
    m.id = c.credential.id ∧ m.groupID = c.credential.groupID ∧
    m.identityGeneration = c.credential.identityGeneration ∧ m.pending = false

theorem setMember_self {id : Nat} (h : ledger.members id = some m) :
    ledger.setMember id m = ledger := by
  unfold SchedulingLedger.setMember
  rw [← h, Function.update_eq_self]

theorem intake_foldl_settled (hj : ledger.jitter = none) (h : Settled ledger candidates)
    (acc : Intake) (hacc : acc.ledger = ledger) :
    (candidates.foldl intakeStep acc).ledger = ledger ∧
      (candidates.foldl intakeStep acc).eligible = acc.eligible ++ candidates := by
  induction candidates generalizing acc with
  | nil => simp [hacc]
  | cons c rest ih =>
    obtain ⟨m, hm, -, hg, hi, hp⟩ := h c (.head _)
    have hstep : (intakeStep acc c).ledger = ledger ∧
        (intakeStep acc c).eligible = acc.eligible ++ [c] := by
      simp only [intakeStep, hacc, hm, hg, hi, ne_eq, not_true, or_self, if_false, and_true]
      simp only [SchedulingLedger.stagger, hj]
      exact setMember_self hm
    obtain ⟨hl, he⟩ := ih (fun c' hc' => h c' (.tail _ hc')) (intakeStep acc c) hstep.1
    refine ⟨hl, ?_⟩
    rw [foldl_cons, he, hstep.2]
    simp

theorem intake_settled (hj : ledger.jitter = none) (h : Settled ledger candidates) :
    (intake ledger candidates).ledger = ledger ∧
      (intake ledger candidates).eligible = candidates := by
  obtain ⟨hl, he⟩ := intake_foldl_settled hj h ⟨ledger, [], ledger.watermark, false⟩ rfl
  exact ⟨hl, he⟩

theorem admitPending_settled (h : Settled ledger candidates) (revision : Option Nat)
    (baseline : SchedulingProgress) :
    admitPending ledger revision baseline candidates = ledger := by
  unfold admitPending
  induction candidates with
  | nil => rfl
  | cons c rest ih =>
    obtain ⟨m, hm, -, -, -, hp⟩ := h c (.head _)
    have hstep : admitStep revision baseline ledger c = ledger := by
      simp [admitStep, hm, mayAdmit, hp]
    rw [foldl_cons, hstep]
    exact ih fun c' hc' => h c' (.tail _ hc')

def position (ledger : SchedulingLedger) (id : Nat) : Nat :=
  match ledger.members id with
  | none => 0
  | some m => m.progress.value

theorem memberLess_value_le {a b : SchedulingMember} (h : memberLess a b = true) :
    a.progress.value ≤ b.progress.value := by
  unfold memberLess at h
  split at h
  · exact ((lt_iff _ _).mp h).le
  · rename_i he
    rw [not_not.mp he]

theorem value_le_of_not_memberLess {a b : SchedulingMember} (h : memberLess a b = false) :
    b.progress.value ≤ a.progress.value := by
  unfold memberLess at h
  split at h
  · by_contra hlt
    rw [(lt_iff _ _).mpr (not_le.mp hlt)] at h
    cases h
  · rename_i he
    rw [not_not.mp he]

variable {c d : WeightedCredential}

theorem position_le_of_less (h : less ledger c d = true) :
    position ledger c.credential.id ≤ position ledger d.credential.id := by
  unfold less at h
  split at h
  · rename_i a b ha hb
    simp only [position, ha, hb]
    exact memberLess_value_le h
  · cases h

theorem position_le_of_not_less (hc : ledger.members c.credential.id = some m)
    (h : less ledger c d = false) :
    position ledger d.credential.id ≤ position ledger c.credential.id := by
  unfold less at h
  simp only [position, hc] at h ⊢
  cases hd : ledger.members d.credential.id with
  | none => exact Nat.zero_le _
  | some n =>
    simp only [hd] at h
    exact value_le_of_not_memberLess h

theorem leastCredential_spec (rest : List WeightedCredential) (first : WeightedCredential)
    (h : ∀ c ∈ rest, ∃ m, ledger.members c.credential.id = some m) :
    leastCredential ledger first rest ∈ first :: rest ∧
      ∀ c ∈ first :: rest, position ledger (leastCredential ledger first rest).credential.id ≤
        position ledger c.credential.id := by
  induction rest generalizing first with
  | nil => simp [leastCredential]
  | cons c rest ih =>
    obtain ⟨m, hm⟩ := h c (.head _)
    let best := if less ledger c first then c else first
    have hbest : best = c ∨ best = first := by
      simp only [best]
      split <;> simp
    have hc : position ledger best.credential.id ≤ position ledger c.credential.id := by
      simp only [best]
      split
      · exact le_rfl
      · rename_i hless
        exact position_le_of_not_less hm (eq_false_of_ne_true hless)
    have hf : position ledger best.credential.id ≤ position ledger first.credential.id := by
      simp only [best]
      split
      · exact position_le_of_less ‹_›
      · exact le_rfl
    obtain ⟨hmem, hle⟩ := ih best fun d hd => h d (mem_cons_of_mem _ hd)
    have hb := hle best (.head _)
    change leastCredential ledger best rest ∈ _ ∧ ∀ d ∈ _,
      position ledger (leastCredential ledger best rest).credential.id ≤ _
    refine ⟨?_, ?_⟩
    · rcases mem_cons.mp hmem with he | he
      · rw [he]
        rcases hbest with hb | hb <;> simp [hb]
      · exact .tail _ (.tail _ he)
    · intro d hd
      rcases mem_cons.mp hd with rfl | hd
      · exact hb.trans hf
      · rcases mem_cons.mp hd with rfl | hd
        · exact hb.trans hc
        · exact hle d (.tail _ hd)

variable {first : WeightedCredential}

theorem alternative_foldl_spec {P : WeightedCredential → Prop} (l : List WeightedCredential)
    (acc : Option WeightedCredential) (hl : ∀ c ∈ l, P c)
    (hacc : ∀ a, acc = some a → P a ∧ a.credential.id ≠ first.credential.id) :
    ∀ a, l.foldl (alternativeStep ledger first) acc = some a →
      P a ∧ a.credential.id ≠ first.credential.id := by
  induction l generalizing acc with
  | nil => exact hacc
  | cons c l ih =>
    apply ih _ (fun d hd => hl d (mem_cons_of_mem _ hd))
    intro b hb
    unfold alternativeStep at hb
    split at hb
    · exact hacc b hb
    · rename_i hne
      have hc : P c ∧ c.credential.id ≠ first.credential.id := ⟨hl c (.head _), hne⟩
      split at hb
      · exact Option.some.inj hb ▸ hc
      · split at hb
        · exact Option.some.inj hb ▸ hc
        · exact hacc b hb

theorem alternativeCredential_spec {eligible : List WeightedCredential}
    {alternative : WeightedCredential}
    (h : alternativeCredential ledger eligible first = some alternative) :
    alternative ∈ eligible ∧ alternative.credential.id ≠ first.credential.id :=
  alternative_foldl_spec (P := fun c => c ∈ eligible) eligible none (fun _ hc => hc) (by simp)
    alternative h

def capDiverts (snapshotRevision : Option Nat) (ledger : SchedulingLedger)
    (candidates : List WeightedCredential) : Bool :=
  let taken := intake ledger candidates
  match taken.eligible with
  | [] => false
  | first :: rest =>
    let ledger := admitPending taken.ledger snapshotRevision taken.baseline (first :: rest)
    let least := leastCredential ledger first rest
    (limitStreak ledger (first :: rest) least).credential.id != least.credential.id

variable {rest : List WeightedCredential}

theorem selectCredential_settled (hj : ledger.jitter = none) (h : Settled ledger (first :: rest))
    (hid : ∀ c ∈ first :: rest, c.credential.id ≠ 0) (revision : Option Nat) :
    selectCredential revision ledger (first :: rest) 0 = (ledger, none) ∨
    ∃ m next, ledger.members
        (limitStreak ledger (first :: rest) (leastCredential ledger first rest)).credential.id =
          some m ∧
      m.progress.advance
        (limitStreak ledger (first :: rest) (leastCredential ledger first rest)).weight =
          (next, true) ∧
      selectCredential revision ledger (first :: rest) 0 =
        (charge ledger
          (limitStreak ledger (first :: rest) (leastCredential ledger first rest)).credential.id
          m next,
        some (limitStreak ledger (first :: rest)
          (leastCredential ledger first rest)).credential) := by
  obtain ⟨hl, he⟩ := intake_settled hj h
  have hfind : (first :: rest).find? (fun c => c.credential.id == 0) = none := by
    rw [find?_eq_none]
    intro c hc
    simpa using hid c hc
  simp only [selectCredential, he, hl, admitPending_settled h, chooseCredential, hfind]
  generalize limitStreak ledger (first :: rest) (leastCredential ledger first rest) = chosen
  by_cases hseq : ledger.sequence = -1
  · simp [hseq]
  · simp only [hseq]
    cases hm : ledger.members chosen.credential.id with
    | none => exact .inl rfl
    | some m =>
      rcases hadv : m.progress.advance chosen.weight with ⟨next, ok⟩
      cases ok with
      | false => exact .inl (by simp [hadv])
      | true => exact .inr ⟨m, next, rfl, by rw [hadv], by simp [hadv]⟩

theorem capDiverts_settled (hj : ledger.jitter = none) (h : Settled ledger (first :: rest))
    (revision : Option Nat) :
    capDiverts revision ledger (first :: rest) =
      ((limitStreak ledger (first :: rest) (leastCredential ledger first rest)).credential.id !=
        (leastCredential ledger first rest).credential.id) := by
  obtain ⟨hl, he⟩ := intake_settled hj h
  simp only [capDiverts, he, hl, admitPending_settled h]

theorem count_lt_streakLimit {wf wa count : Nat} (hf : 1 ≤ wf) (hf' : wf ≤ 10000) (ha : 1 ≤ wa)
    (h : count * stride wf ≤ stride wa) : count < 99 + (wf + wa - 1) / wa := by
  unfold stride at h
  by_contra hge
  have hceil : wf ≤ wa * ((wf + wa - 1) / wa) := by
    have hdiv := Nat.div_add_mod (wf + wa - 1) wa
    have hmod := Nat.mod_lt (wf + wa - 1) ha
    omega
  have hs : 2 ^ 64 < wf * (2 ^ 64 / wf) + wf := by
    have hdiv := Nat.div_add_mod (2 ^ 64) wf
    have hmod := Nat.mod_lt (2 ^ 64) hf
    omega
  have ht : wa * (2 ^ 64 / wa) ≤ 2 ^ 64 := Nat.mul_div_le _ _
  have hlow : 2 ^ 64 / 10000 ≤ 2 ^ 64 / wf := Nat.div_le_div_left hf' hf
  generalize 2 ^ 64 / wf = s at h hs hlow
  generalize 2 ^ 64 / wa = t at h ht
  have hcount : 99 + wf ≤ wa * count := by
    have : wa * (99 + (wf + wa - 1) / wa) ≤ wa * count := Nat.mul_le_mul_left _ (by omega)
    rw [Nat.mul_add] at this
    omega
  have hmul : (99 + wf) * s ≤ wa * t :=
    calc (99 + wf) * s ≤ wa * count * s := Nat.mul_le_mul_right _ hcount
      _ = wa * (count * s) := Nat.mul_assoc _ _ _
      _ ≤ wa * t := Nat.mul_le_mul_left _ h
  rw [Nat.add_mul] at hmul
  omega

def strideOf (S : List WeightedCredential) (id : Nat) : Nat :=
  match S.find? (fun c => c.credential.id == id) with
  | none => 0
  | some c => stride c.weight

def poolIDs (S : List WeightedCredential) : Set Nat := {id | ∃ c ∈ S, c.credential.id = id}

theorem eq_of_id_eq (hd : (S.map fun c => c.credential.id).Nodup) (hc : c ∈ S) (hd' : d ∈ S)
    (h : c.credential.id = d.credential.id) : c = d :=
  inj_on_of_nodup_map hd hc hd' h

theorem strideOf_mem (hd : (S.map fun c => c.credential.id).Nodup) (hc : c ∈ S) :
    strideOf S c.credential.id = stride c.weight := by
  unfold strideOf
  cases hfind : S.find? (fun d => d.credential.id == c.credential.id) with
  | none =>
    have := find?_eq_none.mp hfind c hc
    simp at this
  | some d =>
    have hid : d.credential.id = c.credential.id := by simpa using find?_some hfind
    rw [eq_of_id_eq hd (mem_of_find?_eq_some hfind) hc hid]

structure FreshPool (ledger : SchedulingLedger) (S : List WeightedCredential) : Prop where
  noJitter : ledger.jitter = none
  distinct : (S.map fun c => c.credential.id).Nodup
  identified : ∀ c ∈ S, c.credential.id ≠ 0
  weighted : ∀ c ∈ S, 1 ≤ c.weight ∧ c.weight ≤ 10000
  settled : Settled ledger S
  level : ∃ p : SchedulingProgress, ∀ c ∈ S, ∀ m,
    ledger.members c.credential.id = some m → m.progress = p
  unallocated : ledger.lastMember = 0

structure PoolCall where
  snapshotRevision : Option Nat
  candidates : List WeightedCredential

def poolStep (state : SchedulingLedger × List Nat) (call : PoolCall) :
    SchedulingLedger × List Nat :=
  match selectCredential call.snapshotRevision state.1 call.candidates 0 with
  | (ledger, none) => (ledger, state.2)
  | (ledger, some selected) => (ledger, state.2 ++ [selected.id])

def poolRun (ledger : SchedulingLedger) (calls : List PoolCall) : SchedulingLedger × List Nat :=
  calls.foldl poolStep (ledger, [])

/-- What a run keeps: positions follow the counts, and both library bounds hold. -/
structure Balanced (S : List WeightedCredential) (start : Nat)
    (state : SchedulingLedger × List Nat) : Prop where
  noJitter : state.1.jitter = none
  settled : Settled state.1 S
  counted : ∀ c ∈ S, position state.1 c.credential.id =
    start + state.2.count c.credential.id * stride c.weight
  spread : Spread (poolIDs S) (strideOf S) (position state.1)
  streak : ∀ c ∈ S, state.1.lastMember = c.credential.id →
    Streak (poolIDs S) (strideOf S) (position state.1) c.credential.id state.1.consecutive

theorem FreshPool.balanced (h : FreshPool ledger S) : ∃ start, Balanced S start (ledger, []) := by
  obtain ⟨p, hp⟩ := h.level
  have hpos : ∀ c ∈ S, position ledger c.credential.id = p.value := by
    intro c hc
    obtain ⟨m, hm, -⟩ := h.settled c hc
    simp only [position, hm, hp c hc m hm]
  refine ⟨p.value, h.noJitter, h.settled, ?_, ?_, ?_⟩
  · intro c hc
    simpa using hpos c hc
  · apply spread_of_eq
    rintro _ ⟨c, hc, rfl⟩ _ ⟨d, hd, rfl⟩
    rw [hpos c hc, hpos d hd]
  · intro c hc hlast
    exact absurd (hlast.symm.trans h.unallocated) (h.identified c hc)

section Step

variable {S : List WeightedCredential} {start : Nat} {state : SchedulingLedger × List Nat}
  {first : WeightedCredential} {rest : List WeightedCredential}

theorem Balanced.least (h : Balanced S start state) (hperm : (first :: rest).Perm S) :
    leastCredential state.1 first rest ∈ S ∧
      Least (poolIDs S) (position state.1) (leastCredential state.1 first rest).credential.id := by
  have hmem : ∀ c ∈ rest, ∃ m, state.1.members c.credential.id = some m := by
    intro c hc
    obtain ⟨m, hm, -⟩ := h.settled c (hperm.mem_iff.mp (.tail _ hc))
    exact ⟨m, hm⟩
  obtain ⟨hin, hle⟩ := leastCredential_spec rest first hmem
  refine ⟨hperm.mem_iff.mp hin, ⟨_, hperm.mem_iff.mp hin, rfl⟩, ?_⟩
  rintro _ ⟨c, hc, rfl⟩
  exact hle c (hperm.mem_iff.mpr hc)

theorem Balanced.limitStreak_eq (h : Balanced S start state) (hperm : (first :: rest).Perm S)
    (hd : (S.map fun c => c.credential.id).Nodup)
    (hw : ∀ c ∈ S, 1 ≤ c.weight ∧ c.weight ≤ 10000) :
    limitStreak state.1 (first :: rest) (leastCredential state.1 first rest) =
      leastCredential state.1 first rest := by
  obtain ⟨hin, hleast⟩ := h.least hperm
  unfold limitStreak
  split
  · rename_i hcond
    split
    · rfl
    · rename_i alternative halt
      obtain ⟨hmem, hne⟩ := alternativeCredential_spec halt
      have hmem' := hperm.mem_iff.mp hmem
      have hle := (h.streak _ hin hcond.1).mul_stride_le hleast ⟨_, hmem', rfl⟩ hne
      rw [strideOf_mem hd hin, strideOf_mem hd hmem'] at hle
      have hlt := count_lt_streakLimit (hw _ hin).1 (hw _ hin).2 (hw _ hmem').1 hle
      rw [if_neg (by unfold streakLimit; omega)]
  · rfl

theorem position_charge {id : Nat} (other : Nat) :
    position (charge ledger id m next) other =
      if other = id then next.value else position ledger other := by
  unfold position charge SchedulingLedger.setMember
  by_cases ho : other = id <;> simp [ho]

theorem Settled.charge {id : Nat} (h : Settled ledger S) (hm : ledger.members id = some m) :
    Settled (charge ledger id m next) S := by
  intro c hc
  obtain ⟨n, hn, hrest⟩ := h c hc
  by_cases hid : c.credential.id = id
  · subst hid
    obtain rfl : m = n := Option.some.inj (hm.symm.trans hn)
    exact ⟨{ m with progress := next, lastSelected := ledger.sequence + 1 },
      by simp [Scheduler.charge, SchedulingLedger.setMember], hrest⟩
  · exact ⟨n, by simp [Scheduler.charge, SchedulingLedger.setMember, hid, hn], hrest⟩

theorem advance_position {c : WeightedCredential} (hw : 1 ≤ c.weight)
    (hm : ledger.members c.credential.id = some m)
    (hadv : m.progress.advance c.weight = (next, true)) :
    next.value = position ledger c.credential.id + stride c.weight := by
  have hval := advance_value (p := m.progress) hw (by rw [hadv])
  rw [hadv] at hval
  simpa [position, hm] using hval

variable {chosen : WeightedCredential}

theorem position_charge_eq_serve (hd : (S.map fun c => c.credential.id).Nodup)
    (hw : 1 ≤ chosen.weight) (hin : chosen ∈ S) (hm : ledger.members chosen.credential.id = some m)
    (hadv : m.progress.advance chosen.weight = (next, true)) :
    position (charge ledger chosen.credential.id m next) =
      serve (strideOf S) (position ledger) chosen.credential.id := by
  funext id
  rw [position_charge]
  by_cases hid : id = chosen.credential.id
  · subst hid
    rw [if_pos rfl, serve_self, strideOf_mem hd hin, advance_position hw hm hadv]
  · rw [if_neg hid, serve_of_ne hid]

theorem Balanced.charge (h : Balanced S start state) (hd : (S.map fun c => c.credential.id).Nodup)
    (hw : ∀ c ∈ S, 1 ≤ c.weight) (hin : chosen ∈ S)
    (hleast : Least (poolIDs S) (position state.1) chosen.credential.id)
    (hm : state.1.members chosen.credential.id = some m)
    (hadv : m.progress.advance chosen.weight = (next, true)) :
    Balanced S start (Scheduler.charge state.1 chosen.credential.id m next,
      state.2 ++ [chosen.credential.id]) := by
  have hnext := advance_position (hw chosen hin) hm hadv
  have hserve := position_charge_eq_serve hd (hw chosen hin) hin hm hadv
  have hid : m.id = chosen.credential.id := by
    obtain ⟨n, hn, hid, -⟩ := h.settled chosen hin
    obtain rfl : m = n := Option.some.inj (hm.symm.trans hn)
    exact hid
  refine ⟨h.noJitter, h.settled.charge hm, ?_, ?_, ?_⟩
  · intro c hc
    rw [position_charge, count_append, count_singleton]
    by_cases hcid : c.credential.id = chosen.credential.id
    · obtain rfl := eq_of_id_eq hd hc hin hcid
      simp only [if_true, beq_self_eq_true, hnext, h.counted c hc, Nat.add_mul]
      omega
    · have hne : (chosen.credential.id == c.credential.id) = false := by
        simpa using fun he => hcid he.symm
      simp [hcid, hne, h.counted c hc]
  · rw [hserve]
    exact h.spread.serve hleast
  · intro c hc hlast
    obtain rfl : chosen = c := eq_of_id_eq hd hin hc (hid.symm.trans hlast)
    change Streak _ _ (position (Scheduler.charge state.1 _ m next)) _
      (nextConsecutive state.1 m.id)
    rw [hserve, hid]
    unfold nextConsecutive
    split
    · exact .start h.spread ⟨_, hin, rfl⟩
    · rename_i hsame
      have hstreak := (h.streak chosen hin (not_not.mp hsame)).serve
      split
      · exact hstreak
      · exact hstreak.mono (Nat.le_succ _)

theorem Balanced.poolStep (h : Balanced S start state)
    (hd : (S.map fun c => c.credential.id).Nodup) (hid : ∀ c ∈ S, c.credential.id ≠ 0)
    (hw : ∀ c ∈ S, 1 ≤ c.weight ∧ c.weight ≤ 10000) {call : PoolCall}
    (hperm : call.candidates.Perm S) :
    Balanced S start (Scheduler.poolStep state call) ∧
      capDiverts call.snapshotRevision state.1 call.candidates = false := by
  obtain ⟨revision, candidates⟩ := call
  cases candidates with
  | nil => exact ⟨h, rfl⟩
  | cons first rest =>
    have hset : Settled state.1 (first :: rest) := fun c hc => h.settled c (hperm.mem_iff.mp hc)
    obtain ⟨hin, hleast⟩ := h.least hperm
    have hcap := h.limitStreak_eq hperm hd hw
    refine ⟨?_, ?_⟩
    · rcases selectCredential_settled h.noJitter hset
        (fun c hc => hid c (hperm.mem_iff.mp hc)) revision with heq | ⟨m, next, hm, hadv, heq⟩
      · simp only [Scheduler.poolStep, heq]
        exact h
      · simp only [hcap] at hm hadv heq
        simp only [Scheduler.poolStep, heq]
        exact h.charge hd (fun c hc => (hw c hc).1) hin hleast hm hadv
    · rw [capDiverts_settled h.noJitter hset, hcap]
      simp

end Step

variable {start : Nat}

theorem Balanced.foldl (hd : (S.map fun c => c.credential.id).Nodup)
    (hid : ∀ c ∈ S, c.credential.id ≠ 0) (hw : ∀ c ∈ S, 1 ≤ c.weight ∧ c.weight ≤ 10000)
    (calls : List PoolCall) (hcalls : ∀ call ∈ calls, call.candidates.Perm S)
    {state : SchedulingLedger × List Nat} (h : Balanced S start state) :
    Balanced S start (calls.foldl Scheduler.poolStep state) := by
  induction calls generalizing state with
  | nil => exact h
  | cons call calls ih =>
    exact ih (fun c hc => hcalls c (mem_cons_of_mem _ hc))
      (h.poolStep hd hid hw (hcalls call (.head _))).1

theorem Balanced.weighted_diff_le {state : SchedulingLedger × List Nat} (h : Balanced S start state)
    (hd : (S.map fun c => c.credential.id).Nodup) {i j : WeightedCredential} (hi : i ∈ S)
    (hj : j ∈ S) :
    |(state.2.count i.credential.id * stride i.weight : Int) -
        state.2.count j.credential.id * stride j.weight| ≤
      max (stride i.weight) (stride j.weight) := by
  have hij := h.spread _ ⟨i, hi, rfl⟩ _ ⟨j, hj, rfl⟩
  have hji := h.spread _ ⟨j, hj, rfl⟩ _ ⟨i, hi, rfl⟩
  rw [strideOf_mem hd hi, h.counted i hi, h.counted j hj] at hij
  rw [strideOf_mem hd hj, h.counted i hi, h.counted j hj] at hji
  rw [abs_le]
  constructor <;> zify at hij hji <;> omega

/-- Weighted fairness: after any calls on a fresh pool, in any candidate order
and under any configuration revisions, the weighted counts of two members
differ by at most the larger of their strides, and no call was diverted by the
consecutive-allocation cap. -/
theorem poolRun_weighted_fair {ledger : SchedulingLedger} {S : List WeightedCredential}
    (h : FreshPool ledger S) (calls : List PoolCall)
    (hcalls : ∀ call ∈ calls, call.candidates.Perm S) :
    (∀ i ∈ S, ∀ j ∈ S,
      |((poolRun ledger calls).2.count i.credential.id * stride i.weight : Int) -
          (poolRun ledger calls).2.count j.credential.id * stride j.weight| ≤
        max (stride i.weight) (stride j.weight)) ∧
    ∀ before call later, calls = before ++ call :: later →
      capDiverts call.snapshotRevision (poolRun ledger before).1 call.candidates = false := by
  obtain ⟨start, hstart⟩ := h.balanced
  have hrun := @Balanced.foldl S start h.distinct h.identified h.weighted
  refine ⟨?_, ?_⟩
  · intro i hi j hj
    exact (hrun calls hcalls hstart).weighted_diff_le h.distinct hi hj
  · rintro before call later rfl
    have hbefore := hrun before (fun c hc => hcalls c (mem_append_left _ hc)) hstart
    exact (hbefore.poolStep h.distinct h.identified h.weighted (hcalls call (by simp))).2

def heavyLight : List WeightedCredential :=
  [⟨⟨11, 1, 1, 1, none, fun _ => none⟩, 100⟩, ⟨⟨12, 1, 1, 1, none, fun _ => none⟩, 1⟩]

def heavyLightLedger : SchedulingLedger :=
  ((SchedulingLedger.new none).setMember 11
    ⟨11, 1, 1, ⟨0, 0⟩, 0, false, false, false, Clock.zeroTime⟩).setMember 12
    ⟨12, 1, 1, ⟨0, 0⟩, 0, false, false, false, Clock.zeroTime⟩

theorem heavyLight_fresh : FreshPool heavyLightLedger heavyLight where
  noJitter := rfl
  distinct := by decide
  identified := by simp [heavyLight]
  weighted := by simp [heavyLight]
  settled := by
    intro c hc
    rcases mem_pair.mp hc with rfl | rfl
    · exact ⟨_, rfl, rfl, rfl, rfl, rfl⟩
    · exact ⟨_, rfl, rfl, rfl, rfl, rfl⟩
  level := by
    refine ⟨⟨0, 0⟩, ?_⟩
    intro c hc m hm
    rcases mem_pair.mp hc with rfl | rfl
    · exact Option.some.inj hm ▸ rfl
    · exact Option.some.inj hm ▸ rfl
  unallocated := rfl

theorem heavyLight_weighted_fair :
    (poolRun heavyLightLedger [⟨none, heavyLight⟩, ⟨some 1, heavyLight.reverse⟩,
      ⟨none, heavyLight⟩]).2 = [11, 12, 11] ∧
    (∀ i ∈ heavyLight, ∀ j ∈ heavyLight,
      |((poolRun heavyLightLedger [⟨none, heavyLight⟩, ⟨some 1, heavyLight.reverse⟩,
          ⟨none, heavyLight⟩]).2.count i.credential.id * stride i.weight : Int) -
        (poolRun heavyLightLedger [⟨none, heavyLight⟩, ⟨some 1, heavyLight.reverse⟩,
          ⟨none, heavyLight⟩]).2.count j.credential.id * stride j.weight| ≤
        max (stride i.weight) (stride j.weight)) := by
  refine ⟨by decide, (poolRun_weighted_fair heavyLight_fresh _ ?_).1⟩
  intro call hcall
  simp only [mem_cons, not_mem_nil, or_false] at hcall
  rcases hcall with rfl | rfl | rfl
  · exact List.Perm.refl _
  · exact reverse_perm _
  · exact List.Perm.refl _

end EchoJoyGateway.Scheduler
