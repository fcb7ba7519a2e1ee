import EchoJoyGateway.Clock
import EchoJoyGateway.Lib.SlidingWindow

/-!
# The lockout of the administration

Failed sign-ins of a peer are counted in two places: in Redis, by the script of
`internal/cluster/auth_failures.go`, and in the process, by `internal/control/auth_limiter.go`.
Over both stands a plain lockout that forgets nothing; each of the two follows it.
-/

namespace EchoJoyGateway.Lockout

open Clock Expiring LuaNumber SlidingWindow List
open Function (update update_of_ne update_self)

/-- Durations are in nanoseconds. -/
def authFailureWindow : Int := 30 * 60 * 1000000000

def authFailureLimit : Nat := 5

def authLockDuration : Int := 30 * 60 * 1000000000

def authCleanupInterval : Int := 60 * 1000000000

def milliseconds (duration : Int) : Int := duration.tdiv 1000000

structure Decision where
  retryAfter : Int
  newlyLocked : Bool
  deriving DecidableEq

/-! ## In Redis -/

structure Keys (μ : Type) where
  failures : Option (Expiring (SortedSet μ))
  lock : Option (Expiring Unit)

structure AuthFailurePolicy where
  window : Int
  limit : Nat
  lockDuration : Int

def sharedAuthFailurePolicy : AuthFailurePolicy :=
  ⟨authFailureWindow, authFailureLimit, authLockDuration⟩

section Redis

variable {Peer μ : Type} [DecidableEq Peer] [DecidableEq μ]

/-- The reply is whether the peer is newly locked, and the milliseconds to wait. -/
def authFailureScript (keys : Keys μ) (now windowMS : Int) (limit : Nat) (lockMS : Int)
    (member : μ) : Keys μ × Bool × Int :=
  let remaining := LuaNumber.round (pttl keys.lock now)
  if remaining > 0 then (keys, false, remaining)
  else
    let recent := prune keys.failures now (cutoff now windowMS)
    let failures := zadd recent now (LuaNumber.round now) member
    if LuaNumber.round (zset failures now).zcard ≥ LuaNumber.round limit then
      (⟨none, set () now lockMS⟩, true, LuaNumber.round lockMS)
    else (⟨pexpire failures now windowMS, keys.lock⟩, false, 0)

def evaluateShared (s : Peer → Keys μ) (peer : Peer) (valid : Bool) (policy : AuthFailurePolicy)
    (now : Time) (member : μ) : (Peer → Keys μ) × Decision :=
  if valid then (Function.update s peer ⟨none, none⟩, ⟨0, false⟩)
  else
    let result := authFailureScript (s peer) (unixMilli now) (milliseconds policy.window)
      policy.limit (milliseconds policy.lockDuration) member
    (Function.update s peer result.1, ⟨result.2.2 * 1000000, result.2.1⟩)

end Redis

/-! ## In the process -/

structure AuthFailureEntry where
  failures : List Time
  lockedUntil : Time
  deriving DecidableEq

def AuthFailureEntry.zero : AuthFailureEntry := ⟨[], zeroTime⟩

structure Limiter (Peer : Type) where
  entries : Peer → Option AuthFailureEntry
  lastCleanup : Time

def retainRecentFailures (values : List Time) (cutoff : Time) : List Time :=
  values.filter fun value => after value cutoff

def cleanupEntry (now : Time) (entry : AuthFailureEntry) : Option AuthFailureEntry :=
  if isZero entry.lockedUntil = false then
    if ¬ now < entry.lockedUntil then none else some entry
  else
    let retained := retainRecentFailures entry.failures (now - authFailureWindow)
    if retained = [] then none else some { entry with failures := retained }

section Process

variable {Peer : Type} [DecidableEq Peer]

def newAuthFailureLimiter : Limiter Peer := ⟨fun _ => none, zeroTime⟩

omit [DecidableEq Peer] in
def cleanup (l : Limiter Peer) (now : Time) : Limiter Peer :=
  if isZero l.lastCleanup = false ∧ now < l.lastCleanup + authCleanupInterval then l
  else ⟨fun peer => (l.entries peer).bind (cleanupEntry now), now⟩

def recordFailure (entry : AuthFailureEntry) (now : Time) : AuthFailureEntry × Decision :=
  if now < entry.lockedUntil then (entry, ⟨entry.lockedUntil - now, false⟩)
  else
    let entry := if isZero entry.lockedUntil = false then AuthFailureEntry.zero else entry
    let failures := retainRecentFailures entry.failures (now - authFailureWindow) ++ [now]
    if failures.length ≥ authFailureLimit then
      (⟨[], now + authLockDuration⟩, ⟨authLockDuration, true⟩)
    else ({ entry with failures := failures }, ⟨0, false⟩)

def evaluate (l : Limiter Peer) (peer : Peer) (credentialValid : Bool) (now : Time) :
    Limiter Peer × Decision :=
  let l := cleanup l now
  if credentialValid then
    ({ l with entries := Function.update l.entries peer none }, ⟨0, false⟩)
  else
    let entry := (l.entries peer).getD AuthFailureEntry.zero
    if now < entry.lockedUntil then (l, (recordFailure entry now).2)
    else
      ({ l with entries := Function.update l.entries peer (some (recordFailure entry now).1) },
        (recordFailure entry now).2)

end Process

/-! ## The lockout itself -/

def windowMS : Int := 30 * 60 * 1000

def lockMS : Int := 30 * 60 * 1000

/-- The failures since the last success or lock, and the last lock; nothing expires. -/
structure Account where
  failures : List Int
  deadline : Option Int

def recent (times : List Int) (now : Int) : List Int := times.filter (now - windowMS < ·)

def Account.attempt (p : Account) (valid : Bool) (now : Int) : Account × Decision :=
  if valid then (⟨[], none⟩, ⟨0, false⟩)
  else if p.deadline.any (now < ·) then (p, ⟨(p.deadline.getD now - now) * 1000000, false⟩)
  else if (recent p.failures now).length + 1 ≥ authFailureLimit then
    (⟨[], some (now + lockMS)⟩, ⟨lockMS * 1000000, true⟩)
  else (⟨p.failures ++ [now], p.deadline⟩, ⟨0, false⟩)

/-! ## Redis follows the lockout -/

/-- The keys of a peer hold the failures still in the window, and its last lock. -/
structure Shared {μ : Type} (keys : Keys μ) (p : Account) (last : Int) : Prop where
  failures : Recorded keys.failures p.failures last windowMS
  lock : keys.lock = p.deadline.map fun deadline => ⟨(), some deadline⟩
  soon : ∀ deadline, p.deadline = some deadline → deadline ≤ last + lockMS

theorem Shared.mono {μ : Type} {keys : Keys μ} {p : Account} {last later : Int}
    (h : Shared keys p last) (hle : last ≤ later) : Shared keys p later :=
  ⟨h.failures.mono hle, h.lock, fun deadline hdeadline => by have := h.soon _ hdeadline; omega⟩

theorem pttl_lock {deadline : Option Int} {now : Int}
    (hsoon : ∀ d, deadline = some d → d ≤ now + lockMS) :
    if deadline.any (now < ·) then
      LuaNumber.round (pttl (deadline.map fun time => (⟨(), some time⟩ : Expiring Unit)) now) =
        deadline.getD now - now ∧ 0 < deadline.getD now - now
    else
      LuaNumber.round (pttl (deadline.map fun time => (⟨(), some time⟩ : Expiring Unit)) now) ≤
        0 := by
  cases deadline with
  | none => exact Int.le_of_lt (show LuaNumber.round (-2) < 0 by decide)
  | some deadline =>
    have hnear : deadline ≤ now + 1800000 := hsoon deadline rfl
    rw [Option.map_some, pttl, find_some]
    by_cases hlt : now < deadline
    · simp [Expiring.alive, hlt, Int.le_of_lt hlt]
      exact round_of_natAbs_le (by omega)
    · by_cases hle : now ≤ deadline
      · simp [Expiring.alive, hlt, hle]
        rw [show deadline - now = 0 by omega]
        decide
      · simp [Expiring.alive, hlt, hle]
        decide

section Redis

variable {μ : Type} [DecidableEq μ] {keys : Keys μ} {p : Account} {last now : Int} {member : μ}

theorem Shared.script (h : Shared keys p last) (hle : last ≤ now) (hexact : Exact now windowMS)
    (hfresh : member ∉ stored keys.failures) :
    let result := authFailureScript keys now windowMS authFailureLimit lockMS member
    Shared result.1 (p.attempt false now).1 now ∧
      (⟨result.2.2 * 1000000, result.2.1⟩ : Decision) = (p.attempt false now).2 ∧
      stored result.1.failures ⊆ insert member (stored keys.failures) := by
  have hnow := h.mono hle
  have hlock := pttl_lock hnow.soon
  rw [← h.lock] at hlock
  have hmembers : member ∉ (zset (prune keys.failures now (now - windowMS)) now).members :=
    fun hmem => hfresh (stored_prune_subset _ _ _ (members_zset_subset _ _ hmem))
  have hcount : (zset (zadd (prune keys.failures now (now - windowMS)) now now member) now).zcard =
      (recent p.failures now).length + 1 := by
    rw [zset_zadd, SortedSet.zcard_eq, SortedSet.scores_zadd hmembers,
      scores_prune, h.failures.recent now hle]
    rfl
  have hlimit : LuaNumber.round ((recent p.failures now).length + 1 : Nat) ≥
      LuaNumber.round authFailureLimit ↔
      (recent p.failures now).length + 1 ≥ authFailureLimit := natCast_le_round (by decide)
  intro result
  by_cases hlocked : p.deadline.any (now < ·) = true
  · rw [if_pos hlocked] at hlock
    have hresult : result = (keys, false, LuaNumber.round (pttl keys.lock now)) := by
      simp only [result, authFailureScript]
      rw [if_pos (by omega)]
    rw [hresult, Account.attempt, if_pos hlocked, hlock.1]
    exact ⟨hnow, rfl, Finset.subset_insert _ _⟩
  · rw [if_neg hlocked] at hlock
    have hopen : result =
        if (recent p.failures now).length + 1 ≥ authFailureLimit then
          (⟨none, Expiring.set () now lockMS⟩, true, lockMS)
        else
          (⟨pexpire (zadd (prune keys.failures now (now - windowMS)) now now member) now windowMS,
            keys.lock⟩, false, 0) := by
      simp only [result, authFailureScript, hexact.cutoff_eq (by decide) (by decide),
        hexact.round_eq (by decide), hcount, hlimit]
      exact if_neg (by omega)
    rw [hopen, Account.attempt, if_neg hlocked]
    by_cases hfull : (recent p.failures now).length + 1 ≥ authFailureLimit
    · rw [if_pos hfull, if_pos hfull]
      refine ⟨⟨.nil now windowMS, rfl, ?_⟩, rfl, Finset.empty_subset _⟩
      rintro _ ⟨⟩
      exact Int.le_refl _
    · rw [if_neg hfull, if_neg hfull]
      refine ⟨⟨(h.failures.prune hle).record hmembers, h.lock, hnow.soon⟩, rfl, ?_⟩
      exact (stored_record_subset _ _ _ _ _).trans
        (Finset.insert_subset_insert member (stored_prune_subset _ _ _))

end Redis

/-! ## The process follows the lockout -/

theorem lt_ofUnixMilli {t u : Int} : ofUnixMilli t < ofUnixMilli u ↔ t < u := by
  change t * 1000000 < u * 1000000 ↔ t < u
  omega

theorem recent_recent (times : List Int) {now later : Int} (h : now ≤ later) :
    recent (recent times now) later = recent times later :=
  filter_later times (by omega)

theorem recent_append (times more : List Int) (now : Int) :
    recent (times ++ more) now = recent times now ++ recent more now :=
  filter_append ..

theorem retainRecentFailures_eq (times : List Int) (now : Int) :
    retainRecentFailures (times.map ofUnixMilli) (ofUnixMilli now - authFailureWindow) =
      (recent times now).map ofUnixMilli := by
  have hcutoff : ofUnixMilli now - authFailureWindow = ofUnixMilli (now - windowMS) := by
    change now * 1000000 - 30 * 60 * 1000000000 = (now - 30 * 60 * 1000) * 1000000
    omega
  rw [hcutoff, retainRecentFailures, filter_map]
  congr 1
  refine filter_congr fun t _ => ?_
  rw [Bool.eq_iff_iff]
  simp [lt_ofUnixMilli]

structure Counting (e : AuthFailureEntry) (p : Account) (last : Int) (times : List Int) : Prop where
  ended : ∀ deadline, p.deadline = some deadline → deadline ≤ last
  unlocked : e.lockedUntil = zeroTime
  failures : e.failures = times.map ofUnixMilli
  recent_eq : ∀ now, last ≤ now → recent times now = recent p.failures now

structure Locked (e : AuthFailureEntry) (p : Account) (deadline : Int) : Prop where
  lock : p.deadline = some deadline
  none : p.failures = []
  until_eq : e.lockedUntil = ofUnixMilli deadline
  nonzero : isZero e.lockedUntil = false

def Local (e : AuthFailureEntry) (p : Account) (last : Int) : Prop :=
  (∃ deadline, Locked e p deadline) ∨ ∃ times, Counting e p last times

variable {e : AuthFailureEntry} {p : Account} {last now : Int}

theorem Counting.mono {times : List Int} (h : Counting e p last times) (hle : last ≤ now) :
    Counting e p now times :=
  ⟨fun deadline hdeadline => Int.le_trans (h.ended deadline hdeadline) hle, h.unlocked, h.failures,
    fun later hlater => h.recent_eq later (Int.le_trans hle hlater)⟩

theorem Local.mono (h : Local e p last) (hle : last ≤ now) : Local e p now := by
  rcases h with hlocked | ⟨times, hcounting⟩
  · exact .inl hlocked
  · exact .inr ⟨times, hcounting.mono hle⟩

theorem Locked.ended {deadline : Int} (h : Locked e p deadline) (hle : deadline ≤ now) :
    Counting .zero p now [] where
  ended := by
    intro deadline' hdeadline
    rw [h.lock] at hdeadline
    cases hdeadline
    exact hle
  unlocked := rfl
  failures := rfl
  recent_eq := by
    intro later _
    rw [h.none]

theorem Local.cleanupEntry (h : Local e p last) (hle : last ≤ now) :
    Local ((cleanupEntry (ofUnixMilli now) e).getD .zero) p now := by
  rcases h with ⟨deadline, hlocked⟩ | ⟨times, hcounting⟩
  · rw [Lockout.cleanupEntry, if_pos hlocked.nonzero]
    by_cases hlt : ofUnixMilli now < e.lockedUntil
    · rw [if_neg (not_not.mpr hlt)]
      exact .inl ⟨deadline, hlocked⟩
    · rw [if_pos hlt]
      rw [hlocked.until_eq, lt_ofUnixMilli] at hlt
      exact .inr ⟨[], hlocked.ended (Int.not_lt.mp hlt)⟩
  · have hnow := hcounting.mono hle
    rw [Lockout.cleanupEntry, hcounting.unlocked, hcounting.failures, retainRecentFailures_eq]
    by_cases hnone : (recent times now).map ofUnixMilli = []
    · rw [if_pos hnone]
      refine .inr ⟨recent times now, hnow.ended, rfl, hnone.symm, fun later hlater => ?_⟩
      rw [recent_recent times hlater]
      exact hnow.recent_eq later hlater
    · rw [if_neg hnone]
      refine .inr ⟨recent times now, hnow.ended, rfl, rfl, fun later hlater => ?_⟩
      rw [recent_recent times hlater]
      exact hnow.recent_eq later hlater

theorem Local.reset (h : Local e p now) (hopen : ¬ ofUnixMilli now < e.lockedUntil) :
    ∃ times, Counting (if isZero e.lockedUntil = false then .zero else e) p now
      times := by
  rcases h with ⟨deadline, hlocked⟩ | ⟨times, hcounting⟩
  · rw [hlocked.until_eq, lt_ofUnixMilli] at hopen
    rw [if_pos hlocked.nonzero]
    exact ⟨[], hlocked.ended (Int.not_lt.mp hopen)⟩
  · rw [hcounting.unlocked]
    exact ⟨times, hcounting⟩

theorem Local.recordFailure (h : Local e p now) (hzero : zeroTime ≤ ofUnixMilli now) :
    Local (recordFailure e (ofUnixMilli now)).1 (p.attempt false now).1 now ∧
      (recordFailure e (ofUnixMilli now)).2 = (p.attempt false now).2 := by
  by_cases hlt : ofUnixMilli now < e.lockedUntil
  · rw [Lockout.recordFailure, if_pos hlt]
    rcases h with ⟨deadline, hlocked⟩ | ⟨times, hcounting⟩
    · have hlt' : now < deadline := by rwa [hlocked.until_eq, lt_ofUnixMilli] at hlt
      have hany : p.deadline.any (now < ·) = true := by
        rw [hlocked.lock]
        exact decide_eq_true hlt'
      rw [Account.attempt, if_pos hany]
      refine ⟨.inl ⟨deadline, hlocked⟩, ?_⟩
      rw [hlocked.until_eq, hlocked.lock, Int.sub_mul]
      rfl
    · rw [hcounting.unlocked] at hlt
      exact absurd hlt (Int.not_lt.mpr hzero)
  · obtain ⟨times, hcounting⟩ := h.reset hlt
    rw [Lockout.recordFailure, if_neg hlt]
    generalize (if isZero e.lockedUntil = false then .zero else e) = entry at hcounting
    have hopen : ¬ p.deadline.any (now < ·) = true := by
      cases hdeadline : p.deadline with
      | none => exact Bool.false_ne_true
      | some deadline =>
        have := hcounting.ended deadline hdeadline
        simpa using this
    have hfailures : retainRecentFailures entry.failures (ofUnixMilli now - authFailureWindow) ++
        [ofUnixMilli now] = (recent times now ++ [now]).map ofUnixMilli := by
      rw [hcounting.failures, retainRecentFailures_eq, map_append]
      rfl
    have hlength : ((recent times now ++ [now]).map ofUnixMilli).length =
        (recent p.failures now).length + 1 := by
      rw [length_map, length_append, hcounting.recent_eq now (Int.le_refl now)]
      rfl
    simp only [hfailures, hlength]
    rw [Account.attempt, if_neg Bool.false_ne_true, if_neg hopen]
    by_cases hfull : (recent p.failures now).length + 1 ≥ authFailureLimit
    · rw [if_pos hfull, if_pos hfull]
      refine ⟨.inl ⟨now + lockMS, rfl, rfl, ?_, ?_⟩, rfl⟩
      · change now * 1000000 + 30 * 60 * 1000000000 = (now + 30 * 60 * 1000) * 1000000
        omega
      · rw [Bool.eq_false_iff, Ne, isZero_iff]
        intro heq
        have hsum : now * 1000000 + 30 * 60 * 1000000000 = -62135596800 * 1000000000 := heq
        have hstart : -62135596800 * 1000000000 ≤ now * 1000000 := hzero
        omega
    · rw [if_neg hfull, if_neg hfull]
      refine ⟨.inr ⟨recent times now ++ [now], hcounting.ended, hcounting.unlocked, rfl,
        fun later hlater => ?_⟩, rfl⟩
      rw [recent_append, recent_append, recent_recent times hlater,
        hcounting.recent_eq later hlater]

/-! ## Runs -/

/-- An attempt at a time in milliseconds, with the member it would be recorded as. -/
structure Attempt (Peer μ : Type) where
  peer : Peer
  credentialValid : Bool
  now : Int
  member : μ

section Runs

variable {Peer μ : Type} [DecidableEq Peer] [DecidableEq μ]

def sharedRun (s : Peer → Keys μ) : List (Attempt Peer μ) → List Decision
  | [] => []
  | a :: attempts =>
    let result := evaluateShared s a.peer a.credentialValid sharedAuthFailurePolicy
      (ofUnixMilli a.now) a.member
    result.2 :: sharedRun result.1 attempts

omit [DecidableEq μ] in
def localRun (l : Limiter Peer) : List (Attempt Peer μ) → List Decision
  | [] => []
  | a :: attempts =>
    let result := evaluate l a.peer a.credentialValid (ofUnixMilli a.now)
    result.2 :: localRun result.1 attempts

omit [DecidableEq μ] in
def plainRun (p : Peer → Account) : List (Attempt Peer μ) → List Decision
  | [] => []
  | a :: attempts =>
    let result := (p a.peer).attempt a.credentialValid a.now
    result.2 :: plainRun (Function.update p a.peer result.1) attempts

def noKeys : Peer → Keys μ := fun _ => ⟨none, none⟩

def noAccounts : Peer → Account := fun _ => ⟨[], none⟩

/-- Two attempts that are both recorded have different members. -/
def DistinctMembers (attempts : List (Attempt Peer μ)) : Prop :=
  attempts.Pairwise fun a b =>
    a.credentialValid = false → b.credentialValid = false → a.member ≠ b.member

variable {peer : Peer}

theorem forall_update {α β : Type} (R : α → β → Prop) {f : Peer → α} {g : Peer → β}
    (h : ∀ peer, R (f peer) (g peer)) {x : α} {y : β} (hxy : R x y) (other : Peer) :
    R (update f peer x other) (update g peer y other) := by
  rcases eq_or_ne other peer with rfl | hne
  · rwa [update_self, update_self]
  · rw [update_of_ne hne, update_of_ne hne]
    exact h other

variable {s : Peer → Keys μ}

theorem Shared.evaluateShared (h : Shared (s peer) p last) (hle : last ≤ now)
    (hexact : Exact now windowMS) (valid : Bool) {member : μ}
    (hfresh : valid = false → member ∉ stored (s peer).failures) :
    ∃ keys, evaluateShared s peer valid sharedAuthFailurePolicy (ofUnixMilli now) member =
        (update s peer keys, (p.attempt valid now).2) ∧
      Shared keys (p.attempt valid now).1 now ∧
      ∀ m ∈ stored keys.failures, valid = false ∧ m = member ∨ m ∈ stored (s peer).failures := by
  cases valid with
  | true =>
    exact ⟨⟨none, none⟩, rfl, ⟨.nil now windowMS, rfl, nofun⟩,
      fun m hm => absurd hm (Finset.notMem_empty m)⟩
  | false =>
    obtain ⟨hshared, hdecision, hstored⟩ := h.script hle hexact (hfresh rfl)
    refine ⟨_, ?_, hshared, fun m hm => ?_⟩
    · rw [Lockout.evaluateShared, unixMilli_ofUnixMilli, ← hdecision]
      rfl
    · rcases Finset.mem_insert.mp (hstored hm) with heq | hm
      · exact .inl ⟨rfl, heq⟩
      · exact .inr hm

variable {attempts : List (Attempt Peer μ)}

theorem sharedRun_eq {p : Peer → Account} (h : ∀ peer, Shared (s peer) (p peer) last)
    (hsorted : attempts.Pairwise (·.now ≤ ·.now)) (hstart : ∀ a ∈ attempts, last ≤ a.now)
    (hexact : ∀ a ∈ attempts, Exact a.now windowMS) (hdistinct : DistinctMembers attempts)
    (hfresh : ∀ a ∈ attempts, a.credentialValid = false →
      ∀ peer, a.member ∉ stored (s peer).failures) :
    sharedRun s attempts = plainRun p attempts := by
  induction attempts generalizing s p last with
  | nil => rfl
  | cons a attempts ih =>
    obtain ⟨hfirst, hrest⟩ := pairwise_cons.mp hsorted
    obtain ⟨hmembers, hothers⟩ := pairwise_cons.mp hdistinct
    have hle := hstart a (.head _)
    obtain ⟨keys, hevaluate, hshared, hstored⟩ := (h a.peer).evaluateShared hle
      (hexact a (.head _)) a.credentialValid fun hinvalid => hfresh a (.head _) hinvalid a.peer
    simp only [sharedRun, hevaluate]
    refine congrArg _ (ih ?_ hrest hfirst (fun b hb => hexact b (.tail _ hb)) hothers ?_)
    · exact forall_update (Shared · · a.now) (fun peer => (h peer).mono hle) hshared
    · intro b hb hinvalid peer
      have hold := hfresh b (mem_cons_of_mem a hb) hinvalid
      rcases eq_or_ne peer a.peer with rfl | hne
      · rw [update_self]
        intro hmem
        rcases hstored _ hmem with ⟨hvalid, heq⟩ | hmem
        · exact hmembers b hb hvalid hinvalid heq.symm
        · exact hold a.peer hmem
      · rw [update_of_ne hne]
        exact hold peer

variable {l : Limiter Peer}

omit [DecidableEq Peer] in
theorem cleanup_local {p : Peer → Account}
    (h : ∀ peer, Local ((l.entries peer).getD .zero) (p peer) last)
    (hle : last ≤ now) (peer : Peer) :
    Local (((cleanup l (ofUnixMilli now)).entries peer).getD .zero) (p peer)
      now := by
  unfold cleanup
  split
  · exact (h peer).mono hle
  · have hpeer := h peer
    cases hentry : l.entries peer with
    | none =>
      rw [hentry] at hpeer
      simp only [hentry]
      exact hpeer.mono hle
    | some entry =>
      rw [hentry] at hpeer
      simp only [hentry]
      exact hpeer.cleanupEntry hle

theorem evaluate_entries (l : Limiter Peer) (peer : Peer) (valid : Bool) (now : Time) :
    (fun other => ((evaluate l peer valid now).1.entries other).getD .zero) =
      update
        (fun other => ((cleanup l now).entries other).getD .zero) peer
        (if valid then .zero
          else (recordFailure (((cleanup l now).entries peer).getD .zero) now).1) := by
  funext other
  cases valid with
  | true =>
    rcases eq_or_ne other peer with rfl | hne
    · simp [evaluate]
    · simp [evaluate, hne]
  | false =>
    rcases eq_or_ne other peer with rfl | hne
    · by_cases hlt : now < (((cleanup l now).entries other).getD .zero).lockedUntil
      · simp [evaluate, recordFailure, hlt]
      · simp [evaluate, hlt]
    · by_cases hlt : now < (((cleanup l now).entries peer).getD .zero).lockedUntil
      · simp [evaluate, hlt, hne]
      · simp [evaluate, hlt, hne]

theorem evaluate_decision (l : Limiter Peer) (peer : Peer) (valid : Bool) (now : Time) :
    (evaluate l peer valid now).2 = if valid then ⟨0, false⟩
      else (recordFailure (((cleanup l now).entries peer).getD .zero) now).2 := by
  cases valid with
  | true => rfl
  | false =>
    simp only [evaluate, Bool.false_eq_true, if_false]
    split <;> rfl

omit [DecidableEq μ] in
theorem localRun_eq {p : Peer → Account}
    (h : ∀ peer, Local ((l.entries peer).getD .zero) (p peer) last)
    (hsorted : attempts.Pairwise (·.now ≤ ·.now)) (hstart : ∀ a ∈ attempts, last ≤ a.now)
    (hzero : ∀ a ∈ attempts, zeroTime ≤ ofUnixMilli a.now) :
    localRun l attempts = plainRun p attempts := by
  induction attempts generalizing l p last with
  | nil => rfl
  | cons a attempts ih =>
    obtain ⟨hfirst, hrest⟩ := pairwise_cons.mp hsorted
    have hclean := cleanup_local h (hstart a (.head _))
    have hentries := evaluate_entries l a.peer a.credentialValid (ofUnixMilli a.now)
    have hpeer : Local (if a.credentialValid then .zero
          else (recordFailure (((cleanup l (ofUnixMilli a.now)).entries a.peer).getD
            .zero) (ofUnixMilli a.now)).1)
        ((p a.peer).attempt a.credentialValid a.now).1 a.now ∧
        (evaluate l a.peer a.credentialValid (ofUnixMilli a.now)).2 =
          ((p a.peer).attempt a.credentialValid a.now).2 := by
      rw [evaluate_decision]
      cases a.credentialValid with
      | true => exact ⟨.inr ⟨[], nofun, rfl, rfl, fun _ _ => rfl⟩, rfl⟩
      | false => exact (hclean a.peer).recordFailure (hzero a (.head _))
    simp only [localRun, hpeer.2]
    refine congrArg _ (ih (fun peer => ?_) hrest hfirst fun b hb => hzero b (mem_cons_of_mem a hb))
    rw [show ((evaluate l a.peer a.credentialValid (ofUnixMilli a.now)).1.entries peer).getD
      .zero = _ from congrFun hentries peer]
    exact forall_update (Local · · a.now) hclean hpeer.1 peer

theorem exact_of_zeroTime_le (hzero : zeroTime ≤ ofUnixMilli now) (hlast : now ≤ 2 ^ 53) :
    Exact now windowMS := by
  change -62135596800 * 1000000000 ≤ now * 1000000 at hzero
  exact ⟨show _ ≤ now - 1800000 by omega, hlast⟩

/-- Both places answer every attempt as the lockout that neither cleans up nor expires. -/
theorem lockouts_agree (attempts : List (Attempt Peer μ))
    (hsorted : attempts.Pairwise (·.now ≤ ·.now)) (hdistinct : DistinctMembers attempts)
    (hzero : ∀ a ∈ attempts, zeroTime ≤ ofUnixMilli a.now)
    (hlast : ∀ a ∈ attempts, a.now ≤ 2 ^ 53) :
    sharedRun noKeys attempts = localRun newAuthFailureLimiter attempts ∧
      localRun newAuthFailureLimiter attempts = plainRun noAccounts attempts := by
  obtain ⟨last, hstart⟩ : ∃ last, ∀ a ∈ attempts, last ≤ a.now := by
    cases attempts with
    | nil => exact ⟨0, nofun⟩
    | cons a attempts =>
      refine ⟨a.now, fun b hb => ?_⟩
      rcases mem_cons.mp hb with rfl | hb
      · exact Int.le_refl _
      · exact rel_of_pairwise_cons hsorted hb
  have hshared : sharedRun noKeys attempts = plainRun noAccounts attempts :=
    sharedRun_eq (fun _ => ⟨.nil last windowMS, rfl, nofun⟩) hsorted hstart
      (fun a ha => exact_of_zeroTime_le (hzero a ha) (hlast a ha)) hdistinct
      fun _ _ _ _ => Finset.notMem_empty _
  have hlocal : localRun newAuthFailureLimiter attempts = plainRun noAccounts attempts :=
    localRun_eq (fun _ => .inr ⟨[], nofun, rfl, rfl, fun _ _ => rfl⟩) hsorted hstart hzero
  exact ⟨hshared.trans hlocal.symm, hlocal⟩

end Runs

/-- Five failures of one peer in five milliseconds, and a sixth attempt. -/
def sampleAttempts : List (Attempt Bool Nat) :=
  [⟨true, false, 0, 0⟩, ⟨true, false, 1, 1⟩, ⟨true, false, 2, 2⟩, ⟨true, false, 3, 3⟩,
    ⟨true, false, 4, 4⟩, ⟨true, false, 5, 5⟩]

theorem lockouts_agree_sample :
    sharedRun noKeys sampleAttempts = localRun newAuthFailureLimiter sampleAttempts :=
  (lockouts_agree sampleAttempts (by decide) (by unfold DistinctMembers; decide) (by decide)
    (by decide)).1

def earlyAttempts : List (Attempt Bool Nat) := [⟨true, false, unixMilli zeroTime - 1, 0⟩]

def lateAttempts : List (Attempt Bool Nat) :=
  (List.range 4).map (⟨true, false, 2 ^ 53 + 1, ·⟩) ++ [⟨true, false, 2 ^ 53 + 1800000, 4⟩]

/-- Before the zero time an entry that was never locked counts as locked in the process. After
`2^53` milliseconds Redis scores four failures a millisecond early and forgets them. -/
theorem lockouts_differ :
    sharedRun noKeys earlyAttempts ≠ localRun newAuthFailureLimiter earlyAttempts ∧
    lateAttempts.Pairwise (·.now ≤ ·.now) ∧ DistinctMembers lateAttempts ∧
    sharedRun noKeys lateAttempts ≠ localRun newAuthFailureLimiter lateAttempts := by
  unfold DistinctMembers
  decide

end EchoJoyGateway.Lockout
