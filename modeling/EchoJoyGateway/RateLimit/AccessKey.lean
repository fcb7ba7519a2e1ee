import EchoJoyGateway.Clock
import EchoJoyGateway.Lib.SlidingWindow

/-!
# The request rate of an access key

The shared window of `internal/cluster/access_key_rpm.go` and the retry time of
`internal/ratelimit/access_key_rpm.go`, for one access key. The script runs as one step.
The statistics that the script also keeps, in keys of their own, are left out.
-/

namespace EchoJoyGateway.RateLimit

open Clock Expiring LuaNumber SlidingWindow List

/-- A window entry: the random text of its limiter and the number of the call there. -/
structure Member where
  nonce : Nat
  sequence : Nat
  deriving DecidableEq

abbrev WindowKey := Option (Expiring (SortedSet Member))

inductive Reply where
  | admitted
  | rejected (target : Option Int)
  deriving DecidableEq

def windowMS : Int := 60000

def rpmScript (key : WindowKey) (now limit : Int) (member : Member) : WindowKey × Reply :=
  let pruned := prune key now (cutoff now windowMS)
  let count := LuaNumber.round (zset pruned now).zcard
  if count ≥ LuaNumber.round limit then
    let rank := LuaNumber.round (count - LuaNumber.round limit)
    (pruned, .rejected ((zset pruned now).scoreAt rank.toNat))
  else (pexpire (zadd pruned now (LuaNumber.round now) member) now windowMS, .admitted)

def second : Int := 1000000000

def minute : Int := 60 * second

def ceilToSecond (duration : Int) : Int :=
  if duration ≤ 0 then duration else (duration + second - 1).tdiv second * second

def retryAfter (target now : Time) : Int :=
  let rounded := ceilToSecond (target + minute - now)
  let atLeast := if rounded < second then second else rounded
  if atLeast > minute then minute else atLeast

structure LimitDecision where
  allowed : Bool
  retryAfter : Int
  deriving DecidableEq

structure Call where
  nonce : Nat
  now : Time
  limit : Int
  deriving DecidableEq

/-- The window and, for each limiter, the number of its last member. -/
structure State where
  window : WindowKey
  sequence : Nat → Nat

def initial : State := ⟨none, fun _ => 0⟩

/-- The number of the next member, of 64 bits. -/
def State.next (s : State) (nonce : Nat) : Nat := (s.sequence nonce + 1) % 2 ^ 64

def allow (s : State) (call : Call) : State × Except String LimitDecision :=
  if call.limit ≤ 0 then (s, .ok ⟨true, 0⟩)
  else
    let sequence := s.next call.nonce
    let result := rpmScript s.window (unixMilli call.now) call.limit ⟨call.nonce, sequence⟩
    let s' : State := ⟨result.1, Function.update s.sequence call.nonce sequence⟩
    match result.2 with
    | .admitted => (s', .ok ⟨true, 0⟩)
    | .rejected none => (s', .error "malformed reply")
    | .rejected (some target) => (s', .ok ⟨false, retryAfter (ofUnixMilli target) call.now⟩)

abbrev Log := List (Call × Except String LimitDecision)

def run (s : State) : List Call → State × Log
  | [] => (s, [])
  | call :: calls =>
    let rest := run (allow s call).1 calls
    (rest.1, (call, (allow s call).2) :: rest.2)

def isAdmitted : Except String LimitDecision → Bool
  | .ok decision => decision.allowed
  | .error _ => false

def admissions (log : Log) : List Int :=
  (log.filter fun entry => 0 < entry.1.limit && isAdmitted entry.2).map fun entry =>
    unixMilli entry.1.now

def inWindow (times : List Int) (now : Int) : Nat :=
  times.countP fun t => now - windowMS < t && t ≤ now

/-! ## One call -/

/-- After `n` calls the window remembers the admissions of the last minute, and the members in
it have been used. -/
structure Sound (s : State) (times : List Int) (last : Int) (n : Nat) : Prop where
  recorded : Recorded s.window times last windowMS
  used : ∀ m ∈ stored s.window, m.sequence ≤ s.sequence m.nonce
  calls : ∀ nonce, s.sequence nonce ≤ n
  few : times.length ≤ n

theorem sound_initial (last : Int) : Sound initial [] last 0 :=
  ⟨.nil last windowMS, fun _ h => absurd h (Finset.notMem_empty _), fun _ => Nat.le_refl 0,
    Nat.le_refl 0⟩

variable {s : State} {times : List Int} {last now : Int} {call : Call} {n : Nat}

theorem Sound.mono (h : Sound s times last n) {later : Int} (hle : last ≤ later) {m : Nat}
    (hm : n ≤ m) : Sound s times later m :=
  ⟨h.recorded.mono hle, h.used, fun nonce => (h.calls nonce).trans hm, h.few.trans hm⟩

theorem Sound.inWindow_eq (h : Sound s times last n) (hle : last ≤ now) :
    inWindow times now = (times.filter (now - windowMS < ·)).length := by
  rw [inWindow, countP_eq_length_filter]
  congr 1
  refine filter_congr fun t ht => ?_
  have := h.recorded.past t ht
  rw [decide_eq_true (Int.le_trans this hle), Bool.and_true]

theorem Sound.count (h : Sound s times last n) (hle : last ≤ now) :
    (zset (prune s.window now (now - windowMS)) now).zcard = inWindow times now := by
  rw [SortedSet.zcard_eq, scores_prune, h.recorded.recent now hle, h.inWindow_eq hle]
  rfl

theorem Sound.rpmScript_eq (h : Sound s times last n) (hle : last ≤ now) (hn : n < 2 ^ 53)
    (hexact : Exact now windowMS) {limit : Int} (hlimit : 0 < limit) (member : Member) :
    rpmScript s.window now limit member =
      let pruned := prune s.window now (now - windowMS)
      if limit ≤ inWindow times now then
        (pruned, .rejected ((zset pruned now).scoreAt (inWindow times now - limit).toNat))
      else (pexpire (zadd pruned now now member) now windowMS, .admitted) := by
  have hcount : inWindow times now < 2 ^ 53 := Nat.lt_of_le_of_lt (countP_le_length.trans h.few) hn
  simp only [rpmScript, hexact.cutoff_eq (by decide) (by decide), hexact.round_eq (by decide),
    h.count hle, round_natCast, roundNat_of_le (Nat.le_of_lt hcount),
    round_le_natCast hcount]
  split
  · rw [show LuaNumber.round limit = limit from round_of_natAbs_le (by omega),
      round_of_natAbs_le (by omega)]
  · rfl

theorem Sound.next_eq (h : Sound s times last n) (hn : n < 2 ^ 53) (nonce : Nat) :
    s.next nonce = s.sequence nonce + 1 :=
  Nat.mod_eq_of_lt (by have := h.calls nonce; omega)

theorem Sound.used_update (h : Sound s times last n) (hn : n < 2 ^ 53) (nonce : Nat)
    {m : Member} (hm : m ∈ stored s.window) :
    m.sequence ≤ Function.update s.sequence nonce (s.next nonce) m.nonce := by
  have := h.used m hm
  rcases eq_or_ne m.nonce nonce with heq | hne
  · rw [heq, Function.update_self, h.next_eq hn]
    rw [heq] at this
    omega
  · rwa [Function.update_of_ne hne]

theorem Sound.calls_update (h : Sound s times last n) (hn : n < 2 ^ 53) (nonce other : Nat) :
    Function.update s.sequence nonce (s.next nonce) other ≤ n + 1 := by
  have := h.calls other
  rcases eq_or_ne other nonce with rfl | hne
  · rw [Function.update_self, h.next_eq hn]
    omega
  · rw [Function.update_of_ne hne]
    omega

theorem allow_of_script {window : WindowKey} {reply : Reply} (hlimit : 0 < call.limit)
    (hscript : rpmScript s.window (unixMilli call.now) call.limit
      ⟨call.nonce, s.next call.nonce⟩ = (window, reply)) :
    allow s call =
      (⟨window, Function.update s.sequence call.nonce (s.next call.nonce)⟩,
        match reply with
        | .admitted => .ok ⟨true, 0⟩
        | .rejected none => .error "malformed reply"
        | .rejected (some target) =>
          .ok ⟨false, retryAfter (ofUnixMilli target) call.now⟩) := by
  rw [allow, if_neg (Int.not_le.mpr hlimit)]
  simp only [hscript]
  cases reply with
  | admitted => rfl
  | rejected target =>
    cases target with
    | none => rfl
    | some target => rfl

section Call

variable (h : Sound s times last n) (hle : last ≤ unixMilli call.now) (hn : n < 2 ^ 53)
  (hexact : Exact (unixMilli call.now) windowMS)

include h hle hn hexact

theorem Sound.admits (hlimit : 0 < call.limit)
    (hroom : (inWindow times (unixMilli call.now) : Int) < call.limit) :
    (allow s call).2 = .ok ⟨true, 0⟩ ∧
      Sound (allow s call).1 (times ++ [unixMilli call.now]) (unixMilli call.now) (n + 1) := by
  have hscript := h.rpmScript_eq hle hn hexact hlimit ⟨call.nonce, s.next call.nonce⟩
  rw [if_neg (Int.not_le.mpr hroom)] at hscript
  have hstored := stored_prune_subset s.window (unixMilli call.now) (unixMilli call.now - windowMS)
  have hfresh : (⟨call.nonce, s.next call.nonce⟩ : Member) ∉
      (zset (prune s.window (unixMilli call.now) (unixMilli call.now - windowMS))
        (unixMilli call.now)).members := by
    intro hmem
    have := h.used _ (hstored (members_zset_subset _ _ hmem))
    simp only [h.next_eq hn] at this
    omega
  rw [allow_of_script hlimit hscript]
  refine ⟨rfl, (h.recorded.prune hle).record hfresh, fun m hm => ?_, h.calls_update hn call.nonce,
    ?_⟩
  · rcases Finset.mem_insert.mp (stored_record_subset _ _ _ _ _ hm) with rfl | hm
    · exact Nat.le_of_eq (Function.update_self call.nonce _ s.sequence).symm
    · exact h.used_update hn call.nonce (hstored hm)
  · rw [length_append]
    exact Nat.succ_le_succ h.few

theorem Sound.rejects (hlimit : 0 < call.limit)
    (hfull : call.limit ≤ inWindow times (unixMilli call.now)) :
    ∃ target ≤ unixMilli call.now,
      (allow s call).2 = .ok ⟨false, retryAfter (ofUnixMilli target) call.now⟩ ∧
      Sound (allow s call).1 times (unixMilli call.now) (n + 1) ∧
      ((times.filter (target < ·)).length : Int) < call.limit := by
  have hcount := h.count hle
  have hscores : (zset (prune s.window (unixMilli call.now) (unixMilli call.now - windowMS))
      (unixMilli call.now)).scores =
        (times.filter (unixMilli call.now - windowMS < ·) : List Int) := by
    rw [scores_prune, h.recorded.recent _ hle]
  have hwindow := h.inWindow_eq hle
  obtain ⟨target, htarget⟩ := SortedSet.exists_scoreAt
    (show (inWindow times (unixMilli call.now) - call.limit).toNat < _ by rw [hcount]; omega)
  have hscript := h.rpmScript_eq hle hn hexact hlimit ⟨call.nonce, s.next call.nonce⟩
  rw [if_pos hfull, htarget] at hscript
  have hmem := SortedSet.scoreAt_mem htarget
  have hrank := SortedSet.lt_card_of_scoreAt htarget
  rw [hscores] at hmem hrank
  obtain ⟨htimes, hrecent⟩ := mem_filter.mp (Multiset.mem_coe.mp hmem)
  rw [decide_eq_true_eq] at hrecent
  refine ⟨target, Int.le_trans (h.recorded.past target htimes) hle, ?_, ?_, ?_⟩
  · rw [allow_of_script hlimit hscript]
  · rw [allow_of_script hlimit hscript]
    exact ⟨h.recorded.prune hle, fun m hm => h.used_update hn call.nonce
      (stored_prune_subset _ _ _ hm), h.calls_update hn call.nonce, Nat.le_succ_of_le h.few⟩
  · -- The admissions of the window are at most the target, or later.
    rw [Multiset.filter_coe, Multiset.coe_card] at hrank
    have hsplit := (times.filter (unixMilli call.now - windowMS < ·)).length_eq_countP_add_countP
      (· ≤ target)
    have hlater : (times.filter (unixMilli call.now - windowMS < ·)).countP
        (fun t => ¬ (decide (t ≤ target)) = true) = (times.filter (target < ·)).length := by
      rw [← filter_later times (Int.le_of_lt hrecent), countP_eq_length_filter]
      congr 1
      refine filter_congr fun t _ => ?_
      simp
    rw [countP_eq_length_filter] at hsplit
    omega

theorem Sound.step :
    Sound (allow s call).1 (times ++ admissions [(call, (allow s call).2)])
      (unixMilli call.now) (n + 1) := by
  by_cases hlimit : 0 < call.limit
  · by_cases hroom : (inWindow times (unixMilli call.now) : Int) < call.limit
    · obtain ⟨hanswer, hsound⟩ := h.admits hle hn hexact hlimit hroom
      have hone : admissions [(call, (allow s call).2)] = [unixMilli call.now] := by
        simp [admissions, hanswer, isAdmitted, hlimit]
      rwa [hone]
    · obtain ⟨target, -, hanswer, hsound, -⟩ := h.rejects hle hn hexact hlimit (Int.not_lt.mp hroom)
      have hnone : admissions [(call, (allow s call).2)] = [] := by
        simp [admissions, hanswer, isAdmitted]
      rwa [hnone, append_nil]
  · have hnone : admissions [(call, (allow s call).2)] = [] := by
      simp [admissions, hlimit]
    rw [hnone, append_nil, allow, if_pos (Int.not_lt.mp hlimit)]
    exact h.mono hle (Nat.le_succ n)

end Call

theorem unixMilli_mono {t u : Time} (h : t ≤ u) : unixMilli t ≤ unixMilli u :=
  Int.ediv_le_ediv (by decide) h

/-! ## Runs -/

variable {later : Time} {calls : List Call}

theorem Sound.run {now : Time} (h : Sound s times (unixMilli now) n)
    (hn : n + calls.length ≤ 2 ^ 53) (hexact : ∀ c ∈ calls, Exact (unixMilli c.now) windowMS)
    (hsorted : calls.Pairwise (·.now ≤ ·.now)) (hstart : ∀ call ∈ calls, now ≤ call.now)
    (hend : ∀ call ∈ calls, call.now ≤ later) (hle : now ≤ later) :
    Sound (run s calls).1 (times ++ admissions (run s calls).2) (unixMilli later)
      (n + calls.length) := by
  induction calls generalizing s times now n with
  | nil =>
    rw [show admissions (RateLimit.run s []).2 = [] from rfl, append_nil]
    exact h.mono (unixMilli_mono hle) (Nat.le_refl n)
  | cons call calls ih =>
    obtain ⟨hfirst, hrest⟩ := pairwise_cons.mp hsorted
    rw [length_cons, Nat.add_comm calls.length, ← Nat.add_assoc] at hn ⊢
    have hstep := h.step (unixMilli_mono (hstart call (.head _))) (by omega) (hexact call (.head _))
    have hrun := ih hstep hn (fun c hc => hexact c (.tail _ hc)) hrest hfirst
      (fun c hc => hend c (.tail _ hc)) (hend call (.head _))
    have hlog : admissions (RateLimit.run s (call :: calls)).2 =
        admissions [(call, (allow s call).2)] ++
          admissions (RateLimit.run (allow s call).1 calls).2 := by
      rw [admissions, admissions, admissions, ← map_append, ← filter_append]
      rfl
    rw [hlog, ← append_assoc]
    exact hrun

theorem ceilToSecond_bounds {duration : Int} (h : duration ≤ minute) :
    duration ≤ ceilToSecond duration ∧ ceilToSecond duration ≤ minute := by
  unfold ceilToSecond
  split
  · exact ⟨Int.le_refl _, h⟩
  · simp only [minute, second] at h ⊢
    rw [Int.tdiv_eq_ediv_of_nonneg (by omega)]
    omega

variable {target : Int}

theorem le_retryAfter (h : target ≤ now) : target + minute - now ≤ retryAfter target now := by
  obtain ⟨hlow, hhigh⟩ := ceilToSecond_bounds (show target + minute - now ≤ minute by omega)
  simp only [retryAfter]
  split
  · omega
  · split
    · omega
    · exact hlow

theorem left_window (h : target ≤ unixMilli now) :
    target + windowMS ≤ unixMilli (now + retryAfter (ofUnixMilli target) now) := by
  have hbefore : target * 1000000 ≤ now := by
    simp only [unixMilli] at h
    omega
  have hround : target * 1000000 + 60 * 1000000000 - now ≤
      retryAfter (ofUnixMilli target) now := le_retryAfter hbefore
  simp only [unixMilli, windowMS]
  omega

theorem run_append (s : State) (calls more : List Call) :
    run s (calls ++ more) =
      ((run (run s calls).1 more).1, (run s calls).2 ++ (run (run s calls).1 more).2) := by
  induction calls generalizing s with
  | nil => rfl
  | cons call calls ih =>
    simp only [cons_append, run]
    rw [ih]

theorem sound_run (hn : calls.length ≤ 2 ^ 53)
    (hexact : ∀ c ∈ calls, Exact (unixMilli c.now) windowMS)
    (hsorted : calls.Pairwise (·.now ≤ ·.now)) (hend : ∀ call ∈ calls, call.now ≤ later) :
    Sound (run initial calls).1 (admissions (run initial calls).2) (unixMilli later)
      calls.length := by
  rw [← Nat.zero_add calls.length]
  cases calls with
  | nil => exact sound_initial (unixMilli later)
  | cons call calls =>
    refine (sound_initial (unixMilli call.now)).run (by omega) hexact hsorted (fun c hc => ?_) hend
      (hend call (.head _))
    rcases mem_cons.mp hc with rfl | hc
    · exact Int.le_refl _
    · exact rel_of_pairwise_cons hsorted hc

theorem Sound.retry {now : Time} (h : Sound s times (unixMilli now) n)
    (htarget : target ≤ unixMilli now) {between : List Call} {retry : Call}
    (hnow : retry.now = now + retryAfter (ofUnixMilli target) now) (hlimit : 0 < retry.limit)
    (hlater : ((times.filter (target < ·)).length : Int) < retry.limit)
    (hn : n + between.length < 2 ^ 53)
    (hexact : ∀ c ∈ between ++ [retry], Exact (unixMilli c.now) windowMS)
    (hsorted : (between ++ [retry]).Pairwise (·.now ≤ ·.now))
    (hstart : ∀ c ∈ between ++ [retry], now ≤ c.now)
    (hnone : admissions (RateLimit.run s between).2 = []) :
    (allow (RateLimit.run s between).1 retry).2 = .ok ⟨true, 0⟩ := by
  obtain ⟨hbetween, -, hlast⟩ := pairwise_append.mp hsorted
  have hmem : retry ∈ between ++ [retry] := mem_append_right _ (.head _)
  have hsound := h.run (Nat.le_of_lt hn) (fun c hc => hexact c (mem_append_left _ hc)) hbetween
    (fun c hc => hstart c (mem_append_left _ hc)) (fun c hc => hlast c hc retry (.head _))
    (hstart retry hmem)
  rw [hnone, append_nil] at hsound
  have hle := Int.le_refl (unixMilli retry.now)
  refine (hsound.admits hle hn (hexact retry hmem) hlimit ?_).1
  rw [hsound.inWindow_eq hle]
  have hleft : target ≤ unixMilli retry.now - windowMS := by
    have := left_window htarget
    rw [← hnow] at this
    omega
  have hfewer : (times.filter (unixMilli retry.now - windowMS < ·)).length ≤
      (times.filter (target < ·)).length := by
    rw [← filter_later times hleft]
    exact length_filter_le _ _
  omega

/-- A call is rejected when its limit of earlier calls was admitted under a limit in the
last minute; so its window never holds more than its limit, and after the time it is told to
wait it is admitted unless other calls were. -/
theorem sliding_window_limit (before : List Call) (call : Call) (hlimit : 0 < call.limit)
    (hcalls : before.length < 2 ^ 53)
    (hexact : ∀ c ∈ before ++ [call], Exact (unixMilli c.now) windowMS)
    (hsorted : (before ++ [call]).Pairwise (·.now ≤ ·.now)) :
    ((∃ r, (allow (run initial before).1 call).2 = .ok ⟨false, r⟩) ↔
      call.limit ≤ inWindow (admissions (run initial before).2) (unixMilli call.now)) ∧
    ((allow (run initial before).1 call).2 = .ok ⟨true, 0⟩ ↔
      (inWindow (admissions (run initial before).2) (unixMilli call.now) : Int) < call.limit) ∧
    ((allow (run initial before).1 call).2 = .ok ⟨true, 0⟩ →
      (inWindow (admissions (run initial (before ++ [call])).2) (unixMilli call.now) : Int) ≤
        call.limit) ∧
    ∀ r, (allow (run initial before).1 call).2 = .ok ⟨false, r⟩ →
      ∀ (between : List Call) (retry : Call), retry.limit = call.limit →
        retry.now = call.now + r → before.length + 1 + between.length < 2 ^ 53 →
        (∀ c ∈ between ++ [retry], Exact (unixMilli c.now) windowMS) →
        (call :: between ++ [retry]).Pairwise (·.now ≤ ·.now) →
        admissions (run (run initial (before ++ [call])).1 between).2 = [] →
        (allow (run (run initial (before ++ [call])).1 between).1 retry).2 = .ok ⟨true, 0⟩ := by
  obtain ⟨hbefore, -, hlast⟩ := pairwise_append.mp hsorted
  have hend : ∀ c ∈ before, c.now ≤ call.now := fun c hc => hlast c hc call (.head _)
  have hsound := sound_run (Nat.le_of_lt hcalls)
    (fun c hc => hexact c (mem_append_left _ hc)) hbefore hend
  have hle := Int.le_refl (unixMilli call.now)
  have hcall := hexact call (mem_append_right _ (.head _))
  have hlog : (run initial (before ++ [call])).1 = (allow (run initial before).1 call).1 := by
    rw [run_append]
    rfl
  have hadmissions : admissions (run initial (before ++ [call])).2 =
      admissions (run initial before).2 ++
        admissions [(call, (allow (run initial before).1 call).2)] := by
    rw [run_append, admissions, filter_append, map_append]
    rfl
  rw [hlog, hadmissions]
  by_cases hroom : (inWindow (admissions (run initial before).2) (unixMilli call.now) : Int) <
      call.limit
  · obtain ⟨hanswer, -⟩ := hsound.admits hle hcalls hcall hlimit hroom
    rw [hanswer]
    refine ⟨⟨nofun, fun hfull => absurd hroom (Int.not_lt.mpr hfull)⟩,
      ⟨fun _ => hroom, fun _ => rfl⟩, fun _ => ?_, nofun⟩
    have hone : inWindow (admissions [(call, .ok ⟨true, 0⟩)]) (unixMilli call.now) ≤ 1 :=
      (countP_le_length).trans (by simp [admissions, isAdmitted, hlimit])
    rw [inWindow, countP_append]
    unfold inWindow at hroom hone
    omega
  · obtain ⟨target, htarget, hanswer, hafter, hlater⟩ :=
      hsound.rejects hle hcalls hcall hlimit (Int.not_lt.mp hroom)
    rw [hanswer]
    refine ⟨⟨fun _ => Int.not_lt.mp hroom, fun _ => ⟨_, rfl⟩⟩, ⟨nofun, fun h => absurd h hroom⟩,
      nofun, ?_⟩
    rintro r ⟨⟩ between retry hretry hnow hn hexact hbetween hnone
    obtain ⟨hstart, htail⟩ := pairwise_cons.mp hbetween
    exact hafter.retry htarget hnow (hretry ▸ hlimit) (hretry ▸ hlater) hn hexact htail hstart hnone

theorem allow_rejected {r : Int} (h : (allow s call).2 = .ok ⟨false, r⟩) :
    second ≤ r ∧ r ≤ minute := by
  unfold allow at h
  split at h
  · cases h
  · dsimp only at h
    split at h <;> cases h
    simp only [retryAfter, minute, second]
    omega

/-- Two calls under a limit of two, and a third under a limit of one: it is rejected, and
admitted when it is repeated after the time it is told to wait. -/
theorem sliding_window_limit_lowered :
    ∃ r, (allow (run initial [⟨0, 0, 2⟩, ⟨1, second, 2⟩]).1 ⟨0, 2 * second, 1⟩).2 = .ok ⟨false, r⟩ ∧
      (allow (run initial [⟨0, 0, 2⟩, ⟨1, second, 2⟩, ⟨0, 2 * second, 1⟩]).1
        ⟨0, 2 * second + r, 1⟩).2 = .ok ⟨true, 0⟩ := by
  obtain ⟨hrejected, -, -, hretry⟩ := sliding_window_limit [⟨0, 0, 2⟩, ⟨1, second, 2⟩]
    ⟨0, 2 * second, 1⟩ (by decide) (by decide) (by unfold Exact; decide) (by decide)
  obtain ⟨r, hr⟩ := hrejected.mpr (by decide)
  have hbounds := allow_rejected hr
  simp only [second, minute] at hbounds
  refine ⟨r, hr, hretry r hr [] ⟨0, 2 * second + r, 1⟩ rfl rfl (by decide) ?_ ?_ rfl⟩
  · rintro c (_ | ⟨_, ⟨⟩⟩)
    simp only [Exact, unixMilli, windowMS, second]
    omega
  · exact pairwise_pair.mpr (Int.le_add_of_nonneg_right (by omega))

/-- A call in the window of the second is admitted, and so is the second under a
limit of one. -/
def Forgotten (earlier call : Call) : Prop :=
  earlier.now ≤ call.now ∧ unixMilli call.now - windowMS < unixMilli earlier.now ∧
  call.limit = 1 ∧ (allow initial earlier).2 = .ok ⟨true, 0⟩ ∧
  (allow (allow initial earlier).1 call).2 = .ok ⟨true, 0⟩

/-- A call without a limit is admitted and not recorded, so the next call is not rejected for
it. After `2^53` milliseconds a call is scored a millisecond early and forgotten too soon. -/
theorem earlier_call_not_counted :
    Forgotten ⟨0, 0, 0⟩ ⟨0, 0, 1⟩ ∧
    Forgotten ⟨0, ofUnixMilli (2 ^ 53 + 1), 1⟩ ⟨0, ofUnixMilli (2 ^ 53 + 60000), 1⟩ := by
  unfold Forgotten
  decide

end EchoJoyGateway.RateLimit
