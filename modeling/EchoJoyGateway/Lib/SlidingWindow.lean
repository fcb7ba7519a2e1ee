import EchoJoyGateway.Lib.LuaNumber
import EchoJoyGateway.Lib.SortedSet
import Mathlib.Data.Multiset.Sort

/-!
# Sliding windows in keys that expire

A key of Redis holds a value until its deadline, when it has one. A sorted set in such a
key, scored by time, remembers the moments of a sliding window: pruned before it is read,
and kept alive for the width of the window after each moment it records. A script has its
scores and cutoffs as doubles, while the keys expire on a clock of whole milliseconds.
-/

structure Expiring (α : Type) where
  value : α
  deadline : Option Int

namespace Expiring

variable {α : Type}

def alive (entry : Expiring α) (now : Int) : Bool :=
  entry.deadline.all fun deadline => now ≤ deadline

/-- What a command that runs at `now` finds: a key is gone after its deadline. -/
def find (key : Option (Expiring α)) (now : Int) : Option (Expiring α) :=
  key.filter fun entry => entry.alive now

def pttl (key : Option (Expiring α)) (now : Int) : Int :=
  match find key now with
  | none => -2
  | some ⟨_, none⟩ => -1
  | some ⟨_, some deadline⟩ => deadline - now

def pexpire (key : Option (Expiring α)) (now ms : Int) : Option (Expiring α) :=
  (find key now).map fun entry => { entry with deadline := some (now + ms) }

def set (value : α) (now ms : Int) : Option (Expiring α) := some ⟨value, some (now + ms)⟩

theorem find_some (entry : Expiring α) (now : Int) :
    find (some entry) now = if entry.alive now then some entry else none := by
  rfl

theorem not_alive_later {entry : Expiring α} {now later : Int} (hle : now ≤ later)
    (h : entry.alive now = false) : entry.alive later = false := by
  unfold alive at h ⊢
  cases hdeadline : entry.deadline with
  | none =>
    rw [hdeadline] at h
    cases h
  | some deadline =>
    rw [hdeadline] at h
    simp only [Option.all_some, decide_eq_false_iff_not] at h ⊢
    omega

end Expiring

namespace SortedSet

variable {μ : Type}

variable (z : SortedSet μ) (cutoff : Int)

def scoresAbove : Multiset Int := (z.above cutoff).val.map z.score

def scores : Multiset Int := z.members.val.map z.score

/-- The score of `ZRANGE rank rank WITHSCORES`. -/
def scoreAt (rank : Nat) : Option Int := (z.scores.sort (· ≤ ·))[rank]?

theorem scoresAbove_eq_filter : z.scoresAbove cutoff = z.scores.filter (cutoff < ·) := by
  rw [scores, Multiset.filter_map]
  rfl

theorem scores_zremrangebyscore : (z.zremrangebyscore cutoff).scores = z.scoresAbove cutoff := rfl

theorem zcard_eq : z.zcard = z.scores.card := (Multiset.card_map _ _).symm

theorem scoresAbove_zremrangebyscore {cutoff later : Int} (h : cutoff ≤ later) :
    (z.zremrangebyscore cutoff).scoresAbove later = z.scoresAbove later := by
  rw [scoresAbove_eq_filter, scores_zremrangebyscore, scoresAbove_eq_filter,
    scoresAbove_eq_filter, Multiset.filter_filter]
  refine Multiset.filter_congr fun x _ => ?_
  constructor
  · exact And.left
  · exact fun hx => ⟨hx, Int.lt_of_le_of_lt h hx⟩

variable [DecidableEq μ]

theorem scores_zadd {z : SortedSet μ} {m : μ} (hfresh : m ∉ z.members) (score : Int) :
    (z.zadd score m).scores = score ::ₘ z.scores := by
  have hsame : z.members.val.map (z.zadd score m).score = z.scores := by
    refine Multiset.map_congr rfl fun other hother => zadd_score_of_ne ?_
    rintro rfl
    exact hfresh hother
  rw [scores, show (z.zadd score m).members = insert m z.members from rfl,
    Finset.insert_val_of_notMem hfresh, Multiset.map_cons, zadd_score_self, hsame]

omit [DecidableEq μ] in
theorem lt_card_of_scoreAt {z : SortedSet μ} {rank : Nat} {score : Int}
    (h : z.scoreAt rank = some score) : rank < (z.scores.filter (· ≤ score)).card := by
  unfold scoreAt at h
  have hscores : ((z.scores.sort (· ≤ ·) : List Int) : Multiset Int) = z.scores :=
    Multiset.sort_eq _ _
  have hpairwise : (z.scores.sort (· ≤ ·)).Pairwise (· ≤ ·) := Multiset.pairwise_sort _ _
  generalize z.scores.sort (· ≤ ·) = sorted at h hscores hpairwise
  obtain ⟨hrank, rfl⟩ := List.getElem?_eq_some_iff.mp h
  have hfirst : ∀ x ∈ sorted.take (rank + 1), x ≤ sorted[rank] := by
    intro x hx
    obtain ⟨i, hi, rfl⟩ := List.mem_iff_getElem.mp hx
    rw [List.length_take] at hi
    rw [List.getElem_take]
    rcases Nat.lt_or_eq_of_le (show i ≤ rank by omega) with hlt | rfl
    · exact List.pairwise_iff_getElem.mp hpairwise i rank (by omega) hrank hlt
    · exact Int.le_refl _
  have hsub : ((sorted.take (rank + 1) : List Int) : Multiset Int) ≤
      z.scores.filter (· ≤ sorted[rank]) := by
    rw [Multiset.le_filter]
    refine ⟨?_, fun x hx => hfirst x hx⟩
    calc ((sorted.take (rank + 1) : List Int) : Multiset Int) ≤ (sorted : Multiset Int) :=
          (List.take_sublist _ _).subperm
      _ = z.scores := hscores
  have hcard := Multiset.card_le_card hsub
  rw [Multiset.coe_card, List.length_take, Nat.min_eq_left hrank] at hcard
  exact hcard

omit [DecidableEq μ] in
theorem exists_scoreAt {z : SortedSet μ} {rank : Nat} (h : rank < z.zcard) :
    ∃ score, z.scoreAt rank = some score := by
  have hlength : rank < (z.scores.sort (· ≤ ·)).length := by
    rwa [Multiset.length_sort, ← zcard_eq]
  exact ⟨_, List.getElem?_eq_getElem hlength⟩

omit [DecidableEq μ] in
theorem scoreAt_mem {z : SortedSet μ} {rank : Nat} {score : Int}
    (h : z.scoreAt rank = some score) : score ∈ z.scores :=
  (Multiset.mem_sort _).mp (List.mem_of_getElem? h)

end SortedSet

namespace SlidingWindow

open EchoJoyGateway Expiring SortedSet

variable {μ : Type}

def zset (key : Option (Expiring (SortedSet μ))) (now : Int) : SortedSet μ :=
  ((find key now).map Expiring.value).getD SortedSet.empty

/-- `ZREMRANGEBYSCORE` up to a cutoff. A set without members is no key. -/
def prune (key : Option (Expiring (SortedSet μ))) (now cutoff : Int) :
    Option (Expiring (SortedSet μ)) :=
  (find key now).bind fun entry =>
    let rest := entry.value.zremrangebyscore cutoff
    if rest.zcard = 0 then none else some { entry with value := rest }

def zadd [DecidableEq μ] (key : Option (Expiring (SortedSet μ))) (now score : Int) (m : μ) :
    Option (Expiring (SortedSet μ)) :=
  some ⟨(zset key now).zadd score m, (find key now).bind Expiring.deadline⟩

/-- Where the window that ends now begins, as a script computes it. -/
def cutoff (now width : Int) : Int := LuaNumber.round (LuaNumber.round now - LuaNumber.round width)

/-- The window lies where doubles are exact. -/
def Exact (now width : Int) : Prop := -2 ^ 53 ≤ now - width ∧ now ≤ 2 ^ 53

theorem Exact.round_eq {now width : Int} (h : Exact now width) (hwidth : 0 ≤ width) :
    LuaNumber.round now = now := by
  obtain ⟨hfirst, hlast⟩ := h
  exact LuaNumber.round_of_natAbs_le (by omega)

theorem Exact.cutoff_eq {now width : Int} (h : Exact now width) (hwidth : 0 ≤ width)
    (hsmall : width ≤ 2 ^ 53) : cutoff now width = now - width := by
  have hround : LuaNumber.round width = width := LuaNumber.round_of_natAbs_le (by omega)
  rw [cutoff, h.round_eq hwidth, hround]
  obtain ⟨hfirst, hlast⟩ := h
  exact LuaNumber.round_of_natAbs_le (by omega)

/-- The key remembers the listed times that are still in the window. -/
structure Recorded (key : Option (Expiring (SortedSet μ))) (times : List Int) (last width : Int) :
    Prop where
  past : ∀ t ∈ times, t ≤ last
  recent : ∀ now, last ≤ now →
    (zset key now).scoresAbove (now - width) = (times.filter (now - width < ·) : List Int)

variable {key : Option (Expiring (SortedSet μ))} {times : List Int} {last now width : Int}

theorem zset_none (now : Int) : zset (none : Option (Expiring (SortedSet μ))) now = .empty := rfl

theorem scoresAbove_empty (cutoff : Int) : (.empty : SortedSet μ).scoresAbove cutoff = 0 :=
  rfl

theorem Recorded.nil (last width : Int) :
    Recorded (none : Option (Expiring (SortedSet μ))) [] last width :=
  ⟨nofun, fun _ _ => rfl⟩

theorem Recorded.mono (h : Recorded key times last width) {later : Int} (hle : last ≤ later) :
    Recorded key times later width :=
  ⟨fun t ht => Int.le_trans (h.past t ht) hle, fun now hnow => h.recent now (Int.le_trans hle hnow)⟩

theorem filter_later (times : List Int) {cutoff later : Int} (h : cutoff ≤ later) :
    (times.filter (cutoff < ·)).filter (later < ·) = times.filter (later < ·) := by
  rw [List.filter_filter]
  refine List.filter_congr fun t _ => ?_
  rw [Bool.eq_iff_iff]
  simp only [Bool.and_eq_true, decide_eq_true_eq]
  omega

theorem zset_some (entry : Expiring (SortedSet μ)) (now : Int) :
    zset (some entry) now = if entry.alive now then entry.value else .empty := by
  rw [zset, find_some]
  split <;> rfl

theorem prune_some (entry : Expiring (SortedSet μ)) (now cutoff : Int) :
    prune (some entry) now cutoff =
      if entry.alive now ∧ (entry.value.zremrangebyscore cutoff).zcard ≠ 0 then
        some { entry with value := entry.value.zremrangebyscore cutoff }
      else none := by
  unfold prune
  rw [find_some]
  split
  · rename_i halive
    simp only [Option.bind_some, halive, true_and, ite_not]
  · rename_i hdead
    simp [hdead]

theorem scoresAbove_prune (key : Option (Expiring (SortedSet μ))) {later : Int}
    (hle : now ≤ later) :
    (zset (prune key now (now - width)) later).scoresAbove (later - width) =
      (zset key later).scoresAbove (later - width) := by
  have hcut : now - width ≤ later - width := by omega
  cases key with
  | none => rfl
  | some entry =>
    have hkeep := scoresAbove_zremrangebyscore entry.value hcut
    rw [prune_some, zset_some]
    split
    · rw [zset_some]
      change SortedSet.scoresAbove (if entry.alive later then _ else _) _ = _
      split
      · exact hkeep
      · rfl
    · rename_i hgone
      rw [zset_none, scoresAbove_empty]
      split
      · rename_i halive
        -- The key was alive, so pruning has left it without members.
        have hempty : (entry.value.zremrangebyscore (now - width)).zcard = 0 := by
          by_contra hne
          refine hgone ⟨?_, hne⟩
          by_contra hdead
          rw [not_alive_later hle (Bool.not_eq_true _ ▸ hdead)] at halive
          cases halive
        have hnone : (entry.value.zremrangebyscore (now - width)).scores = 0 := by
          rwa [← Multiset.card_eq_zero, ← zcard_eq]
        rw [← hkeep, scoresAbove_eq_filter, hnone]
        rfl
      · rfl

theorem Recorded.prune (h : Recorded key times last width) (hle : last ≤ now) :
    Recorded (prune key now (now - width)) times now width := by
  refine ⟨(h.mono hle).past, fun later hlater => ?_⟩
  rw [scoresAbove_prune key hlater]
  exact h.recent later (Int.le_trans hle hlater)

theorem scores_prune (key : Option (Expiring (SortedSet μ))) (now width : Int) :
    (zset (prune key now (now - width)) now).scores = (zset key now).scoresAbove (now - width) := by
  rw [← scoresAbove_prune key (Int.le_refl now), scoresAbove_eq_filter, Multiset.filter_eq_self.mpr]
  intro x hx
  cases key with
  | none => exact absurd hx (Multiset.notMem_zero x)
  | some entry =>
    rw [prune_some] at hx
    split at hx
    · rename_i halive
      have hfound : zset (some { entry with value := entry.value.zremrangebyscore (now - width) })
          now = entry.value.zremrangebyscore (now - width) := by
        rw [zset_some]
        exact if_pos halive.1
      rw [hfound, scores_zremrangebyscore, scoresAbove_eq_filter] at hx
      exact Multiset.of_mem_filter hx
    · exact absurd hx (Multiset.notMem_zero x)

def stored (key : Option (Expiring (SortedSet μ))) : Finset μ :=
  (key.map fun entry => entry.value.members).getD ∅

theorem members_zset_subset (key : Option (Expiring (SortedSet μ))) (now : Int) :
    (zset key now).members ⊆ stored key := by
  cases key with
  | none => exact Finset.empty_subset _
  | some entry =>
    rw [zset_some]
    split
    · exact Finset.Subset.refl _
    · exact Finset.empty_subset _

theorem stored_prune_subset (key : Option (Expiring (SortedSet μ))) (now cutoff : Int) :
    stored (prune key now cutoff) ⊆ stored key := by
  cases key with
  | none => exact Finset.Subset.refl _
  | some entry =>
    rw [prune_some]
    split
    · exact above_subset
    · exact Finset.empty_subset _

variable [DecidableEq μ]

theorem find_zadd (key : Option (Expiring (SortedSet μ))) (now score : Int) (m : μ) :
    find (zadd key now score m) now = zadd key now score m := by
  rw [zadd, find_some, if_pos]
  cases key with
  | none => rfl
  | some entry =>
    rw [find_some]
    cases hentry : entry.alive now with
    | false => rfl
    | true => exact hentry

theorem zset_zadd (key : Option (Expiring (SortedSet μ))) (now score : Int) (m : μ) :
    zset (zadd key now score m) now = (zset key now).zadd score m := by
  rw [zset, find_zadd]
  rfl

theorem pexpire_zadd (key : Option (Expiring (SortedSet μ))) (now score ms : Int) (m : μ) :
    pexpire (zadd key now score m) now ms =
      some ⟨(zset key now).zadd score m, some (now + ms)⟩ := by
  rw [pexpire, find_zadd]
  rfl

theorem Recorded.record (h : Recorded key times now width) {m : μ}
    (hfresh : m ∉ (zset key now).members) :
    Recorded (pexpire (SlidingWindow.zadd key now now m) now width) (times ++ [now]) now width := by
  have hpast : ∀ t ∈ times ++ [now], t ≤ now := by
    intro t ht
    rcases List.mem_append.mp ht with ht | ht
    · exact h.past t ht
    · exact (List.mem_singleton.mp ht).le
  refine ⟨hpast, fun later hlater => ?_⟩
  rw [pexpire_zadd, zset_some]
  split
  · have hcut : now - width ≤ later - width := by omega
    have hkeep :=
      calc (zset key now).scoresAbove (later - width)
          = ((zset key now).scoresAbove (now - width)).filter (later - width < ·) := by
            rw [← scoresAbove_zremrangebyscore _ hcut, scoresAbove_eq_filter]
            rfl
        _ = (times.filter (later - width < ·) : List Int) := by
            rw [h.recent now (Int.le_refl now), Multiset.filter_coe, filter_later times hcut]
    rw [scoresAbove_eq_filter, scores_zadd hfresh, Multiset.filter_cons, ← scoresAbove_eq_filter,
      hkeep, List.filter_append, ← Multiset.coe_add, Multiset.add_comm]
    by_cases hin : later - width < now
    · simp [hin]
    · simp [hin]
  · rename_i hdead
    rw [List.filter_eq_nil_iff.mpr]
    · rfl
    · intro t ht
      have := hpast t ht
      simp only [Expiring.alive, Option.all_some, decide_eq_true_eq] at hdead ⊢
      omega

theorem stored_record_subset (key : Option (Expiring (SortedSet μ))) (now score ms : Int) (m : μ) :
    stored (pexpire (zadd key now score m) now ms) ⊆ insert m (stored key) := by
  rw [pexpire_zadd]
  exact Finset.insert_subset_insert m (members_zset_subset key now)

end SlidingWindow
