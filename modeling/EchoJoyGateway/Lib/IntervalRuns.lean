import Mathlib.Data.List.Basic
import Mathlib.Order.MinMax
import Mathlib.Tactic.Cases

/-!
# Runs of overlapping intervals

Labelled intervals of positions, in the order of their starts, are merged from the left:
an interval that starts before the current one stops is taken into it, with the lesser
label.
-/

namespace IntervalRuns

open List

structure Interval (ι : Type) where
  start : Nat
  stop : Nat
  label : ι
  deriving DecidableEq

variable {ι : Type} [LinearOrder ι]

def Interval.Within (m run : Interval ι) : Prop := run.start ≤ m.start ∧ m.stop ≤ run.stop

def Interval.join (span next : Interval ι) : Interval ι :=
  ⟨span.start, max span.stop next.stop, min span.label next.label⟩

def merge (span : Interval ι) : List (Interval ι) → List (Interval ι)
  | [] => [span]
  | next :: rest =>
    if next.start < span.stop then merge (span.join next) rest else span :: merge next rest

/-- The maximal runs of overlapping intervals: they do not overlap, each interval lies in
one of them, no position cuts a run into two, and a run has its least label. -/
structure Runs (kept : Set (Interval ι)) (runs : List (Interval ι)) : Prop where
  separated : runs.Pairwise fun a b => a.stop ≤ b.start
  within : ∀ m ∈ kept, ∃ run ∈ runs, m.Within run ∧ run.label ≤ m.label
  joined : ∀ run ∈ runs, ∀ cut, run.start < cut → cut < run.stop →
    ∃ m ∈ kept, m.start < cut ∧ cut < m.stop
  labelled : ∀ run ∈ runs, ∃ m ∈ kept, m.Within run ∧ m.label = run.label

variable {kept : Set (Interval ι)} {runs : List (Interval ι)} {run span next : Interval ι}

theorem Runs.meets (h : Runs kept runs) (hkept : ∀ m ∈ kept, m.start < m.stop) (hrun : run ∈ runs)
    {a b : Nat} (hab : a ≤ b) (hstart : run.start < b) (hstop : a < run.stop) :
    ∃ m ∈ kept, a < m.stop ∧ m.start < b := by
  by_cases hlong : run.start + 1 < run.stop
  · obtain ⟨m, hm, hleft, hright⟩ := h.joined run hrun (max a (run.start + 1)) (by omega) (by omega)
    exact ⟨m, hm, by omega, by omega⟩
  · obtain ⟨m, hm, ⟨hfrom, hto⟩, -⟩ := h.labelled run hrun
    have hm' := hkept m hm
    exact ⟨m, hm, by omega, by omega⟩

theorem Runs.covered (h : Runs kept runs) (hkept : ∀ m ∈ kept, m.start < m.stop) (p : Nat) :
    (∃ run ∈ runs, run.start ≤ p ∧ p < run.stop) ↔ ∃ m ∈ kept, m.start ≤ p ∧ p < m.stop := by
  constructor
  · rintro ⟨run, hrun, hstart, hstop⟩
    obtain ⟨m, hm, hright, hleft⟩ := h.meets hkept hrun (Nat.le_succ p) (by omega) hstop
    exact ⟨m, hm, by omega, hright⟩
  · rintro ⟨m, hm, hstart, hstop⟩
    obtain ⟨run, hrun, ⟨hfrom, hto⟩, -⟩ := h.within m hm
    exact ⟨run, hrun, by omega, by omega⟩

theorem Runs.nil : Runs {m : Interval ι | m ∈ []} [] := ⟨.nil, nofun, nofun, nofun⟩

theorem Runs.unjoin {rest : List (Interval ι)} (hnext : span.start ≤ next.start)
    (hoverlap : next.start < span.stop) (h : Runs {m | m ∈ span.join next :: rest} runs) :
    Runs {m | m ∈ span :: next :: rest} runs := by
  refine ⟨h.separated, ?_, ?_, ?_⟩
  · intro m hm
    obtain ⟨run, hrun, ⟨hstart, hstop⟩, hlabel⟩ := h.within (span.join next) (.head _)
    rcases mem_cons.mp hm with rfl | hm
    · exact ⟨run, hrun, ⟨hstart, le_trans (le_max_left _ _) hstop⟩,
        le_trans hlabel (min_le_left _ _)⟩
    rcases mem_cons.mp hm with rfl | hm
    · exact ⟨run, hrun, ⟨le_trans hstart hnext, le_trans (le_max_right _ _) hstop⟩,
        le_trans hlabel (min_le_right _ _)⟩
    · exact h.within m (.tail _ hm)
  · intro run hrun cut hleft hright
    obtain ⟨m, hm, hstart, hstop⟩ := h.joined run hrun cut hleft hright
    rcases mem_cons.mp hm with rfl | hm
    · rcases lt_max_iff.mp hstop with hspan | hlater
      · exact ⟨span, .head _, hstart, hspan⟩
      · by_cases hcut : cut < span.stop
        · exact ⟨span, .head _, hstart, hcut⟩
        · exact ⟨next, mem_cons_of_mem _ (.head _), by omega, hlater⟩
    · exact ⟨m, .tail _ (.tail _ hm), hstart, hstop⟩
  · intro run hrun
    obtain ⟨m, hm, ⟨hstart, hstop⟩, hlabel⟩ := h.labelled run hrun
    rcases mem_cons.mp hm with rfl | hm
    · rcases min_choice span.label next.label with hleast | hleast
      · exact ⟨span, .head _, ⟨hstart, le_trans (le_max_left _ _) hstop⟩, hleast.symm.trans hlabel⟩
      · exact ⟨next, mem_cons_of_mem _ (.head _),
          ⟨le_trans hstart hnext, le_trans (le_max_right _ _) hstop⟩, hleast.symm.trans hlabel⟩
    · exact ⟨m, .tail _ (.tail _ hm), ⟨hstart, hstop⟩, hlabel⟩

theorem Runs.cons {rest : List (Interval ι)} (hrest : ∀ m ∈ rest, m.start < m.stop)
    (hlater : ∀ m ∈ rest, span.stop ≤ m.start) (h : Runs {m | m ∈ rest} runs) :
    Runs {m | m ∈ span :: rest} (span :: runs) := by
  refine ⟨pairwise_cons.mpr ⟨?_, h.separated⟩, ?_, ?_, ?_⟩
  · intro run hrun
    obtain ⟨m, hm, ⟨hstart, hstop⟩, -⟩ := h.labelled run hrun
    have hm' := hrest m hm
    by_contra hlt
    obtain ⟨m, hm, -, hbefore⟩ :=
      h.meets hrest hrun (b := span.stop) (Nat.le_of_not_le hlt) (Nat.not_le.mp hlt) (by omega)
    exact absurd (hlater m hm) (Nat.not_le.mpr hbefore)
  · intro m hm
    rcases mem_cons.mp hm with rfl | hm
    · exact ⟨m, .head _, ⟨Nat.le_refl _, Nat.le_refl _⟩, le_rfl⟩
    · obtain ⟨run, hrun, hwithin⟩ := h.within m hm
      exact ⟨run, .tail _ hrun, hwithin⟩
  · intro run hrun cut hleft hright
    rcases mem_cons.mp hrun with rfl | hrun
    · exact ⟨run, .head _, hleft, hright⟩
    · obtain ⟨m, hm, hcut⟩ := h.joined run hrun cut hleft hright
      exact ⟨m, .tail _ hm, hcut⟩
  · intro run hrun
    rcases mem_cons.mp hrun with rfl | hrun
    · exact ⟨run, .head _, ⟨Nat.le_refl _, Nat.le_refl _⟩, rfl⟩
    · obtain ⟨m, hm, hlabel⟩ := h.labelled run hrun
      exact ⟨m, .tail _ hm, hlabel⟩

theorem merge_runs {span : Interval ι} {rest : List (Interval ι)}
    (hsorted : (span :: rest).Pairwise fun a b => a.start ≤ b.start)
    (hspans : ∀ m ∈ rest, m.start < m.stop) : Runs {m | m ∈ span :: rest} (merge span rest) := by
  induction rest generalizing span with
  | nil => exact .cons nofun nofun .nil
  | cons next rest ih =>
    obtain ⟨hspan, hnext⟩ := pairwise_cons.mp hsorted
    have hrest : ∀ m ∈ rest, m.start < m.stop := fun m hm => hspans m (.tail _ hm)
    rw [merge]
    by_cases hoverlap : next.start < span.stop
    · rw [if_pos hoverlap]
      refine Runs.unjoin (hspan next (.head _)) hoverlap (ih ?_ hrest)
      refine pairwise_cons.mpr ⟨fun m hm => ?_, (pairwise_cons.mp hnext).2⟩
      exact hspan m (.tail _ hm)
    · rw [if_neg hoverlap]
      refine .cons hspans (fun m hm => ?_) (ih hnext hrest)
      rcases mem_cons.mp hm with rfl | hm
      · exact Nat.not_lt.mp hoverlap
      · exact le_trans (Nat.not_lt.mp hoverlap) ((pairwise_cons.mp hnext).1 m hm)

end IntervalRuns
