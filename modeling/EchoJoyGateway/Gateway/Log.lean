import EchoJoyGateway.Gateway.Attempts
import Mathlib.Data.List.Nodup

/-!
# What the log of a request says

The calls, the candidates of the scheduler and the slots held are read off the log
of a request, and so are the rules a request keeps.
-/

namespace EchoJoyGateway.Gateway

open List

def attempts (log : List Event) : List Attempt :=
  log.filterMap fun
    | .called attempt => some attempt
    | _ => none

def selections (log : List Event) : List Nat :=
  log.filterMap fun
    | .selected selection => some selection.credentialID
    | _ => none

def hold (scope : Scope) (slots : List Nat) : Event → List Nat
  | .taken taken slot => if taken = scope then slot :: slots else slots
  | .freed freed slot => if freed = scope then slots.filter (· ≠ slot) else slots
  | _ => slots

def held (scope : Scope) (log : List Event) : List Nat := log.foldl (hold scope) []

/-- A committed response, or a decision against another call. -/
def Event.final : Event → Bool
  | .called attempt => attempt.committed || attempt.retry == .none
  | .unprepared _ retry => retry == .none
  | _ => false

/-- No credential is called twice, except that one call may repeat the credential of the
call right before it, which asked for a fresh credential. -/
def CalledOnce (calls : List Attempt) : Prop :=
  (calls.map (·.credentialID)).Nodup ∨
    ∃ before first second after, calls = before ++ first :: second :: after ∧
      first.credentialID = second.credentialID ∧ first.retry = .refreshCredential ∧
      ((before ++ second :: after).map (·.credentialID)).Nodup

/-- An event that is neither a call, a candidate, an admission nor the taking of a slot. -/
def Event.quiet : Event → Bool
  | .called _ | .selected _ | .admitted | .completed | .taken _ _ => false
  | _ => true

variable {log : List Event} {e : Event} {scope : Scope}

@[simp] theorem attempts_append (log log' : List Event) :
    attempts (log ++ log') = attempts log ++ attempts log' :=
  filterMap_append

@[simp] theorem selections_append (log log' : List Event) :
    selections (log ++ log') = selections log ++ selections log' :=
  filterMap_append

theorem held_concat (scope : Scope) (log : List Event) (e : Event) :
    held scope (log ++ [e]) = hold scope (held scope log) e := by
  simp [held]

theorem attempts_quiet (h : e.quiet = true) : attempts [e] = [] := by
  cases e <;> simp_all [Event.quiet, attempts]

theorem selections_quiet (h : e.quiet = true) : selections [e] = [] := by
  cases e <;> simp_all [Event.quiet, selections]

theorem hold_quiet (h : e.quiet = true) (slots : List Nat) :
    (hold scope slots e).Sublist slots := by
  cases e with
  | freed freed slot =>
    simp only [hold]
    split
    · exact filter_sublist
    · exact List.Sublist.refl _
  | taken => cases h
  | _ => exact List.Sublist.refl _

theorem calledOnce_concat_fresh {calls : List Attempt} {attempt : Attempt}
    (h : CalledOnce calls) (hfresh : attempt.credentialID ∉ calls.map (·.credentialID)) :
    CalledOnce (calls ++ [attempt]) := by
  have hconcat : ∀ {ids : List Nat}, ids.Nodup → attempt.credentialID ∉ ids →
      (ids ++ [attempt.credentialID]).Nodup := by
    intro ids hids hnew
    exact nodup_append'.mpr ⟨hids, nodup_singleton _, disjoint_singleton.mpr hnew⟩
  rcases h with h | ⟨before, first, second, after, rfl, hsame, hretry, hnodup⟩
  · left
    rw [map_append]
    exact hconcat h hfresh
  · right
    refine ⟨before, first, second, after ++ [attempt], by simp, hsame, hretry, ?_⟩
    have hnew : attempt.credentialID ∉ (before ++ second :: after).map (·.credentialID) := by
      intro hmem
      apply hfresh
      simp only [map_append, mem_append] at hmem ⊢
      tauto
    simpa using hconcat hnodup hnew

theorem calledOnce_concat_replay {calls : List Attempt} {first second : Attempt}
    (hnodup : ((calls ++ [first]).map (·.credentialID)).Nodup)
    (hsame : first.credentialID = second.credentialID) (hretry : first.retry = .refreshCredential) :
    CalledOnce (calls ++ [first] ++ [second]) := by
  right
  refine ⟨calls, first, second, [], by simp, hsame, hretry, ?_⟩
  simpa [hsame] using hnodup

/-- What the log keeps to at every moment: the calls are counted and within the limit, the
request is admitted and completed once, and no call follows an event that ends it. -/
structure Kept (limit : Nat) (log : List Event) (forwardAttempts : Nat)
    (admitted completed : Bool) : Prop where
  counted : (attempts log).length = forwardAttempts
  limited : forwardAttempts ≤ limit
  once : (selections log).Nodup → CalledOnce (attempts log)
  stops : ∀ before e after, log = before ++ e :: after → e.final = true → attempts after = []
  ends : ∀ before after, log = before ++ .exhausted :: after →
    attempts after = [] ∧ selections after = []
  admissions : log.count .admitted = if admitted then 1 else 0
  completions : log.count .completed = if completed then 1 else 0
  slots : ∀ scope before, before <+: log → (held scope before).length ≤ 1

def Going (log : List Event) : Prop := ∀ e ∈ log, e.final = false ∧ e ≠ .exhausted

theorem concat_split {before after : List Event} {last : Event}
    (h : log ++ [last] = before ++ e :: after) :
    after = [] ∨ ∃ rest, after = rest ++ [last] ∧ log = before ++ e :: rest := by
  rcases eq_nil_or_concat after with rfl | ⟨rest, x, rfl⟩
  · exact .inl rfl
  · right
    rw [concat_eq_append, ← cons_append, ← append_assoc] at h
    obtain ⟨hlog, hlast⟩ := append_inj' h rfl
    cases hlast
    exact ⟨rest, concat_eq_append, hlog⟩

section

variable {limit n : Nat} {a d : Bool}

theorem Kept.concat (h : Kept limit log n a d) {n' : Nat} {a' d' : Bool}
    (hcount : n + (attempts [e]).length = n') (hlimit : n' ≤ limit)
    (honce : (selections (log ++ [e])).Nodup → CalledOnce (attempts (log ++ [e])))
    (hgoing : (attempts [e] = [] ∧ selections [e] = []) ∨ Going log)
    (hadmissions : (if a then 1 else 0) + [e].count .admitted = if a' then 1 else 0)
    (hcompletions : (if d then 1 else 0) + [e].count .completed = if d' then 1 else 0)
    (hslots : ∀ scope, (hold scope (held scope log) e).length ≤ 1) :
    Kept limit (log ++ [e]) n' a' d' where
  counted := by rw [attempts_append, length_append, h.counted, hcount]
  limited := hlimit
  once := honce
  stops := by
    intro before last after hsplit hfinal
    rcases concat_split hsplit with rfl | ⟨rest, rfl, hlog⟩
    · rfl
    · rcases hgoing with ⟨hcall, -⟩ | hgoing
      · rw [attempts_append, h.stops before last rest hlog hfinal, hcall]
        rfl
      · have hmem : last ∈ log := by
          rw [hlog]
          simp
        rw [(hgoing last hmem).1] at hfinal
        cases hfinal
  ends := by
    intro before after hsplit
    rcases concat_split hsplit with rfl | ⟨rest, rfl, hlog⟩
    · exact ⟨rfl, rfl⟩
    · rcases hgoing with ⟨hcall, hselect⟩ | hgoing
      · obtain ⟨hcalls, hselections⟩ := h.ends before rest hlog
        rw [attempts_append, selections_append, hcalls, hselections, hcall, hselect]
        exact ⟨rfl, rfl⟩
      · have hmem : .exhausted ∈ log := by
          rw [hlog]
          simp
        exact absurd rfl (hgoing _ hmem).2
  admissions := by rw [count_append, h.admissions, hadmissions]
  completions := by rw [count_append, h.completions, hcompletions]
  slots := by
    intro scope before hprefix
    rcases prefix_concat_iff.mp hprefix with rfl | hprefix
    · rw [held_concat]
      exact hslots scope
    · exact h.slots scope before hprefix

theorem Kept.held_le (h : Kept limit log n a d) (scope : Scope) : (held scope log).length ≤ 1 :=
  h.slots scope log (prefix_refl log)

theorem Kept.quiet (h : Kept limit log n a d) (he : e.quiet = true) :
    Kept limit (log ++ [e]) n a d := by
  have hcall := attempts_quiet he
  have hselect := selections_quiet he
  refine h.concat ?_ h.limited ?_ (.inl ⟨hcall, hselect⟩) ?_ ?_ ?_
  · rw [hcall]
    rfl
  · rw [selections_append, attempts_append, hcall, hselect, append_nil, append_nil]
    exact h.once
  · cases e <;> first | rfl | cases he
  · cases e <;> first | rfl | cases he
  · intro scope
    exact Nat.le_trans (hold_quiet he _).length_le (h.held_le scope)

theorem Kept.selected (h : Kept limit log n a d) (hgoing : Going log) (selection : Selection) :
    Kept limit (log ++ [.selected selection]) n a d := by
  refine h.concat rfl h.limited ?_ (.inr hgoing) rfl rfl h.held_le
  intro hnodup
  rw [selections_append] at hnodup
  simpa [attempts] using h.once hnodup.of_append_left

theorem Kept.admitted (h : Kept limit log n false d) :
    Kept limit (log ++ [.admitted]) n true d := by
  refine h.concat rfl h.limited ?_ (.inl ⟨rfl, rfl⟩) rfl rfl h.held_le
  simpa [attempts, selections] using h.once

theorem Kept.completed (h : Kept limit log n a false) :
    Kept limit (log ++ [.completed]) n a true := by
  refine h.concat rfl h.limited ?_ (.inl ⟨rfl, rfl⟩) rfl rfl h.held_le
  simpa [attempts, selections] using h.once

theorem Kept.taken (h : Kept limit log n a d) (hfree : held scope log = []) (slot : Nat) :
    Kept limit (log ++ [.taken scope slot]) n a d := by
  refine h.concat rfl h.limited ?_ (.inl ⟨rfl, rfl⟩) rfl rfl ?_
  · simpa [attempts, selections] using h.once
  · intro other
    simp only [hold]
    split
    · rename_i hsame
      rw [← hsame, hfree]
      rfl
    · exact h.held_le other

theorem Kept.called (h : Kept limit log n a d) (hgoing : Going log) (hroom : n < limit)
    {attempt : Attempt}
    (honce : (selections log).Nodup → CalledOnce (attempts log ++ [attempt])) :
    Kept limit (log ++ [.called attempt]) (n + 1) a d := by
  refine h.concat rfl hroom ?_ (.inr hgoing) rfl rfl h.held_le
  simpa [attempts, selections] using honce

theorem Going.concat (h : Going log) (hfinal : e.final = false) (he : e ≠ .exhausted) :
    Going (log ++ [e]) := by
  intro x hx
  rcases mem_append.mp hx with hx | hx
  · exact h x hx
  · cases mem_singleton.mp hx
    exact ⟨hfinal, he⟩

end

end EchoJoyGateway.Gateway
