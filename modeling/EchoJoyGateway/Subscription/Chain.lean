import EchoJoyGateway.Subscription.Turns
import Mathlib.Data.List.Chain
import EchoJoyGateway.Lib.Update

/-!
# Rotated secrets form one chain

Every committed secret is what upstream returned for the one before it, and a credential
that upstream returned is committed unless the row has moved to a later version: auth
states that are written meanwhile do not matter.
-/

namespace EchoJoyGateway.Subscription

open List

variable {C : Type}

/-- The newer row holds what upstream returned for the secret of the older one. -/
def Rotated (provider : Provider C) (calls : List (Call C)) (newer older : Row) : Prop :=
  newer.secretVersion = older.secretVersion + 1 ∧ ∃ caller current refreshed,
    (provider.decrypt older.data).bind provider.parse = some current ∧
      ⟨caller, older.secretVersion, current, some (.ok refreshed)⟩ ∈ calls ∧
      provider.decrypt newer.data = some (provider.canonical refreshed)

namespace System

variable {provider : Provider C} {s s' mid : System C} {i j : Nat}

/-- The row was read when it held a durable secret, which is the current credential. -/
def Reads (provider : Provider C) (s : System C) (row : Row) (current : C) : Prop :=
  (∃ old ∈ s.durable, old.secretVersion = row.secretVersion ∧ old.data = row.data) ∧
    (provider.decrypt row.data).bind provider.parse = some current

inductive Remembers (provider : Provider C) (s : System C) (i : Nat) : Phase C → Prop where
  | idle {phase : Phase C} (h : Idle phase) : Remembers provider s i phase
  | startFailed (row : Row) : Remembers provider s i (.startFailed row)
  | recording (version : Nat) (authState : AuthState) (code evidence : String) :
      Remembers provider s i (.recording version authState code evidence)
  | checked {row : Row} {current : C} (h : s.Reads provider row current) :
      Remembers provider s i (.checked row current)
  | refreshing {row : Row} {current : C} (h : s.Reads provider row current) :
      Remembers provider s i (.refreshing row current)
  | calling {row : Row} {current : C} {k : Nat} (h : s.Reads provider row current)
      (hk : s.calls[k]? = some ⟨i, row.secretVersion, current, none⟩) :
      Remembers provider s i (.calling row current k)
  | returned {row : Row} {current refreshed : C} (h : s.Reads provider row current)
      (hcall : ⟨i, row.secretVersion, current, some (.ok refreshed)⟩ ∈ s.calls) :
      Remembers provider s i (.returned row current refreshed)
  | committing {row : Row} {current refreshed : C} {ciphertext : String}
      (h : s.Reads provider row current)
      (hcall : ⟨i, row.secretVersion, current, some (.ok refreshed)⟩ ∈ s.calls)
      (hcipher : provider.decrypt ciphertext = some (provider.canonical refreshed)) :
      Remembers provider s i (.committing row refreshed ciphertext)

structure Extends (s mid : System C) (i : Nat) : Prop where
  durable : ∀ row ∈ s.durable, row ∈ mid.durable
  ended : ∀ call ∈ s.calls, call.outcome ≠ none → call ∈ mid.calls
  others : ∀ (k : Nat) (call : Call C), s.calls[k]? = some call → call.caller ≠ i →
    mid.calls[k]? = some call

theorem Extends.of_eq (hdurable : mid.durable = s.durable) (hcalls : mid.calls = s.calls) :
    Extends s mid i := by
  refine ⟨fun row hmem => ?_, fun call hmem _ => ?_, fun k call hk _ => ?_⟩
  · rwa [hdurable]
  · rwa [hcalls]
  · rwa [hcalls]

variable {row : Row} {current : C}

theorem Reads.extends (h : s.Reads provider row current) (hextends : Extends s mid i) :
    mid.Reads provider row current := by
  obtain ⟨⟨old, hmem, hold⟩, hcurrent⟩ := h
  exact ⟨⟨old, hextends.durable old hmem, hold⟩, hcurrent⟩

theorem Remembers.extends {phase : Phase C} (h : Remembers provider s j phase)
    (hextends : Extends s mid i) (hne : j ≠ i) : Remembers provider mid j phase := by
  cases h with
  | idle h => exact .idle h
  | startFailed row => exact .startFailed row
  | recording version authState code evidence => exact .recording ..
  | checked h => exact .checked (h.extends hextends)
  | refreshing h => exact .refreshing (h.extends hextends)
  | calling h hk => exact .calling (h.extends hextends) (hextends.others _ _ hk hne)
  | returned h hcall =>
    exact .returned (h.extends hextends) (hextends.ended _ hcall nofun)
  | committing h hcall hcipher =>
    exact .committing (h.extends hextends) (hextends.ended _ hcall nofun) hcipher

theorem Remembers.congr {phase : Phase C} (h : Remembers provider s i phase)
    (hdurable : s'.durable = s.durable) (hcalls : s'.calls = s.calls) :
    Remembers provider s' i phase :=
  h.extends (.of_eq (i := i + 1) hdurable hcalls) (Nat.ne_of_lt (Nat.lt_succ_self i))

theorem Rotated.extends {newer older : Row} (h : Rotated provider s.calls newer older)
    (hextends : Extends s mid i) : Rotated provider mid.calls newer older := by
  obtain ⟨hversion, caller, current, refreshed, hcurrent, hcall, hcipher⟩ := h
  exact ⟨hversion, caller, current, refreshed, hcurrent, hextends.ended _ hcall nofun, hcipher⟩

theorem Extends.of_set {k : Nat} {call call' : Call C} (hk : s.calls[k]? = some call)
    (hopen : call.outcome = none) (hcaller : call.caller = i)
    (hdurable : mid.durable = s.durable) (hcalls : mid.calls = s.calls.set k call') :
    Extends s mid i := by
  have hother : ∀ l other, s.calls[l]? = some other → l ≠ k → mid.calls[l]? = some other := by
    intro l other hl hne
    rw [hcalls, getElem?_set_ne hne.symm]
    exact hl
  refine ⟨fun row hmem => by rwa [hdurable], fun ended hmem hended => ?_,
    fun l other hl hcallerNe => hother l other hl ?_⟩
  · obtain ⟨l, hl⟩ := mem_iff_getElem?.mp hmem
    refine List.mem_of_getElem? (hother l ended hl ?_)
    rintro rfl
    obtain rfl := Option.some.inj (hl.symm.trans hk)
    exact hended hopen
  · rintro rfl
    obtain rfl := Option.some.inj (hl.symm.trans hk)
    exact hcallerNe hcaller

variable {options : Options} {phase phase' : Phase C}

theorem Turn.extends (h : Turn provider s i options phase mid phase')
    (hphase : Remembers provider s i phase) : Extends s mid i := by
  cases h with
  | call =>
    refine ⟨fun row hmem => hmem, fun call hmem _ => mem_append_left _ hmem, fun k call hk _ => ?_⟩
    exact (List.getElem?_append_left (List.getElem?_eq_some_iff.mp hk).1).trans hk
  | answer answer =>
    cases hphase with
    | idle h => cases h
    | calling h hk => exact .of_set hk rfl rfl rfl rfl
  | commit =>
    exact ⟨fun row hmem => .tail _ hmem, fun call hmem _ => hmem, fun k call hk _ => hk⟩
  | _ => exact .of_eq rfl rfl

/-- The durable rows are one chain that ends in the row. -/
structure Chained (provider : Provider C) (s : System C) : Prop where
  chain : s.durable.IsChain (Rotated provider s.calls)
  last : ∃ row rest, s.durable = row :: rest ∧ row.secretVersion = s.row.secretVersion ∧
    row.data = s.row.data
  remembers : ∀ i r, s.refreshers i = some r → Remembers provider s i r.phase

theorem examine_remembers (hs : s.Chained provider) (reading : Reading) :
    Remembers provider s i (examine provider options s.row reading) := by
  obtain ⟨row, rest, hdurable, hversion, hdata⟩ := hs.last
  unfold examine
  split
  · exact .recording ..
  split
  · exact .idle (.unlocking _)
  split
  · exact .idle (.unlocking _)
  rename_i plaintext hplain
  split
  · exact .idle (.unlocking _)
  rename_i current hcurrent
  split
  · split
    · exact .idle (.unlocking _)
    · exact .idle (.unlocking _)
  split
  · exact .idle (.unlocking _)
  split
  · exact .idle (.unlocking _)
  · refine .checked ⟨⟨row, ?_, hversion, hdata⟩, ?_⟩
    · rw [hdurable]
      exact .head _
    · rw [hplain, Option.bind_some, hcurrent]

theorem Turn.remembers (h : Turn provider s i options phase mid phase') (hs : s.Chained provider)
    (hphase : Remembers provider s i phase) : Remembers provider mid i phase' := by
  cases h with
  | idle hidle hidle' => exact .idle hidle'
  | examine reading => exact examine_remembers hs reading
  | @start row row' current ok hwrote =>
    cases hphase with
    | idle h => cases h
    | checked h =>
      cases ok with
      | true => exact .refreshing h
      | false => exact .startFailed row
  | restore => exact .idle (.unlocking _)
  | call =>
    cases hphase with
    | idle h => cases h
    | refreshing h => exact .calling h getElem?_concat_length
  | @answer row current k answer =>
    cases hphase with
    | idle h => cases h
    | calling h hk =>
      cases answer with
      | error failure => exact .recording ..
      | ok refreshed =>
        have hlt : k < s.calls.length := (List.getElem?_eq_some_iff.mp hk).1
        exact .returned h (List.mem_of_getElem? (List.getElem?_set_self hlt))
  | encrypt hpreserves hcipher =>
    cases hphase with
    | idle h => cases h
    | returned h hcall => exact .committing h hcall hcipher
  | commit hversion hphase' =>
    rcases hphase' with rfl | rfl
    · exact .idle (.committed _ _)
    · exact .recording ..
  | record => exact .idle (.unlocking _)
  | _ => exact .recording ..

theorem chain_pairwise {rows : List Row} {calls : List (Call C)}
    (h : rows.IsChain (Rotated provider calls)) :
    rows.Pairwise fun newer older => older.secretVersion < newer.secretVersion := by
  have hdown : rows.IsChain fun newer older => older.secretVersion < newer.secretVersion :=
    h.imp fun newer older hrotated => by
      have := hrotated.1
      omega
  exact hdown.pairwise

theorem Chained.reads (hs : s.Chained provider) (h : s.Reads provider row current) :
    row.secretVersion ≤ s.row.secretVersion ∧
      (s.row.secretVersion = row.secretVersion → s.row.data = row.data) := by
  obtain ⟨⟨old, hmem, hversion, hdata⟩, -⟩ := h
  obtain ⟨last, rest, hdurable, hlastVersion, hlastData⟩ := hs.last
  have hpair := chain_pairwise hs.chain
  rw [hdurable] at hmem hpair
  rcases mem_cons.mp hmem with rfl | hrest
  · exact ⟨by omega, fun _ => hlastData.symm.trans hdata⟩
  · have hlt := (pairwise_cons.mp hpair).1 old hrest
    exact ⟨by omega, fun heq => absurd heq (by omega)⟩

variable {r : Refresher C}

theorem Turn.chained (h : Turn provider s i r.options r.phase mid phase')
    (hr : s.refreshers i = some r) (hs : s.Chained provider) :
    (mid.goto i r phase').Chained provider := by
  have hphase := hs.remembers i r hr
  have hextends := h.extends hphase
  have hold := hs.chain.imp fun _ _ hrotated => Rotated.extends hrotated hextends
  obtain ⟨last, rest, hdurable, hlastVersion, hlastData⟩ := hs.last
  refine ⟨?_, ?_, fun k other hother => ?_⟩
  · change mid.durable.IsChain (Rotated provider mid.calls)
    rcases h.secret with ⟨hsame, -⟩ | ⟨row, refreshed, ciphertext, hcommit, hversion, hcalls,
      hrow, hnew⟩
    · rw [hsame]
      exact hold
    · rw [hcommit] at hphase
      cases hphase with
      | idle hidle => cases hidle
      | @committing _ current _ _ hreads hcall hcipher =>
        rw [hnew, hdurable, hrow]
        rw [hdurable] at hold
        refine .cons_cons ⟨?_, i, current, refreshed, ?_, ?_, hcipher⟩ hold
        · rw [hlastVersion, hversion]
        · rw [hlastData, (hs.reads hreads).2 hversion]
          exact hreads.2
        · rw [hlastVersion, hversion, hcalls]
          exact hcall
  · change ∃ row rest, mid.durable = row :: rest ∧ row.secretVersion = mid.row.secretVersion ∧
      row.data = mid.row.data
    rcases h.secret with ⟨hsame, hversion, hdata⟩ | ⟨-, -, -, -, -, -, -, hnew⟩
    · rw [hsame, hversion, hdata]
      exact ⟨last, rest, hdurable, hlastVersion, hlastData⟩
    · exact ⟨mid.row, s.durable, hnew, rfl, rfl⟩
  · rcases Update.cases hother with ⟨rfl, heq⟩ | ⟨hne, hother⟩
    · cases heq
      exact (h.remembers hs hphase).congr rfl rfl
    · rw [h.refreshers] at hother
      exact ((hs.remembers k other hother).extends hextends hne).congr rfl rfl

theorem Chained.of_same (hs : s.Chained provider) (hdurable : s'.durable = s.durable)
    (hcalls : s'.calls = s.calls) (hversion : s'.row.secretVersion = s.row.secretVersion)
    (hdata : s'.row.data = s.row.data)
    (hrefreshers : ∀ i r, s'.refreshers i = some r →
      s.refreshers i = some r ∨ Idle r.phase) : s'.Chained provider := by
  refine ⟨?_, ?_, fun k r hr => ?_⟩
  · rw [hdurable, hcalls]
    exact hs.chain
  · rw [hdurable, hversion, hdata]
    exact hs.last
  · rcases hrefreshers k r hr with hold | hidle
    · exact (hs.remembers k r hold).congr hdurable hcalls
    · exact .idle hidle

variable {command : Command C}

theorem step_chained (hs : s.Chained provider) (h : s.step provider command = some s') :
    s'.Chained provider := by
  cases step_kind h with
  | @prepare i options hcommand hfresh heq =>
    subst heq
    refine hs.of_same rfl rfl rfl rfl fun k r hr => ?_
    rcases Update.cases hr with ⟨rfl, heq⟩ | ⟨-, hr⟩
    · cases heq
      exact .inr .waiting
    · exact .inl hr
  | turn hcommand hr hturn heq =>
    subst heq
    exact hturn.chained hr hs
  | expire heq | sweep heq | swept heq =>
    subst heq
    exact hs.of_same rfl rfl rfl rfl fun _ _ hr => .inl hr

theorem initial_chained (row : Row) : (initial row : System C).Chained provider where
  chain := .singleton row
  last := ⟨row, [], rfl, rfl, rfl⟩
  remembers _ _ hr := by cases hr

def Others (i : Nat) (commands : List (Command C)) : Prop :=
  ∀ command ∈ commands, ∀ choice, command ≠ .act i choice

theorem step_other (hother : ∀ choice, command ≠ .act i choice) (hr : s.refreshers i = some r)
    (h : s.step provider command = some s') :
    s'.refreshers i = some r := by
  cases step_kind h with
  | @prepare k options hcommand hfresh heq =>
    subst heq
    have hne : i ≠ k := by
      rintro rfl
      rw [hr] at hfresh
      cases hfresh
    change Function.update s.refreshers k _ i = _
    rw [Function.update_of_ne hne]
    exact hr
  | @turn k choice r' mid phase hcommand hr' hturn heq =>
    subst heq
    have hne : i ≠ k := by
      rintro rfl
      exact hother choice hcommand
    change Function.update mid.refreshers k _ i = _
    rw [Function.update_of_ne hne, hturn.refreshers]
    exact hr
  | expire heq | sweep heq | swept heq =>
    subst heq
    exact hr

theorem run_other {commands : List (Command C)} (hothers : Others i commands)
    (hr : s.refreshers i = some r) (h : Runs.run (step provider) s commands = some s') :
    s'.refreshers i = some r :=
  Runs.run_invariant_mem (P := fun s => s.refreshers i = some r)
    (fun command hmem hbefore hstep => step_other (hothers command hmem) hbefore hstep) h hr

variable {ciphertext : String}

theorem encrypt_step {refreshed : C} (hr : s.refreshers i = some r)
    (hphase : r.phase = .returned row current refreshed)
    (hpreserves : provider.preservesIdentity current refreshed = true)
    (hcanonical : provider.canonical refreshed ≠ "")
    (hcipher : provider.decrypt ciphertext = some (provider.canonical refreshed)) :
    s.step provider (.act i (.encrypted ciphertext)) =
      some (s.goto i r (.committing row refreshed ciphertext)) := by
  simp only [step, hr, act, hphase, afterReturn, hpreserves, hcanonical, hcipher, if_true,
    if_false, Bool.true_eq_false, Option.map_some]

theorem commit_step {refreshed : C} (hr : s.refreshers i = some r)
    (hphase : r.phase = .committing row refreshed ciphertext)
    (hfits : row.secretVersion + 1 < maxVersion) :
    ∃ s', s.step provider (.act i .succeed) = some s' ∧
      (s.row.secretVersion = row.secretVersion →
        s'.row = ⟨row.secretVersion + 1, ciphertext, .ready, ""⟩ ∧
          s'.durable = s'.row :: s.durable) := by
  simp only [step, hr, act, hphase, if_pos hfits]
  refine ⟨_, rfl, fun hversion => ?_⟩
  rw [landSecret_of_eq hversion]
  exact ⟨rfl, rfl⟩

/-- A refresh of the first secret, up to the answer. -/
def returnedRun : List (Command String) :=
  [.prepare 0 (automatic 0), .act 0 .succeed, .act 0 .succeed, .act 0 (.read ⟨true, false, true⟩),
    .act 0 .succeed, .act 0 .succeed, .act 0 (.answer (.ok "second"))]

/-- The lease runs out and a sweep marks the refresh as interrupted. -/
def sweptCommands : List (Command String) := [.expire, .sweepRead, .sweepProbe 0, .sweepWrite 0]

/-- In every run the durable secrets are one chain, each version is committed once, and a
credential that upstream returned with the same identity and a canonical form, once it is
encrypted, is committed as the next version in state ready, whatever the others do before,
unless they have moved the row past the version that was refreshed. -/
theorem secrets_form_one_chain {start : Row} {commands : List (Command C)}
    (h : Runs.run (step provider) (initial start) commands = some s) :
    s.durable.IsChain (Rotated provider s.calls) ∧ (s.durable.map Row.secretVersion).Nodup ∧
      (∃ last rest, s.durable = last :: rest ∧ last.secretVersion = s.row.secretVersion ∧
        last.data = s.row.data) ∧
      ∀ i r row current refreshed, s.refreshers i = some r →
        r.phase = .returned row current refreshed →
        provider.preservesIdentity current refreshed = true → provider.canonical refreshed ≠ "" →
        row.secretVersion + 1 < maxVersion →
        ∀ ciphertext, provider.decrypt ciphertext = some (provider.canonical refreshed) →
        ∀ others s₁, Others i others → Runs.run (step provider) s others = some s₁ →
        ∃ s₂, s₁.step provider (.act i (.encrypted ciphertext)) = some s₂ ∧
          ∀ others' s₃, Others i others' → Runs.run (step provider) s₂ others' = some s₃ →
          ∃ s₄, s₃.step provider (.act i .succeed) = some s₄ ∧
            (s₄.row = ⟨row.secretVersion + 1, ciphertext, .ready, ""⟩ ∧
                s₄.durable = s₄.row :: s₃.durable ∨
              row.secretVersion < s₃.row.secretVersion) := by
  have hs : s.Chained provider :=
    Runs.run_invariant (fun hbefore hstep => step_chained hbefore hstep) h (initial_chained start)
  refine ⟨hs.chain, ?_, hs.last, ?_⟩
  · have hpair := chain_pairwise hs.chain
    exact pairwise_map.mpr (hpair.imp fun hlt => (Nat.ne_of_lt hlt).symm)
  · intro i r row current refreshed hr hphase hpreserves hcanonical hfits ciphertext hcipher others
      s₁ hothers hrun
    have hr₁ := run_other hothers hr hrun
    have hencrypted := encrypt_step hr₁ hphase hpreserves hcanonical hcipher
    refine ⟨_, hencrypted, fun others' s₃ hothers' hrun' => ?_⟩
    have hs₂ :=
      step_chained (Runs.run_invariant (fun hbefore hstep => step_chained hbefore hstep) hrun hs)
        hencrypted
    have hs₃ : s₃.Chained provider :=
      Runs.run_invariant (fun hbefore hstep => step_chained hbefore hstep) hrun' hs₂
    have hr₃ := run_other hothers' (Function.update_self ..) hrun'
    have hreads : row.secretVersion ≤ s₃.row.secretVersion := by
      have hremembers := hs₃.remembers i _ hr₃
      cases hremembers with
      | idle hidle => cases hidle
      | committing hreads hcall _ => exact (hs₃.reads hreads).1
    obtain ⟨s₄, hcommit, hlands⟩ := commit_step hr₃ rfl hfits
    refine ⟨s₄, hcommit, ?_⟩
    rcases hreads.lt_or_eq with hlater | heq
    · exact .inr hlater
    · exact .inl (hlands heq.symm)

theorem swept_refresh_commits : ∃ s s₂ s₃ s₄,
    Runs.run (step plainProvider) (initial firstRow) returnedRun = some s ∧
      s.step plainProvider (.act 0 (.encrypted "second")) = some s₂ ∧
      Runs.run (step plainProvider) s₂ sweptCommands = some s₃ ∧
      s₃.row.authState = .outcomeUnknown ∧
      s₃.step plainProvider (.act 0 .succeed) = some s₄ ∧
      s₄.row = ⟨2, "second", .ready, ""⟩ := by
  have hothers : Others 0 sweptCommands := by
    rintro command hmem choice rfl
    simp [sweptCommands] at hmem
  have hrun : Runs.run (step plainProvider) (initial firstRow) returnedRun = some _ := rfl
  obtain ⟨-, -, -, hcommits⟩ := secrets_form_one_chain hrun
  obtain ⟨s₂, hencrypt, hnext⟩ := hcommits 0 _ firstRow "first" "second" rfl rfl rfl (by decide)
    (by decide) "second" rfl [] _ (by rintro _ ⟨⟩) rfl
  cases hencrypt
  obtain ⟨s₄, hcommit, hlands⟩ := hnext sweptCommands _ hothers rfl
  refine ⟨_, _, _, s₄, hrun, rfl, rfl, rfl, hcommit, ?_⟩
  rcases hlands with ⟨hrow, -⟩ | hlater
  · exact hrow
  · exact absurd hlater (by decide)

def lostRun : List (Command String) :=
  returnedRun ++ [.act 0 (.fail false), .act 0 .succeed, .act 0 .succeed, .act 0 .succeed]

/-- Upstream returned the next secret, no database call fails and nobody else commits, but the
encryption fails. -/
theorem encryption_failure_loses_secret :
    ∃ s, Runs.run (step plainProvider) (initial firstRow) lostRun = some s ∧
      s.calls = [⟨0, 1, "first", some (.ok "second")⟩] ∧
      s.refreshers 0 = some ⟨automatic 0, .done (.evidence "refresh_persist_failed")⟩ ∧
      s.durable = [firstRow] ∧
      s.row = ⟨1, "first", .outcomeUnknown, "refresh_persist_failed"⟩ ∧
      plainProvider.preservesIdentity "first" "second" = true ∧
      plainProvider.canonical "second" ≠ "" :=
  ⟨_, rfl, rfl, rfl, rfl, rfl, rfl, by decide⟩

end System

end EchoJoyGateway.Subscription
