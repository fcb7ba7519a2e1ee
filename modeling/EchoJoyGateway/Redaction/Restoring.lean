import EchoJoyGateway.Redaction.Candidates
import Mathlib.Tactic.IntervalCases

/-!
# What restoring a text gives

The loop of `RestoreText` as a relation between a text, the restored text and the
number of candidates, and how it splits where no candidate crosses.
-/

namespace EchoJoyGateway.Redaction

open Search List

/-- What stands in the restored text for the candidate at the start of a text. -/
def RedactionCipher.replacement (c : RedactionCipher) (t : Bytes) : Bytes :=
  (c.authentic t).getD (t.take (resume t))

inductive Restores (c : RedactionCipher) : Bytes → Bytes → Nat → Prop where
  | plain {s : Bytes} : nextCandidate s = none → Restores c s s 0
  | candidate {u t o : Bytes} {k : Nat} : nextCandidate (u ++ t) = some t →
    Restores c (t.drop (resume t)) o k →
    Restores c (u ++ t) (u ++ (c.replacement t ++ o)) (k + 1)

section Prefixes

theorem found_starts {text : Bytes} (h : (parseRedactionCandidate text).found = true) :
    redactionTokenPrefix <+: text := by
  obtain ⟨digits, rest, -, rfl⟩ := found_iff.mp h
  exact prefix_append _ _

theorem not_found_of_not_starts {text : Bytes} (h : ¬ redactionTokenPrefix <+: text) :
    (parseRedactionCandidate text).found = false :=
  Bool.eq_false_iff.mpr fun hfound => h (found_starts hfound)

theorem not_starts_inside {j : Nat} (hpos : 0 < j) (hj : j < redactionTokenPrefix.length)
    (text : Bytes) : ¬ redactionTokenPrefix <+: (redactionTokenPrefix ++ text).drop j := by
  have hlength : redactionTokenPrefix.length = 5 := rfl
  rw [hlength] at hj
  interval_cases j <;> simp [redactionTokenPrefix]

theorem nextCandidate_of_headless {text : Bytes}
    (h : (parseRedactionCandidate (redactionTokenPrefix ++ text)).found = false) :
    nextCandidate (redactionTokenPrefix ++ text) = nextCandidate text := by
  refine nextCandidate_append fun j hj => ?_
  cases j with
  | zero => exact h
  | succ j => exact not_found_of_not_starts (not_starts_inside (Nat.succ_pos j) hj text)

end Prefixes

section Loop

variable (c : RedactionCipher)

theorem nextCandidate_of_index_none {text : Bytes} (h : index redactionTokenPrefix text = none) :
    nextCandidate text = none := by
  have happend := @nextCandidate_append text [] fun j _ => by
    rw [append_nil]
    exact not_found_of_not_starts (index_eq_none h j)
  rwa [append_nil] at happend

theorem nextCandidate_of_index {text : Bytes} {i : Nat}
    (h : index redactionTokenPrefix text = some i) :
    nextCandidate text = nextCandidate (text.drop i) := by
  obtain ⟨-, hfirst⟩ := index_eq_some h
  have hlength : (text.take i).length ≤ i := length_take_le i text
  have happend := @nextCandidate_append (text.take i) (text.drop i) fun j hj => by
    rw [take_append_drop]
    exact not_found_of_not_starts (hfirst j (by omega))
  rwa [take_append_drop] at happend

theorem restoreLoop_eq (text : Bytes) (scan last tokens : Nat) (out : Bytes) :
    c.restoreLoop text scan last tokens out =
      match nextCandidate (text.drop scan) with
      | none => .ok (finishRestore text last out)
      | some t =>
        if maxRedactionTokensPerText < tokens + 1 then .error .tooManyTokens
        else
          match c.authentic t with
          | none => c.restoreLoop text (text.length - t.length + resume t) last (tokens + 1) out
          | some plaintext =>
            c.restoreLoop text (text.length - t.length + (parseRedactionCandidate t).stop)
              (text.length - t.length + (parseRedactionCandidate t).stop) (tokens + 1)
              (out ++ (text.take (text.length - t.length)).drop last ++ plaintext) := by
  induction hn : text.length - scan using Nat.strong_induction_on generalizing scan with
  | _ n ih =>
    rw [RedactionCipher.restoreLoop]
    split
    · rename_i hscan
      split
      · rename_i hindex
        rw [nextCandidate_of_index_none hindex]
      · rename_i i hindex
        obtain ⟨hstarts, -⟩ := index_eq_some hindex
        rw [drop_drop] at hstarts
        have hle := hstarts.length_le
        have hlength : redactionTokenPrefix.length = 5 := rfl
        rw [length_drop] at hle
        have hnext := nextCandidate_of_index hindex
        rw [drop_drop] at hnext
        have hstart : text.length - (text.drop (scan + i)).length = scan + i := by
          rw [length_drop]
          omega
        dsimp only
        split
        · rename_i hfound
          rw [hnext, nextCandidate_of_found hfound]
          simp only [hstart]
          split
          · rfl
          · split
            · rename_i hplain
              rw [RedactionCipher.authentic, hplain]
              rfl
            · rename_i plaintext hplain
              rw [RedactionCipher.authentic, hplain]
        · rename_i hfound
          obtain ⟨tail, htail⟩ := hstarts
          have hdrop : text.drop (scan + i + redactionTokenPrefix.length) = tail := by
            rw [← drop_drop, ← htail, drop_left]
          rw [← htail] at hfound hnext
          rw [hnext, nextCandidate_of_headless (Bool.eq_false_iff.mpr hfound), ← hdrop]
          exact ih _ (by omega) _ rfl
    · rename_i hscan
      rw [drop_eq_nil_of_le (Nat.le_of_not_lt hscan), nextCandidate_nil]

theorem stop_eq_resume {t plaintext : Bytes} (h : c.authentic t = some plaintext) :
    (parseRedactionCandidate t).stop = resume t := by
  have hfound : (parseRedactionCandidate t).found = true := by
    by_contra hnot
    unfold RedactionCipher.authentic RedactionCipher.decryptCandidate at h
    rw [if_pos (.inl (Bool.eq_false_iff.mpr hnot))] at h
    cases h
  obtain ⟨digits, text, hdigits, rfl⟩ := found_iff.mp hfound
  rw [authentic_header hdigits] at h
  split at h
  · rename_i hcomplete
    rw [resume_header hdigits, parse_header hdigits, headerCandidate, passed,
      if_neg hcomplete.1, if_neg hcomplete.1, hcomplete.2.2]
  · cases h

theorem resume_le {t : Bytes} (h : (parseRedactionCandidate t).found = true) :
    0 < resume t ∧ resume t ≤ t.length := by
  obtain ⟨digits, text, hdigits, rfl⟩ := found_iff.mp h
  rw [resume_header hdigits, length_append, length_header]
  refine ⟨by omega, Nat.add_le_add_left ?_ _⟩
  unfold passed
  split
  · exact Nat.zero_le _
  · exact (collect_start _ _).length_le

theorem finishRestore_eq (text : Bytes) (last : Nat) (out : Bytes) :
    finishRestore text last out = out ++ text.drop last := by
  unfold finishRestore
  split
  · rename_i h
    rw [h.1, h.2]
    rfl
  · rfl

theorem restoreLoop_of_restores {rest o : Bytes} {k : Nat} (h : Restores c rest o k)
    (before : Bytes) {last tokens : Nat} {out : Bytes} (hlast : last ≤ before.length)
    (htokens : tokens ≤ maxRedactionTokensPerText) :
    c.restoreLoop (before ++ rest) before.length last tokens out =
      if tokens + k ≤ maxRedactionTokensPerText then .ok (out ++ (before.drop last ++ o))
      else .error .tooManyTokens := by
  induction h generalizing before last tokens out with
  | @plain s hnone =>
    rw [restoreLoop_eq, drop_left, hnone]
    simp only [Nat.add_zero, if_pos htokens, finishRestore_eq, drop_append_of_le_length hlast]
  | @candidate u t o k hnext hrestores ih =>
    obtain ⟨-, hresume⟩ := resume_le (nextCandidate_eq_some hnext).1
    have hstart : (before ++ (u ++ t)).length - t.length = (before ++ u).length := by
      simp only [length_append]
      omega
    have htext : before ++ (u ++ t) =
        (before ++ (u ++ t.take (resume t))) ++ t.drop (resume t) := by
      simp only [append_assoc, take_append_drop]
    have hscan : (before ++ u).length + resume t = (before ++ (u ++ t.take (resume t))).length := by
      simp only [length_append, length_take]
      omega
    have htake : (before ++ (u ++ t)).take (before ++ u).length = before ++ u := by
      rw [← append_assoc, take_left]
    rw [restoreLoop_eq, drop_left, hnext]
    simp only [hstart, htake]
    split
    · rw [if_neg (by omega)]
    · unfold RedactionCipher.replacement
      cases hplain : c.authentic t with
      | none =>
        simp only [Option.getD_none]
        rw [htext, hscan, ih _ (by simp only [length_append]; omega) (by omega)]
        simp only [drop_append_of_le_length hlast, append_assoc, Nat.add_assoc, Nat.add_comm 1 k]
      | some plaintext =>
        simp only [Option.getD_some, stop_eq_resume c hplain]
        rw [htext, hscan, ih _ le_rfl (by omega)]
        simp only [drop_length, nil_append, drop_append_of_le_length hlast,
          append_assoc, Nat.add_assoc, Nat.add_comm 1 k]

theorem restoreText_of_restores {text o : Bytes} {k : Nat} (h : Restores c text o k)
    (hk : k ≤ maxRedactionTokensPerText) : c.restoreText text = .ok o := by
  have hloop := @restoreLoop_of_restores c text o k h [] 0 0 [] (Nat.zero_le 0) (Nat.zero_le _)
  rw [Nat.zero_add, if_pos hk] at hloop
  exact hloop

theorem scan_induction {motive : Bytes → Prop}
    (plain : ∀ text, nextCandidate text = none → motive text)
    (candidate : ∀ u t, nextCandidate (u ++ t) = some t → motive (t.drop (resume t)) →
      motive (u ++ t)) (text : Bytes) : motive text := by
  induction hn : text.length using Nat.strong_induction_on generalizing text with
  | _ n ih =>
    cases hnext : nextCandidate text with
    | none => exact plain text hnext
    | some t =>
      obtain ⟨hfound, u, rfl⟩ := nextCandidate_eq_some hnext
      obtain ⟨hpos, hle⟩ := resume_le hfound
      refine candidate u t hnext (ih _ ?_ _ rfl)
      rw [← hn, length_append, length_drop]
      omega

theorem Restores.total (text : Bytes) : ∃ o k, Restores c text o k := by
  induction text using scan_induction with
  | plain text hnone => exact ⟨text, 0, .plain hnone⟩
  | candidate u t hnext ih =>
    obtain ⟨o, k, hrestores⟩ := ih
    exact ⟨_, _, .candidate hnext hrestores⟩

end Loop

section Cuts

/-- No candidate that the scan of the whole text comes to crosses from the first
part into the second. -/
def CleanCut (x rest : Bytes) : Prop :=
  ∀ t, Reached (x ++ rest) t → rest.length < t.length → rest.length + resume t ≤ t.length

theorem collect_append_of_le {n : Nat} {x rest : Bytes}
    (h : (collect n (x ++ rest)).length ≤ x.length) : collect n (x ++ rest) = collect n x := by
  unfold collect at h ⊢
  rw [take_append] at h ⊢
  rcases Nat.lt_or_ge x.length n with hlt | hge
  · rw [take_of_length_le hlt.le] at h ⊢
    by_cases hall : ∀ b ∈ x, redactionBase64URLByte b = true
    · rw [takeWhile_append_of_pos hall] at h ⊢
      have hnil : (rest.take (n - x.length)).takeWhile redactionBase64URLByte = [] := by
        rw [← length_eq_zero_iff]
        rw [length_append] at h
        omega
      rw [hnil, append_nil, takeWhile_eq_self_iff.mpr hall]
    · rw [takeWhile_append, if_neg]
      intro hlength
      exact hall (takeWhile_eq_self_iff.mp (( takeWhile_prefix _).eq_of_length hlength))
  · rw [Nat.sub_eq_zero_of_le hge, take_zero, append_nil]

variable {x rest : Bytes}

theorem found_append (h : (parseRedactionCandidate x).found = true) (rest : Bytes) :
    (parseRedactionCandidate (x ++ rest)).found = true := by
  obtain ⟨digits, text, hdigits, rfl⟩ := found_iff.mp h
  exact found_iff.mpr ⟨digits, text ++ rest, hdigits, append_assoc _ _ _⟩

theorem candidate_within (hfound : (parseRedactionCandidate (x ++ rest)).found = true)
    (hwithin : resume (x ++ rest) ≤ x.length) :
    (parseRedactionCandidate x).found = true ∧ resume x = resume (x ++ rest) ∧
      ∀ c : RedactionCipher, c.authentic x = c.authentic (x ++ rest) := by
  obtain ⟨digits, text, hdigits, htext⟩ := found_iff.mp hfound
  rw [htext, resume_header hdigits] at hwithin
  obtain ⟨y, rfl⟩ : header digits <+: x := by
    have hstart : header digits <+: x ++ rest := by
      rw [htext]
      exact prefix_append _ _
    exact prefix_of_prefix_length_le hstart (prefix_append x rest) (by omega)
  obtain rfl : text = y ++ rest := by
    rw [append_assoc] at htext
    exact (append_cancel_left htext).symm
  rw [length_append] at hwithin
  have hpassed : passed digits (y ++ rest) ≤ y.length := by omega
  rw [append_assoc, resume_header hdigits, resume_header hdigits]
  refine ⟨found_iff.mpr ⟨digits, y, hdigits, rfl⟩, ?_, fun c => ?_⟩
  · unfold passed at hpassed ⊢
    split
    · rfl
    · rename_i husable
      rw [if_neg husable] at hpassed
      rw [collect_append_of_le hpassed]
  · rw [authentic_header hdigits, authentic_header hdigits]
    by_cases husable : Unusable maxEncodedLen digits
    · rw [if_neg fun hand => hand.1 husable, if_neg fun hand => hand.1 husable]
    · unfold passed at hpassed
      rw [if_neg husable] at hpassed
      rw [collect_append_of_le hpassed]
      split
      · rename_i hcomplete
        have hlength := (length_collect_iff.mp hcomplete.2.2).1
        rw [take_append_of_le_length hlength]
      · rfl

theorem replacement_within (hfound : (parseRedactionCandidate (x ++ rest)).found = true)
    (hwithin : resume (x ++ rest) ≤ x.length) (c : RedactionCipher) :
    c.replacement x = c.replacement (x ++ rest) := by
  obtain ⟨-, hresume, hauthentic⟩ := candidate_within hfound hwithin
  unfold RedactionCipher.replacement
  rw [hauthentic, hresume, take_append_of_le_length hwithin]

theorem CleanCut.candidate (hcut : CleanCut x rest) {t : Bytes} (ht : Reached (x ++ rest) t)
    (hinside : rest.length < t.length) :
    ∃ u y, x = u ++ y ∧ t = y ++ rest ∧ (parseRedactionCandidate y).found = true ∧
      resume y = resume t ∧ ∀ c : RedactionCipher, c.authentic y = c.authentic t := by
  obtain ⟨u, hu⟩ := ht.suffix
  obtain ⟨y, rfl⟩ : rest <:+ t :=
    suffix_of_suffix_length_le (suffix_append x rest) ht.suffix hinside.le
  obtain rfl : u ++ y = x := by
    rw [← append_assoc] at hu
    exact append_cancel_right hu
  have hwithin := hcut _ ht hinside
  rw [length_append] at hwithin
  obtain ⟨hfound, hresume, hauthentic⟩ := candidate_within ht.found (by omega)
  exact ⟨u, y, rfl, rfl, hfound, hresume, hauthentic⟩

theorem CleanCut.of_plain (hcut : CleanCut x rest) (hnone : nextCandidate x = none) :
    nextCandidate (x ++ rest) = nextCandidate rest := by
  cases hnext : nextCandidate (x ++ rest) with
  | none =>
    rw [← hnext]
    exact nextCandidate_append fun j _ => not_found_of_none hnext j
  | some t =>
    rcases Nat.lt_or_ge rest.length t.length with hinside | houtside
    · obtain ⟨u, y, rfl, -, hfound, -⟩ := hcut.candidate (.here hnext) hinside
      have hnot := not_found_of_none hnone u.length
      rw [drop_left, hfound] at hnot
      cases hnot
    · obtain ⟨-, u, hu⟩ := nextCandidate_eq_some hnext
      have hlength := congrArg List.length hu
      simp only [length_append] at hlength
      rw [← hnext]
      refine nextCandidate_append fun j hj => ?_
      rw [hu] at hnext ⊢
      exact not_found_before hnext j (by omega)

theorem CleanCut.of_candidate {u t : Bytes} (hcut : CleanCut (u ++ t) rest)
    (hnext : nextCandidate (u ++ t) = some t) :
    nextCandidate (u ++ (t ++ rest)) = some (t ++ rest) ∧ resume t = resume (t ++ rest) ∧
      ∀ c : RedactionCipher, c.authentic t = c.authentic (t ++ rest) := by
  obtain ⟨hfound, -⟩ := nextCandidate_eq_some hnext
  obtain ⟨hpos, hle⟩ := resume_le hfound
  have hwhole : nextCandidate (u ++ (t ++ rest)) = some (t ++ rest) := by
    cases hwhole : nextCandidate (u ++ (t ++ rest)) with
    | none =>
      have hnot := not_found_of_none hwhole u.length
      rw [drop_left, found_append hfound] at hnot
      cases hnot
    | some t' =>
      obtain ⟨-, u', hu'⟩ := nextCandidate_eq_some hwhole
      have hlength := congrArg List.length hu'
      simp only [length_append] at hlength
      rcases Nat.lt_trichotomy u'.length u.length with hbefore | hsame | hafter
      · have hreached : Reached ((u ++ t) ++ rest) t' := by
          rw [append_assoc]
          exact .here hwhole
        obtain ⟨v, y, hv, rfl, hy, -⟩ := hcut.candidate hreached (by omega)
        have hlengths := congrArg List.length hv
        simp only [length_append] at hlength hlengths
        have hnot := not_found_before hnext v.length (by omega)
        rw [hv, drop_left, hy] at hnot
        cases hnot
      · rw [(append_inj hu' hsame.symm).2]
      · rw [hu'] at hwhole
        have hnot := not_found_before hwhole u.length hafter
        rw [← hu', drop_left, found_append hfound] at hnot
        cases hnot
  have hreached : Reached ((u ++ t) ++ rest) (t ++ rest) := by
    rw [append_assoc]
    exact .here hwhole
  have hwithin := hcut _ hreached (by rw [length_append]; omega)
  rw [length_append] at hwithin
  obtain ⟨-, hresume, hauthentic⟩ := candidate_within (found_append hfound rest) (by omega)
  exact ⟨hwhole, hresume, hauthentic⟩

theorem CleanCut.after {u t : Bytes} (hcut : CleanCut (u ++ t) rest)
    (hnext : nextCandidate (u ++ t) = some t) : CleanCut (t.drop (resume t)) rest := by
  obtain ⟨hwhole, hresume, -⟩ := hcut.of_candidate hnext
  obtain ⟨-, hle⟩ := resume_le (nextCandidate_eq_some hnext).1
  intro t' ht'
  refine hcut t' ?_
  rw [append_assoc]
  refine .later hwhole ?_
  rwa [← hresume, drop_append_of_le_length hle]

theorem Restores.append {c : RedactionCipher} {o o' : Bytes} {k k' : Nat}
    (h : Restores c x o k) (h' : Restores c rest o' k') (hcut : CleanCut x rest) :
    Restores c (x ++ rest) (o ++ o') (k + k') := by
  induction h with
  | @plain s hnone =>
    have hskip := hcut.of_plain hnone
    rw [Nat.zero_add]
    cases h' with
    | plain hrest => exact .plain (hskip.trans hrest)
    | @candidate u t o k hrest hrestores =>
      rw [← append_assoc, ← append_assoc] at *
      exact .candidate (hskip.trans hrest) hrestores
  | @candidate u t o k hnext hrestores ih =>
    obtain ⟨hwhole, hresume, -⟩ := hcut.of_candidate hnext
    obtain ⟨-, hle⟩ := resume_le (nextCandidate_eq_some hnext).1
    have hafter := ih (hcut.after hnext)
    rw [← drop_append_of_le_length hle, hresume] at hafter
    have hreplacement : c.replacement t = c.replacement (t ++ rest) :=
      replacement_within (nextCandidate_eq_some hwhole).1 (hresume ▸ hle) c
    have hall := Restores.candidate hwhole hafter
    rw [← hreplacement] at hall
    simpa only [append_assoc, Nat.add_right_comm] using hall

theorem Reached.append {t : Bytes} (h : Reached rest t) (hcut : CleanCut x rest) :
    Reached (x ++ rest) t := by
  induction x using scan_induction with
  | plain x hnone =>
    have hskip := hcut.of_plain hnone
    cases h with
    | here hrest => exact .here (hskip.trans hrest)
    | later hrest hlater => exact .later (hskip.trans hrest) hlater
  | candidate u y hnext ih =>
    obtain ⟨-, hle⟩ := resume_le (nextCandidate_eq_some hnext).1
    obtain ⟨hwhole, hresume, -⟩ := hcut.of_candidate hnext
    rw [append_assoc]
    refine .later hwhole ?_
    rw [← hresume, drop_append_of_le_length hle]
    exact ih (hcut.after hnext)

theorem Reached.split {t : Bytes} (h : Reached (x ++ rest) t) (hcut : CleanCut x rest) :
    (∃ y, Reached x y ∧ t = y ++ rest) ∨ Reached rest t := by
  induction x using scan_induction with
  | plain x hnone =>
    have hskip := hcut.of_plain hnone
    cases h with
    | here hwhole => exact .inr (.here (hskip.symm.trans hwhole))
    | later hwhole hlater => exact .inr (.later (hskip.symm.trans hwhole) hlater)
  | candidate u y hnext ih =>
    obtain ⟨-, hle⟩ := resume_le (nextCandidate_eq_some hnext).1
    obtain ⟨hwhole, hresume, -⟩ := hcut.of_candidate hnext
    rw [append_assoc] at h
    cases h with
    | here hsame =>
      rw [hwhole] at hsame
      exact .inl ⟨y, .here hnext, (Option.some.inj hsame).symm⟩
    | later hsame hlater =>
      rw [hwhole] at hsame
      cases hsame
      rw [← hresume, drop_append_of_le_length hle] at hlater
      rcases ih hlater (hcut.after hnext) with ⟨z, hz, rfl⟩ | hrest
      · exact .inl ⟨z, .later hnext hz, rfl⟩
      · exact .inr hrest

end Cuts

section Unchanged

variable {c : RedactionCipher}

theorem Restores.unchanged {x o : Bytes} {k : Nat} (h : Restores c x o k)
    (hnone : ∀ t, Reached x t → c.authentic t = none) : o = x := by
  induction h with
  | plain _ => rfl
  | @candidate u t o k hnext _ ih =>
    have ho : o = t.drop (resume t) := ih fun t' ht' => hnone t' (.later hnext ht')
    rw [RedactionCipher.replacement, hnone t (.here hnext), ho, Option.getD_none, take_append_drop]

/-- The plaintext of a token is shorter than the token. -/
def RedactionCipher.Shortens (c : RedactionCipher) : Prop :=
  ∀ start body plaintext, c.decrypt start body = some plaintext →
    plaintext.length < start.length + body.length

theorem RedactionCipher.Shortens.authentic (hshort : c.Shortens) {t plaintext : Bytes}
    (hfound : (parseRedactionCandidate t).found = true)
    (h : c.authentic t = some plaintext) : plaintext.length < resume t := by
  obtain ⟨digits, text, hdigits, rfl⟩ := found_iff.mp hfound
  rw [authentic_header hdigits] at h
  split at h
  · rename_i hcomplete
    have hlength := hshort _ _ _ h
    rw [resume_header hdigits, passed, if_neg hcomplete.1]
    rwa [take_of_complete hcomplete.2.2] at hlength
  · cases h

theorem Restores.not_authentic (hshort : c.Shortens) {x o : Bytes} {k : Nat}
    (h : Restores c x o k) :
    o.length ≤ x.length ∧ (x.length ≤ o.length → ∀ t, Reached x t → c.authentic t = none) := by
  induction h with
  | plain hnone =>
    refine ⟨le_rfl, fun _ t ht => ?_⟩
    cases ht with
    | here hnext | later hnext _ => rw [hnone] at hnext; cases hnext
  | @candidate u t o k hnext _ ih =>
    obtain ⟨hfound, -⟩ := nextCandidate_eq_some hnext
    obtain ⟨-, hle⟩ := resume_le hfound
    obtain ⟨hlength, hkeeps⟩ := ih
    rw [length_drop] at hlength hkeeps
    have hreplacement : (c.replacement t).length ≤ resume t ∧
        (resume t ≤ (c.replacement t).length → c.authentic t = none) := by
      unfold RedactionCipher.replacement
      cases hplain : c.authentic t with
      | none =>
        rw [Option.getD_none, length_take]
        exact ⟨Nat.min_le_left _ _, fun _ => rfl⟩
      | some plaintext =>
        have hshorter := hshort.authentic hfound hplain
        exact ⟨hshorter.le, fun hge => absurd hshorter (Nat.not_lt.mpr hge)⟩
    simp only [length_append]
    refine ⟨by omega, fun hge t' ht' => ?_⟩
    cases ht' with
    | here hsame =>
      obtain rfl := Option.some.inj (hnext.symm.trans hsame)
      exact hreplacement.2 (by omega)
    | later hsame hlater =>
      obtain rfl := Option.some.inj (hnext.symm.trans hsame)
      exact hkeeps (by omega) t' hlater

theorem Restores.unique {x o o' : Bytes} {k k' : Nat} (h : Restores c x o k)
    (h' : Restores c x o' k') : o = o' ∧ k = k' := by
  induction h generalizing o' k' with
  | plain hnone =>
    cases h' with
    | plain _ => exact ⟨rfl, rfl⟩
    | candidate hnext _ => rw [hnone] at hnext; cases hnext
  | @candidate u t o k hnext _ ih =>
    generalize hx : u ++ t = x at h' hnext
    cases h' with
    | plain hnone => rw [hnone] at hnext; cases hnext
    | @candidate u' t' o' k' hnext' hrestores' =>
      obtain rfl := Option.some.inj (hnext.symm.trans hnext')
      obtain rfl := append_cancel_right hx
      obtain ⟨rfl, rfl⟩ := ih hrestores'
      exact ⟨rfl, rfl⟩

theorem Restores.split {x rest o : Bytes} {k : Nat} (h : Restores c (x ++ rest) o k)
    (hcut : CleanCut x rest) :
    ∃ o₁ k₁ o₂ k₂, Restores c x o₁ k₁ ∧ Restores c rest o₂ k₂ ∧ o = o₁ ++ o₂ ∧ k = k₁ + k₂ := by
  obtain ⟨o₁, k₁, hfirst⟩ := Restores.total c x
  obtain ⟨o₂, k₂, hsecond⟩ := Restores.total c rest
  exact ⟨o₁, k₁, o₂, k₂, hfirst, hsecond, h.unique (hfirst.append hsecond hcut)⟩

end Unchanged

section Boundaries

theorem header_alphabet {digits : Bytes} (h : IsLength digits) :
    (header digits).all redactionBase64URLByte = true := by
  have hdigits : digits.all redactionBase64URLByte = true := by
    rw [all_eq_true]
    intro d hd
    have hdigit := all_eq_true.mp h.all d hd
    simp only [isDigit, redactionBase64URLByte] at hdigit ⊢
    simp [hdigit]
  unfold header
  rw [all_append, all_append, hdigits]
  decide

/-- A text ends, or goes on with a byte outside the alphabet of a body. -/
def Breaks (rest : Bytes) : Prop := ∀ b ∈ rest.head?, redactionBase64URLByte b = false

theorem Breaks.length_le {p x rest : Bytes} (hbreaks : Breaks rest) (hp : p <+: x ++ rest)
    (hall : p.all redactionBase64URLByte = true) : p.length ≤ x.length := by
  cases rest with
  | nil =>
    rw [append_nil] at hp
    exact hp.length_le
  | cons b rest =>
    by_contra hlong
    rw [not_le] at hlong
    have hstart : x ++ [b] <+: x ++ b :: rest := by
      rw [prefix_append_right_inj]
      exact cons_prefix_cons.mpr ⟨rfl, nil_prefix⟩
    have hinside : x ++ [b] <+: p :=
      prefix_of_prefix_length_le hstart hp (by rw [length_append]; exact hlong)
    have hb : b ∈ p := hinside.subset (mem_append_right _ (.head _))
    have hbyte := all_eq_true.mp hall b hb
    rw [hbreaks b rfl] at hbyte
    cases hbyte

theorem take_resume_alphabet {t : Bytes} (h : (parseRedactionCandidate t).found = true) :
    (t.take (resume t)).all redactionBase64URLByte = true := by
  obtain ⟨digits, text, hdigits, rfl⟩ := found_iff.mp h
  rw [resume_header hdigits, take_length_add_append, all_append, header_alphabet hdigits]
  unfold passed
  split
  · rfl
  · rw [← prefix_iff_eq_take.mp (collect_start _ text)]
    exact all_takeWhile

theorem Breaks.cleanCut {rest : Bytes} (hbreaks : Breaks rest) (x : Bytes) : CleanCut x rest := by
  intro t ht hinside
  obtain ⟨y, rfl⟩ : rest <:+ t :=
    suffix_of_suffix_length_le (suffix_append x rest) ht.suffix hinside.le
  have hle := hbreaks.length_le ( take_prefix (resume (y ++ rest)) (y ++ rest))
    (take_resume_alphabet ht.found)
  obtain ⟨-, hresume⟩ := resume_le ht.found
  rw [length_take] at hle
  rw [length_append]
  omega

end Boundaries

end EchoJoyGateway.Redaction
