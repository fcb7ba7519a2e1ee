import EchoJoyGateway.Redaction.Streaming

/-!
# When the stream agrees with the whole text

The stream takes declared lengths up to its own limit, `RestoreText` only up to the
longest body it can encode. A length in between makes the stream collect a body that
`RestoreText` scans for candidates.
-/

namespace EchoJoyGateway.Redaction

open Search RedactionTokenStream List

/-- How many candidates a text has, wherever they stand. -/
def candidates (text : Bytes) : Nat :=
  text.tails.countP fun tail => (parseRedactionCandidate tail).found

/-- After every header that the scan comes to and whose length only the stream takes,
what the stream collects has no authentic candidate and none that goes beyond it. -/
def Undisturbed (c : RedactionCipher) (s : Bytes) : Prop :=
  ∀ digits body, IsLength digits → Disputed digits → Reached s (header digits ++ body) →
    CleanCut (collect (declared digits) body)
        (body.drop (collect (declared digits) body).length) ∧
      ∀ t, Reached (collect (declared digits) body) t → c.authentic t = none

/-- Every way of cutting the text into pieces writes what restoring the text gives. -/
def Agrees (c : RedactionCipher) (s : Bytes) : Prop :=
  ∃ o, c.restoreText s = .ok o ∧
    ∀ chunks : List Bytes, chunks.flatten = s → streamText c.restoreText {} [] chunks = .ok o

variable {c : RedactionCipher}

section Counting

theorem candidates_cons (b : UInt8) (text : Bytes) :
    candidates (b :: text) =
      candidates text + if (parseRedactionCandidate (b :: text)).found then 1 else 0 := by
  unfold candidates
  rw [tails_cons, countP_cons]

theorem candidates_le_append (u text : Bytes) : candidates text ≤ candidates (u ++ text) := by
  induction u with
  | nil => exact le_rfl
  | cons b u ih =>
    rw [cons_append, candidates_cons]
    omega

theorem Restores.le_candidates {s o : Bytes} {k : Nat} (h : Restores c s o k) :
    k ≤ candidates s := by
  induction h with
  | plain _ => exact Nat.zero_le _
  | @candidate u t o k hnext _ ih =>
    obtain ⟨hfound, -⟩ := nextCandidate_eq_some hnext
    obtain ⟨hpos, hle⟩ := resume_le hfound
    refine le_trans ?_ (candidates_le_append u t)
    cases t with
    | nil => exact absurd hfound (by decide)
    | cons b t =>
      obtain ⟨n, hn⟩ : ∃ n, resume (b :: t) = n + 1 := ⟨resume (b :: t) - 1, by omega⟩
      rw [hn, drop_succ_cons] at ih
      have hmore := candidates_le_append (t.take n) (t.drop n)
      rw [take_append_drop] at hmore
      rw [candidates_cons, hfound, if_pos rfl]
      omega

end Counting

section Sufficient

theorem Undisturbed.after {u t : Bytes} (h : Undisturbed c (u ++ t))
    (hnext : nextCandidate (u ++ t) = some t) : Undisturbed c (t.drop (resume t)) :=
  fun digits body hdigits hdisputed hreached =>
    h digits body hdigits hdisputed (.later hnext hreached)

theorem drop_resume_disputed {digits : Bytes} (hdigits : IsLength digits)
    (hdisputed : Disputed digits) (body : Bytes) :
    (header digits ++ body).drop (resume (header digits ++ body)) = body := by
  rw [resume_header hdigits, passed, if_pos hdisputed.1, Nat.add_zero, drop_left]

theorem drain_of_undisturbed {s o out : Bytes} {k : Nat} {token : RedactionTokenStream}
    (hrestores : Restores c s o k) (hk : k ≤ maxRedactionTokensPerText)
    (hroom : s.length ≤ token.pendingLimit) (h : Undisturbed c s) :
    drain c.restoreText token.reset out s = .ok (out ++ o) := by
  induction hn : s.length using Nat.strong_induction_on generalizing s o k out token with
  | _ n ih =>
    cases hrestores with
    | plain hnone => exact (drain_idle s hroom).1 hnone
    | @candidate u t o k hnext hrest =>
      obtain ⟨hfound, -⟩ := nextCandidate_eq_some hnext
      obtain ⟨hpos, hle⟩ := resume_le hfound
      obtain ⟨digits, body, hdigits, rfl⟩ := found_iff.mp hfound
      by_cases hdisputed : Disputed digits
      · obtain ⟨hcut, hnone⟩ := h digits body hdigits hdisputed (.here hnext)
        rw [drop_resume_disputed hdigits hdisputed, ← collect_append_drop (declared digits) body]
          at hrest
        obtain ⟨o₁, k₁, o₂, k₂, hpiece, hafter, rfl, rfl⟩ := hrest.split hcut
        have hsame := hpiece.unchanged hnone
        obtain ⟨changed, hstep⟩ := (@drain_usable token out c digits u body _ _ hdigits hnext hroom
          hdisputed.2 (restores_unusable hdigits hdisputed.1 hpiece) (by omega)).1
          (.inr (congrArg _ hsame))
        have hlength := length_header digits
        simp only [length_append] at hn hroom
        rw [hstep, ih _ (by rw [length_drop]; omega) hafter (by omega)
          (by rw [length_drop]; exact le_trans (by omega) hroom) ?_ rfl,
          replacement_unusable hdigits hdisputed.1]
        · simp only [append_assoc]
        · intro digits' body' hdigits' hdisputed' hreached
          have hlater := hreached.append hcut
          rw [collect_append_drop] at hlater
          refine h digits' body' hdigits' hdisputed' (.later hnext ?_)
          rwa [drop_resume_disputed hdigits hdisputed]
      · obtain ⟨changed, hstep⟩ := @drain_candidate token out c digits u body hdigits hnext hroom
          hdisputed
        rw [length_append] at hn hroom
        rw [hstep, ih _ (by rw [length_drop]; omega) hrest (by omega)
          (by rw [length_drop]; exact le_trans (by omega) hroom) (h.after hnext) rfl]
        simp only [append_assoc]

end Sufficient

section Necessary

theorem Reached.trans {s t t' : Bytes} (h : Reached s t) (h' : Reached (t.drop (resume t)) t') :
    Reached s t' := by
  induction h with
  | here hnext => exact .later hnext h'
  | later hnext _ ih => exact .later hnext (ih h')

theorem breaks_of_incomplete {n : Nat} {text : Bytes} (h : (collect n text).length ≠ n) :
    Breaks (text.drop (collect n text).length) := by
  induction text generalizing n with
  | nil =>
    intro b hb
    rw [drop_nil] at hb
    cases hb
  | cons x text ih =>
    cases n with
    | zero => exact absurd (Nat.le_zero.mp (length_collect_le 0 (x :: text))) h
    | succ n =>
      cases hx : redactionBase64URLByte x with
      | true =>
        rw [collect_cons_of_mem hx] at h ⊢
        exact ih fun hlength => h (congrArg (· + 1) hlength)
      | false =>
        rw [collect_cons_of_not_mem hx]
        intro b hb
        cases hb
        exact hx

theorem collect_alphabet (n : Nat) (text : Bytes) :
    (collect n text).all redactionBase64URLByte = true := all_takeWhile

theorem collect_of_breaks {n : Nat} {x rest : Bytes} (hall : x.all redactionBase64URLByte = true)
    (hlength : x.length < n) (hbreaks : Breaks rest) : collect n (x ++ rest) = x := by
  have hshort : (collect n (x ++ rest)).length ≤ x.length :=
    hbreaks.length_le (collect_start n _) (collect_alphabet n _)
  rw [collect_append_of_le hshort]
  unfold collect
  rw [take_of_length_le hlength.le, takeWhile_eq_self_iff.mpr (all_eq_true.mp hall)]

theorem Disputed.lt_declared {digits : Bytes} (h : Disputed digits) :
    maxEncodedLen < declared digits := by
  rcases h.1 with hlong | hzero
  · exact hlong
  · exact absurd (.inr hzero) h.2

theorem undisturbed_within {x rest : Bytes} (hall : x.all redactionBase64URLByte = true)
    (hbreaks : Breaks rest) (hlength : x.length ≤ maxEncodedLen)
    (hnone : ∀ t, Reached x t → c.authentic t = none) (hrest : Undisturbed c rest) :
    Undisturbed c (x ++ rest) := by
  intro digits body hdigits hdisputed hreached
  rcases hreached.split (hbreaks.cleanCut x) with ⟨y, hy, heq⟩ | hlater
  · obtain ⟨digits', body', hdigits', rfl⟩ := found_iff.mp hy.found
    rw [append_assoc] at heq
    obtain ⟨rfl, rfl⟩ := header_inj hdigits hdigits' heq
    have hlong := hdisputed.lt_declared
    obtain ⟨v, rfl⟩ := hy.suffix
    rw [all_append, all_append, Bool.and_eq_true, Bool.and_eq_true] at hall
    simp only [length_append] at hlength
    rw [collect_of_breaks hall.2.2 (by omega) hbreaks, drop_left]
    refine ⟨hbreaks.cleanCut body', fun t ht => hnone t (hy.trans ?_)⟩
    rwa [drop_resume_disputed hdigits hdisputed]
  · exact hrest digits body hdigits hdisputed hlater


theorem undisturbed_of_drain (hshort : c.Shortens) {s o out written : Bytes} {k : Nat}
    {token : RedactionTokenStream} (hrestores : Restores c s o k)
    (hk : k ≤ maxRedactionTokensPerText) (hroom : s.length ≤ token.pendingLimit)
    (hlength : s.length ≤ maxEncodedLen)
    (h : drain c.restoreText token.reset out s = .ok written) : Undisturbed c s := by
  induction hn : s.length using Nat.strong_induction_on generalizing s o k out token with
  | _ n ih =>
    cases hrestores with
    | plain hnone =>
      intro digits body _ _ hreached
      cases hreached with
      | here hnext => rw [hnone] at hnext; cases hnext
      | later hnext _ => rw [hnone] at hnext; cases hnext
    | @candidate u t o k hnext hrest =>
      obtain ⟨hfound, -⟩ := nextCandidate_eq_some hnext
      obtain ⟨hpos, hle⟩ := resume_le hfound
      obtain ⟨digits, body, hdigits, rfl⟩ := found_iff.mp hfound
      by_cases hdisputed : Disputed digits
      · have hlong := hdisputed.lt_declared
        have hstart := (collect_start (declared digits) body).length_le
        have hlengths := hlength
        have hlengthHeader := length_header digits
        simp only [length_append] at hn hlengths
        have hincomplete : (collect (declared digits) body).length ≠ declared digits := by omega
        have hbreaks := breaks_of_incomplete hincomplete
        rw [drop_resume_disputed hdigits hdisputed, ← collect_append_drop (declared digits) body]
          at hrest
        obtain ⟨o₁, k₁, o₂, k₂, hpiece, hafter, rfl, rfl⟩ := hrest.split (hbreaks.cleanCut _)
        obtain ⟨hgoes, hfails⟩ := @drain_usable token out c digits u body _ _ hdigits hnext hroom
          hdisputed.2 (restores_unusable hdigits hdisputed.1 hpiece) (by omega)
        have hsame : o₁ = collect (declared digits) body := by
          by_contra hchanged
          rw [hfails hincomplete fun heq => hchanged (append_cancel_left heq)] at h
          cases h
        obtain ⟨changed, hstep⟩ := hgoes (.inr (congrArg _ hsame))
        rw [hstep] at h
        have hnone := (hpiece.not_authentic hshort).2 (by rw [hsame])
        have hshorter : (body.drop (collect (declared digits) body).length).length ≤
            body.length := by
          rw [length_drop]
          exact Nat.sub_le _ _
        have hfits : (body.drop (collect (declared digits) body).length).length ≤
            { token with changed := changed }.pendingLimit :=
          le_trans (by simp only [length_append]; omega) hroom
        have hrestUndisturbed := ih _ (by omega) hafter (by omega) hfits (by omega) h rfl
        have hbody := undisturbed_within (collect_alphabet (declared digits) body) hbreaks
          (by omega) hnone hrestUndisturbed
        rw [collect_append_drop] at hbody
        intro digits' body' hdigits' hdisputed' hreached
        cases hreached with
        | here hfirst =>
          obtain ⟨rfl, rfl⟩ := header_inj hdigits hdigits'
            (Option.some.inj (hnext.symm.trans hfirst))
          exact ⟨hbreaks.cleanCut _, hnone⟩
        | later hfirst hlater =>
          obtain rfl := Option.some.inj (hnext.symm.trans hfirst)
          rw [drop_resume_disputed hdigits hdisputed] at hlater
          exact hbody digits' body' hdigits' hdisputed' hlater
      · obtain ⟨changed, hstep⟩ := @drain_candidate token out c digits u body hdigits hnext hroom
          hdisputed
        rw [hstep] at h
        rw [length_append] at hn hroom hlength
        have hafter := ih _ (by rw [length_drop]; omega) hrest (by omega)
          (by rw [length_drop]; exact le_trans (by omega) hroom)
          (by rw [length_drop]; omega) h rfl
        intro digits' body' hdigits' hdisputed' hreached
        cases hreached with
        | here hsame =>
          obtain ⟨rfl, -⟩ := header_inj hdigits hdigits' (Option.some.inj (hnext.symm.trans hsame))
          exact absurd hdisputed' hdisputed
        | later hsame hlater =>
          obtain rfl := Option.some.inj (hnext.symm.trans hsame)
          exact hafter digits' body' hdigits' hdisputed' hlater

end Necessary

/-- Pushing a text in pieces writes what restoring the whole text gives if the text is
undisturbed; up to the longest body that `RestoreText` reads, only then. -/
theorem streamText_agrees (c : RedactionCipher) (s : Bytes)
    (hroom : s.length < maxRedactionStreamPendingBytes)
    (hcandidates : candidates s ≤ maxRedactionTokensPerText) :
    (Undisturbed c s → Agrees c s) ∧
      (c.Shortens → s.length ≤ maxEncodedLen → Agrees c s → Undisturbed c s) := by
  obtain ⟨o, k, hrestores⟩ := Restores.total c s
  have hk := hrestores.le_candidates.trans hcandidates
  have hlimit : ({} : RedactionTokenStream).pendingLimit = maxRedactionStreamPendingBytes := rfl
  have hstream : ∀ chunks : List Bytes, chunks.flatten = s →
      streamText c.restoreText {} [] chunks =
        drain c.restoreText ({} : RedactionTokenStream).reset [] s := by
    rintro chunks rfl
    exact streamText_eq_drain (.idle {}) (by
      change 0 + chunks.flatten.length ≤ _
      omega)
  constructor
  · intro hundisturbed
    refine ⟨o, restoreText_of_restores c hrestores hk, fun chunks hchunks => ?_⟩
    rw [hstream chunks hchunks, drain_of_undisturbed hrestores hk (by omega) hundisturbed,
      nil_append]
  · rintro hshort hlength ⟨o', -, hwritten⟩
    have hone := hwritten [s] (by rw [flatten_singleton])
    rw [hstream [s] (by rw [flatten_singleton])] at hone
    exact undisturbed_of_drain hshort hrestores hk (by omega) hlength hone

section Samples

/-- Decrypts one body. -/
def sampleCipher : RedactionCipher where
  decrypt _ body := if body = List.replicate 22 65 then some [104, 105] else none

/-- A token of the sample cipher, with 22 for its length. -/
def sampleToken : Bytes := header [50, 50] ++ List.replicate 22 65

/-- The token after a header that declares thirty million. -/
def disputedText : Bytes := header [51, 48, 48, 48, 48, 48, 48, 48] ++ sampleToken

theorem streamText_agrees_sampleToken :
    sampleToken.length < maxRedactionStreamPendingBytes ∧
      candidates sampleToken ≤ maxRedactionTokensPerText ∧ Agrees sampleCipher sampleToken := by
  have hroom : sampleToken.length < maxRedactionStreamPendingBytes := by decide
  have hcandidates : candidates sampleToken ≤ maxRedactionTokensPerText := by decide +kernel
  refine ⟨hroom, hcandidates, (streamText_agrees sampleCipher sampleToken hroom hcandidates).1 ?_⟩
  have hnext : nextCandidate sampleToken = some sampleToken := by decide +kernel
  have hrest : nextCandidate (sampleToken.drop (resume sampleToken)) = none := by decide +kernel
  have hdigits : IsLength [50, 50] := ⟨by decide, by decide⟩
  intro digits body hlength hdisputed hreached
  cases hreached with
  | here hfirst =>
    obtain ⟨rfl, -⟩ := header_inj hdigits hlength (Option.some.inj (hnext.symm.trans hfirst))
    exact absurd hdisputed.lt_declared (by decide)
  | later hfirst hlater =>
    obtain rfl := Option.some.inj (hnext.symm.trans hfirst)
    cases hlater with
    | here hnone => rw [hrest] at hnone; cases hnone
    | later hnone _ => rw [hrest] at hnone; cases hnone

theorem stream_fails_on_disputedText :
    disputedText.length < maxRedactionStreamPendingBytes ∧
      candidates disputedText ≤ maxRedactionTokensPerText ∧
      sampleCipher.restoreText disputedText =
        .ok (header [51, 48, 48, 48, 48, 48, 48, 48] ++ [104, 105]) ∧
      streamText sampleCipher.restoreText {} [] [disputedText] = .error .errRedactionStream := by
  refine ⟨by decide, by decide +kernel, ?_, ?_⟩
  · decide +kernel
  · decide +kernel

end Samples

end EchoJoyGateway.Redaction
