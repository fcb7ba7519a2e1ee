import EchoJoyGateway.Redaction.Automaton
import EchoJoyGateway.Redaction.Restoring

/-!
# A streamed text against the whole text

Pushing a text in pieces writes what restoring the whole text gives, unless a
candidate declares a length that the stream takes and `RestoreText` refuses: the
stream then collects as a body what `RestoreText` goes on scanning.
-/

namespace EchoJoyGateway.Redaction

open Search RedactionTokenStream List

variable {restore : Restore} {token : RedactionTokenStream} {out : Bytes}

section Draining

def drain (restore : Restore) (token : RedactionTokenStream) (out text : Bytes) :
    Except StreamError Bytes :=
  match token.run restore out text with
  | .error e => .error e
  | .ok (token, out) =>
    match token.finish restore with
    | .error e => .error e
    | .ok tail => .ok (out ++ tail)

variable {token' : RedactionTokenStream}

theorem drain_of_run {out' text text' : Bytes}
    (h : token.run restore out text = token'.run restore out' text') :
    drain restore token out text = drain restore token' out' text' := by
  unfold drain
  rw [h]

theorem run_append (x y : Bytes) :
    token.run restore out (x ++ y) =
      match token.run restore out x with
      | .error e => .error e
      | .ok (token, out) => token.run restore out y := by
  induction x generalizing token out with
  | nil => rfl
  | cons b x ih =>
    rw [cons_append, run, run]
    cases token.pushUnit restore none [b] [b] out with
    | error e => rfl
    | ok pair => exact ih

theorem run_state {text out' : Bytes} (hstate : token.State)
    (hroom : token.raw.length + text.length ≤ token.pendingLimit)
    (h : token.run restore out text = .ok (token', out')) :
    token'.State ∧ token'.raw.length ≤ token.raw.length + text.length ∧
      token'.pendingLimit = token.pendingLimit := by
  induction text generalizing token out with
  | nil =>
    cases h
    exact ⟨hstate, le_rfl, rfl⟩
  | cons b text ih =>
    rw [length_cons] at hroom ⊢
    rw [run] at h
    cases hpush : token.pushUnit restore none [b] [b] out with
    | error e => rw [hpush] at h; cases h
    | ok pair =>
      obtain ⟨token₁, out₁⟩ := pair
      rw [hpush] at h
      have hnext := hstate.next (by omega) hpush
      have hlength := hnext.length
      have hlimit : token₁.pendingLimit = token.pendingLimit := by
        unfold pendingLimit
        rw [hnext.limit]
      obtain ⟨hstate', hlength', hlimit'⟩ := ih hnext.state (hnext.room hroom) h
      exact ⟨hstate', by omega, hlimit'.trans hlimit⟩

theorem streamText_eq_drain {chunks : List Bytes} (hstate : token.State)
    (hroom : token.raw.length + chunks.flatten.length ≤ token.pendingLimit) :
    streamText restore token out chunks = drain restore token out chunks.flatten := by
  induction chunks generalizing token out with
  | nil => rfl
  | cons chunk chunks ih =>
    rw [flatten_cons, length_append] at hroom
    rw [streamText, pushString_eq_run hstate (by omega), flatten_cons, drain, run_append]
    cases hrun : token.run restore out chunk with
    | error e => rfl
    | ok pair =>
      obtain ⟨hstate₁, hlength, hlimit⟩ := run_state hstate (by omega) hrun
      exact ih hstate₁ (by omega)

end Draining

section Headers

theorem run_digits (digits rest : Bytes) {before : Bytes} (hall : digits.all isDigit = true)
    (hroom : redactionTokenPrefix.length + before.length + digits.length ≤ token.pendingLimit) :
    (token.headerState before).run restore out (digits ++ rest) =
      (token.headerState (before ++ digits)).run restore out rest := by
  induction digits generalizing before with
  | nil => rw [nil_append, append_nil]
  | cons d digits ih =>
    rw [all_cons, Bool.and_eq_true] at hall
    rw [length_cons] at hroom
    rw [cons_append, run_cons restore _ _ _ (push_header_digit hall.1 (by omega)),
      ih hall.2 (by rw [length_append, length_singleton]; omega), append_assoc,
      singleton_append]

variable {digits : Bytes}

theorem nextCandidate_digits (hall : digits.all isDigit = true) (rest : Bytes) :
    nextCandidate (digits ++ rest) = nextCandidate rest := by
  refine nextCandidate_append fun j hj => not_found_of_not_starts fun hstart => ?_
  rw [drop_append_of_le_length hj.le, drop_eq_getElem_cons hj] at hstart
  have hfirst : (103 : UInt8) = digits[j] := (cons_prefix_cons.mp hstart).1
  have hdigit := all_eq_true.mp hall _ (getElem_mem hj)
  rw [← hfirst] at hdigit
  exact absurd hdigit (by decide)

theorem not_found_headless {rest : Bytes} (hall : digits.all isDigit = true)
    (hrest : ∀ b ∈ rest.head?, isDigit b = false ∧ ¬ (b = underscore ∧ digits ≠ [])) :
    (parseRedactionCandidate (redactionTokenPrefix ++ (digits ++ rest))).found = false := by
  rw [Bool.eq_false_iff]
  intro hfound
  obtain ⟨digits', rest', hdigits', htext⟩ := found_iff.mp hfound
  rw [header_append] at htext
  have htail := append_cancel_left htext
  obtain ⟨htake, hdrop⟩ := span_digits hdigits'.all rest'
  have hmem : ∀ d ∈ digits, isDigit d = true := all_eq_true.mp hall
  cases rest with
  | nil =>
    have hunderscore : underscore ∈ digits := by
      rw [append_nil] at htail
      rw [htail]
      exact mem_append_right _ (.head _)
    exact absurd (hmem _ hunderscore) (by decide)
  | cons b rest =>
    obtain ⟨hb, hend⟩ := hrest b rfl
    rw [← htail, takeWhile_append_of_pos hmem, takeWhile_cons, hb] at htake
    rw [← htail, dropWhile_append_of_pos hmem, dropWhile_cons, hb] at hdrop
    rw [if_neg Bool.false_ne_true, append_nil] at htake
    refine hend ⟨(List.cons.inj hdrop).1, ?_⟩
    rw [htake]
    exact hdigits'.nonempty

def drainAfter (restore : Restore) (token : RedactionTokenStream) (digits out body : Bytes) :
    Except StreamError Bytes :=
  if Unusable maxRedactionStreamPendingBytes digits then
    match keepText restore (header digits) out with
    | .error e => .error e
    | .ok out => drain restore token.reset out body
  else drain restore (token.bodyState digits []) out body

theorem drain_header (hdigits : IsLength digits) (body : Bytes)
    (hroom : (header digits).length ≤ token.pendingLimit) :
    drain restore (token.headerState digits) out (underscore :: body) =
      drainAfter restore token digits out body := by
  unfold drain drainAfter
  rw [run, push_header_end hdigits hroom]
  by_cases hunusable : Unusable maxRedactionStreamPendingBytes digits
  · rw [if_pos hunusable, if_pos hunusable]
    cases keepText restore (header digits) out with
    | error e => rfl
    | ok out => rfl
  · rw [if_neg hunusable, if_neg hunusable]
    rfl

theorem drain_headless {rest : Bytes}
    (hrest : ∀ b ∈ rest.head?, isDigit b = false ∧ ¬ (b = underscore ∧ digits ≠ [])) :
    drain restore (token.headerState digits) out rest =
      drain restore token.reset (out ++ (redactionTokenPrefix ++ digits)) rest := by
  cases rest with
  | nil =>
    change Except.ok (out ++ (redactionTokenPrefix ++ digits)) =
      .ok (out ++ (redactionTokenPrefix ++ digits) ++ [])
    rw [append_nil]
  | cons b rest =>
    obtain ⟨hb, hend⟩ := hrest b rfl
    apply drain_of_run
    rw [run, run, push_header_flush hb hend]

theorem header_inj {digits' body body' : Bytes} (h : IsLength digits) (h' : IsLength digits')
    (heq : header digits ++ body = header digits' ++ body') :
    digits = digits' ∧ body = body' := by
  rw [header_append, header_append] at heq
  have htail := append_cancel_left heq
  have htake := (span_digits h.all body).1
  have hdrop := (span_digits h.all body).2
  rw [htail, (span_digits h'.all body').1] at htake
  rw [htail, (span_digits h'.all body').2] at hdrop
  exact ⟨htake.symm, (List.cons.inj hdrop).2.symm⟩

theorem drain_of_index_none {text : Bytes} (hindex : index redactionTokenPrefix text = none)
    (hroom : text.length ≤ token.pendingLimit) :
    drain restore token.reset out text = .ok (out ++ text) := by
  generalize hheld : heldBack redactionTokenPrefix text
    (min (redactionTokenPrefix.length - 1) text.length) = k
  have hk : k ≤ min (redactionTokenPrefix.length - 1) text.length := by
    rw [← hheld]
    exact heldBack_le _
  have hsuffix : redactionTokenPrefix.take k <:+ text := by
    rw [← hheld]
    exact heldBack_suffix _
  have hlength : (redactionTokenPrefix.take k).length = k := by
    rw [length_take]
    omega
  have hdrop : text.drop (text.length - k) = redactionTokenPrefix.take k := by
    rw [suffix_iff_eq_drop.mp hsuffix, hlength]
  rw [drain_of_run (run_held hindex hroom (text.length - k) (by rw [hheld])), hdrop,
    ← append_nil (redactionTokenPrefix.take k),
    drain_of_run (run_prefixState restore token _ (by omega) [] (by omega))]
  change Except.ok (out ++ text.take (text.length - k) ++ redactionTokenPrefix.take k) = _
  rw [← hdrop, append_assoc, take_append_drop]

theorem drain_idle (text : Bytes) (hroom : text.length ≤ token.pendingLimit) :
    (nextCandidate text = none → drain restore token.reset out text = .ok (out ++ text)) ∧
    (∀ u digits body, text = u ++ (header digits ++ body) → IsLength digits →
      nextCandidate text = some (header digits ++ body) →
      drain restore token.reset out text = drainAfter restore token digits (out ++ u) body) := by
  induction hn : text.length using Nat.strong_induction_on generalizing text out with
  | _ n ih =>
    cases hindex : index redactionTokenPrefix text with
    | none =>
      refine ⟨fun _ => drain_of_index_none hindex hroom, fun u digits body _ _ hnext => ?_⟩
      rw [nextCandidate_of_index_none hindex] at hnext
      cases hnext
    | some i =>
      obtain ⟨⟨tail, htail⟩, -⟩ := index_eq_some hindex
      have htext : text = text.take i ++ (redactionTokenPrefix ++ tail) := by
        rw [htail, take_append_drop]
      have hscan : nextCandidate text = nextCandidate (redactionTokenPrefix ++ tail) := by
        rw [nextCandidate_of_index hindex, htail]
      obtain ⟨digits, rest, rfl, hall, hrest⟩ : ∃ digits rest, tail = digits ++ rest ∧
          digits.all isDigit = true ∧ ∀ b ∈ rest.head?, isDigit b = false :=
        ⟨tail.takeWhile isDigit, tail.dropWhile isDigit, takeWhile_append_dropWhile.symm,
          all_takeWhile, fun b hb => by
            exact Bool.eq_false_iff.mpr fun hdigit => by
              have hnot := head?_dropWhile_not isDigit tail
              rw [hb] at hnot
              exact absurd hdigit (Bool.eq_false_iff.mp hnot)⟩
      have hlength := congrArg List.length htext
      simp only [length_append] at hlength
      have hrun : drain restore token.reset out text =
          drain restore (token.headerState digits) (out ++ text.take i) rest := by
        apply drain_of_run
        rw [run_index hindex hroom, ← drop_drop, ← htail, drop_left,
          run_digits digits rest hall (by rw [length_nil]; omega), nil_append]
      generalize text.take i = before at htext hrun hlength
      by_cases hend : rest.head? = some underscore ∧ digits ≠ []
      · obtain ⟨hhead, hnonempty⟩ := hend
        obtain ⟨body, rfl⟩ := head?_eq_some_iff.mp hhead
        have hdigits : IsLength digits := ⟨hnonempty, hall⟩
        rw [← header_append] at htext hscan
        rw [nextCandidate_of_found (found_iff.mpr ⟨digits, body, hdigits, rfl⟩)] at hscan
        refine ⟨fun hnone => ?_, fun u digits' body' hu hdigits' hnext => ?_⟩
        · rw [hscan] at hnone
          cases hnone
        · rw [hscan] at hnext
          obtain ⟨rfl, rfl⟩ := header_inj hdigits hdigits' (Option.some.inj hnext)
          rw [hrun, drain_header hdigits body (by
            rw [length_header]
            rw [length_cons] at hlength
            omega)]
          rw [append_cancel_right (htext.symm.trans hu)]
      · have hflush : ∀ b ∈ rest.head?, isDigit b = false ∧ ¬ (b = underscore ∧ digits ≠ []) :=
          fun b hb => ⟨hrest b hb, fun hand => hend ⟨hand.1 ▸ hb, hand.2⟩⟩
        have hsame : nextCandidate text = nextCandidate rest := by
          rw [hscan, nextCandidate_of_headless (not_found_headless hall hflush),
            nextCandidate_digits hall]
        have hfive : redactionTokenPrefix.length = 5 := rfl
        obtain ⟨hplain, hcandidate⟩ := ih rest.length (by omega) rest (by omega) rfl
        rw [hrun, drain_headless hflush, hsame]
        refine ⟨fun hnone => ?_, fun u digits' body' hu hdigits' hnext => ?_⟩
        · rw [hplain hnone, htext]
          simp
        · obtain ⟨-, v, hv⟩ := nextCandidate_eq_some hnext
          have hbefore : before ++ (redactionTokenPrefix ++ digits) ++ v = u := by
            refine @List.append_cancel_right _ _ (header digits' ++ body') _ ?_
            rw [← hu, htext, hv]
            simp
          rw [hcandidate v digits' body' hv hdigits' hnext, ← hbefore]
          simp

end Headers

section Bodies

theorem collect_cons_of_mem {b : UInt8} (hb : redactionBase64URLByte b = true) (n : Nat)
    (text : Bytes) : collect (n + 1) (b :: text) = b :: collect n text := by
  unfold collect
  rw [take_succ_cons, takeWhile_cons, if_pos hb]

theorem collect_cons_of_not_mem {b : UInt8} (hb : redactionBase64URLByte b = false) (n : Nat)
    (text : Bytes) : collect n (b :: text) = [] := by
  unfold collect
  cases n with
  | zero => rfl
  | succ n => rw [take_succ_cons, takeWhile_cons, hb, if_neg Bool.false_ne_true]

theorem drain_body_cut {digits body text : Bytes} (hbreaks : Breaks text) :
    drain restore (token.bodyState digits body) out text =
      match keepText restore (header digits ++ body) out with
      | .error e => .error e
      | .ok out => drain restore token.reset out text := by
  cases text with
  | nil =>
    change (match keepText restore (header digits ++ body) [] with
      | .error e => Except.error e
      | .ok tail => .ok (out ++ tail)) = _
    unfold keepText
    cases restore (header digits ++ body) with
    | error e => rfl
    | ok restored =>
      dsimp only
      by_cases hsame : restored ≠ header digits ++ body
      · rw [if_pos hsame, if_pos hsame]
      · rw [if_neg hsame, if_neg hsame]
        change Except.ok (out ++ (header digits ++ body)) =
          .ok (out ++ (header digits ++ body) ++ [])
        rw [append_nil]
  | cons b text =>
    have hb := hbreaks b rfl
    unfold drain
    rw [run, push_body_break hb]
    cases keepText restore (header digits ++ body) out with
    | error e => rfl
    | ok out => rfl

theorem drain_body {digits body : Bytes} (text : Bytes) (hbody : body.length < declared digits)
    (hroom : (header digits ++ body).length + text.length ≤ token.pendingLimit) :
    drain restore (token.bodyState digits body) out text =
      let piece := collect (declared digits - body.length) text
      let rest := text.drop piece.length
      if piece.length = declared digits - body.length then
        match (token.bodyState digits (body ++ piece)).complete restore none out with
        | .error e => .error e
        | .ok (token, out) => drain restore token out rest
      else
        match keepText restore (header digits ++ (body ++ piece)) out with
        | .error e => .error e
        | .ok out => drain restore token.reset out rest := by
  induction text generalizing body out with
  | nil =>
    have hpiece : collect (declared digits - body.length) [] = [] := by
      unfold collect
      rw [take_nil, takeWhile_nil]
    rw [drain_body_cut fun b hb => by cases hb]
    simp only [hpiece, length_nil, append_nil, drop_nil]
    rw [if_neg (by omega)]
  | cons b text ih =>
    cases hb : redactionBase64URLByte b with
    | false =>
      rw [drain_body_cut fun b' hb' => by cases hb'; exact hb]
      simp only [collect_cons_of_not_mem hb, length_nil, append_nil, drop_zero]
      rw [if_neg (by omega)]
    | true =>
      obtain ⟨n, hn⟩ : ∃ n, declared digits - body.length = n + 1 :=
        ⟨declared digits - body.length - 1, by omega⟩
      have hlonger : declared digits - (body ++ [b]).length = n := by
        rw [length_append, length_singleton]
        omega
      rw [length_cons] at hroom
      unfold drain
      rw [run, push_body hb (by omega), hlonger, hn, collect_cons_of_mem hb]
      rcases Nat.eq_zero_or_pos n with rfl | hpos
      · have hpiece : collect 0 text = [] := by
          unfold collect
          rw [take_zero, takeWhile_nil]
        rw [hpiece, if_pos (show [b].length = 0 + 1 from rfl)]
        cases (token.bodyState digits (body ++ [b])).complete restore none out with
        | error e => rfl
        | ok pair => rfl
      · rw [if_pos (by omega)]
        have hnext := @ih out (body ++ [b]) (by omega) (by
          simp only [length_append, length_singleton] at hroom ⊢
          omega)
        rw [hlonger] at hnext
        simpa [drain] using hnext

end Bodies

section Candidates

variable {c : RedactionCipher}

/-- A length that the stream takes and `RestoreText` does not. -/
def Disputed (digits : Bytes) : Prop :=
  Unusable maxEncodedLen digits ∧ ¬ Unusable maxRedactionStreamPendingBytes digits

variable {digits : Bytes}

theorem Unusable.mono {limit limit' : Nat} (hle : limit ≤ limit') (h : Unusable limit' digits) :
    Unusable limit digits := by
  rcases h with hlong | hzero
  · exact .inl (Nat.lt_of_le_of_lt hle hlong)
  · exact .inr hzero

theorem unusable_of_stream (h : Unusable maxRedactionStreamPendingBytes digits) :
    Unusable maxEncodedLen digits :=
  h.mono (by decide)

theorem restores_whole {t : Bytes} (hfound : (parseRedactionCandidate t).found = true)
    (hresume : resume t = t.length) : Restores c t (c.replacement t) 1 := by
  have hrest : Restores c (t.drop (resume t)) [] 0 := by
    rw [hresume, drop_length]
    exact .plain nextCandidate_nil
  have hall := @Restores.candidate c [] t [] 0 (nextCandidate_of_found hfound) hrest
  rwa [append_nil] at hall

theorem keepText_of_restores {text : Bytes} {k : Nat} (h : Restores c text text k)
    (hk : k ≤ maxRedactionTokensPerText) : keepText c.restoreText text out = .ok (out ++ text) := by
  unfold keepText
  rw [restoreText_of_restores c h hk]
  exact if_neg fun hne => hne rfl

theorem collect_append_drop (n : Nat) (text : Bytes) :
    collect n text ++ text.drop (collect n text).length = text :=
  prefix_iff_eq_append.mp (collect_start n text)

theorem replacement_unusable (hdigits : IsLength digits) (h : Unusable maxEncodedLen digits)
    (body : Bytes) :
    c.replacement (header digits ++ body) = header digits := by
  unfold RedactionCipher.replacement
  rw [authentic_header hdigits, if_neg fun hand => hand.1 h, resume_header hdigits, passed,
    if_pos h, Nat.add_zero, Option.getD_none, take_left]

theorem restores_unusable (hdigits : IsLength digits) (h : Unusable maxEncodedLen digits)
    {piece o : Bytes} {k : Nat} (hpiece : Restores c piece o k) :
    Restores c (header digits ++ piece) (header digits ++ o) (k + 1) := by
  have hresume : (header digits ++ piece).drop (resume (header digits ++ piece)) = piece := by
    rw [resume_header hdigits, passed, if_pos h, Nat.add_zero, drop_left]
  rw [← hresume] at hpiece
  have hcandidate := @Restores.candidate c [] (header digits ++ piece) o k
    (nextCandidate_of_found (found_iff.mpr ⟨digits, piece, hdigits, rfl⟩)) hpiece
  rwa [replacement_unusable hdigits h] at hcandidate

theorem restores_header (hdigits : IsLength digits) (h : Unusable maxEncodedLen digits) :
    Restores c (header digits) (header digits) 1 := by
  simpa only [append_nil] using @restores_unusable c digits hdigits h [] [] 0
    (.plain nextCandidate_nil)

theorem restores_collected (hdigits : IsLength digits) (h : ¬ Unusable maxEncodedLen digits)
    (body : Bytes) :
    Restores c (header digits ++ collect (declared digits) body)
      (c.replacement (header digits ++ body)) 1 := by
  generalize hpiece : collect (declared digits) body = piece
  have hbody : header digits ++ body = (header digits ++ piece) ++ body.drop piece.length := by
    rw [append_assoc, ← hpiece, collect_append_drop]
  have hresume : resume ((header digits ++ piece) ++ body.drop piece.length) =
      (header digits ++ piece).length := by
    rw [← hbody, resume_header hdigits, passed, if_neg h, hpiece, length_append]
  have hfound := found_iff.mpr ⟨digits, body, hdigits, hbody.symm⟩
  obtain ⟨hwithin, hsame, -⟩ := candidate_within hfound hresume.le
  rw [hbody, ← replacement_within hfound hresume.le]
  exact restores_whole hwithin (hsame.trans hresume)

section Met

variable {u body o : Bytes} {k : Nat} (hdigits : IsLength digits)
  (hnext : nextCandidate (u ++ (header digits ++ body)) = some (header digits ++ body))
  (hroom : (u ++ (header digits ++ body)).length ≤ token.pendingLimit)

include hdigits hnext hroom

theorem drain_usable (hstream : ¬ Unusable maxRedactionStreamPendingBytes digits)
    (hrestores : Restores c (header digits ++ collect (declared digits) body) o k)
    (hk : k ≤ maxRedactionTokensPerText) :
    ((collect (declared digits) body).length = declared digits ∨
        o = header digits ++ collect (declared digits) body →
      ∃ changed, drain c.restoreText token.reset out (u ++ (header digits ++ body)) =
        drain c.restoreText { token with changed := changed }.reset (out ++ (u ++ o))
          (body.drop (collect (declared digits) body).length)) ∧
    ((collect (declared digits) body).length ≠ declared digits →
      o ≠ header digits ++ collect (declared digits) body →
      drain c.restoreText token.reset out (u ++ (header digits ++ body)) =
        .error .errRedactionStream) := by
  have hpositive : ([] : Bytes).length < declared digits :=
    Nat.pos_of_ne_zero fun hzero => hstream (.inr (.inl hzero))
  have hrestored := restoreText_of_restores c hrestores hk
  rw [(drain_idle _ hroom).2 u digits body rfl hdigits hnext, drainAfter, if_neg hstream]
  simp only [length_append] at hroom
  rw [drain_body body hpositive (by rw [append_nil]; omega)]
  simp only [length_nil, Nat.sub_zero, nil_append]
  by_cases hcomplete : (collect (declared digits) body).length = declared digits
  · rw [if_pos hcomplete]
    refine ⟨fun _ => ?_, fun hnot => absurd hcomplete hnot⟩
    obtain ⟨changed, hstep⟩ := @complete_bodyState c.restoreText token
      (out ++ u) digits _ _ hrestored
    refine ⟨changed, ?_⟩
    rw [hstep, append_assoc]
  · rw [if_neg hcomplete]
    refine ⟨fun hor => ⟨token.changed, ?_⟩, fun _ hchanged => ?_⟩
    · obtain rfl := hor.resolve_left hcomplete
      rw [keepText_of_restores hrestores hk, append_assoc]
    · have hkept : keepText c.restoreText (header digits ++ collect (declared digits) body)
          (out ++ u) = .error .errRedactionStream := by
        unfold keepText
        rw [hrestored]
        exact if_pos hchanged
      rw [hkept]

theorem drain_candidate (hagree : ¬ Disputed digits) :
    ∃ changed, drain c.restoreText token.reset out (u ++ (header digits ++ body)) =
      drain c.restoreText { token with changed := changed }.reset
        (out ++ (u ++ c.replacement (header digits ++ body)))
        ((header digits ++ body).drop (resume (header digits ++ body))) := by
  by_cases hstream : Unusable maxRedactionStreamPendingBytes digits
  · have hunusable := unusable_of_stream hstream
    refine ⟨token.changed, ?_⟩
    rw [(drain_idle _ hroom).2 u digits body rfl hdigits hnext, drainAfter, if_pos hstream,
      keepText_of_restores (restores_header hdigits hunusable) (by decide),
      replacement_unusable hdigits hunusable, resume_header hdigits, passed, if_pos hunusable,
      Nat.add_zero, drop_left, append_assoc]
  · have husable : ¬ Unusable maxEncodedLen digits := fun h => hagree ⟨h, hstream⟩
    rw [resume_header hdigits, passed, if_neg husable, ← drop_drop, drop_left]
    refine (drain_usable hdigits hnext hroom hstream (restores_collected hdigits husable body)
      (by decide)).1 ?_
    by_cases hcomplete : (collect (declared digits) body).length = declared digits
    · exact .inl hcomplete
    · right
      unfold RedactionCipher.replacement
      rw [authentic_header hdigits, if_neg fun hand => hcomplete hand.2.2,
        resume_header hdigits, passed, if_neg husable, Option.getD_none,
        take_length_add_append, ← prefix_iff_eq_take.mp (collect_start _ body)]

end Met

end Candidates

end EchoJoyGateway.Redaction
