import EchoJoyGateway.Redaction.Candidates
import EchoJoyGateway.Redaction.TokenStream
import Mathlib.Tactic.IntervalCases

/-!
# The token stream byte by byte

What the stream does with one more byte in each of its states: idle, inside the
prefix, inside the length, inside a body. A pushed string does what its bytes do
one after another.
-/

namespace EchoJoyGateway.Redaction

open Search List

namespace RedactionTokenStream

def run (restore : Restore) (token : RedactionTokenStream) (out : Bytes) :
    Bytes → Except StreamError (RedactionTokenStream × Bytes)
  | [] => .ok (token, out)
  | b :: rest =>
    match token.pushUnit restore none [b] [b] out with
    | .error e => .error e
    | .ok (token, out) => token.run restore out rest

def prefixState (token : RedactionTokenStream) (k : Nat) : RedactionTokenStream :=
  { token.reset with
    raw := redactionTokenPrefix.take k
    decoded := redactionTokenPrefix.take k
    matched := k }

def headerState (token : RedactionTokenStream) (digits : Bytes) : RedactionTokenStream :=
  { token.reset with
    raw := redactionTokenPrefix ++ digits
    decoded := redactionTokenPrefix ++ digits
    matched := redactionTokenPrefix.length
    digits := digits.length
    length := (readLength maxRedactionStreamPendingBytes digits).1
    oversize := (readLength maxRedactionStreamPendingBytes digits).2
    leadingZero := digits.head? == some 48 }

def bodyState (token : RedactionTokenStream) (digits body : Bytes) : RedactionTokenStream :=
  { token.headerState digits with
    raw := header digits ++ body
    decoded := header digits ++ body
    body := true
    remaining := declared digits - body.length }

variable {restore : Restore} {quote : Quote} {token : RedactionTokenStream} {out : Bytes}
  {b : UInt8} {k : Nat} {digits body : Bytes}

theorem prefixState_zero : token.prefixState 0 = token.reset := rfl

theorem append_of_le {raw decoded : Bytes}
    (h : token.raw.length + raw.length ≤ token.pendingLimit) :
    token.append raw decoded =
      .ok { token with raw := token.raw ++ raw, decoded := token.decoded ++ decoded } := by
  unfold append
  rw [if_neg (Nat.not_lt.mpr h)]

theorem push_idle (h : b ≠ 103) :
    token.reset.pushUnit restore quote [b] [b] out = .ok (token.reset, out ++ [b]) := by
  rw [pushUnit]
  simp [reset, redactionStreamPrefix, redactionTokenPrefix, unitByte, pending, Ne.symm h]

theorem push_prefix_next (hnext : redactionTokenPrefix[k]? = some b)
    (hroom : k + 1 ≤ token.pendingLimit) :
    (token.prefixState k).pushUnit restore quote [b] [b] out =
      .ok (token.prefixState (k + 1), out) := by
  have hk : k < redactionTokenPrefix.length := (List.getElem?_eq_some_iff.mp hnext).1
  have htake : redactionTokenPrefix.take (k + 1) = redactionTokenPrefix.take k ++ [b] := by
    rw [List.take_add_one, hnext]
    rfl
  have happend : (token.prefixState k).append [b] [b] = .ok
      { token.prefixState k with
        raw := (token.prefixState k).raw ++ [b]
        decoded := (token.prefixState k).decoded ++ [b] } := by
    apply append_of_le
    change (redactionTokenPrefix.take k).length + 1 ≤ token.pendingLimit
    rw [length_take]
    omega
  have hmatched : (token.prefixState k).matched < redactionStreamPrefix.length := hk
  rw [pushUnit, if_pos hmatched, if_pos ⟨rfl, hnext⟩, happend]
  simp [prefixState, htake]

theorem push_prefix_flush (hpos : 0 < k) (hk : k < redactionTokenPrefix.length)
    (hnext : redactionTokenPrefix[k]? ≠ some b) :
    (token.prefixState k).pushUnit restore quote [b] [b] out =
      token.reset.pushUnit restore quote [b] [b] (out ++ redactionTokenPrefix.take k) := by
  have hpending : (token.prefixState k).pending = true := by
    simp [pending, prefixState, redactionTokenPrefix, Nat.pos_iff_ne_zero.mp hpos]
  have hmatched : (token.prefixState k).matched < redactionStreamPrefix.length := hk
  rw [pushUnit, if_pos hmatched, if_neg fun hand => hnext hand.2, if_pos hpending]
  rfl

theorem not_matched_lt (digits : Bytes) :
    ¬ (token.headerState digits).matched < redactionStreamPrefix.length := Nat.lt_irrefl _

theorem readLength_append (limit : Nat) (digits : Bytes) (b : UInt8) :
    readLength limit (digits ++ [b]) = lengthStep limit (readLength limit digits) b := by
  unfold readLength
  rw [foldl_append]
  rfl

theorem countDigit_headerState (digits : Bytes) (b : UInt8) :
    { (token.headerState digits).countDigit b with
      raw := ((token.headerState digits).countDigit b).raw ++ [b]
      decoded := ((token.headerState digits).countDigit b).decoded ++ [b] } =
      token.headerState (digits ++ [b]) := by
  unfold countDigit headerState
  rw [readLength_append, length_append]
  cases digits <;> rfl

theorem push_header_digit (hb : isDigit b = true)
    (hroom : redactionTokenPrefix.length + digits.length + 1 ≤ token.pendingLimit) :
    (token.headerState digits).pushUnit restore quote [b] [b] out =
      .ok (token.headerState (digits ++ [b]), out) := by
  have happend : ((token.headerState digits).countDigit b).append [b] [b] =
      .ok (token.headerState (digits ++ [b])) := by
    rw [← countDigit_headerState]
    apply append_of_le
    change (redactionTokenPrefix ++ digits).length + 1 ≤ token.pendingLimit
    rwa [length_append]
  have hbody : (token.headerState digits).body = false := rfl
  rw [pushUnit, if_neg (not_matched_lt digits), if_pos hbody,
    if_pos (show isDigit (unitByte [b]) = true from hb)]
  simp only [unitByte, happend]

theorem push_header_flush (hb : isDigit b = false) (hend : ¬ (b = underscore ∧ digits ≠ [])) :
    (token.headerState digits).pushUnit restore quote [b] [b] out =
      token.reset.pushUnit restore quote [b] [b] (out ++ (redactionTokenPrefix ++ digits)) := by
  have hbody : (token.headerState digits).body = false := rfl
  have hdigit : ¬ isDigit (unitByte [b]) = true := Bool.eq_false_iff.mp hb
  have hnotEnd : ¬ (unitByte [b] = underscore ∧ 0 < (token.headerState digits).digits) := by
    rintro ⟨hunderscore, hdigits⟩
    exact hend ⟨hunderscore, length_pos_iff.mp hdigits⟩
  rw [pushUnit, if_neg hdigit, if_neg hnotEnd]
  rfl


/-- A text that was pending is written as it is if restoring leaves it alone. -/
def keepText (restore : Restore) (text out : Bytes) : Except StreamError Bytes :=
  match restore text with
  | .error _ => .error .errRedactionStream
  | .ok restored => if restored ≠ text then .error .errRedactionStream else .ok (out ++ text)

theorem push_header_end (hdigits : IsLength digits)
    (hroom : (header digits).length ≤ token.pendingLimit) :
    (token.headerState digits).pushUnit restore quote [underscore] [underscore] out =
      if Unusable maxRedactionStreamPendingBytes digits then
        match keepText restore (header digits) out with
        | .error e => .error e
        | .ok out => .ok (token.reset, out)
      else .ok (token.bodyState digits [], out) := by
  have hlimit : 9 ≤ maxRedactionStreamPendingBytes := by decide
  have hbody : (token.headerState digits).body = false := rfl
  have hend : unitByte [underscore] = underscore ∧ 0 < (token.headerState digits).digits :=
    ⟨rfl, length_pos_iff.mpr hdigits.nonempty⟩
  have happend : (token.headerState digits).append [underscore] [underscore] = .ok
      { token.headerState digits with raw := header digits, decoded := header digits } := by
    apply append_of_le
    change (redactionTokenPrefix ++ digits).length + 1 ≤ token.pendingLimit
    rwa [length_append, ← length_header]
  rw [pushUnit, if_pos hend, happend]
  have hflag : ((token.headerState digits).oversize || (token.headerState digits).length == 0 ||
      ((token.headerState digits).leadingZero &&
        decide (1 < (token.headerState digits).digits))) = true ↔
      Unusable maxRedactionStreamPendingBytes digits := by
    have hread := readLength_unusable hlimit hdigits.all
    rw [Redaction.leadingZero, Bool.and_comm (decide (1 < digits.length))] at hread
    exact (Bool.eq_iff_iff.mp hread).trans decide_eq_true_iff
  by_cases hbad : Unusable maxRedactionStreamPendingBytes digits
  · rw [if_pos hbad]
    exact if_pos (hflag.mpr hbad)
  · rw [if_neg hbad]
    refine (if_neg (hflag.not.mpr hbad)).trans ?_
    simp only [bodyState, headerState, readLength_declared hlimit hdigits.all hbad,
      append_nil, length_nil, Nat.sub_zero]

theorem not_header (digits body : Bytes) :
    ¬ (token.bodyState digits body).matched < redactionStreamPrefix.length ∧
      ¬ (token.bodyState digits body).body = false := ⟨Nat.lt_irrefl _, Bool.noConfusion⟩

theorem push_body_break (hb : redactionBase64URLByte b = false) :
    (token.bodyState digits body).pushUnit restore quote [b] [b] out =
      match keepText restore (header digits ++ body) out with
      | .error e => .error e
      | .ok out => token.reset.pushUnit restore quote [b] [b] out := by
  obtain ⟨hmatched, hbody⟩ := @not_header token digits body
  rw [pushUnit, if_pos (Or.inr (show redactionBase64URLByte (unitByte [b]) = false from hb))]
  rfl

theorem append_bodyState
    (hroom : (header digits ++ body).length + 1 ≤ token.pendingLimit) :
    (token.bodyState digits body).append [b] [b] = .ok
      { token.bodyState digits body with
        raw := header digits ++ (body ++ [b])
        decoded := header digits ++ (body ++ [b]) } := by
  rw [append_of_le (show (token.bodyState digits body).raw.length + [b].length ≤ _ from hroom)]
  simp [bodyState]

theorem push_body (hb : redactionBase64URLByte b = true)
    (hroom : (header digits ++ body).length + 1 ≤ token.pendingLimit) :
    (token.bodyState digits body).pushUnit restore quote [b] [b] out =
      if declared digits - (body ++ [b]).length ≠ 0 then
        .ok (token.bodyState digits (body ++ [b]), out)
      else (token.bodyState digits (body ++ [b])).complete restore quote out := by
  obtain ⟨hmatched, hbody⟩ := @not_header token digits body
  have hbyte : ¬ ([b].length ≠ 1 ∨ redactionBase64URLByte (unitByte [b]) = false) := by
    rintro (hlength | hbreak)
    · exact hlength rfl
    · rw [show unitByte [b] = b from rfl, hb] at hbreak
      cases hbreak
  rw [pushUnit, if_neg hmatched, if_neg hbody, if_neg hbyte, append_bodyState hroom]
  have hremaining : declared digits - body.length - 1 = declared digits - (body ++ [b]).length := by
    rw [length_append]
    omega
  simp only [bodyState, hremaining]

theorem complete_bodyState {restored : Bytes}
    (h : restore (header digits ++ body) = .ok restored) :
    ∃ changed, (token.bodyState digits body).complete restore none out =
      .ok ({ token with changed := changed }.reset, out ++ restored) := by
  have hdecoded : (token.bodyState digits body).decoded = header digits ++ body := rfl
  unfold complete
  rw [hdecoded, h]
  dsimp only
  split
  · rename_i hsame
    exact ⟨token.changed, by rw [hsame]; rfl⟩
  · exact ⟨true, rfl⟩

section Runs

variable (restore token out)

theorem run_cons {token' : RedactionTokenStream} {out' : Bytes} (rest : Bytes)
    (h : token.pushUnit restore none [b] [b] out = .ok (token', out')) :
    token.run restore out (b :: rest) = token'.run restore out' rest := by
  rw [run, h]

theorem run_prefixState (hk : k ≤ redactionTokenPrefix.length) (rest : Bytes)
    (hroom : k ≤ token.pendingLimit) :
    token.reset.run restore out (redactionTokenPrefix.take k ++ rest) =
      (token.prefixState k).run restore out rest := by
  induction k generalizing rest with
  | zero => rfl
  | succ k ih =>
    have hnext := getElem?_eq_getElem hk
    rw [List.take_add_one, hnext, append_assoc, ih (by omega) _ (by omega)]
    exact run_cons _ _ _ _ (push_prefix_next hnext hroom)

theorem run_flush (hk : k < redactionTokenPrefix.length) (rest : Bytes)
    (hroom : k ≤ token.pendingLimit) (hnext : redactionTokenPrefix[k]? ≠ some b) :
    token.reset.run restore out (redactionTokenPrefix.take k ++ b :: rest) =
      token.reset.run restore (out ++ redactionTokenPrefix.take k) (b :: rest) := by
  rcases Nat.eq_zero_or_pos k with rfl | hpos
  · rw [take_zero, nil_append, append_nil]
  · rw [run_prefixState _ _ _ hk.le _ hroom, run, push_prefix_flush hpos hk hnext, run]

theorem run_plain (plain rest : Bytes) (h : ∀ x ∈ plain, x ≠ 103) :
    token.reset.run restore out (plain ++ rest) = token.reset.run restore (out ++ plain) rest := by
  induction plain generalizing out with
  | nil => rw [nil_append, append_nil]
  | cons x plain ih =>
    rw [cons_append, run_cons _ _ _ _ (push_idle (h x (.head _))),
      ih _ fun y hy => h y (.tail _ hy), append_assoc, singleton_append]

theorem not_first_of_mem_drop {j : Nat} (hj : 0 < j) {x : UInt8}
    (hx : x ∈ (redactionTokenPrefix.take k).drop j) : x ≠ 103 := by
  have htail : x ∈ redactionTokenPrefix.drop 1 := by
    have hmem := (drop_subset_drop_left _ hj) hx
    exact (take_subset _ _) (drop_take .. ▸ hmem)
  rintro rfl
  exact absurd htail (by decide)

theorem run_skip (j : Nat) (text : Bytes) (hroom : text.length ≤ token.pendingLimit)
    (hj : j ≤ text.length)
    (hskip : ∀ p < j, ¬ redactionTokenPrefix <+: text.drop p ∧
      ¬ text.drop p <+: redactionTokenPrefix) :
    token.reset.run restore out text =
      token.reset.run restore (out ++ text.take j) (text.drop j) := by
  induction hn : text.length using Nat.strong_induction_on generalizing text j out with
  | _ n ih =>
    rcases Nat.eq_zero_or_pos j with rfl | hpos
    · rw [take_zero, append_nil, drop_zero]
    · obtain ⟨hnot, hnotYet⟩ := hskip 0 hpos
      obtain ⟨k, x, rest, hk, rfl, hx⟩ := exists_divergence hnot hnotYet
      have hlength : (redactionTokenPrefix.take k).length = k := by
        rw [length_take]
        omega
      rw [length_append, length_cons] at hn hj hroom
      rw [run_flush restore token out hk rest (by omega) hx]
      rcases Nat.lt_or_ge j k with hlt | hge
      · have htake : (redactionTokenPrefix.take k ++ x :: rest).take j =
            (redactionTokenPrefix.take k).take j :=
          take_append_of_le_length (by omega)
        rw [htake, drop_append_of_le_length (by omega), run_plain restore token _ _ _
          fun y hy => not_first_of_mem_drop hpos hy, append_assoc, take_append_drop]
      · have hdrop : ∀ p, (redactionTokenPrefix.take k ++ x :: rest).drop (k + p) =
            (x :: rest).drop p := by
          intro p
          rw [drop_append, hlength, drop_eq_nil_of_le (by omega),
            Nat.add_sub_cancel_left, nil_append]
        have htake : (redactionTokenPrefix.take k ++ x :: rest).take (k + (j - k)) =
            redactionTokenPrefix.take k ++ (x :: rest).take (j - k) := by
          rw [take_append, hlength, take_of_length_le (by omega), Nat.add_sub_cancel_left]
        have hjk : j = k + (j - k) := by omega
        rcases Nat.eq_zero_or_pos k with rfl | hkpos
        · have hfirst : x ≠ 103 := fun h => hx (by rw [h]; rfl)
          obtain ⟨i, rfl⟩ : ∃ i, j = i + 1 := ⟨j - 1, by omega⟩
          have hplain := run_plain restore token (out ++ redactionTokenPrefix.take 0) [x] rest
            fun y hy => by rwa [mem_singleton.mp hy]
          rw [singleton_append] at hplain
          rw [hplain, ih rest.length (by omega) _ i rest (by omega) (by omega)
            (fun p hp => hskip (p + 1) (by omega)) rfl]
          simp
        · rw [ih (rest.length + 1) (by omega) _ (j - k) (x :: rest)
            (by rw [length_cons]; omega) (by rw [length_cons]; omega)
            (fun p hp => hdrop p ▸ hskip (k + p) (by omega)) rfl, ← hdrop, hjk, htake,
            append_assoc]
          simp only [Nat.add_sub_cancel_left]

end Runs

section States

inductive State : RedactionTokenStream → Prop where
  | partly (token : RedactionTokenStream) (k : Nat) :
    k < redactionTokenPrefix.length → State (token.prefixState k)
  | header (token : RedactionTokenStream) (digits : Bytes) :
    digits.all isDigit = true → State (token.headerState digits)
  | body (token : RedactionTokenStream) (digits body : Bytes) :
    IsLength digits → body.length < declared digits → State (token.bodyState digits body)

structure Next (token token' : RedactionTokenStream) : Prop where
  state : token'.State
  length : token'.raw.length ≤ token.raw.length + 1
  limit : token'.limit = token.limit

theorem State.idle (token : RedactionTokenStream) : token.reset.State := .partly token 0 (by decide)

variable {token' : RedactionTokenStream} {out' : Bytes}

theorem next_idle (h : token.reset.pushUnit restore quote [b] [b] out = .ok (token', out')) :
    token'.State ∧ token'.raw.length ≤ 1 ∧ token'.limit = token.limit := by
  by_cases hb : b = 103
  · have hroom : ¬ token.reset.pendingLimit < token.reset.raw.length + [b].length := by
      intro hfull
      have happend : token.reset.append [b] [b] = .error .errRedactionStream := if_pos hfull
      have hmatched : token.reset.matched < redactionStreamPrefix.length := Nat.zero_lt_succ _
      have hfirst : [b].length = 1 ∧
          redactionStreamPrefix[token.reset.matched]? = some (unitByte [b]) :=
        ⟨rfl, by rw [hb]; rfl⟩
      rw [pushUnit, if_pos hfirst, happend] at h
      cases h
    have hnext : redactionTokenPrefix[0]? = some b := by
      rw [hb]
      rfl
    have hlimit : 0 + 1 ≤ token.pendingLimit := Nat.not_lt.mp hroom
    rw [← prefixState_zero, push_prefix_next hnext hlimit] at h
    cases h
    exact ⟨.partly token 1 (by decide), le_rfl, rfl⟩
  · rw [push_idle hb] at h
    cases h
    exact ⟨.idle token, Nat.zero_le _, rfl⟩

theorem complete_reset (h : token.complete restore quote out = .ok (token', out')) :
    ∃ changed, token' = { token with changed := changed }.reset := by
  unfold complete at h
  split at h
  · cases h
  · split at h
    · cases h
      exact ⟨token.changed, rfl⟩
    · split at h
      · cases h
        exact ⟨true, rfl⟩
      · split at h
        · cases h
        · cases h
          exact ⟨true, rfl⟩

theorem State.next (hstate : token.State) (hroom : token.raw.length + 1 ≤ token.pendingLimit)
    (h : token.pushUnit restore quote [b] [b] out = .ok (token', out')) : Next token token' := by
  cases hstate with
  | partly token k hk =>
    change (redactionTokenPrefix.take k).length + 1 ≤ token.pendingLimit at hroom
    rw [length_take, Nat.min_eq_left hk.le] at hroom
    by_cases hnext : redactionTokenPrefix[k]? = some b
    · rw [push_prefix_next hnext hroom] at h
      cases h
      refine ⟨?_, ?_, rfl⟩
      · rcases Nat.lt_or_ge (k + 1) redactionTokenPrefix.length with hlt | hge
        · exact .partly token (k + 1) hlt
        · have hfull : k + 1 = redactionTokenPrefix.length := by omega
          rw [hfull]
          exact .header token [] rfl
      · change (redactionTokenPrefix.take (k + 1)).length ≤ (redactionTokenPrefix.take k).length + 1
        rw [length_take, length_take]
        omega
    · rcases Nat.eq_zero_or_pos k with rfl | hpos
      · obtain ⟨hstate', hlength, hlimit⟩ := @next_idle restore quote token out b token' out' h
        exact ⟨hstate', by omega, hlimit⟩
      · rw [push_prefix_flush hpos hk hnext] at h
        obtain ⟨hstate', hlength, hlimit⟩ := next_idle h
        exact ⟨hstate', by omega, hlimit⟩
  | header token digits hall =>
    change (redactionTokenPrefix ++ digits).length + 1 ≤ token.pendingLimit at hroom
    rw [length_append] at hroom
    cases hb : isDigit b with
    | true =>
      rw [push_header_digit hb hroom] at h
      cases h
      refine ⟨.header token _ ?_, ?_, rfl⟩
      · rw [all_append, hall, all_cons, hb]
        rfl
      · change (redactionTokenPrefix ++ (digits ++ [b])).length ≤
          (redactionTokenPrefix ++ digits).length + 1
        rw [← append_assoc, length_append, length_singleton]
    | false =>
      by_cases hend : b = underscore ∧ digits ≠ []
      · obtain ⟨rfl, hnonempty⟩ := hend
        have hdigits : IsLength digits := ⟨hnonempty, hall⟩
        rw [push_header_end hdigits (by rw [length_header]; exact hroom)] at h
        split at h
        · split at h
          · cases h
          · cases h
            exact ⟨.idle token, Nat.zero_le _, rfl⟩
        · rename_i husable
          cases h
          refine ⟨.body token digits [] hdigits ?_, ?_, rfl⟩
          · exact Nat.pos_of_ne_zero fun hzero => husable (.inr (.inl hzero))
          · change (Redaction.header digits ++ []).length ≤
              (redactionTokenPrefix ++ digits).length + 1
            rw [append_nil, length_header, length_append]
      · rw [push_header_flush hb hend] at h
        obtain ⟨hstate', hlength, hlimit⟩ := next_idle h
        exact ⟨hstate', by omega, hlimit⟩
  | body token digits body hdigits hbody =>
    change (Redaction.header digits ++ body).length + 1 ≤ token.pendingLimit at hroom
    cases hb : redactionBase64URLByte b with
    | true =>
      rw [push_body hb hroom] at h
      split at h
      · cases h
        refine ⟨.body token digits _ hdigits (by omega), ?_, rfl⟩
        change (Redaction.header digits ++ (body ++ [b])).length ≤
          (Redaction.header digits ++ body).length + 1
        rw [← append_assoc, length_append, length_singleton]
      · obtain ⟨changed, rfl⟩ := complete_reset h
        exact ⟨.idle _, Nat.zero_le _, rfl⟩
    | false =>
      rw [push_body_break hb] at h
      split at h
      · cases h
      · obtain ⟨hstate', hlength, hlimit⟩ := next_idle h
        exact ⟨hstate', by omega, hlimit⟩

theorem Next.room (h : Next token token') {n : Nat}
    (hroom : token.raw.length + (n + 1) ≤ token.pendingLimit) :
    token'.raw.length + n ≤ token'.pendingLimit := by
  have hlength := h.length
  have hlimit : token'.pendingLimit = token.pendingLimit := by
    unfold pendingLimit
    rw [h.limit]
  omega

theorem State.flush (hstate : token.State) (hpending : token.pending = true)
    (hbody : token.body = false) (hcontinues : token.continues b = false) :
    token.pushUnit restore quote [b] [b] out =
      token.reset.pushUnit restore quote [b] [b] (out ++ token.raw) := by
  cases hstate with
  | partly token k hk =>
    have hpos : 0 < k := by
      rcases Nat.eq_zero_or_pos k with rfl | hpos
      · cases hpending
      · exact hpos
    have hnext : redactionTokenPrefix[k]? ≠ some b := by
      have hmatched : (token.prefixState k).matched ≠ redactionStreamPrefix.length :=
        Nat.ne_of_lt hk
      unfold continues at hcontinues
      rw [if_neg hmatched] at hcontinues
      exact ne_of_beq_false hcontinues
    rw [push_prefix_flush hpos hk hnext]
    rfl
  | header token digits hall =>
    have hmatched : (token.headerState digits).matched = redactionStreamPrefix.length := rfl
    unfold continues at hcontinues
    rw [if_pos hmatched, Bool.or_eq_false_iff] at hcontinues
    rw [push_header_flush hcontinues.1]
    · rfl
    · rintro ⟨rfl, hnonempty⟩
      have hdigits : 0 < (token.headerState digits).digits := length_pos_iff.mpr hnonempty
      rw [decide_eq_true hdigits] at hcontinues
      exact Bool.noConfusion hcontinues.2
  | body token digits body _ _ => cases hbody

theorem State.not_pending (hstate : token.State) (hpending : token.pending = false) :
    token = token.reset := by
  cases hstate with
  | partly token k hk =>
    rcases Nat.eq_zero_or_pos k with rfl | hpos
    · rfl
    · have hnil : redactionTokenPrefix.take k = [] := by simpa [pending, prefixState] using hpending
      rw [take_eq_nil_iff] at hnil
      rcases hnil with hk0 | hnil
      · omega
      · cases hnil
  | header token digits hall => cases hpending
  | body token digits body _ _ => cases hpending

variable {text : Bytes}

theorem run_index {i : Nat} (hindex : index redactionTokenPrefix text = some i)
    (hroom : text.length ≤ token.pendingLimit) :
    token.reset.run restore out text =
      (token.headerState []).run restore (out ++ text.take i)
        (text.drop (i + redactionTokenPrefix.length)) := by
  obtain ⟨⟨tail, htail⟩, hfirst⟩ := index_eq_some hindex
  have hlength := congrArg List.length htail
  have hfive : redactionTokenPrefix.length = 5 := rfl
  rw [length_append, length_drop] at hlength
  rw [run_skip restore token out i text hroom (by omega), ← drop_drop, ← htail]
  · exact run_prefixState restore token _ le_rfl tail (by omega)
  · intro p hp
    refine ⟨hfirst p hp, fun hshort => ?_⟩
    have hle := hshort.length_le
    rw [length_drop] at hle
    omega

theorem run_held (hindex : index redactionTokenPrefix text = none)
    (hroom : text.length ≤ token.pendingLimit) (cut : Nat)
    (hcut : cut = text.length - heldBack redactionTokenPrefix text
      (min (redactionTokenPrefix.length - 1) text.length)) :
    token.reset.run restore out text =
      token.reset.run restore (out ++ text.take cut) (text.drop cut) := by
  refine run_skip restore token out cut text hroom (by omega) fun p hp => ?_
  refine ⟨index_eq_none hindex p, fun hstart => ?_⟩
  have hle := hstart.length_le
  rw [length_drop] at hle
  have hnotFull : text.length - p ≠ redactionTokenPrefix.length := by
    intro hfull
    have heq := hstart.eq_of_length (by rw [length_drop, hfull])
    exact index_eq_none hindex p (heq ▸ prefix_rfl)
  have htake : redactionTokenPrefix.take (text.length - p) = text.drop p := by
    rw [prefix_iff_eq_take.mp hstart, length_drop]
  have hheld := @le_heldBack UInt8 _ redactionTokenPrefix text (text.length - p)
    (min (redactionTokenPrefix.length - 1) text.length) (by omega)
    (htake ▸ drop_suffix p text)
  omega

theorem pushString_eq_run {value : Bytes} (hstate : token.State)
    (hroom : token.raw.length + value.length ≤ token.pendingLimit) :
    token.pushString restore none value out = token.run restore out value := by
  induction hn : 2 * value.length + (if token.pending then 1 else 0)
    using Nat.strong_induction_on generalizing token value out with
  | _ n ih =>
    cases value with
    | nil => rw [pushString, run]
    | cons b rest =>
      rw [length_cons] at hroom hn
      have hstep : ∀ {token : RedactionTokenStream} {out : Bytes} {x : UInt8} {held : Bytes},
          token.State → held.length ≤ rest.length →
          token.raw.length + (held.length + 1) ≤ token.pendingLimit →
          (match token.pushUnit restore none [x] [x] out with
            | .error e => .error e
            | .ok (token, out) => token.pushString restore none held out) =
            token.run restore out (x :: held) := by
        intro token out x held hstate hheld hroom
        rw [run]
        cases hpush : token.pushUnit restore none [x] [x] out with
        | error e => rfl
        | ok pair =>
          have hnext := hstate.next (by omega) hpush
          exact ih _ (by split <;> omega) hnext.state (hnext.room hroom) rfl
      rw [pushString]
      split
      · rename_i hflush
        obtain ⟨hpending, hbody, hcontinues⟩ := hflush
        rw [ih _ ?_ (.idle token) ?_ rfl, run, run, hstate.flush hpending hbody hcontinues]
        · rw [length_cons]
          rw [if_pos hpending] at hn
          rw [if_neg (show ¬ token.reset.pending = true from Bool.noConfusion)]
          omega
        · change 0 + (rest.length + 1) ≤ token.pendingLimit
          omega
      · split
        · exact hstep hstate le_rfl hroom
        · rename_i hpending
          have hidle := hstate.not_pending (Bool.eq_false_iff.mpr hpending)
          have hfits : (b :: rest).length ≤ token.pendingLimit := by
            rw [length_cons]
            omega
          rw [hidle]
          split
          · rename_i i hindex
            change index redactionTokenPrefix (b :: rest) = some i at hindex
            rw [run_index hindex hfits]
            obtain ⟨⟨tail, htail⟩, -⟩ := index_eq_some hindex
            have hlength := congrArg List.length htail
            have hfive : redactionTokenPrefix.length = 5 := rfl
            rw [length_append, length_drop] at hlength
            have happend : token.reset.append redactionStreamPrefix redactionStreamPrefix =
                .ok { token.reset with
                  raw := redactionTokenPrefix
                  decoded := redactionTokenPrefix } := by
              apply append_of_le
              change 0 + redactionTokenPrefix.length ≤ token.pendingLimit
              omega
            rw [happend]
            refine ih _ ?_ (.header token [] rfl) ?_ rfl
            · rw [length_drop]
              change 2 * (rest.length + 1 - (i + redactionTokenPrefix.length)) +
                (if (token.headerState []).pending then 1 else 0) < n
              split <;> omega
            · change redactionTokenPrefix.length +
                ((b :: rest).drop (i + redactionTokenPrefix.length)).length ≤ token.pendingLimit
              rw [length_drop]
              omega
          · rename_i hindex
            rw [run_held hindex hfits _ rfl]
            dsimp only
            split
            · rename_i hnil
              rw [redactionStreamPrefix] at hnil
              rw [hnil]
              rfl
            · rename_i first held hheld
              rw [redactionStreamPrefix] at hheld ⊢
              rw [hheld]
              have hlength := congrArg List.length hheld
              rw [length_drop, length_cons, length_cons] at hlength
              exact hstep (.idle token) (by omega) (by
                change 0 + (held.length + 1) ≤ token.pendingLimit
                omega)

end States

end RedactionTokenStream

end EchoJoyGateway.Redaction
