import EchoJoyGateway.Redaction.Cipher
import Mathlib.Data.List.TakeWhile

/-!
# Where the candidates of a text are

A candidate starts with a header: the prefix, a decimal length and an underscore.
The scan of a text stops at candidate after candidate; where it goes on does not
depend on the cipher.
-/

namespace EchoJoyGateway.Redaction

open Search List

section Headers

structure IsLength (digits : Bytes) : Prop where
  nonempty : digits ≠ []
  all : digits.all isDigit = true

def header (digits : Bytes) : Bytes := redactionTokenPrefix ++ digits ++ [underscore]

def declared (digits : Bytes) : Nat := digits.foldl (fun n d => n * 10 + digitValue d) 0

/-- The length is not one that a bounded reader takes. -/
def Unusable (limit : Nat) (digits : Bytes) : Prop :=
  limit < declared digits ∨ declared digits = 0 ∨ leadingZero digits = true

instance (limit : Nat) (digits : Bytes) : Decidable (Unusable limit digits) :=
  inferInstanceAs (Decidable (_ ∨ _ ∨ _))

/-- The start of a text, up to a length, that is in the alphabet of a body. -/
def collect (n : Nat) (text : Bytes) : Bytes := (text.take n).takeWhile redactionBase64URLByte

variable {digits : Bytes} {limit : Nat}

theorem digitValue_le {b : UInt8} (h : isDigit b = true) : digitValue b ≤ 9 := by
  simp only [isDigit, Bool.and_eq_true, decide_eq_true_eq] at h
  have hle : b.toNat ≤ 57 := h.2
  unfold digitValue
  omega

theorem le_foldl_declared (n : Nat) (digits : Bytes) :
    n ≤ digits.foldl (fun n d => n * 10 + digitValue d) n := by
  induction digits generalizing n with
  | nil => exact le_rfl
  | cons d rest ih => exact le_trans (by omega) (ih (n * 10 + digitValue d))

theorem foldl_lengthStep_oversize (n : Nat) (digits : Bytes) :
    digits.foldl (lengthStep limit) (n, true) = (n, true) := by
  induction digits with
  | nil => rfl
  | cons d rest ih => exact ih

theorem foldl_lengthStep (hlimit : 9 ≤ limit) (hall : digits.all isDigit = true) {n : Nat}
    (hn : n ≤ limit) :
    (limit < digits.foldl (fun n d => n * 10 + digitValue d) n →
      (digits.foldl (lengthStep limit) (n, false)).2 = true) ∧
    (digits.foldl (fun n d => n * 10 + digitValue d) n ≤ limit →
      digits.foldl (lengthStep limit) (n, false) =
        (digits.foldl (fun n d => n * 10 + digitValue d) n, false)) := by
  induction digits generalizing n with
  | nil => exact ⟨fun h => absurd hn (Nat.not_le.mpr h), fun _ => rfl⟩
  | cons d rest ih =>
    simp only [all_cons, Bool.and_eq_true] at hall
    have hd := digitValue_le hall.1
    simp only [foldl_cons]
    rcases Nat.lt_or_ge limit (n * 10 + digitValue d) with hover | hfits
    · have hstep : lengthStep limit (n, false) d = (n, true) := by
        unfold lengthStep
        rw [if_pos]
        simp only [Bool.false_or, decide_eq_true_eq]
        omega
      have hgrows := le_foldl_declared (n * 10 + digitValue d) rest
      rw [hstep, foldl_lengthStep_oversize]
      exact ⟨fun _ => rfl, fun h => by omega⟩
    · have hstep : lengthStep limit (n, false) d = (n * 10 + digitValue d, false) := by
        unfold lengthStep
        rw [if_neg]
        simp only [Bool.false_or, decide_eq_true_eq]
        omega
      rw [hstep]
      exact ih hall.2 hfits

theorem readLength_unusable (hlimit : 9 ≤ limit) (hall : digits.all isDigit = true) :
    ((readLength limit digits).2 || (readLength limit digits).1 == 0 || leadingZero digits) =
      decide (Unusable limit digits) := by
  obtain ⟨hover, hfits⟩ := foldl_lengthStep hlimit hall (Nat.zero_le limit)
  change limit < declared digits → (readLength limit digits).2 = true at hover
  change declared digits ≤ limit → readLength limit digits = (declared digits, false) at hfits
  unfold Unusable
  rcases Nat.lt_or_ge limit (declared digits) with hlt | hle
  · simp [hover hlt, hlt]
  · rw [hfits hle]
    simp [Nat.not_lt.mpr hle, Bool.beq_eq_decide_eq]

theorem readLength_declared (hlimit : 9 ≤ limit) (hall : digits.all isDigit = true)
    (h : ¬ Unusable limit digits) : (readLength limit digits).1 = declared digits := by
  have hle : declared digits ≤ limit := Nat.not_lt.mp fun hlt => h (.inl hlt)
  have hfits := (foldl_lengthStep hlimit hall (Nat.zero_le limit)).2 hle
  exact congrArg Prod.fst hfits

theorem header_append (digits text : Bytes) :
    header digits ++ text = redactionTokenPrefix ++ (digits ++ underscore :: text) := by
  simp [header]

theorem length_header (digits : Bytes) :
    (header digits).length = redactionTokenPrefix.length + digits.length + 1 := by
  simp [header, Nat.add_assoc]

theorem span_digits (hall : digits.all isDigit = true) (text : Bytes) :
    (digits ++ underscore :: text).takeWhile isDigit = digits ∧
      (digits ++ underscore :: text).dropWhile isDigit = underscore :: text := by
  have hmem : ∀ d ∈ digits, isDigit d = true := all_eq_true.mp hall
  have hstop : isDigit underscore = false := rfl
  constructor
  · rw [takeWhile_append_of_pos hmem, takeWhile_cons, hstop]
    simp
  · rw [dropWhile_append_of_pos hmem, dropWhile_cons, hstop]
    simp

/-- What is read off a header and the text after it. -/
def headerCandidate (digits text : Bytes) : TokenCandidate :=
  if Unusable maxEncodedLen digits then ⟨(header digits).length, 0, true, true, true⟩
  else
    ⟨(header digits).length, (header digits).length + declared digits, true,
      decide (declared digits < encodedLen redactionCiphertextOverhead) ||
        decide (text.length < declared digits), false⟩

theorem parse_header (h : IsLength digits) (text : Bytes) :
    parseRedactionCandidate (header digits ++ text) = headerCandidate digits text := by
  obtain ⟨htake, hdrop⟩ := span_digits h.all text
  have htail : (header digits ++ text).drop redactionTokenPrefix.length =
      digits ++ underscore :: text := by
    rw [header_append, drop_left]
  have hstart : redactionTokenPrefix <+: header digits ++ text := by
    exact prefix_append _ _
  have hread : ¬ (digits = [] ∨ (underscore :: text).head? ≠ some underscore) := by
    rintro (hnil | hhead)
    · exact h.nonempty hnil
    · exact hhead rfl
  have hlimit : 9 ≤ maxEncodedLen := by decide
  unfold parseRedactionCandidate headerCandidate
  rw [if_pos hstart]
  simp only [htail, htake, hdrop, if_neg hread, readLength_unusable hlimit h.all,
    decide_eq_true_eq, ← length_header]
  split
  · rfl
  · rename_i husable
    rw [readLength_declared hlimit h.all husable]
    simp

theorem found_iff {text : Bytes} :
    (parseRedactionCandidate text).found = true ↔
      ∃ digits rest, IsLength digits ∧ text = header digits ++ rest := by
  constructor
  · intro h
    unfold parseRedactionCandidate at h
    split at h
    · rename_i hstart
      obtain ⟨tail, rfl⟩ := hstart
      dsimp only at h
      split at h
      · cases h
      · rename_i hread
        simp only [drop_left, not_or, not_not] at hread
        obtain ⟨rest, hrest⟩ := head?_eq_some_iff.mp hread.2
        refine ⟨tail.takeWhile isDigit, rest, ⟨hread.1, all_takeWhile⟩, ?_⟩
        rw [header_append, ← hrest, takeWhile_append_dropWhile]
    · cases h
  · rintro ⟨digits, rest, hdigits, rfl⟩
    rw [parse_header hdigits]
    unfold headerCandidate
    split <;> rfl

end Headers

section Collecting

variable {n : Nat} {text rest : Bytes}

theorem collect_start (n : Nat) (text : Bytes) : collect n text <+: text :=
  ( takeWhile_prefix _).trans ( take_prefix n text)

theorem length_collect_le (n : Nat) (text : Bytes) : (collect n text).length ≤ n :=
  ( takeWhile_prefix _).length_le.trans (length_take_le n text)

theorem length_collect_iff :
    (collect n text).length = n ↔
      n ≤ text.length ∧ (text.take n).all redactionBase64URLByte = true := by
  constructor
  · intro h
    have hle := (collect_start n text).length_le
    have htake : collect n text = text.take n := by
      refine ( takeWhile_prefix _).eq_of_length ?_
      change (collect n text).length = _
      rw [length_take]
      omega
    refine ⟨by omega, ?_⟩
    rw [← htake]
    exact all_takeWhile
  · rintro ⟨hle, hall⟩
    unfold collect
    rw [takeWhile_eq_self_iff.mpr (all_eq_true.mp hall), length_take]
    omega

theorem take_of_complete (h : (collect n text).length = n) : text.take n = collect n text := by
  have hall := all_eq_true.mp (length_collect_iff.mp h).2
  exact (takeWhile_eq_self_iff.mpr hall).symm

end Collecting

section Ends

variable {digits : Bytes} (h : IsLength digits) (text : Bytes)

def passed (digits text : Bytes) : Nat :=
  if Unusable maxEncodedLen digits then 0 else (collect (declared digits) text).length

/-- Where the scan goes on after the candidate at the start of the text. -/
def resume (text : Bytes) : Nat := unrestoredCandidateEnd text (parseRedactionCandidate text)

def RedactionCipher.authentic (c : RedactionCipher) (text : Bytes) : Option Bytes :=
  c.decryptCandidate text (parseRedactionCandidate text)

include h

theorem resume_header : resume (header digits ++ text) =
    (header digits).length + passed digits text := by
  unfold resume unrestoredCandidateEnd passed
  rw [parse_header h]
  unfold headerCandidate
  split
  · rfl
  · rw [take_length_add_append, drop_left]
    rfl

theorem authentic_header (c : RedactionCipher) :
    c.authentic (header digits ++ text) =
      if ¬ Unusable maxEncodedLen digits ∧
          encodedLen redactionCiphertextOverhead ≤ declared digits ∧
          (collect (declared digits) text).length = declared digits then
        c.decrypt (header digits) (text.take (declared digits))
      else none := by
  unfold RedactionCipher.authentic RedactionCipher.decryptCandidate
  rw [parse_header h]
  unfold headerCandidate
  split
  · rename_i hbad
    rw [if_pos (.inr rfl), if_neg fun hand => hand.1 hbad]
  · rename_i hgood
    simp only [take_length_add_append, drop_left, take_left, length_collect_iff,
      Bool.true_eq_false, false_or, Bool.or_eq_true, decide_eq_true_eq]
    split
    · rw [if_neg]
      rintro ⟨-, hlong, hlength, -⟩
      omega
    · by_cases hall : (text.take (declared digits)).all redactionBase64URLByte = true
      · rw [if_pos hall, if_pos ⟨hgood, by omega, by omega, hall⟩]
      · rw [if_neg hall, if_neg fun hand => hall hand.2.2.2]

end Ends

section Scanning

def nextCandidate (text : Bytes) : Option Bytes :=
  text.tails.find? fun tail => (parseRedactionCandidate tail).found

/-- The scan of the first text comes to the candidate at the start of the second. -/
inductive Reached : Bytes → Bytes → Prop where
  | here {s t : Bytes} : nextCandidate s = some t → Reached s t
  | later {s t t' : Bytes} : nextCandidate s = some t → Reached (t.drop (resume t)) t' →
    Reached s t'

theorem nextCandidate_nil : nextCandidate [] = none := by decide

theorem nextCandidate_cons (b : UInt8) (text : Bytes) :
    nextCandidate (b :: text) =
      if (parseRedactionCandidate (b :: text)).found then some (b :: text)
      else nextCandidate text := by
  unfold nextCandidate
  rw [tails_cons, find?_cons]
  cases (parseRedactionCandidate (b :: text)).found <;> rfl

theorem nextCandidate_of_found {text : Bytes} (h : (parseRedactionCandidate text).found = true) :
    nextCandidate text = some text := by
  cases text with
  | nil => exact absurd h (by decide)
  | cons b text => rw [nextCandidate_cons, if_pos h]

theorem nextCandidate_eq_some {text t : Bytes} (h : nextCandidate text = some t) :
    (parseRedactionCandidate t).found = true ∧ ∃ u, text = u ++ t := by
  have hfound := find?_some h
  refine ⟨hfound, ?_⟩
  obtain ⟨u, hu⟩ := (mem_tails _ _).mp (mem_of_find?_eq_some h)
  exact ⟨u, hu.symm⟩

theorem nextCandidate_append {u text : Bytes}
    (h : ∀ j < u.length, (parseRedactionCandidate ((u ++ text).drop j)).found = false) :
    nextCandidate (u ++ text) = nextCandidate text := by
  induction u with
  | nil => rfl
  | cons b u ih =>
    have hfirst : (parseRedactionCandidate (b :: (u ++ text))).found = false :=
      h 0 (Nat.zero_lt_succ _)
    rw [cons_append, nextCandidate_cons, hfirst]
    exact ih fun j hj => h (j + 1) (Nat.succ_lt_succ hj)

theorem not_found_before {u t : Bytes} (h : nextCandidate (u ++ t) = some t) (j : Nat)
    (hj : j < u.length) : (parseRedactionCandidate ((u ++ t).drop j)).found = false := by
  induction u generalizing j with
  | nil => exact absurd hj (Nat.not_lt_zero j)
  | cons b u ih =>
    rw [cons_append, nextCandidate_cons] at h
    split at h
    · have hlength := congrArg List.length (Option.some.inj h)
      simp only [length_cons, length_append] at hlength
      omega
    · rename_i hfirst
      cases j with
      | zero => exact Bool.eq_false_iff.mpr hfirst
      | succ j => exact ih h j (Nat.lt_of_succ_lt_succ hj)

theorem not_found_of_none {text : Bytes} (h : nextCandidate text = none) (j : Nat) :
    (parseRedactionCandidate (text.drop j)).found = false := by
  induction text generalizing j with
  | nil => simp; decide
  | cons b text ih =>
    rw [nextCandidate_cons] at h
    split at h
    · cases h
    · rename_i hfirst
      cases j with
      | zero => exact Bool.eq_false_iff.mpr hfirst
      | succ j => exact ih h j

theorem Reached.found {s t : Bytes} (h : Reached s t) :
    (parseRedactionCandidate t).found = true := by
  induction h with
  | here h => exact (nextCandidate_eq_some h).1
  | later _ _ ih => exact ih

theorem Reached.suffix {s t : Bytes} (h : Reached s t) : t <:+ s := by
  induction h with
  | here h =>
    obtain ⟨u, rfl⟩ := (nextCandidate_eq_some h).2
    exact suffix_append u _
  | later h _ ih =>
    obtain ⟨u, rfl⟩ := (nextCandidate_eq_some h).2
    exact ih.trans ((drop_suffix _ _).trans (suffix_append u _))

end Scanning

end EchoJoyGateway.Redaction
