import EchoJoyGateway.Lib.Search

/-!
# Redaction tokens

`internal/platform/encryption/redaction.go`: how a text is searched for tokens
and restored. A text is its bytes. A position in the text is given by the text
from there on, and the ends of a candidate count from its start. Decoding and
authentication of a token are one partial function of its header and its body;
the counter of unrestored candidates is left out.
-/

namespace EchoJoyGateway.Redaction

open Search

abbrev Bytes := List UInt8

/-- The bytes of `gld1_`. -/
def redactionTokenPrefix : Bytes := [103, 108, 100, 49, 95]

def underscore : UInt8 := 95

def maxRedactionPlaintextBytes : Nat := 16777216

def maxRedactionTokensPerText : Nat := 65536

def redactionCiphertextOverhead : Nat := 16

/-- `base64.RawURLEncoding.EncodedLen`. -/
def encodedLen (n : Nat) : Nat := n / 3 * 4 + (n % 3 * 8 + 5) / 6

def maxEncodedLen : Nat := encodedLen (maxRedactionPlaintextBytes + redactionCiphertextOverhead)

def isDigit (b : UInt8) : Bool := 48 ≤ b && b ≤ 57

def digitValue (b : UInt8) : Nat := b.toNat - 48

def redactionBase64URLByte (b : UInt8) : Bool :=
  (65 ≤ b && b ≤ 90) || (97 ≤ b && b ≤ 122) || (48 ≤ b && b ≤ 57) || b == 45 || b == 95

/-- Opens a token from its header and its body. -/
structure RedactionCipher where
  decrypt : Bytes → Bytes → Option Bytes

structure TokenCandidate where
  headerEnd : Nat
  stop : Nat
  found : Bool
  malformed : Bool
  badHeader : Bool
  deriving DecidableEq

def noCandidate : TokenCandidate := ⟨0, 0, false, false, false⟩

def lengthStep (limit : Nat) (state : Nat × Bool) (digit : UInt8) : Nat × Bool :=
  if state.2 || decide ((limit - digitValue digit) / 10 < state.1) then (state.1, true)
  else (state.1 * 10 + digitValue digit, false)

def readLength (limit : Nat) (digits : Bytes) : Nat × Bool :=
  digits.foldl (lengthStep limit) (0, false)

def leadingZero (digits : Bytes) : Bool := decide (1 < digits.length) && digits.head? == some 48

def parseRedactionCandidate (text : Bytes) : TokenCandidate :=
  if redactionTokenPrefix <+: text then
    let tail := text.drop redactionTokenPrefix.length
    let digits := tail.takeWhile isDigit
    if digits = [] ∨ (tail.dropWhile isDigit).head? ≠ some underscore then noCandidate
    else
      let headerEnd := redactionTokenPrefix.length + digits.length + 1
      let length := readLength maxEncodedLen digits
      if length.2 || length.1 == 0 || leadingZero digits then
        ⟨headerEnd, 0, true, true, true⟩
      else
        ⟨headerEnd, headerEnd + length.1, true,
          decide (length.1 < encodedLen redactionCiphertextOverhead) ||
            decide (text.length < headerEnd + length.1), false⟩
  else noCandidate

def unrestoredCandidateEnd (text : Bytes) (candidate : TokenCandidate) : Nat :=
  if candidate.badHeader then candidate.headerEnd
  else
    candidate.headerEnd +
      (((text.take candidate.stop).drop candidate.headerEnd).takeWhile
        redactionBase64URLByte).length

def RedactionCipher.decryptCandidate (c : RedactionCipher) (text : Bytes)
    (candidate : TokenCandidate) : Option Bytes :=
  if candidate.found = false ∨ candidate.malformed = true then none
  else
    let encoded := (text.take candidate.stop).drop candidate.headerEnd
    if encoded.all redactionBase64URLByte then
      c.decrypt (text.take candidate.headerEnd) encoded
    else none

inductive RestoreError where
  | tooManyTokens
  deriving DecidableEq

theorem length_lt_headerEnd {text : Bytes} (h : (parseRedactionCandidate text).found = true) :
    redactionTokenPrefix.length < (parseRedactionCandidate text).headerEnd := by
  revert h
  unfold parseRedactionCandidate
  split
  · dsimp only
    split
    · intro h
      cases h
    · split
      · intro h
        dsimp only
        omega
      · intro h
        dsimp only
        omega
  · intro h
    cases h

theorem headerEnd_le_unrestoredCandidateEnd (text : Bytes) (candidate : TokenCandidate) :
    candidate.headerEnd ≤ unrestoredCandidateEnd text candidate := by
  unfold unrestoredCandidateEnd
  split
  · exact le_rfl
  · exact Nat.le_add_right _ _

theorem RedactionCipher.headerEnd_le_stop {c : RedactionCipher} {text plaintext : Bytes}
    (h : c.decryptCandidate text (parseRedactionCandidate text) = some plaintext) :
    (parseRedactionCandidate text).headerEnd ≤ (parseRedactionCandidate text).stop := by
  unfold RedactionCipher.decryptCandidate at h
  split at h
  · cases h
  · rename_i hwell
    revert hwell
    unfold parseRedactionCandidate
    split
    · dsimp only
      split
      · intro hwell
        exact absurd (.inl rfl) hwell
      · split
        · intro hwell
          exact absurd (.inr rfl) hwell
        · intro _
          exact Nat.le_add_right _ _
    · intro hwell
      exact absurd (.inl rfl) hwell

def finishRestore (text : Bytes) (last : Nat) (out : Bytes) : Bytes :=
  if last = 0 ∧ out = [] then text else out ++ text.drop last

def RedactionCipher.restoreLoop (c : RedactionCipher) (text : Bytes) (scan last tokens : Nat)
    (out : Bytes) : Except RestoreError Bytes :=
  if hscan : scan < text.length then
    match index redactionTokenPrefix (text.drop scan) with
    | none => .ok (finishRestore text last out)
    | some relative =>
      let start := scan + relative
      let rest := text.drop start
      if hfound : (parseRedactionCandidate rest).found = true then
        if maxRedactionTokensPerText < tokens + 1 then .error .tooManyTokens
        else
          match hplain : c.decryptCandidate rest (parseRedactionCandidate rest) with
          | none =>
            c.restoreLoop text
              (start + unrestoredCandidateEnd rest (parseRedactionCandidate rest)) last
              (tokens + 1) out
          | some plaintext =>
            c.restoreLoop text (start + (parseRedactionCandidate rest).stop)
              (start + (parseRedactionCandidate rest).stop) (tokens + 1)
              (out ++ (text.take start).drop last ++ plaintext)
      else c.restoreLoop text (start + redactionTokenPrefix.length) last tokens out
  else .ok (finishRestore text last out)
termination_by text.length - scan
decreasing_by
  · have hheader := length_lt_headerEnd hfound
    have hend := headerEnd_le_unrestoredCandidateEnd (text.drop (scan + relative))
      (parseRedactionCandidate (text.drop (scan + relative)))
    dsimp only [rest, start] at hheader hend ⊢
    omega
  · have hheader := length_lt_headerEnd hfound
    have hstop := headerEnd_le_stop hplain
    dsimp only [rest, start] at hheader hstop ⊢
    omega
  · have hlength : redactionTokenPrefix.length = 5 := rfl
    omega

def RedactionCipher.restoreText (c : RedactionCipher) (text : Bytes) : Except RestoreError Bytes :=
  c.restoreLoop text 0 0 0 []

end EchoJoyGateway.Redaction
