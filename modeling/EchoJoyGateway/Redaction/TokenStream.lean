import EchoJoyGateway.Redaction.Cipher

/-!
# Restoring tokens in a stream

`internal/gateway/redaction_restore_token_stream.go`: a text that arrives in
pieces is written out as it comes, except for what may be the start of a token.
`quote` is the JSON encoding of a restored text inside a quoted string, absent
outside of one.
-/

namespace EchoJoyGateway.Redaction

open Search List

def maxRedactionStreamPendingBytes : Nat := 33554432

def redactionStreamPrefix : Bytes := redactionTokenPrefix

inductive StreamError where
  | errRedactionStream
  deriving DecidableEq

structure RedactionTokenStream where
  raw : Bytes := []
  decoded : Bytes := []
  matched : Nat := 0
  digits : Nat := 0
  length : Nat := 0
  remaining : Nat := 0
  leadingZero : Bool := false
  oversize : Bool := false
  body : Bool := false
  changed : Bool := false
  limit : Nat := 0
  deriving DecidableEq

abbrev Restore := Bytes → Except RestoreError Bytes

abbrev Quote := Option (Bytes → Option Bytes)

namespace RedactionTokenStream

def pending (token : RedactionTokenStream) : Bool := token.raw != []

def reset (token : RedactionTokenStream) : RedactionTokenStream :=
  { changed := token.changed, limit := token.limit }

def pendingLimit (token : RedactionTokenStream) : Nat :=
  if token.limit = 0 then maxRedactionStreamPendingBytes else token.limit

def append (token : RedactionTokenStream) (raw decoded : Bytes) :
    Except StreamError RedactionTokenStream :=
  if token.pendingLimit < token.raw.length + raw.length then .error .errRedactionStream
  else .ok { token with raw := token.raw ++ raw, decoded := token.decoded ++ decoded }

/-- Writes out a candidate that cannot be a token; the token is reset after it. -/
def keep (token : RedactionTokenStream) (restore : Restore) (out : Bytes) :
    Except StreamError Bytes :=
  match restore token.decoded with
  | .error _ => .error .errRedactionStream
  | .ok restored =>
    if restored ≠ token.decoded then .error .errRedactionStream else .ok (out ++ token.raw)

/-- Writes out a candidate whose body is complete. -/
def complete (token : RedactionTokenStream) (restore : Restore) (quote : Quote) (out : Bytes) :
    Except StreamError (RedactionTokenStream × Bytes) :=
  match restore token.decoded with
  | .error _ => .error .errRedactionStream
  | .ok restored =>
    if restored = token.decoded then .ok (token.reset, out ++ token.raw)
    else
      match quote with
      | none => .ok ({ token.reset with changed := true }, out ++ restored)
      | some encode =>
        match encode restored with
        | none => .error .errRedactionStream
        | some encoded => .ok ({ token.reset with changed := true }, out ++ encoded)

def countDigit (token : RedactionTokenStream) (digit : UInt8) : RedactionTokenStream :=
  { token with
    leadingZero := if token.digits = 0 then digit == 48 else token.leadingZero
    digits := token.digits + 1
    length := (lengthStep maxRedactionStreamPendingBytes (token.length, token.oversize) digit).1
    oversize := (lengthStep maxRedactionStreamPendingBytes (token.length, token.oversize) digit).2 }

/-- The byte that a unit stands for, zero if it is not one byte. -/
def unitByte (decoded : Bytes) : UInt8 :=
  match decoded with
  | [b] => b
  | _ => 0

def pushUnit (token : RedactionTokenStream) (restore : Restore) (quote : Quote)
    (raw decoded : Bytes) (out : Bytes) : Except StreamError (RedactionTokenStream × Bytes) :=
  if token.matched < redactionStreamPrefix.length then
    if decoded.length = 1 ∧ redactionStreamPrefix[token.matched]? = some (unitByte decoded) then
      match token.append raw decoded with
      | .error e => .error e
      | .ok token => .ok ({ token with matched := token.matched + 1 }, out)
    else if token.pending = true then
      token.reset.pushUnit restore quote raw decoded (out ++ token.raw)
    else .ok (token, out ++ raw)
  else if token.body = false then
    if isDigit (unitByte decoded) then
      match (token.countDigit (unitByte decoded)).append raw decoded with
      | .error e => .error e
      | .ok token => .ok (token, out)
    else if unitByte decoded = underscore ∧ 0 < token.digits then
      match token.append raw decoded with
      | .error e => .error e
      | .ok token =>
        if token.oversize || token.length == 0 ||
            (token.leadingZero && decide (1 < token.digits)) then
          match token.keep restore out with
          | .error e => .error e
          | .ok out => .ok (token.reset, out)
        else .ok ({ token with body := true, remaining := token.length }, out)
    else token.reset.pushUnit restore quote raw decoded (out ++ token.raw)
  else if decoded.length ≠ 1 ∨ redactionBase64URLByte (unitByte decoded) = false then
    match token.keep restore out with
    | .error e => .error e
    | .ok out => token.reset.pushUnit restore quote raw decoded out
  else
    match token.append raw decoded with
    | .error e => .error e
    | .ok token =>
      let token := { token with remaining := token.remaining - 1 }
      if token.remaining ≠ 0 then .ok (token, out) else token.complete restore quote out
termination_by if token.matched = 0 ∧ token.raw = [] then 0 else 1
decreasing_by
  all_goals
    rw [if_pos ⟨rfl, rfl⟩, if_neg]
    · exact Nat.zero_lt_one
    · rintro ⟨hzero, hraw⟩
      simp_all [pending, redactionStreamPrefix, redactionTokenPrefix]

/-- The byte continues the pending header. -/
def continues (token : RedactionTokenStream) (b : UInt8) : Bool :=
  if token.matched = redactionStreamPrefix.length then
    isDigit b || (b == underscore && decide (0 < token.digits))
  else redactionStreamPrefix[token.matched]? == some b

def pushString (token : RedactionTokenStream) (restore : Restore) (quote : Quote) (value : Bytes)
    (out : Bytes) : Except StreamError (RedactionTokenStream × Bytes) :=
  match value with
  | [] => .ok (token, out)
  | b :: rest =>
    if token.pending = true ∧ token.body = false ∧ token.continues b = false then
      token.reset.pushString restore quote (b :: rest) (out ++ token.raw)
    else if token.pending = true then
      match token.pushUnit restore quote [b] [b] out with
      | .error e => .error e
      | .ok (token, out) => token.pushString restore quote rest out
    else
      match index redactionStreamPrefix (b :: rest) with
      | some i =>
        match token.append redactionStreamPrefix redactionStreamPrefix with
        | .error e => .error e
        | .ok token =>
          { token with matched := redactionStreamPrefix.length }.pushString restore quote
            ((b :: rest).drop (i + redactionStreamPrefix.length)) (out ++ (b :: rest).take i)
      | none =>
        let cut := (b :: rest).length - heldBack redactionStreamPrefix (b :: rest)
          (min (redactionStreamPrefix.length - 1) (b :: rest).length)
        match _hheld : (b :: rest).drop cut with
        | [] => .ok (token, out ++ (b :: rest).take cut)
        | first :: held =>
          match token.pushUnit restore quote [first] [first] (out ++ (b :: rest).take cut) with
          | .error e => .error e
          | .ok (token, out) => token.pushString restore quote held out
termination_by 2 * value.length + if token.pending then 1 else 0
decreasing_by
  · rename_i hflush
    rw [hflush.1]
    exact Nat.lt_succ_self _
  · simp only [length_cons]
    split <;> omega
  · have hlength : redactionStreamPrefix.length = 5 := rfl
    simp only [length_drop, length_cons]
    split <;> omega
  · have hlength := congrArg List.length _hheld
    simp only [length_drop, length_cons] at hlength ⊢
    split <;> omega

def finish (token : RedactionTokenStream) (restore : Restore) : Except StreamError Bytes :=
  if token.body then token.keep restore [] else .ok token.raw

end RedactionTokenStream

/-- The pieces of a text pushed one after another, and the end of it: everything
that is written. -/
def streamText (restore : Restore) (token : RedactionTokenStream) (out : Bytes) :
    List Bytes → Except StreamError Bytes
  | [] =>
    match token.finish restore with
    | .error e => .error e
    | .ok tail => .ok (out ++ tail)
  | chunk :: chunks =>
    match token.pushString restore none chunk out with
    | .error e => .error e
    | .ok (token, out) => streamText restore token out chunks

end EchoJoyGateway.Redaction
