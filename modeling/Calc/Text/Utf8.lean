/-
# Texts as bytes

A file holds a text as bytes in UTF-8. The bytes are read one after another; in
the middle of a character the state tells which bytes may come next. Bytes that
are no text are refused where they first go wrong: at a byte that starts no
character, at a byte that does not continue the character before it, or at the
end in the middle of a character.
-/

namespace Calc.Text

/-- What is wrong with a sequence of bytes. -/
inductive Utf8Fault where
  | invalidStart
  | invalidContinuation
  | unexpectedEnd
  deriving DecidableEq, Repr

/-- Bytes that are no text: the first of the bytes in question, the position of
it, and the position after the last of them. -/
structure Utf8Error where
  fault : Utf8Fault
  byte : UInt8
  start : Nat
  stop : Nat
  deriving DecidableEq, Repr

/-- The middle of a character: where it starts and with which byte, how many bytes
are missing, the bounds of the next one, and the code point so far. -/
structure PartialChar where
  start : Nat
  lead : UInt8
  missing : Nat
  low : UInt8
  high : UInt8
  value : Nat

/-- The character that a byte above 0x7F starts, if it starts one. The bounds of
the second byte exclude overlong forms, surrogates, and what lies beyond the last
code point. -/
def PartialChar.ofLead? (position : Nat) (b : UInt8) : Option PartialChar :=
  let begun := fun missing low high value => some ⟨position, b, missing, low, high, value⟩
  if b < 0xC2 then none
  else if b < 0xE0 then begun 1 0x80 0xBF (b.toNat - 0xC0)
  else if b < 0xF0 then
    begun 2 (if b = 0xE0 then 0xA0 else 0x80) (if b = 0xED then 0x9F else 0xBF) (b.toNat - 0xE0)
  else if b < 0xF5 then
    begun 3 (if b = 0xF0 then 0x90 else 0x80) (if b = 0xF4 then 0x8F else 0xBF) (b.toNat - 0xF0)
  else none

/-- Read bytes from a position on, in the middle of a character or not. -/
def decodeUtf8From (position : Nat) (middle : Option PartialChar) :
    List UInt8 → Except Utf8Error (List Char)
  | [] =>
      match middle with
      | none => .ok []
      | some p => .error ⟨.unexpectedEnd, p.lead, p.start, position⟩
  | b :: rest =>
      match middle with
      | none =>
          if b < 0x80 then
            (decodeUtf8From (position + 1) none rest).map (Char.ofNat b.toNat :: ·)
          else
            match PartialChar.ofLead? position b with
            | none => .error ⟨.invalidStart, b, position, position + 1⟩
            | some p => decodeUtf8From (position + 1) (some p) rest
      | some p =>
          if p.low ≤ b ∧ b ≤ p.high then
            let value := p.value * 64 + (b.toNat - 0x80)
            if p.missing = 1 then
              (decodeUtf8From (position + 1) none rest).map (Char.ofNat value :: ·)
            else
              decodeUtf8From (position + 1)
                (some ⟨p.start, p.lead, p.missing - 1, 0x80, 0xBF, value⟩) rest
          else .error ⟨.invalidContinuation, p.lead, p.start, position⟩

/-- The text that bytes stand for. -/
def decodeUtf8 (bytes : List UInt8) : Except Utf8Error (List Char) :=
  decodeUtf8From 0 none bytes

namespace Utf8Error

/-- What went wrong, in words. -/
def reason (e : Utf8Error) : String :=
  match e.fault with
  | .invalidStart => "invalid start byte"
  | .invalidContinuation => "invalid continuation byte"
  | .unexpectedEnd => "unexpected end of data"

/-- The text of the error. It names the byte in question if it is only one. -/
def message (e : Utf8Error) : String :=
  let bytes :=
    if e.stop = e.start + 1 then
      "byte 0x" ++ String.ofList (Nat.toDigits 16 e.byte.toNat) ++ " in position "
    else "bytes in position "
  let positions :=
    if e.stop = e.start + 1 then toString e.start
    else toString e.start ++ "-" ++ toString (e.stop - 1)
  "'utf-8' codec can't decode " ++ bytes ++ positions ++ ": " ++ e.reason

end Utf8Error

end Calc.Text
