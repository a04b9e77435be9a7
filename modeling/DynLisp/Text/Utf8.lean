import DynLisp.Text.Decimal

/-!
# Decoding UTF-8

Strict decoding of bytes.  A character of two to four bytes starts with a lead byte that says how
many follow, and every byte after it is a continuation byte.  Overlong forms, surrogates and
numbers beyond the last character are excluded by the range of the second byte, which depends on
the lead byte.

Decoding stops at the first bytes that form no character.  The fault names the part that was
accepted before the trouble: the one byte that leads nothing, the lead byte and the continuation
bytes before one that does not continue it, or the whole unfinished character at the end.
-/

namespace DynLisp.Utf8

/-- Why bytes form no character. -/
inductive Reason where
  | invalidStart
  | invalidContinuation
  | unexpectedEnd
  deriving DecidableEq, Repr, Inhabited

/-- The bytes that form no character: where they start, the first of them, and how many they
are. -/
structure Fault where
  reason : Reason
  start : Nat
  byte : UInt8
  count : Nat
  deriving DecidableEq, Repr, Inhabited

/-- How many continuation bytes follow a lead byte, and the bits that it contributes. -/
def lead? (b : UInt8) : Option (Nat × Nat) :=
  let n := b.toNat
  if n < 0x80 then some (0, n)
  else if n < 0xC2 then none
  else if n < 0xE0 then some (1, n - 0xC0)
  else if n < 0xF0 then some (2, n - 0xE0)
  else if n < 0xF5 then some (3, n - 0xF0)
  else none

/-- Whether a byte continues a character. -/
def isContinuation (b : UInt8) : Bool := 0x80 ≤ b && b < 0xC0

/-- Whether a continuation byte may be the second byte after a lead byte. -/
def fitsSecond (lead second : UInt8) : Bool :=
  if lead = 0xE0 then 0xA0 ≤ second
  else if lead = 0xED then second < 0xA0
  else if lead = 0xF0 then 0x90 ≤ second
  else if lead = 0xF4 then second < 0x90
  else true

/-- The continuation bytes at the front of some bytes, at most `wanted` of them, when `taken` bytes
of the character that `lead` starts were read already. -/
def continuation (lead : UInt8) (taken : Nat) : Nat → List UInt8 → List UInt8
  | wanted + 1, b :: bytes =>
    if isContinuation b && (taken != 1 || fitsSecond lead b) then
      b :: continuation lead (taken + 1) wanted bytes
    else
      []
  | _, _ => []

/-- The characters of the bytes that stand from `start` on. -/
def decodeFrom (start : Nat) : List UInt8 → Except Fault (List Char)
  | [] => .ok []
  | b :: bytes =>
    match lead? b with
    | none => .error ⟨.invalidStart, start, b, 1⟩
    | some (wanted, bits) =>
      let more := continuation b 1 wanted bytes
      if more.length = wanted then
        let code := more.foldl (fun n c => n * 64 + (c.toNat - 0x80)) bits
        (decodeFrom (start + 1 + wanted) (bytes.drop wanted)).map (Char.ofNat code :: ·)
      else if more.length = bytes.length then
        .error ⟨.unexpectedEnd, start, b, 1 + more.length⟩
      else
        .error ⟨.invalidContinuation, start, b, 1 + more.length⟩
termination_by bytes => bytes.length
decreasing_by simp only [List.length_drop, List.length_cons]; omega

/-- The text that some bytes encode. -/
def decode (bytes : List UInt8) : Except Fault String :=
  (decodeFrom 0 bytes).map String.ofList

namespace Reason

/-- A reason as messages give it. -/
def text : Reason → String
  | invalidStart => "invalid start byte"
  | invalidContinuation => "invalid continuation byte"
  | unexpectedEnd => "unexpected end of data"

end Reason

/-- A byte as messages show it: two hexadecimal digits. -/
def hexByte (b : UInt8) : String :=
  String.ofList ('0' :: 'x' :: [Nat.digitChar (b.toNat / 16), Nat.digitChar (b.toNat % 16)])

/-- The wording of a fault. -/
def Fault.text (fault : Fault) : String :=
  let bytes :=
    if fault.count = 1 then
      "byte " ++ hexByte fault.byte ++ " in position " ++ Decimal.write fault.start
    else
      "bytes in position " ++ Decimal.write fault.start ++ "-" ++
        Decimal.write (fault.start + (fault.count - 1))
  "'utf-8' codec can't decode " ++ bytes ++ ": " ++ fault.reason.text

end DynLisp.Utf8
