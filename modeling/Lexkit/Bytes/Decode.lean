/-
  Lexkit.Bytes.Decode — turning bytes into a text, one character at a time. A decoder is given by what
  it makes of the bytes at hand: a character and how many further bytes it took, or a fault with how
  many bytes it spans and why. Decoding goes on from character to character and stops at the first
  fault, which then carries the place and the bytes at fault.
-/

import Lexkit.Text.Basic
import Lexkit.Text.Quoted

namespace Lexkit

abbrev Bytes := List UInt8

inductive FaultReason where
  | invalidStart
  | invalidContinuation
  | unexpectedEnd
  | notAscii
  | truncated
  | illegalSurrogate
  | illegalEncoding
  deriving DecidableEq, Repr

def FaultReason.text : FaultReason → String
  | .invalidStart => "invalid start byte"
  | .invalidContinuation => "invalid continuation byte"
  | .unexpectedEnd => "unexpected end of data"
  | .notAscii => "ordinal not in range(128)"
  | .truncated => "truncated data"
  | .illegalSurrogate => "illegal UTF-16 surrogate"
  | .illegalEncoding => "illegal encoding"

/-- What a decoder makes of a first byte and those after it. -/
inductive Step where
  /-- A character that took `more` bytes after the first. -/
  | char (c : Char) (more : Nat)
  /-- A fault of `width` bytes, the first included. -/
  | fault (width : Nat) (reason : FaultReason)
  deriving DecidableEq, Repr

abbrev Decoder := UInt8 → Bytes → Step

/-- The first fault: where it is, the bytes it spans and why. -/
structure DecodeFault where
  position : Nat
  bytes : Bytes
  reason : FaultReason
  deriving DecidableEq, Repr

namespace Decoder

/-- Decodes all bytes, the first of them being number `i`. -/
def run (d : Decoder) (i : Nat) : Bytes → Except DecodeFault Text
  | [] => .ok []
  | b :: r =>
    match d b r with
    | .char c more => (d.run (i + 1 + more) (r.drop more)).map (c :: ·)
    | .fault width reason => .error ⟨i, (b :: r).take width, reason⟩
termination_by bs => bs.length
decreasing_by simp only [List.length_drop, List.length_cons]; omega

end Decoder

/-- The fault as a message: one byte is shown, of several the first and the last place. -/
def DecodeFault.message (codec : String) (f : DecodeFault) : String :=
  let what := match f.bytes with
    | [b] => "byte 0x" ++ String.ofList (Text.hexDigits 2 b.toNat) ++ " in position " ++ Nat.repr f.position
    | bs => "bytes in position " ++ Nat.repr f.position ++ "-" ++ Nat.repr (f.position + bs.length - 1)
  "'" ++ codec ++ "' codec can't decode " ++ what ++ ": " ++ f.reason.text

end Lexkit
