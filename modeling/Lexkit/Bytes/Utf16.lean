/-
  Lexkit.Bytes.Utf16 — UTF-16. Two bytes make a unit, in either order. A unit that is no surrogate is a
  character; a high surrogate and the low one after it make one character past the first plane.

  Faults: an odd byte at the end is truncated; a high surrogate with no whole unit after it ends
  unexpectedly, all bytes from it on being at fault; a high surrogate before any other unit is an
  illegal surrogate, and a low one by itself an illegal encoding.
-/

import Lexkit.Bytes.Decode

namespace Lexkit.Utf16

inductive Order where
  | little
  | big
  deriving DecidableEq, Repr

def Order.unit : Order → UInt8 → UInt8 → Nat
  | .little, a, b => a.toNat + 256 * b.toNat
  | .big, a, b => 256 * a.toNat + b.toNat

def isHigh (u : Nat) : Bool := decide (0xD800 ≤ u ∧ u < 0xDC00)

def isLow (u : Nat) : Bool := decide (0xDC00 ≤ u ∧ u < 0xE000)

/-- The code point of a pair of surrogates. -/
def pair (high low : Nat) : Nat := 0x10000 + (high - 0xD800) * 0x400 + (low - 0xDC00)

/-- A high surrogate and the bytes after it. -/
def afterHigh (o : Order) (high : Nat) : Bytes → Step
  | a :: b :: _ =>
    if isLow (o.unit a b) then .char (Char.ofNat (pair high (o.unit a b))) 3 else .fault 2 .illegalSurrogate
  | short => .fault (2 + short.length) .unexpectedEnd

def decoder (o : Order) : Decoder := fun a r =>
  match r with
  | [] => .fault 1 .truncated
  | b :: r =>
    if isHigh (o.unit a b) then afterHigh o (o.unit a b) r
    else if isLow (o.unit a b) then .fault 2 .illegalEncoding
    else .char (Char.ofNat (o.unit a b)) 1

/-- The byte order mark, as each order writes it. -/
def orderMark : Order → Bytes
  | .little => [0xFF, 0xFE]
  | .big => [0xFE, 0xFF]

/-- The order that a mark in front shows. -/
def marked? (b : Bytes) : Option Order :=
  if (orderMark .little).isPrefixOf b then some .little
  else if (orderMark .big).isPrefixOf b then some .big
  else none

end Lexkit.Utf16
