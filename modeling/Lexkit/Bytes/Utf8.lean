/-
  Lexkit.Bytes.Utf8 — UTF-8. The first byte of a character says how many bytes continue it. Each of
  those lies in 80 to BF; the one right after the first is held to less where all of that range would
  give a code point that has a shorter form, is a surrogate or lies past the last plane.

  A fault spans the first byte and the good ones after it: at a byte that cannot continue the character
  it is an invalid continuation, at the end of the bytes an unexpected end. A byte that opens no
  character is a fault by itself.
-/

import Lexkit.Bytes.Decode

namespace Lexkit.Utf8

/-- What a first byte promises: its share of the code point, and the range of each byte to follow. -/
structure Lead where
  bits : Nat
  ranges : List (Nat × Nat)
  deriving DecidableEq, Repr

def tail : Nat × Nat := (0x80, 0xBF)

def lead? (b : Nat) : Option Lead :=
  if b < 0x80 then some ⟨b, []⟩
  else if b < 0xC2 then none
  else if b < 0xE0 then some ⟨b - 0xC0, [tail]⟩
  else if b = 0xE0 then some ⟨b - 0xE0, [(0xA0, 0xBF), tail]⟩
  else if b = 0xED then some ⟨b - 0xE0, [(0x80, 0x9F), tail]⟩
  else if b < 0xF0 then some ⟨b - 0xE0, [tail, tail]⟩
  else if b = 0xF0 then some ⟨b - 0xF0, [(0x90, 0xBF), tail, tail]⟩
  else if b < 0xF4 then some ⟨b - 0xF0, [tail, tail, tail]⟩
  else if b = 0xF4 then some ⟨b - 0xF0, [(0x80, 0x8F), tail, tail]⟩
  else none

/-- The bytes after the first, `seen` of which were good and gave `bits` so far. -/
def follow : List (Nat × Nat) → Nat → Nat → Bytes → Step
  | [], bits, seen, _ => .char (Char.ofNat bits) seen
  | _ :: _, _, seen, [] => .fault (seen + 1) .unexpectedEnd
  | range :: more, bits, seen, b :: r =>
    if range.1 ≤ b.toNat ∧ b.toNat ≤ range.2 then follow more (bits * 64 + (b.toNat - 0x80)) (seen + 1) r
    else .fault (seen + 1) .invalidContinuation

def decoder : Decoder := fun b r =>
  match lead? b.toNat with
  | some l => follow l.ranges l.bits 0 r
  | none => .fault 1 .invalidStart

/-- The mark some writers put in front. -/
def signature : Bytes := [0xEF, 0xBB, 0xBF]

/-- The bytes behind one signature, or all of them where none stands in front. -/
def unsigned (b : Bytes) : Bytes := if signature.isPrefixOf b then b.drop signature.length else b

end Lexkit.Utf8
