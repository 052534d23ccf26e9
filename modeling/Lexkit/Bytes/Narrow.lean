/-
  Lexkit.Bytes.Narrow — the encodings of one byte a character, whose code point the byte is. Latin-1
  takes all of them, ASCII only those below 80.
-/

import Lexkit.Bytes.Decode

namespace Lexkit

def Latin1.decoder : Decoder := fun b _ => .char (Char.ofNat b.toNat) 0

def Ascii.decoder : Decoder := fun b _ =>
  if b.toNat < 0x80 then .char (Char.ofNat b.toNat) 0 else .fault 1 .notAscii

end Lexkit
