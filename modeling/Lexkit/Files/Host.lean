/-
  Lexkit.Files.Host — what a library finds where it runs: the files, and the encodings beyond those described here.
  Asking for a file or an encoding may itself fail, with whatever error the host raises.

  The names of the encodings described here, and of the transforms that make no text, mean the same on every host.
-/

import Lexkit.Bytes.Codec
import Lexkit.Files.Path

namespace Lexkit

/-- Nothing is said of a host but that the directory one is in is no file. -/
structure Host where
  isFile : Path → Except Raised Bool := fun _ => .ok false
  readBytes : Path → Except Raised Bytes := fun _ => .ok []
  /-- The encodings under all other names. -/
  further : String → Except Raised Codec := fun _ => .ok .unknown
  here_no_file : isFile {} ≠ .ok true := by nofun

def Host.codec (h : Host) (name : String) : Except Raised Codec :=
  match Encoding.named? name with
  | some e => .ok e.codec
  | none => if Encoding.isTransform name then .ok .transform else h.further name

end Lexkit
