/-
  Lexkit.Bytes.Codec — what the name of an encoding stands for where a library runs. A name may be unknown there, or
  name a transform between bytes, which makes no text of them; otherwise it names a decoder, of the encodings described
  here or of others.

  A decoder fails on bytes it cannot decode, and says why; it may also fail with an error of another kind. For the
  decoders described here only the first happens.
-/

import Lexkit.Bytes.Encoding

namespace Lexkit

/-- An error from what the library stands on: its kind and what it says. -/
structure Raised where
  kind : String
  message : String
  deriving DecidableEq, Repr

/-- Why bytes cannot be decoded. -/
inductive Cause where
  | fault (u : Undecodable)
  /-- What the decoder of an encoding not described here says. -/
  | told (message : String)
  deriving DecidableEq, Repr

def Cause.message : Cause → String
  | .fault u => u.message
  | .told message => message

inductive DecodeError where
  | undecodable (cause : Cause)
  | raised (e : Raised)
  deriving DecidableEq, Repr

inductive Codec where
  | unknown
  | transform
  | text (decode : Bytes → Except DecodeError Text)

def Encoding.codec (e : Encoding) : Codec := .text fun b => (e.decode b).mapError fun u => .undecodable (.fault u)

end Lexkit
