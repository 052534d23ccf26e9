/-
  Lexkit.Bytes.Encoding — encodings a text can be kept in, by the names callers use for them. A name
  is read without regard to case and to which marks separate its words, so `UTF-8` and `utf_8` are one;
  a dot is no such mark, but the aliases of an encoding may be written with dots between their words, and
  nothing is called by a name with a NUL in it. There are names that look alike and stand for transforms,
  which take bytes or texts to their like. What any other name stands for is not known here.

  Plain UTF-8 and UTF-16 of a fixed byte order keep a byte order mark as a character. The signed UTF-8
  drops one signature in front and counts places behind it; UTF-16 of no fixed order takes its order from
  the mark in front, little where there is none, and counts the mark among the places.
-/

import Lexkit.Bytes.Narrow
import Lexkit.Bytes.Utf16
import Lexkit.Bytes.Utf8

namespace Lexkit

inductive Encoding where
  | ascii
  | latin1
  | utf8
  | utf8Signed
  | utf16
  | utf16Fixed (o : Utf16.Order)
  deriving DecidableEq, Repr

/-- A fault and the name of the decoder that met it. -/
structure Undecodable where
  codec : String
  fault : DecodeFault
  deriving DecidableEq, Repr

def Undecodable.message (u : Undecodable) : String := u.fault.message u.codec

namespace Encoding

/-! ## Names -/

/-- The form in which names are compared: the runs of letters, digits and dots, in lower case, each two
    joined by an underscore. -/
def key (name : Text) : Text := List.intercalate ['_'] (Text.runs (fun c => c.isAlphanum || c == '.') name.fold)

/-- A key with its dots read as underscores. -/
def undotted (key : Text) : Text := key.map fun c => if c = '.' then '_' else c

/-- The name each encoding has of its own. -/
def ownNames : List (String × Encoding) :=
  [("ascii", .ascii), ("latin_1", .latin1), ("utf_8", .utf8), ("utf_8_sig", .utf8Signed), ("utf_16", .utf16),
   ("utf_16_le", .utf16Fixed .little), ("utf_16_be", .utf16Fixed .big)]

/-- The other names in use. -/
def aliases : List (String × Encoding) :=
  [("646", .ascii), ("ansi_x3.4_1968", .ascii), ("ansi_x3_4_1968", .ascii), ("ansi_x3.4_1986", .ascii),
   ("cp367", .ascii), ("csascii", .ascii), ("ibm367", .ascii), ("iso646_us", .ascii),
   ("iso_646.irv_1991", .ascii), ("iso_ir_6", .ascii), ("us", .ascii), ("us_ascii", .ascii),
   ("8859", .latin1), ("cp819", .latin1), ("csisolatin1", .latin1), ("ibm819", .latin1), ("iso8859", .latin1),
   ("iso8859_1", .latin1), ("iso_8859_1", .latin1), ("iso_8859_1_1987", .latin1), ("iso_ir_100", .latin1),
   ("l1", .latin1), ("latin", .latin1), ("latin1", .latin1),
   ("u8", .utf8), ("utf", .utf8), ("utf8", .utf8), ("utf8_ucs2", .utf8), ("utf8_ucs4", .utf8), ("cp65001", .utf8),
   ("u16", .utf16), ("utf16", .utf16),
   ("unicodelittleunmarked", .utf16Fixed .little), ("utf_16le", .utf16Fixed .little),
   ("unicodebigunmarked", .utf16Fixed .big), ("utf_16be", .utf16Fixed .big)]

/-- The transforms by their own names. -/
def transforms : List String :=
  ["base64_codec", "bz2_codec", "hex_codec", "quopri_codec", "rot_13", "uu_codec", "zlib_codec"]

/-- The other names of transforms. -/
def transformAliases : List String :=
  ["base64", "base_64", "bz2", "hex", "quopri", "quoted_printable", "quotedprintable", "rot13", "uu", "zip", "zlib"]

def hasNul (name : String) : Bool := name.toList.contains '\x00'

/-- The encoding of a name. An alias may be written with dots for underscores, an own name may not. -/
def named? (name : String) : Option Encoding :=
  if hasNul name then none
  else
    let k := key name.toList
    (ownNames.lookup (String.ofList k)).or
      ((aliases.lookup (String.ofList k)).or (aliases.lookup (String.ofList (undotted k))))

/-- The name is that of a transform, with dots for underscores as in `named?`. -/
def isTransform (name : String) : Bool :=
  let k := key name.toList
  !hasNul name && (transforms.contains (String.ofList k) || transformAliases.contains (String.ofList k) ||
    transformAliases.contains (String.ofList (undotted k)))

/-! ## Decoding -/

/-- Decodes with one decoder, the first byte being number `i`. -/
def decodeWith (codec : String) (d : Decoder) (i : Nat) (b : Bytes) : Except Undecodable Text :=
  (d.run i b).mapError (Undecodable.mk codec)

def orderName : Utf16.Order → String
  | .little => "utf-16-le"
  | .big => "utf-16-be"

def decode (e : Encoding) (b : Bytes) : Except Undecodable Text :=
  match e with
  | .ascii => decodeWith "ascii" Ascii.decoder 0 b
  | .latin1 => decodeWith "latin-1" Latin1.decoder 0 b
  | .utf8 => decodeWith "utf-8" Utf8.decoder 0 b
  | .utf8Signed => decodeWith "utf-8" Utf8.decoder 0 (Utf8.unsigned b)
  | .utf16 =>
    match Utf16.marked? b with
    | some o => decodeWith (orderName o) (Utf16.decoder o) 2 (b.drop 2)
    | none => decodeWith (orderName .little) (Utf16.decoder .little) 0 b
  | .utf16Fixed o => decodeWith (orderName o) (Utf16.decoder o) 0 b

end Encoding

end Lexkit
