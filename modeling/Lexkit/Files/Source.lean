/-
  Lexkit.Files.Source — where a text comes from, and loading it. A source is a file, named by its path,
  or a stream of characters or bytes that may have been read in part, or a stream that gives nothing, or
  one that cannot be read. A path names its source as written; a stream is called by its own name, or
  `<stream>`.

  Loading fails for one of a few causes of its own, and otherwise gives a text that is not empty: the path
  leads to no file; there are bytes to decode and the encoding is unknown, or names a transform; they cannot
  be decoded; there is no text, be it that there is nothing at all or that the bytes come to none. Bytes
  that are none need no encoding, but its name must not hold a NUL, and a stream of characters never looks
  at it. What the host raises on the way is passed on as it is.
-/

import Lexkit.Files.Host
import Lexkit.Scan.State

namespace Lexkit

/-- A stream of which the first `consumed` elements were read before. -/
structure Stream (α : Type) where
  name : Option String := none
  elements : List α
  consumed : Nat := 0
  deriving DecidableEq, Repr

def Stream.remaining {α : Type} (s : Stream α) : List α := s.elements.drop s.consumed

inductive Source where
  | file (path : String)
  | characters (s : Stream Char)
  | bytes (s : Stream UInt8)
  | nothing (name : Option String)
  /-- A stream that raises an error when it is read. -/
  | broken (name : Option String) (e : Raised)
  deriving DecidableEq, Repr

inductive LoadError where
  | missing (name : String)
  | unknownEncoding (encoding : String)
  | notText (encoding : String)
  | undecodable (name encoding : String) (cause : Cause)
  | empty (name : String)
  | raised (e : Raised)
  deriving DecidableEq, Repr

namespace LoadError

def kind : LoadError → String
  | .missing _ | .undecodable _ _ _ | .empty _ => "ConfigurationError"
  | .unknownEncoding _ | .notText _ => "LookupError"
  | .raised e => e.kind

/-- Of the name of a transform, 400 bytes are told. -/
def message : LoadError → String
  | .missing name => "The file '" ++ name ++ "' does not exist"
  | .unknownEncoding encoding => "unknown encoding: " ++ encoding
  | .notText encoding =>
    "'" ++ String.ofList (Text.within 400 encoding.toList) ++
      "' is not a text encoding; use codecs.decode() to handle arbitrary codecs"
  | .undecodable name encoding cause => "Could not decode " ++ name ++ " as " ++ encoding ++ ": " ++ cause.message
  | .empty name => "The file '" ++ name ++ "' is empty"
  | .raised e => e.message

end LoadError

namespace Source

/-- A file by its path in normal form. -/
def normalFile (path : String) : Source := .file (Path.normal path)

def name : Source → String
  | .file path => path
  | .characters s => nameOr "<stream>" s.name
  | .bytes s => nameOr "<stream>" s.name
  | .nothing name => nameOr "<stream>" name
  | .broken name _ => nameOr "<stream>" name

/-! ## Loading -/

/-- What a source holds before decoding. -/
inductive Contents where
  | text (t : Text)
  | raw (b : Bytes)
  deriving DecidableEq, Repr

def contents (h : Host) : Source → Except LoadError Contents
  | .file path =>
    match h.isFile (Path.ofString path) with
    | .ok true => ((h.readBytes (Path.ofString path)).map .raw).mapError .raised
    | .ok false => .error (.missing path)
    | .error e => .error (.raised e)
  | .characters s => .ok (.text s.remaining)
  | .bytes s => .ok (.raw s.remaining)
  | .nothing _ => .ok (.text [])
  | .broken _ e => .error (.raised e)

/-- A failure to decode the source called `name`. Errors of another kind are not about the source. -/
def notDecoded (name encoding : String) : DecodeError → LoadError
  | .undecodable cause => .undecodable name encoding cause
  | .raised e => .raised e

/-- The bytes of a source called `name` as a text, by what the name of the encoding stands for. -/
def decodedBy (name encoding : String) (b : Bytes) : Codec → Except LoadError Text
  | .unknown => .error (.unknownEncoding encoding)
  | .transform => .error (.notText encoding)
  | .text decode => (decode b).mapError (notDecoded name encoding)

def decoded (h : Host) (name encoding : String) (b : Bytes) : Except LoadError Text :=
  if Encoding.hasNul encoding then .error (.raised ⟨"ValueError", "embedded null character"⟩)
  else if b.isEmpty then .ok []
  else ((h.codec encoding).mapError .raised).bind (decodedBy name encoding b)

def Contents.toText (h : Host) (name encoding : String) : Contents → Except LoadError Text
  | .text t => .ok t
  | .raw b => decoded h name encoding b

/-- A source that held `t`. -/
def nonempty (name : String) (t : Text) : Except LoadError Text :=
  if t.isEmpty then .error (.empty name) else .ok t

def load (h : Host) (s : Source) (encoding : String) : Except LoadError Text :=
  (s.contents h).bind fun c => (c.toText h s.name encoding).bind (nonempty s.name)

end Source

/-! ## A scanner on a source -/

inductive OpenError where
  | load (e : LoadError)
  | setup (e : SetupError)
  deriving DecidableEq, Repr

def OpenError.kind : OpenError → String
  | .load e => e.kind
  | .setup _ => "ConfigurationError"

def OpenError.message : OpenError → String
  | .load e => e.message
  | .setup e => e.message

/-- A scanner on the text of a source, called by the source's name. -/
def Source.scanner (h : Host) (s : Source) (encoding : String) (o : Options) : Except OpenError Scanner :=
  match s.load h encoding with
  | .error e => .error (.load e)
  | .ok t => (Scanner.start (.text t) (some s.name) o).mapError .setup

end Lexkit
