import CertExtensions.Base64
import CertExtensions.Text.Line
import CertExtensions.Text.Utf8

/-!
# Labelled text blocks

A block has a line with a label before and behind it, and holds bytes in base 64, headers in front of them if an
empty line comes behind the headers. Reading takes the first block of a text; what stands outside of it
does not matter.
-/

namespace CertExtensions.Pem

open CertExtensions.Text

/-- A block: its label and its bytes. -/
structure Block where
  label : String
  contents : List UInt8
  deriving DecidableEq, Repr

/-- Why a text has no readable block. -/
inductive Fault where
  /-- one of the boundaries is missing -/
  | framing
  | missingBegin
  | missingEnd
  | mismatch (first last : String)
  | notUtf8 (flaw : Utf8.Flaw)
  | data (fault : Base64.Fault)
  | header (line : String)
  deriving DecidableEq, Repr

def Fault.message : Fault → String
  | .framing => "malformedframing"
  | .missingBegin => "missing BEGIN tag"
  | .missingEnd => "missing END tag"
  | .mismatch first last =>
    "mismatching BEGIN (\"" ++ first ++ "\") and END (\"" ++ last ++ "\") tags"
  | .notUtf8 flaw => "invalid utf-8 value: " ++ flaw.message
  | .data fault => "invalid data: " ++ fault.message
  | .header line => "invalid header: " ++ line

/-! ### Boundaries -/

def bytesOf (text : String) : List UInt8 := text.toUTF8.data.toList

/-- The number of bytes up to the end of a marker, where `expected` is what is still to come of it. A byte that
does not fit starts the search anew behind it. -/
def markerEnd? (marker : List UInt8) : List UInt8 → List UInt8 → Option Nat
  | [], _ => some 0
  | _ :: _, [] => none
  | e :: es, b :: rest => (markerEnd? marker (if b = e then es else marker) rest).map (· + 1)

/-- What stands before a marker and what behind it. -/
def cutAt? (marker bytes : List UInt8) : Option (List UInt8 × List UInt8) :=
  (markerEnd? marker marker bytes).map fun n => (bytes.take (n - marker.length), bytes.drop n)

def isFrameBlank (b : UInt8) : Bool := b == 0x20 || b == 0x09 || b == 0x0D || b == 0x0A

/-- The parts of a block before any of them is read. -/
structure Frame where
  first : List UInt8
  headers : List UInt8
  data : List UInt8
  last : List UInt8
  deriving DecidableEq, Repr

/-- Headers end at the first empty line; without an empty line there are none. -/
def splitHeaders (body : List UInt8) : List UInt8 × List UInt8 :=
  match cutAt? [0x0A, 0x0A] body with
  | some parts => parts
  | none => (cutAt? [0x0D, 0x0A, 0x0D, 0x0A] body).getD ([], body)

def frame? (bytes : List UInt8) : Option Frame := do
  let (_, rest) ← cutAt? (bytesOf "-----BEGIN ") bytes
  let (first, rest) ← cutAt? (bytesOf "-----") rest
  let (body, rest) ← cutAt? (bytesOf "-----END ") (rest.dropWhile isFrameBlank)
  let (last, _) ← cutAt? (bytesOf "-----") rest
  let (headers, data) := splitHeaders body
  return ⟨first, headers, data, last⟩

/-! ### Contents -/

def utf8 (bytes : List UInt8) : Except Fault String :=
  match Utf8.decode? bytes with
  | some text => .ok text
  | none => .error (.notUtf8 (Utf8.flaw bytes))

/-- Every line of the headers has a colon. -/
def checkHeaders (headers : String) : Except Fault Unit :=
  match (lines headers).find? fun line => !line.toList.contains ':' with
  | some line => .error (.header line)
  | none => .ok ()

/-- The block of a frame. -/
def Frame.block (frame : Frame) : Except Fault Block := do
  let first ← utf8 frame.first
  if first.isEmpty then throw .missingBegin
  let last ← utf8 frame.last
  if last.isEmpty then throw .missingEnd
  if first ≠ last then throw (.mismatch first last)
  let data ← utf8 frame.data
  let symbols := String.ofList (data.toList.filter fun c => !isBlank c)
  let contents ← (Base64.decode (bytesOf symbols)).mapError .data
  checkHeaders (← utf8 frame.headers)
  return ⟨first, contents⟩

/-- The first block of the bytes of a text. -/
def read (bytes : List UInt8) : Except Fault Block :=
  match frame? bytes with
  | none => .error .framing
  | some frame => frame.block

end CertExtensions.Pem
