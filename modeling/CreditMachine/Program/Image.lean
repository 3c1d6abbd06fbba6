import CreditMachine.Program.Basic

/-!
# Program files

The *image* of a program is what a program file holds: a mark, the version of
the format, and the encoding of the program, up to the end of the file.
-/

namespace CreditMachine

/-- A version of the file format. -/
structure Version where
  major : UInt8
  minor : UInt8
  patch : UInt8
deriving DecidableEq

namespace Version

/-- The version that is written and read. -/
def current : Version := ⟨1, 0, 0⟩

def text (v : Version) : String :=
  v.major.toNat.repr ++ "." ++ v.minor.toNat.repr ++ "." ++ v.patch.toNat.repr

instance : Codec Version where
  encode v := [v.major, v.minor, v.patch]
  decode := return ⟨← decode, ← decode, ← decode⟩

end Version

/-- Why a program is not loaded. -/
inductive LoadError
  /-- The file is not read, for the reason given by the system. -/
  | file (reason : String)
  | badMark
  | unsupportedVersion (v : Version)
  | trailingBytes
  | decode (e : DecodeError)
deriving DecidableEq

def LoadError.message : LoadError → String
  | .file reason => "io error: " ++ reason
  | .badMark => "bad magic"
  | .unsupportedVersion v => "unsupported version " ++ v.text
  | .trailingBytes => "trailing bytes after binary"
  | .decode e => "decoding error: " ++ e.message

namespace Program

/-- The mark at the start of a program file. -/
def mark : Bytes := utf8 "CVM_B"

/-- The image of a program. -/
def image (p : Program) : Bytes :=
  mark ++ encode Version.current ++ encode p

/-- The program with the image `s`. -/
def ofImage (s : Bytes) : Except LoadError Program := do
  if s.take mark.length ≠ mark then throw .badMark
  let (v, s) ← ((CreditMachine.decode : Decoder Version) (s.drop mark.length)).mapError .decode
  if v ≠ Version.current then throw (.unsupportedVersion v)
  let (p, s) ← ((CreditMachine.decode : Decoder Program) s).mapError .decode
  if s.isEmpty then return p else throw .trailingBytes

end Program

end CreditMachine
