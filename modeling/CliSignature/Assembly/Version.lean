import CliSignature.Text.Digits
import CliSignature.Text.Pieces

/-!
Versions of assemblies, in four parts, and the ways in which an assembly's display form can be wrong.
-/

namespace CliSignature

/-- Why a text is not the display form of an assembly or of a version. -/
inductive DisplayError where
  | emptyName
  | tooManyParts (version : String)
  | notAPart (part : String)
  | tokenLength (token : String)
  | tokenDigits (token : String)
deriving DecidableEq, Repr

namespace DisplayError

def message : DisplayError → String
  | emptyName => "Assembly name cannot be empty"
  | tooManyParts version => "Invalid version format: " ++ version
  | notAPart part => "Invalid version component: " ++ part
  | tokenLength token => "PublicKeyToken must be exactly 16 hex characters, got '" ++ token ++ "'"
  | tokenDigits token => "Invalid hex in PublicKeyToken '" ++ token ++ "'"

end DisplayError

/-- A version of four parts. -/
structure Version where
  major : UInt16
  minor : UInt16
  build : UInt16
  revision : UInt16
deriving DecidableEq, Inhabited, Repr

namespace Version

def zero : Version := ⟨0, 0, 0, 0⟩

/-- The four parts, the most significant first. -/
def parts (version : Version) : List UInt16 :=
  [version.major, version.minor, version.build, version.revision]

/-- The version with the given parts, where missing parts are zero. -/
def ofParts (parts : List UInt16) : Version :=
  ⟨parts[0]?.getD 0, parts[1]?.getD 0, parts[2]?.getD 0, parts[3]?.getD 0⟩

@[simp] theorem ofParts_parts (version : Version) : ofParts version.parts = version := rfl

/-- The parts in decimal, with dots between them. -/
def text (version : Version) : String :=
  ".".intercalate (version.parts.map fun part => Text.decimal part.toNat)

/-- Reads one part of a version. -/
def readPart (part : List Char) : Except DisplayError UInt16 :=
  match Text.readUInt16? part with
  | some value => .ok value
  | none => .error (.notAPart (String.ofList part))

/-- Reads a version of one to four parts. The number of parts is judged before the parts are, and of
several wrong parts the first is reported. -/
def ofText (text : List Char) : Except DisplayError Version :=
  let (first, others) := Text.pieces '.' text
  if 3 < others.length then .error (.tooManyParts (String.ofList text))
  else ofParts <$> (first :: others).mapM readPart

/-- Versions in order, by the most significant part that differs. -/
def order (a b : Version) : Ordering :=
  compareLex (compareOn (·.major.toNat)) (compareLex (compareOn (·.minor.toNat))
    (compareLex (compareOn (·.build.toNat)) (compareOn (·.revision.toNat)))) a b

end Version

end CliSignature
