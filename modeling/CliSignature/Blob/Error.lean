import CliSignature.Signature
import CliSignature.Text.Digits
import CliSignature.Token

/-!
What can be wrong with a blob that is read and with a signature that is written.
-/

namespace CliSignature

/-- The lists of a blob whose elements must not be absent. -/
inductive ListRole where
  | genericArgument
  | parameter
  | localVariable
  | methodArgument
deriving DecidableEq, Repr

namespace ListRole

def text : ListRole → String
  | genericArgument => "GENERICINST argument"
  | parameter => "MethodSig parameter"
  | localVariable => "LocalSig local"
  | methodArgument => "MethodSpec argument"

end ListRole

/-- The word for a form in messages. -/
def Signature.Form.text : Signature.Form → String
  | .method => "MethodSig"
  | .property => "PropertySig"
  | .field => "FieldSig"
  | .locals => "LocalSig"
  | .methodSpec => "MethodSpec"

/-- Why a blob can not be read. -/
inductive DecodeError where
  /-- The blob ends too early. -/
  | outOfBounds
  /-- Types nest deeper than the limit. -/
  | recursionLimit (limit : Nat)
  /-- No compressed integer starts with this byte. -/
  | invalidLead (lead : UInt8)
  /-- The low bits of this coded index stand for no table. -/
  | reservedTable (coded : Nat)
  /-- The row of a coded index does not fit a token. -/
  | rowRange (row : Nat)
  /-- The rank of an array is above the limit. -/
  | rankLimit (rank limit : Nat)
  /-- An array has more sizes than dimensions. -/
  | tooManySizes (count rank : Nat)
  /-- An array has more lower bounds than dimensions. -/
  | tooManyLowerBounds (count rank : Nat)
  /-- An element of a list is absent. The list was read up to the given offset. -/
  | absentElement (role : ListRole) (offset : Nat)
  /-- A signature of the given form can not start with this byte. -/
  | invalidStart (form : Signature.Form) (start : UInt8)
  /-- A parameter list has two sentinels. -/
  | repeatedSentinel
  /-- No signature starts with this byte. -/
  | reservedKind (start : UInt8)
deriving DecidableEq, Repr

namespace DecodeError

def message : DecodeError → String
  | outOfBounds => "Out of Bound read would have occurred!"
  | recursionLimit limit => "Reach the maximum recursion level allowed - " ++ Text.decimal limit
  | invalidLead lead => "Invalid compressed uint - " ++ Text.decimal lead.toNat
  | reservedTable coded => "Invalid compressed token - " ++ Text.decimal coded
  | rowRange row => "Compressed token row out of range - " ++ Text.decimal row
  | rankLimit rank limit =>
    "ARRAY - rank " ++ Text.decimal rank ++ " exceeds the limit of " ++ Text.decimal limit
  | tooManySizes count rank =>
    "ARRAY - " ++ Text.decimal count ++ " sizes for rank " ++ Text.decimal rank
  | tooManyLowerBounds count rank =>
    "ARRAY - " ++ Text.decimal count ++ " lower bounds for rank " ++ Text.decimal rank
  | absentElement role offset => role.text ++ " - absent type at offset " ++ Text.decimal offset
  | invalidStart form start => form.text ++ " - invalid start - " ++ Text.decimal start.toNat
  | repeatedSentinel => "MethodSig - repeated SENTINEL"
  | reservedKind start => "CallingConventionSig - reserved kind - " ++ Text.decimal start.toNat

end DecodeError

/-- Why a signature can not be written. -/
inductive EncodeError where
  /-- The token names no row of a table that holds types. -/
  | notCodable (token : Token)
  /-- Types nest deeper than the limit. -/
  | recursionLimit (limit : Nat)
  /-- The number has no compressed form. -/
  | unsignedRange (value : UInt32)
  /-- The signed number has no compressed form. -/
  | signedRange (value : Int32)
  /-- A function pointer holds something other than a method signature. -/
  | notAMethod (convention : CallingConvention)
  /-- An array has more sizes or lower bounds than dimensions. -/
  | shapeMismatch (sizes lowerBounds rank : Nat)
  /-- A list is longer than any count can say. -/
  | tooManyElements (count : Nat)
deriving DecidableEq, Repr

namespace EncodeError

def message : EncodeError → String
  | notCodable token => "Token can not be encoded as TypeDefOrRef - " ++ token.text
  | recursionLimit limit => "Reach the maximum recursion level allowed - " ++ Text.decimal limit
  | unsignedRange value =>
    "Value 0x" ++ Text.hexPaddedUpper 8 value.toNat ++ " exceeds the compressed integer range"
  | signedRange value =>
    "Value " ++ Text.integer value.toInt ++ " exceeds the compressed signed integer range"
  | notAMethod convention =>
    "FNPTR - function pointer must hold a method signature, found " ++ convention.details
  | shapeMismatch sizes lowerBounds rank =>
    "ARRAY - " ++ Text.decimal sizes ++ " sizes and " ++ Text.decimal lowerBounds
      ++ " lower bounds do not fit rank " ++ Text.decimal rank
  | tooManyElements count => "count " ++ Text.decimal count ++ " is too large"

end EncodeError

end CliSignature
