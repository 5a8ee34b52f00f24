import CliSignature.Assembly.Version
import CliSignature.Text.Blank

/-!
Identities of assemblies and their display form, which ends the assembly-qualified names of types.
-/

namespace CliSignature

/-- What identifies an assembly. -/
structure AssemblyIdentity where
  name : String
  version : Version
  /-- The culture of a satellite assembly. Other assemblies have none. -/
  culture : Option String
  /-- The eight bytes of the public key token as one number, the first byte the most significant.
  An assembly without a strong name has none. -/
  publicKeyToken : Option UInt64
deriving DecidableEq, Inhabited, Repr

namespace AssemblyIdentity

/-- An assembly without culture and without a strong name. -/
def plain (name : String) (version : Version) : AssemblyIdentity :=
  ⟨name, version, none, none⟩

/-- The identity with another culture. The word for no culture and the empty text both mean none. -/
def withCulture (identity : AssemblyIdentity) (culture : String) : AssemblyIdentity :=
  { identity with culture := if culture = "neutral" ∨ culture = "" then none else some culture }

/-- The identity with another public key token. -/
def withToken (identity : AssemblyIdentity) (token : UInt64) : AssemblyIdentity :=
  { identity with publicKeyToken := some token }

/-- The display form: the name, then every component, present or not. -/
def display (identity : AssemblyIdentity) : String :=
  identity.name ++ ", Version=" ++ identity.version.text
    ++ ", Culture=" ++ identity.culture.getD "neutral"
    ++ ", PublicKeyToken="
    ++ match identity.publicKeyToken with
      | some token => Text.hexPadded 16 token.toNat
      | none => "null"

/-- The number whose bytes are given, the most significant first. -/
def tokenOfBytes (bytes : List UInt8) : UInt64 :=
  UInt64.ofNat (bytes.foldl (fun value byte => value * 256 + byte.toNat) 0)

/-- Reads a public key token: sixteen ASCII characters, two for each byte. -/
def readToken (text : List Char) : Except DisplayError UInt64 :=
  if text.length = 16 ∧ text.all fun c => c.toNat < 128 then
    match Text.readHexBytes? text with
    | some bytes => .ok (tokenOfBytes bytes)
    | none => .error (.tokenDigits (String.ofList text))
  else .error (.tokenLength (String.ofList text))

/-- What a component of a display form sets. -/
inductive Component where
  | version (text : List Char)
  | culture (text : List Char)
  | token (text : List Char)
  | unknown
deriving DecidableEq, Repr

/-- Recognises a component by what it starts with. -/
def Component.ofText (text : List Char) : Component :=
  match "Version=".toList.isPrefixOf? text with
  | some value => .version value
  | none =>
    match "Culture=".toList.isPrefixOf? text with
    | some value => .culture value
    | none =>
      match "PublicKeyToken=".toList.isPrefixOf? text with
      | some value => .token value
      | none => .unknown

/-- Applies one component. An unknown component changes nothing, nor does an absent token. -/
def apply (identity : AssemblyIdentity) : Component → Except DisplayError AssemblyIdentity
  | .version text => do
    let version ← Version.ofText text
    pure { identity with version }
  | .culture text => pure (identity.withCulture (String.ofList text))
  | .token text =>
    if text = "null".toList ∨ text = [] then pure identity
    else do
      let token ← readToken text
      pure (identity.withToken token)
  | .unknown => pure identity

/-- Reads a display form: the name, then components in any order. White space around each is
dropped, and of several components for the same thing the last one counts. -/
def ofDisplay (text : String) : Except DisplayError AssemblyIdentity :=
  let (first, others) := Text.pieces ',' text.toList
  let name := Text.trim first
  if name = [] then .error .emptyName
  else
    (others.map fun piece => Component.ofText (Text.trim piece)).foldlM apply
      (plain (String.ofList name) Version.zero)

end AssemblyIdentity

end CliSignature
