import CliSignature.Limits
import CliSignature.Proofs.Blob.Lexeme
import CliSignature.Proofs.Unfolding

/-!
The grammar of signatures, over items. Each relation is given the language of the types inside, and
`typeWithin` ties the knot: one level of nesting after the other.
-/

namespace CliSignature.Grammar

/-- Which sequences of items say what. -/
abbrev ItemLanguage (α : Type) := List Item → α → Prop

/-- Things of one sort, one after the other. -/
inductive Sequence {α : Type} (one : ItemLanguage α) : ItemLanguage (List α) where
  | nil : Sequence one [] []
  | cons {first rest : List Item} {value : α} {values : List α}
      (hFirst : one first value) (hRest : Sequence one rest values) :
      Sequence one (first ++ rest) (value :: values)

def unsigned : ItemLanguage UInt32 := fun items value => items = [.number value.toNat]

def signed : ItemLanguage Int32 := fun items value => items = [.integer value.toInt]

/-- A token is the number of its coded index. -/
def token : ItemLanguage Token := fun items value =>
  ∃ coded, value.codedIndex? = some coded ∧ items = [.number coded]

/-- A convention of a kind that starts signatures of the given form. -/
def Starts (form : Signature.Form) (convention : CallingConvention) : Prop :=
  convention.kind?.map Signature.Form.ofKind = some form

/-- Only methods have a number of generic parameters, and only where the flag is set. -/
def genericCount (form : Signature.Form) (convention : CallingConvention) : ItemLanguage UInt32 :=
  fun items count =>
    if form = .method ∧ convention.isGeneric = true then unsigned items count
    else items = [] ∧ count = 0

theorem genericCount_property (convention : CallingConvention) :
    genericCount .property convention [] 0 := by
  simp [genericCount]

section OpenRecursion

variable (type : ItemLanguage Tree)

/-- A type in a list, which must not be absent. -/
def element : ItemLanguage Tree := fun items tree => type items tree ∧ tree ≠ .absent

/-- A number of types and then the types. -/
def list : ItemLanguage (List Tree) := fun items trees =>
  ∃ rest, items = .number trees.length :: rest ∧ Sequence (element type) rest trees

/-- A type in a list of parameters. A sentinel can not be one of them. -/
def parameter : ItemLanguage Tree := fun items tree => element type items tree ∧ tree ≠ .sentinel

/-- Parameters, with at most one sentinel among them and none behind the last. -/
inductive Params : ItemLanguage (List Tree × Option (List Tree)) where
  | plain {items : List Item} {fixed : List Tree} (hFixed : Sequence (parameter type) items fixed) :
      Params items (fixed, none)
  | vararg {first second : List Item} {fixed rest : List Tree}
      (hFixed : Sequence (parameter type) first fixed)
      (hRest : Sequence (parameter type) second rest) (hNonempty : rest ≠ []) :
      Params (first ++ .byte Production.sentinel.elementType :: second) (fixed, some rest)

/-- A method or a property. The sentinel is not counted. -/
inductive Method (form : Signature.Form) : ItemLanguage SignatureTree where
  | mk {convention : CallingConvention} {generic : UInt32} {result : Tree} {fixed : List Tree}
      {rest : Option (List Tree)} {genericItems resultItems paramItems : List Item}
      (hStart : Starts form convention) (hGeneric : genericCount form convention genericItems generic)
      (hResult : type resultItems result) (hParams : Params type paramItems (fixed, rest)) :
      Method form
        (.byte convention.bits :: (genericItems ++
          .number (fixed ++ rest.getD []).length :: (resultItems ++ paramItems)))
        ⟨⟨form, convention, generic, fixed.length, rest.map List.length⟩,
          result :: (fixed ++ rest.getD [])⟩

/-- A signature of the given form. -/
inductive SignatureOf : Signature.Form → ItemLanguage SignatureTree where
  | method {items : List Item} {tree : SignatureTree} (hMethod : Method type .method items tree) :
      SignatureOf .method items tree
  | property {items : List Item} {tree : SignatureTree} (hMethod : Method type .property items tree) :
      SignatureOf .property items tree
  | field {convention : CallingConvention} {items : List Item} {tree : Tree}
      (hStart : Starts .field convention) (hType : type items tree) :
      SignatureOf .field (.byte convention.bits :: items) ⟨⟨.field, convention, 0, 0, none⟩, [tree]⟩
  | locals {convention : CallingConvention} {items : List Item} {trees : List Tree}
      (hStart : Starts .locals convention) (hTypes : list type items trees) :
      SignatureOf .locals (.byte convention.bits :: items)
        ⟨⟨.locals, convention, 0, trees.length, none⟩, trees⟩
  | methodSpec {convention : CallingConvention} {items : List Item} {trees : List Tree}
      (hStart : Starts .methodSpec convention) (hTypes : list type items trees) :
      SignatureOf .methodSpec (.byte convention.bits :: items)
        ⟨⟨.methodSpec, convention, 0, trees.length, none⟩, trees⟩

variable (limits : Limits)

/-- The rank, the sizes and the lower bounds of an array. -/
inductive Shape : ItemLanguage ArrayShape where
  | mk {shape : ArrayShape} {sizeItems boundItems : List Item}
      (hRank : shape.rank.toNat ≤ limits.arrayRank) (hFits : shape.Fits)
      (hSizes : Sequence unsigned sizeItems shape.sizes)
      (hBounds : Sequence signed boundItems shape.lowerBounds) :
      Shape (.number shape.rank.toNat :: .number shape.sizes.length ::
        (sizeItems ++ .number shape.lowerBounds.length :: boundItems)) shape

/-- What follows the byte of a production, as the label and the children of a node. -/
inductive Payload : Production → List Item → Node.Label → List Tree → Prop where
  | named {kind : NamedKind} {items : List Item} {value : Token} (hToken : token items value) :
      Payload (.named kind) items (.named kind value) []
  | genericParam {owner : ParamOwner} {items : List Item} {number : UInt32}
      (hNumber : unsigned items number) :
      Payload (.genericParam owner) items (.genericParam owner number) []
  | sentinel : Payload .sentinel [] .sentinel []
  | functionPointer {items : List Item} {signature : Signature.Label} {children : List Tree}
      (hMethod : Method type .method items ⟨signature, children⟩) :
      Payload .functionPointer items (.functionPointer signature) children
  | genericInst {first second : List Item} {definition : Tree} {args : List Tree}
      (hDefinition : type first definition) (hArgs : list type second args) :
      Payload .genericInst (first ++ second) (.genericInst args.length) (definition :: args)
  | wrapper {kind : WrapperKind} {items : List Item} {child : Tree} (hChild : type items child) :
      Payload (.wrapper kind) items (.wrapper kind) [child]
  | array {first second : List Item} {child : Tree} {shape : ArrayShape}
      (hChild : type first child) (hShape : Shape limits second shape) :
      Payload .array (first ++ second) (.array shape) [child]
  | modified {required : Bool} {first second : List Item} {modifier : Token} {child : Tree}
      (hToken : token first modifier) (hChild : type second child) :
      Payload (.modified required) (first ++ second) (.modified required modifier) [child]
  | valueArray {first second : List Item} {child : Tree} {size : UInt32}
      (hChild : type first child) (hSize : unsigned second size) :
      Payload .valueArray (first ++ second) (.valueArray size) [child]
  | moduleQualified {first second : List Item} {index : UInt32} {child : Tree}
      (hIndex : unsigned first index) (hChild : type second child) :
      Payload .moduleQualified (first ++ second) (.moduleQualified index) [child]

/-- A type: a primitive, a place that is left empty, or a production. -/
inductive TypeBody : ItemLanguage Tree where
  | primitive (code : Primitive) : TypeBody [.byte code.elementType] (.node (.primitive code) [])
  | absent : TypeBody [.absent] .absent
  | production {production : Production} {items : List Item} {label : Node.Label}
      {children : List Tree} (hPayload : Payload type limits production items label children) :
      TypeBody (.byte production.elementType :: items) (.node label children)

end OpenRecursion

/-- A type that nests at most as deep as the number of levels says. -/
def typeWithin (limits : Limits) : Nat → ItemLanguage Tree
  | 0 => fun _ _ => False
  | levels + 1 => TypeBody (typeWithin limits levels) limits

/-- Items that start with a byte other than that of a sentinel. -/
def Unmarked (items : List Item) : Prop :=
  ∃ first rest, items = .byte first :: rest ∧ first ≠ Production.sentinel.elementType

/-- What tells the sentinel from every other type: the byte it starts with. -/
def MarksSentinel (type : ItemLanguage Tree) : Prop :=
  ∀ items tree, type items tree → tree ≠ .absent →
    ∃ first rest, items = .byte first :: rest ∧
      (first = Production.sentinel.elementType ↔ tree = .sentinel)

theorem MarksSentinel.unmarked_iff {type : ItemLanguage Tree} (hMarks : MarksSentinel type)
    {first : List Item} {tree : Tree} (hElement : element type first tree) (rest : List Item) :
    Unmarked (first ++ rest) ↔ tree ≠ .sentinel := by
  obtain ⟨byte, tail, rfl, hIff⟩ := hMarks first tree hElement.1 hElement.2
  simp [Unmarked, hIff]

theorem marksSentinel_typeBody (type : ItemLanguage Tree) (limits : Limits) :
    MarksSentinel (TypeBody type limits) := by
  intro items tree hType hPresent
  cases hType with
  | primitive code =>
      refine ⟨_, _, rfl, ?_⟩
      have hByte := (Production.sentinel.elementType_ne_primitive code).symm
      simp [hByte, Tree.sentinel]
  | absent => exact absurd rfl hPresent
  | @production production items label children hPayload =>
      refine ⟨_, _, rfl, ?_⟩
      have hByte : production.elementType = Production.sentinel.elementType ↔
          production = .sentinel := by
        constructor
        · intro hSame
          simpa using congrArg Production.ofElementType? hSame
        · rintro rfl
          rfl
      rw [hByte]
      cases hPayload <;> simp [Tree.sentinel]

theorem marksSentinel_typeWithin (limits : Limits) (levels : Nat) :
    MarksSentinel (typeWithin limits levels) := by
  cases levels with
  | zero => exact fun _ _ hType => hType.elim
  | succ levels => exact marksSentinel_typeBody _ limits

/-- Behind the byte of a primitive nothing follows. -/
theorem typeBody_primitive_iff {type : ItemLanguage Tree} {limits : Limits} {code : Primitive}
    {items : List Item} {tree : Tree} :
    TypeBody type limits (.byte code.elementType :: items) tree ↔
      items = [] ∧ tree = .node (.primitive code) [] := by
  constructor
  · generalize hByte : code.elementType = byte
    rintro (⟨other⟩ | _ | @⟨production, _, label, children, hPayload⟩)
    · have hCode := congrArg Primitive.ofElementType? hByte
      rw [Primitive.ofElementType?_elementType, Primitive.ofElementType?_elementType] at hCode
      exact ⟨rfl, by rw [Option.some.inj hCode]⟩
    · exact absurd hByte.symm (production.elementType_ne_primitive code)
  · rintro ⟨rfl, rfl⟩
    exact .primitive code

/-- Behind the byte of a production its payload follows. -/
theorem typeBody_production_iff {type : ItemLanguage Tree} {limits : Limits} {production : Production}
    {items : List Item} {tree : Tree} :
    TypeBody type limits (.byte production.elementType :: items) tree ↔
      ∃ label children, tree = .node label children ∧
        Payload type limits production items label children := by
  constructor
  · generalize hByte : production.elementType = byte
    rintro (⟨other⟩ | _ | @⟨other, _, label, children, hPayload⟩)
    · exact absurd hByte (production.elementType_ne_primitive other)
    · have hProduction := congrArg Production.ofElementType? hByte
      rw [Production.ofElementType?_elementType, Production.ofElementType?_elementType] at hProduction
      obtain rfl := Option.some.inj hProduction
      exact ⟨label, children, rfl, hPayload⟩
  · rintro ⟨label, children, rfl, hPayload⟩
    exact .production hPayload

theorem not_startsNothing_primitive (code : Primitive) : ¬ StartsNothing code.elementType := by
  simp [StartsNothing]

theorem not_startsNothing_production (production : Production) :
    ¬ StartsNothing production.elementType := by
  simp [StartsNothing]

/-- Every type takes at least one item. -/
theorem ne_nil_of_typeWithin (limits : Limits) (levels : Nat) (items : List Item) (tree : Tree)
    (hType : typeWithin limits levels items tree) : items ≠ [] := by
  cases levels with
  | zero => exact hType.elim
  | succ levels =>
      rintro rfl
      cases hType

theorem sequence_nil_iff {α : Type} {one : ItemLanguage α} {items : List Item} :
    Sequence one items [] ↔ items = [] := by
  constructor
  · intro hSequence
    cases hSequence
    rfl
  · rintro rfl
    exact .nil

theorem sequence_cons_iff {α : Type} {one : ItemLanguage α} {items : List Item} {value : α}
    {values : List α} :
    Sequence one items (value :: values) ↔
      ∃ first rest, items = first ++ rest ∧ one first value ∧ Sequence one rest values := by
  constructor
  · intro hSequence
    cases hSequence with
    | cons hFirst hRest => exact ⟨_, _, rfl, hFirst, hRest⟩
  · rintro ⟨first, rest, rfl, hFirst, hRest⟩
    exact .cons hFirst hRest

/-- Sequences by their lengths, as they are read. -/
theorem sequence_zero_iff {α : Type} {one : ItemLanguage α} {items : List Item} {values : List α} :
    Sequence one items values ∧ values.length = 0 ↔ items = [] ∧ values = [] := by
  constructor
  · rintro ⟨hWord, hLength⟩
    obtain rfl := List.length_eq_zero_iff.mp hLength
    exact ⟨sequence_nil_iff.mp hWord, rfl⟩
  · rintro ⟨rfl, rfl⟩
    exact ⟨.nil, rfl⟩

theorem sequence_succ_iff {α : Type} {one : ItemLanguage α} {n : Nat} {items : List Item}
    {values : List α} :
    Sequence one items values ∧ values.length = n + 1 ↔
      ∃ first rest value others, items = first ++ rest ∧ values = value :: others ∧ one first value ∧
        Sequence one rest others ∧ others.length = n := by
  constructor
  · rintro ⟨hWord, hLength⟩
    obtain ⟨value, others, rfl⟩ := List.exists_cons_of_length_eq_add_one hLength
    obtain ⟨first, rest, rfl, hFirst, hRest⟩ := sequence_cons_iff.mp hWord
    exact ⟨first, rest, value, others, rfl, rfl, hFirst, hRest, by simpa using hLength⟩
  · rintro ⟨first, rest, value, others, rfl, rfl, hFirst, hRest, rfl⟩
    exact ⟨.cons hFirst hRest, rfl⟩

/-- A sequence has at least as many items as things, if no thing is spelled by nothing. -/
theorem Sequence.length_le {α : Type} {one : ItemLanguage α}
    (hOne : ∀ items value, one items value → items ≠ []) {items : List Item} {values : List α}
    (hSequence : Sequence one items values) : values.length ≤ items.length := by
  induction hSequence with
  | nil => simp
  | @cons first rest value values hFirst _ ih =>
      have hPos := List.length_pos_iff.mpr (hOne first value hFirst)
      simp only [List.length_cons, List.length_append]
      omega

theorem params_cons_iff {type : ItemLanguage Tree} {items : List Item} {tree : Tree} {others : List Tree}
    {rest : Option (List Tree)} :
    Params type items (tree :: others, rest) ↔
      ∃ first second, items = first ++ second ∧ parameter type first tree ∧
        Params type second (others, rest) := by
  constructor
  · intro hParams
    cases hParams with
    | plain hFixed =>
        obtain ⟨first, second, rfl, hFirst, hSecond⟩ := sequence_cons_iff.mp hFixed
        exact ⟨first, second, rfl, hFirst, .plain hSecond⟩
    | vararg hFixed hRest hNonempty =>
        obtain ⟨first, second, rfl, hFirst, hSecond⟩ := sequence_cons_iff.mp hFixed
        exact ⟨first, _, List.append_assoc .., hFirst, .vararg hSecond hRest hNonempty⟩
  · rintro ⟨first, second, rfl, hFirst, hParams⟩
    cases hParams with
    | plain hFixed => exact .plain (.cons hFirst hFixed)
    | vararg hFixed hRest hNonempty =>
        rw [← List.append_assoc]
        exact .vararg (.cons hFirst hFixed) hRest hNonempty

theorem params_nil_iff {type : ItemLanguage Tree} {items : List Item} {rest : Option (List Tree)} :
    Params type items ([], rest) ↔ (items = [] ∧ rest = none) ∨
      ∃ second trees, items = .byte Production.sentinel.elementType :: second ∧ rest = some trees ∧
        Sequence (parameter type) second trees ∧ trees ≠ [] := by
  constructor
  · intro hParams
    cases hParams with
    | plain hFixed => exact .inl ⟨sequence_nil_iff.mp hFixed, rfl⟩
    | vararg hFixed hRest hNonempty =>
        obtain rfl := sequence_nil_iff.mp hFixed
        exact .inr ⟨_, _, rfl, rfl, hRest, hNonempty⟩
  · rintro (⟨rfl, rfl⟩ | ⟨second, trees, rfl, rfl, hRest, hNonempty⟩)
    · exact .plain .nil
    · exact .vararg .nil hRest hNonempty

/-- A signature starts with a convention of its form. -/
theorem SignatureOf.starts {type : ItemLanguage Tree} {form : Signature.Form} {items : List Item}
    {tree : SignatureTree} (hSignature : SignatureOf type form items tree) :
    ∃ convention rest, items = .byte convention.bits :: rest ∧ Starts form convention := by
  cases hSignature with
  | method hMethod | property hMethod =>
      cases hMethod with
      | mk hStart => exact ⟨_, _, rfl, hStart⟩
  | field hStart | locals hStart | methodSpec hStart => exact ⟨_, _, rfl, hStart⟩

theorem Method.form_eq {type : ItemLanguage Tree} {form : Signature.Form} {items : List Item}
    {tree : SignatureTree} (hMethod : Method type form items tree) : tree.label.form = form := by
  cases hMethod
  rfl

theorem SignatureOf.form_eq {type : ItemLanguage Tree} {form : Signature.Form} {items : List Item}
    {tree : SignatureTree} (hSignature : SignatureOf type form items tree) : tree.label.form = form := by
  cases hSignature with
  | method hMethod | property hMethod => exact hMethod.form_eq
  | _ => rfl

/-- There are at least as many items as parameters, if no type is spelled by nothing. -/
theorem Params.length_le {type : ItemLanguage Tree} (hStarts : ∀ items tree, type items tree → items ≠ [])
    {items : List Item} {trees : List Tree × Option (List Tree)} (hParams : Params type items trees) :
    (trees.1 ++ trees.2.getD []).length ≤ items.length := by
  have hOne : ∀ items tree, parameter type items tree → items ≠ [] :=
    fun items tree hTree => hStarts items tree hTree.1.1
  cases hParams with
  | plain hFixed => simpa using hFixed.length_le hOne
  | vararg hFixed hRest =>
      have hBefore := hFixed.length_le hOne
      have hBehind := hRest.length_le hOne
      simp only [Option.getD_some, List.length_append, List.length_cons]
      omega

theorem params_none_iff {type : ItemLanguage Tree} {items : List Item} {fixed : List Tree} :
    Params type items (fixed, none) ↔ Sequence (parameter type) items fixed := by
  constructor
  · rintro ⟨hFixed⟩
    exact hFixed
  · exact .plain

theorem params_some_iff {type : ItemLanguage Tree} {items : List Item} {fixed rest : List Tree} :
    Params type items (fixed, some rest) ↔
      ∃ first second, items = first ++ .byte Production.sentinel.elementType :: second ∧
        Sequence (parameter type) first fixed ∧ Sequence (parameter type) second rest ∧ rest ≠ [] := by
  constructor
  · intro hParams
    cases hParams with
    | vararg hFixed hRest hNonempty => exact ⟨_, _, rfl, hFixed, hRest, hNonempty⟩
  · rintro ⟨first, second, rfl, hFixed, hRest, hNonempty⟩
    exact .vararg hFixed hRest hNonempty

/-- The numbers in a label tell where the fixed parameters end. -/
theorem method_iff {type : ItemLanguage Tree} {form : Signature.Form} {convention : CallingConvention}
    {generic : UInt32} {result : Tree} {fixed : List Tree} {rest : Option (List Tree)}
    {items : List Item} :
    Method type form items ⟨⟨form, convention, generic, fixed.length, rest.map List.length⟩,
        result :: (fixed ++ rest.getD [])⟩ ↔
      Starts form convention ∧ ∃ genericItems resultItems paramItems,
        items = .byte convention.bits :: (genericItems ++
          .number (fixed ++ rest.getD []).length :: (resultItems ++ paramItems)) ∧
        genericCount form convention genericItems generic ∧ type resultItems result ∧
        Params type paramItems (fixed, rest) := by
  constructor
  · generalize hTree : SignatureTree.mk _ _ = tree
    rintro @⟨convention', generic', result', fixed', rest', genericItems, resultItems, paramItems, hStart,
      hGeneric, hResult, hParams⟩
    simp only [SignatureTree.mk.injEq, Signature.Label.mk.injEq, true_and, List.cons.injEq] at hTree
    obtain ⟨⟨rfl, rfl, hFixed, hRest⟩, rfl, hListed⟩ := hTree
    obtain ⟨rfl, hBehind⟩ := List.append_inj hListed hFixed
    obtain rfl : rest = rest' := by
      cases rest <;> cases rest' <;> simp_all
    exact ⟨hStart, genericItems, resultItems, paramItems, rfl, hGeneric, hResult, hParams⟩
  · rintro ⟨hStart, genericItems, resultItems, paramItems, rfl, hGeneric, hResult, hParams⟩
    exact .mk hStart hGeneric hResult hParams

theorem signatureOf_locals_iff {type : ItemLanguage Tree} {convention : CallingConvention}
    {items : List Item} {trees : List Tree} :
    SignatureOf type .locals items ⟨⟨.locals, convention, 0, trees.length, none⟩, trees⟩ ↔
      Starts .locals convention ∧
        ∃ rest, items = .byte convention.bits :: rest ∧ list type rest trees := by
  constructor
  · generalize hTree : SignatureTree.mk _ _ = tree
    rintro (_ | _ | _ | ⟨hStart, hTypes⟩)
    simp only [SignatureTree.mk.injEq, Signature.Label.mk.injEq] at hTree
    obtain ⟨⟨-, rfl, -⟩, rfl⟩ := hTree
    exact ⟨hStart, _, rfl, hTypes⟩
  · rintro ⟨hStart, rest, rfl, hTypes⟩
    exact .locals hStart hTypes

theorem signatureOf_methodSpec_iff {type : ItemLanguage Tree} {convention : CallingConvention}
    {items : List Item} {trees : List Tree} :
    SignatureOf type .methodSpec items ⟨⟨.methodSpec, convention, 0, trees.length, none⟩, trees⟩ ↔
      Starts .methodSpec convention ∧
        ∃ rest, items = .byte convention.bits :: rest ∧ list type rest trees := by
  constructor
  · generalize hTree : SignatureTree.mk _ _ = tree
    rintro (_ | _ | _ | _ | ⟨hStart, hTypes⟩)
    simp only [SignatureTree.mk.injEq, Signature.Label.mk.injEq] at hTree
    obtain ⟨⟨-, rfl, -⟩, rfl⟩ := hTree
    exact ⟨hStart, _, rfl, hTypes⟩
  · rintro ⟨hStart, rest, rfl, hTypes⟩
    exact .methodSpec hStart hTypes

section Payload

variable {type : ItemLanguage Tree} {limits : Limits} {items : List Item} {label : Node.Label}
  {children : List Tree}

theorem payload_named_iff {kind : NamedKind} :
    Payload type limits (.named kind) items label children ↔
      ∃ value, (label, children) = (.named kind value, []) ∧ token items value := by
  constructor
  · rintro ⟨hToken⟩
    exact ⟨_, rfl, hToken⟩
  · rintro ⟨value, hSaid, hToken⟩
    cases hSaid
    exact .named hToken

theorem payload_genericParam_iff {owner : ParamOwner} :
    Payload type limits (.genericParam owner) items label children ↔
      ∃ number, (label, children) = (.genericParam owner number, []) ∧ unsigned items number := by
  constructor
  · rintro (_ | ⟨hNumber⟩)
    exact ⟨_, rfl, hNumber⟩
  · rintro ⟨number, hSaid, hNumber⟩
    cases hSaid
    exact .genericParam hNumber

theorem payload_sentinel_iff :
    Payload type limits .sentinel items label children ↔
      items = [] ∧ (label, children) = (.sentinel, []) := by
  constructor
  · rintro ⟨⟩
    exact ⟨rfl, rfl⟩
  · rintro ⟨rfl, hSaid⟩
    cases hSaid
    exact .sentinel

theorem payload_functionPointer_iff :
    Payload type limits .functionPointer items label children ↔
      ∃ tree : SignatureTree, (label, children) = (.functionPointer tree.label, tree.children) ∧
        Method type .method items tree := by
  constructor
  · rintro ⟨⟩
    exact ⟨_, rfl, ‹_›⟩
  · rintro ⟨tree, hSaid, hMethod⟩
    cases hSaid
    exact .functionPointer hMethod

theorem payload_genericInst_iff :
    Payload type limits .genericInst items label children ↔
      ∃ first second definition args, items = first ++ second ∧
        (label, children) = (.genericInst args.length, definition :: args) ∧
        type first definition ∧ list type second args := by
  constructor
  · rintro ⟨⟩
    exact ⟨_, _, _, _, rfl, rfl, ‹_›, ‹_›⟩
  · rintro ⟨first, second, definition, args, rfl, hSaid, hDefinition, hArgs⟩
    cases hSaid
    exact .genericInst hDefinition hArgs

theorem payload_wrapper_iff {kind : WrapperKind} :
    Payload type limits (.wrapper kind) items label children ↔
      ∃ child, (label, children) = (.wrapper kind, [child]) ∧ type items child := by
  constructor
  · rintro ⟨⟩
    exact ⟨_, rfl, ‹_›⟩
  · rintro ⟨child, hSaid, hChild⟩
    cases hSaid
    exact .wrapper hChild

theorem payload_array_iff :
    Payload type limits .array items label children ↔
      ∃ first second child shape, items = first ++ second ∧
        (label, children) = (.array shape, [child]) ∧ type first child ∧ Shape limits second shape := by
  constructor
  · rintro ⟨⟩
    exact ⟨_, _, _, _, rfl, rfl, ‹_›, ‹_›⟩
  · rintro ⟨first, second, child, shape, rfl, hSaid, hChild, hShape⟩
    cases hSaid
    exact .array hChild hShape

theorem payload_modified_iff {required : Bool} :
    Payload type limits (.modified required) items label children ↔
      ∃ first second modifier child, items = first ++ second ∧
        (label, children) = (.modified required modifier, [child]) ∧ token first modifier ∧
        type second child := by
  constructor
  · rintro ⟨⟩
    exact ⟨_, _, _, _, rfl, rfl, ‹_›, ‹_›⟩
  · rintro ⟨first, second, modifier, child, rfl, hSaid, hToken, hChild⟩
    cases hSaid
    exact .modified hToken hChild

theorem payload_valueArray_iff :
    Payload type limits .valueArray items label children ↔
      ∃ first second child size, items = first ++ second ∧
        (label, children) = (.valueArray size, [child]) ∧ type first child ∧ unsigned second size := by
  constructor
  · rintro ⟨⟩
    exact ⟨_, _, _, _, rfl, rfl, ‹_›, ‹_›⟩
  · rintro ⟨first, second, child, size, rfl, hSaid, hChild, hSize⟩
    cases hSaid
    exact .valueArray hChild hSize

theorem payload_moduleQualified_iff :
    Payload type limits .moduleQualified items label children ↔
      ∃ first second index child, items = first ++ second ∧
        (label, children) = (.moduleQualified index, [child]) ∧ unsigned first index ∧
        type second child := by
  constructor
  · rintro ⟨⟩
    exact ⟨_, _, _, _, rfl, rfl, ‹_›, ‹_›⟩
  · rintro ⟨first, second, index, child, rfl, hSaid, hIndex, hChild⟩
    cases hSaid
    exact .moduleQualified hIndex hChild

end Payload

/-- The label of a node tells its production. -/
theorem Payload.production?_label {type : ItemLanguage Tree} {limits : Limits} {production : Production}
    {items : List Item} {label : Node.Label} {children : List Tree}
    (hPayload : Payload type limits production items label children) :
    label.production? = some production := by
  cases hPayload <;> rfl

theorem typeBody_node_iff {type : ItemLanguage Tree} {limits : Limits} {production : Production}
    {label : Node.Label} (hProduction : label.production? = some production) {items : List Item}
    {children : List Tree} :
    TypeBody type limits items (.node label children) ↔
      ∃ rest, items = .byte production.elementType :: rest ∧
        Payload type limits production rest label children := by
  constructor
  · rintro (_ | _ | ⟨hPayload⟩)
    · cases hProduction
    · obtain rfl := Option.some.inj (hProduction.symm.trans hPayload.production?_label)
      exact ⟨_, rfl, hPayload⟩
  · rintro ⟨rest, rfl, hPayload⟩
    exact .production hPayload

theorem Sequence.forall {α : Type} {one : ItemLanguage α} {p : α → Prop}
    (hOne : ∀ items value, one items value → p value) {items : List Item} {values : List α}
    (hSequence : Sequence one items values) : ∀ value ∈ values, p value := by
  induction hSequence with
  | nil => simp
  | @cons first rest value values hFirst _ ih =>
      simpa using ⟨hOne first value hFirst, ih⟩

end CliSignature.Grammar
