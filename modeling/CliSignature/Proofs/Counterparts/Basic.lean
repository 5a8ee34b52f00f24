import CliSignature.Proofs.Bisimilarity

/-!
Counterparts. Slots of two arenas correspond if nothing but handles tells them apart, however far one
looks into them. Unlike structural equality, correspondence takes in the tokens behind primitives, which
play a part where owners are looked for.
-/

namespace CliSignature

section Nodes

variable (R : Option NodeId → Option NodeId → Prop)

/-- Types that stand in corresponding places, one by one. -/
def ListCorresponds : List NodeId → List NodeId → Prop :=
  List.Forall₂ fun a b => R (some a) (some b)

/-- Method signatures that differ in nothing but corresponding types. -/
inductive MethodSignature.Corresponds : MethodSignature → MethodSignature → Prop where
  | mk (convention : CallingConvention) (genericCount : UInt32) {result result' : Option NodeId}
      {params params' : List NodeId} {varargs varargs' : Option (List NodeId)}
      (hResult : R result result') (hParams : ListCorresponds R params params')
      (hVarargs : Option.Rel (ListCorresponds R) varargs varargs') :
      Corresponds ⟨convention, genericCount, result, params, varargs⟩
        ⟨convention, genericCount, result', params', varargs'⟩

/-- Signatures of one form that differ in nothing but corresponding types. -/
inductive Signature.Corresponds : Signature → Signature → Prop where
  | method {m m' : MethodSignature} (hMethod : m.Corresponds R m') : Corresponds (.method m) (.method m')
  | property {m m' : MethodSignature} (hMethod : m.Corresponds R m') :
      Corresponds (.property m) (.property m')
  | field (convention : CallingConvention) {type type' : Option NodeId} (hType : R type type') :
      Corresponds (.field convention type) (.field convention type')
  | locals (convention : CallingConvention) {types types' : List NodeId}
      (hTypes : ListCorresponds R types types') :
      Corresponds (.locals convention types) (.locals convention types')
  | methodSpec (convention : CallingConvention) {args args' : List NodeId}
      (hArgs : ListCorresponds R args args') :
      Corresponds (.methodSpec convention args) (.methodSpec convention args')

/-- Nodes of one sort that differ in nothing but corresponding types. -/
inductive Node.Corresponds : Node → Node → Prop where
  | named (kind : NamedKind) (token : Token) : Corresponds (.named kind token) (.named kind token)
  | primitive (token : Token) (code : Primitive) :
      Corresponds (.primitive token code) (.primitive token code)
  | genericParam (owner : ParamOwner) (number : UInt32) :
      Corresponds (.genericParam owner number) (.genericParam owner number)
  | sentinel : Corresponds .sentinel .sentinel
  | functionPointer {signature signature' : Signature}
      (hSignature : signature.Corresponds R signature') :
      Corresponds (.functionPointer signature) (.functionPointer signature')
  | genericInst {definition definition' : Option NodeId} {args args' : List NodeId}
      (hDefinition : R definition definition') (hArgs : ListCorresponds R args args') :
      Corresponds (.genericInst definition args) (.genericInst definition' args')
  | wrapper (kind : WrapperKind) {child child' : Option NodeId} (hChild : R child child') :
      Corresponds (.wrapper kind child) (.wrapper kind child')
  | array (shape : ArrayShape) {child child' : Option NodeId} (hChild : R child child') :
      Corresponds (.array child shape) (.array child' shape)
  | modified (required : Bool) (modifier : Token) {child child' : Option NodeId}
      (hChild : R child child') :
      Corresponds (.modified required modifier child) (.modified required modifier child')
  | valueArray (size : UInt32) {child child' : Option NodeId} (hChild : R child child') :
      Corresponds (.valueArray child size) (.valueArray child' size)
  | moduleQualified (index : UInt32) {child child' : Option NodeId} (hChild : R child child') :
      Corresponds (.moduleQualified index child) (.moduleQualified index child')

end Nodes

variable {R : Option NodeId → Option NodeId → Prop}

/-- The parameters on the two sides of the sentinel correspond, if there are as many on each side. -/
theorem listCorresponds_split {params params' : List NodeId} {varargs varargs' : Option (List NodeId)}
    (hFixed : params.length = params'.length)
    (hBehind : varargs.map List.length = varargs'.map List.length)
    (hAll : List.Forall₂ R ((params ++ varargs.getD []).map some)
      ((params' ++ varargs'.getD []).map some)) :
    ListCorresponds R params params' ∧ Option.Rel (ListCorresponds R) varargs varargs' := by
  rw [List.forall₂_map_left_iff, List.forall₂_map_right_iff] at hAll
  induction params generalizing params' with
  | nil =>
      obtain rfl : params' = [] := List.eq_nil_of_length_eq_zero hFixed.symm
      refine ⟨.nil, ?_⟩
      cases varargs <;> cases varargs' <;> simp only [Option.map_none, Option.map_some, reduceCtorEq] at hBehind
      case none.none => exact .none
      case some.some => exact .some hAll
  | cons param params ih =>
      cases params' with
      | nil => cases hFixed
      | cons param' params' =>
          obtain ⟨hHead, hTail⟩ := List.forall₂_cons.mp hAll
          obtain ⟨hParams, hVarargs⟩ := ih (Nat.succ.inj hFixed) hTail
          exact ⟨.cons hHead hParams, hVarargs⟩

theorem MethodSignature.Corresponds.of_children {m m' : MethodSignature}
    (hConvention : m.convention = m'.convention) (hGeneric : m.genericCount = m'.genericCount)
    (hFixed : m.params.length = m'.params.length)
    (hBehind : m.varargs.map List.length = m'.varargs.map List.length)
    (hChildren : List.Forall₂ R (m.result :: m.allParams.map some) (m'.result :: m'.allParams.map some)) :
    m.Corresponds R m' := by
  obtain ⟨convention, genericCount, result, params, varargs⟩ := m
  obtain ⟨convention', genericCount', result', params', varargs'⟩ := m'
  obtain rfl : convention = convention' := hConvention
  obtain rfl : genericCount = genericCount' := hGeneric
  obtain ⟨hResult, hParams⟩ := List.forall₂_cons.mp hChildren
  obtain ⟨hFixed, hVarargs⟩ := listCorresponds_split hFixed hBehind hParams
  exact .mk convention genericCount hResult hFixed hVarargs

theorem listCorresponds_of_children {ids ids' : List NodeId}
    (hChildren : List.Forall₂ R (ids.map some) (ids'.map some)) : ListCorresponds R ids ids' := by
  rwa [List.forall₂_map_left_iff, List.forall₂_map_right_iff] at hChildren

/-- Signatures with the same label correspond if the types in their places do. -/
theorem Signature.Corresponds.of_label {left right : Signature} (hLabel : left.label = right.label)
    (hChildren : List.Forall₂ R left.children right.children) : left.Corresponds R right := by
  cases left <;> cases right <;>
    simp only [Signature.label, Signature.Label.mk.injEq, reduceCtorEq, false_and, true_and, and_true] at hLabel
  case method.method m m' =>
    obtain ⟨hConvention, hGeneric, hFixed, hBehind⟩ := hLabel
    exact .method (.of_children hConvention hGeneric hFixed hBehind hChildren)
  case property.property m m' =>
    obtain ⟨hConvention, hGeneric, hFixed, hBehind⟩ := hLabel
    exact .property (.of_children hConvention hGeneric hFixed hBehind hChildren)
  case field.field convention type convention' type' =>
    obtain rfl := hLabel
    exact .field convention (List.forall₂_cons.mp hChildren).1
  case locals.locals convention types convention' types' =>
    obtain ⟨rfl, -⟩ := hLabel
    exact .locals convention (listCorresponds_of_children hChildren)
  case methodSpec.methodSpec convention args convention' args' =>
    obtain ⟨rfl, -⟩ := hLabel
    exact .methodSpec convention (listCorresponds_of_children hChildren)

/-- Nodes with the same label and the same token correspond if the types in their places do. -/
theorem Node.Corresponds.of_label {left right : Node} (hLabel : left.label = right.label)
    (hToken : left.token? = right.token?) (hChildren : List.Forall₂ R left.children right.children) :
    left.Corresponds R right := by
  have hOnly {child child' : Option NodeId} (hSingle : List.Forall₂ R [child] [child']) : R child child' :=
    (List.forall₂_cons.mp hSingle).1
  cases left <;> cases right <;> simp only [Node.label, reduceCtorEq] at hLabel
  case named.named => cases hLabel; exact .named _ _
  case primitive.primitive =>
    cases hLabel
    obtain rfl := Option.some.inj hToken
    exact .primitive _ _
  case genericParam.genericParam => cases hLabel; exact .genericParam _ _
  case sentinel.sentinel => exact .sentinel
  case functionPointer.functionPointer =>
    exact .functionPointer (.of_label (Node.Label.functionPointer.inj hLabel) hChildren)
  case genericInst.genericInst =>
    obtain ⟨hDefinition, hArgs⟩ := List.forall₂_cons.mp hChildren
    exact .genericInst hDefinition (listCorresponds_of_children hArgs)
  case wrapper.wrapper => cases hLabel; exact .wrapper _ (hOnly hChildren)
  case array.array => cases hLabel; exact .array _ (hOnly hChildren)
  case modified.modified => cases hLabel; exact .modified _ _ (hOnly hChildren)
  case valueArray.valueArray => cases hLabel; exact .valueArray _ (hOnly hChildren)
  case moduleQualified.moduleQualified => cases hLabel; exact .moduleQualified _ (hOnly hChildren)

theorem ListCorresponds.children {ids ids' : List NodeId} (hIds : ListCorresponds R ids ids') :
    List.Forall₂ R (ids.map some) (ids'.map some) := by
  rwa [List.forall₂_map_left_iff, List.forall₂_map_right_iff]

theorem MethodSignature.Corresponds.children {m m' : MethodSignature} (hMethod : m.Corresponds R m') :
    List.Forall₂ R (m.result :: m.allParams.map some) (m'.result :: m'.allParams.map some) := by
  cases hMethod with
  | mk convention genericCount hResult hParams hVarargs =>
      refine .cons hResult ?_
      cases hVarargs with
      | none => simpa [allParams] using hParams.children
      | some hIds => simpa [allParams] using List.rel_append hParams.children hIds.children

theorem Signature.Corresponds.children {left right : Signature} (hSignatures : left.Corresponds R right) :
    List.Forall₂ R left.children right.children := by
  cases hSignatures with
  | method hMethod | property hMethod => exact hMethod.children
  | field convention hType => exact .cons hType .nil
  | locals convention hIds | methodSpec convention hIds => exact hIds.children

theorem Signature.Corresponds.label_eq {left right : Signature} (hSignatures : left.Corresponds R right) :
    left.label = right.label := by
  cases hSignatures with
  | method hMethod | property hMethod =>
      cases hMethod with
      | mk convention genericCount hResult hParams hVarargs =>
          cases hVarargs with
          | none => simp [label, hParams.length_eq]
          | some hIds => simp [label, hParams.length_eq, hIds.length_eq]
  | field => rfl
  | locals convention hIds | methodSpec convention hIds => simp [label, hIds.length_eq]

section Flip

theorem ListCorresponds.flip {ids ids' : List NodeId} (hIds : ListCorresponds R ids ids') :
    ListCorresponds (fun a b => R b a) ids' ids :=
  List.Forall₂.flip hIds

theorem MethodSignature.Corresponds.flip {m m' : MethodSignature} (hMethod : m.Corresponds R m') :
    m'.Corresponds (fun a b => R b a) m := by
  cases hMethod with
  | mk convention genericCount hResult hParams hVarargs =>
      refine .mk convention genericCount hResult hParams.flip ?_
      cases hVarargs with
      | none => exact .none
      | some hIds => exact .some hIds.flip

theorem Signature.Corresponds.flip {left right : Signature} (hSignatures : left.Corresponds R right) :
    right.Corresponds (fun a b => R b a) left := by
  cases hSignatures with
  | method hMethod => exact .method hMethod.flip
  | property hMethod => exact .property hMethod.flip
  | field convention hType => exact .field convention hType
  | locals convention hTypes => exact .locals convention hTypes.flip
  | methodSpec convention hArgs => exact .methodSpec convention hArgs.flip

theorem Node.Corresponds.flip {left right : Node} (hNodes : left.Corresponds R right) :
    right.Corresponds (fun a b => R b a) left := by
  cases hNodes with
  | named kind token => exact .named kind token
  | primitive token code => exact .primitive token code
  | genericParam owner number => exact .genericParam owner number
  | sentinel => exact .sentinel
  | functionPointer hSignature => exact .functionPointer hSignature.flip
  | genericInst hDefinition hArgs => exact .genericInst hDefinition hArgs.flip
  | wrapper kind hChild => exact .wrapper kind hChild
  | array shape hChild => exact .array shape hChild
  | modified required modifier hChild => exact .modified required modifier hChild
  | valueArray size hChild => exact .valueArray size hChild
  | moduleQualified index hChild => exact .moduleQualified index hChild

end Flip

section Equal

variable (hEqual : ∀ a b, R a b → a = b)

include hEqual

theorem ListCorresponds.eq {ids ids' : List NodeId} (hIds : ListCorresponds R ids ids') : ids = ids' := by
  have hSame : List.Forall₂ Eq ids ids' := hIds.imp fun _ _ hRelated => Option.some.inj (hEqual _ _ hRelated)
  rwa [List.forall₂_eq_eq_eq] at hSame

theorem MethodSignature.Corresponds.eq {m m' : MethodSignature} (hMethod : m.Corresponds R m') : m = m' := by
  cases hMethod with
  | mk convention genericCount hResult hParams hVarargs =>
      obtain rfl := hEqual _ _ hResult
      obtain rfl := hParams.eq hEqual
      cases hVarargs with
      | none => rfl
      | some hIds => rw [hIds.eq hEqual]

/-- Signatures are equal if the types in their places are. -/
theorem Signature.Corresponds.eq {left right : Signature} (hSignatures : left.Corresponds R right) :
    left = right := by
  cases hSignatures with
  | method hMethod | property hMethod => rw [hMethod.eq hEqual]
  | field convention hType => rw [hEqual _ _ hType]
  | locals convention hIds | methodSpec convention hIds => rw [hIds.eq hEqual]

/-- Nodes are equal if the types in their places are. -/
theorem Node.Corresponds.eq {left right : Node} (hNodes : left.Corresponds R right) : left = right := by
  cases hNodes with
  | named | primitive | genericParam | sentinel => rfl
  | functionPointer hSignature => rw [hSignature.eq hEqual]
  | genericInst hDefinition hArgs => rw [hEqual _ _ hDefinition, hArgs.eq hEqual]
  | wrapper _ hChild | array _ hChild | modified _ _ hChild | valueArray _ hChild | moduleQualified _ hChild =>
      rw [hEqual _ _ hChild]

end Equal

theorem MethodSignature.Corresponds.paramCount_eq {m m' : MethodSignature} (hMethod : m.Corresponds R m') :
    m.paramCount = m'.paramCount := by
  cases hMethod with
  | mk convention genericCount hResult hParams hVarargs =>
      cases hVarargs with
      | none => simp [paramCount, allParams, hParams.length_eq]
      | some hIds => simp [paramCount, allParams, hParams.length_eq, hIds.length_eq]

/-- What is made of the types in two lists is the same, if it is for corresponding types. -/
theorem ListCorresponds.map_eq {α : Type} {f g : NodeId → α} {ids ids' : List NodeId}
    (hIds : ListCorresponds R ids ids') (hEach : ∀ a b, R (some a) (some b) → f a = g b) :
    ids.map f = ids'.map g :=
  map_eq_map_of_forall₂ (hIds.imp hEach)

namespace Node.Corresponds

variable {left right : Node}

theorem elementType_eq (hNodes : left.Corresponds R right) : left.elementType = right.elementType := by
  cases hNodes <;> rfl

theorem label_eq (hNodes : left.Corresponds R right) : left.label = right.label := by
  cases hNodes with
  | functionPointer hSignature => exact congrArg Label.functionPointer hSignature.label_eq
  | genericInst hDefinition hArgs => exact congrArg Label.genericInst hArgs.length_eq
  | _ => rfl

theorem children (hNodes : left.Corresponds R right) : List.Forall₂ R left.children right.children := by
  cases hNodes with
  | named | primitive | genericParam | sentinel => exact .nil
  | functionPointer hSignature => exact hSignature.children
  | genericInst hDefinition hArgs => exact .cons hDefinition hArgs.children
  | wrapper _ hChild | array _ hChild | modified _ _ hChild | valueArray _ hChild
  | moduleQualified _ hChild => exact .cons hChild .nil

theorem token?_eq (hNodes : left.Corresponds R right) : left.token? = right.token? := by
  cases hNodes <;> rfl

theorem isTerminal_eq (hNodes : left.Corresponds R right) : left.isTerminal = right.isTerminal := by
  cases hNodes <;> rfl

theorem child? (hNodes : left.Corresponds R right) (hInside : left.isTerminal = false) :
    R left.child? right.child? := by
  cases hNodes with
  | wrapper _ hChild | array _ hChild | modified _ _ hChild | valueArray _ hChild
  | moduleQualified _ hChild => exact hChild
  | _ => cases hInside

end Node.Corresponds

/-- Only the types inside the nodes matter to the relation. -/
theorem Node.Corresponds.imp_of_mem {R' : Option NodeId → Option NodeId → Prop} {left right : Node}
    (hNodes : left.Corresponds R right) (hImp : ∀ a b, a ∈ left.children → R a b → R' a b) :
    left.Corresponds R' right := by
  have hChildren : List.Forall₂ (fun a b => a ∈ left.children ∧ R a b) left.children right.children :=
    (List.forall₂_and_left _ _).mpr ⟨fun _ hMem => hMem, hNodes.children⟩
  exact .of_label hNodes.label_eq hNodes.token?_eq (hChildren.imp fun a b hBoth => hImp a b hBoth.1 hBoth.2)

namespace Arena

/-- Two slots look alike from above: both are absent, or both hold nodes that differ in nothing but
corresponding types. -/
inductive LooksAlike (A B : Arena) (R : Option NodeId → Option NodeId → Prop) :
    Option NodeId → Option NodeId → Prop where
  | absent {a b : Option NodeId} (hFirst : A.resolve? a = none) (hSecond : B.resolve? b = none) :
      LooksAlike A B R a b
  | nodes {a b : Option NodeId} {x y : NodeId} {left right : Node}
      (hLeft : A.resolve? a = some (x, left)) (hRight : B.resolve? b = some (y, right))
      (hNodes : left.Corresponds R right) : LooksAlike A B R a b

/-- Slots that correspond look alike. A slot that is named from outside the arenas, as the signature of a
specification is, corresponds to itself. -/
structure Counterparts (A B : Arena) (R : Option NodeId → Option NodeId → Prop) : Prop where
  self : ∀ slot, R slot slot
  looksAlike : ∀ {a b : Option NodeId}, R a b → A.LooksAlike B R a b

theorem Counterparts.flip {A B : Arena} (hAlike : A.Counterparts B R) :
    B.Counterparts A fun a b => R b a where
  self := hAlike.self
  looksAlike hSame := by
    cases hAlike.looksAlike hSame with
    | absent hFirst hSecond => exact .absent hSecond hFirst
    | nodes hLeft hRight hNodes => exact .nodes hRight hLeft hNodes.flip

/-- A handle that refers to a node has a counterpart that refers to a corresponding node. -/
theorem Counterparts.held {A B : Arena} (hAlike : A.Counterparts B R) {id : NodeId} {slot : Option NodeId}
    {node : Node} (hSame : R (some id) slot) (hNode : A.get? id = some node) :
    ∃ other held, slot = some other ∧ B.get? other = some held ∧ node.Corresponds R held := by
  have hResolve := resolve?_of_get? hNode
  cases hAlike.looksAlike hSame with
  | absent hFirst => cases hResolve.symm.trans hFirst
  | nodes hLeft hRight hNodes =>
      obtain ⟨rfl, rfl⟩ := Prod.mk.inj (Option.some.inj (hResolve.symm.trans hLeft))
      obtain ⟨rfl, hHeld⟩ := resolve?_eq_some hRight
      exact ⟨_, _, rfl, hHeld, hNodes⟩

/-- Primitives of one code have one token. -/
def UniformPrimitives (arena : Arena) : Prop :=
  ∀ token token' code, .primitive token code ∈ arena.nodes → .primitive token' code ∈ arena.nodes →
    token = token'

variable {arena : Arena}

/-- The label of a node tells its token, but for primitives. -/
theorem UniformPrimitives.token?_eq (hUniform : arena.UniformPrimitives) {x y : NodeId} {left right : Node}
    (hLeft : arena.get? x = some left) (hRight : arena.get? y = some right)
    (hLabel : left.label = right.label) : left.token? = right.token? := by
  have hFirst : left ∈ arena.nodes := Array.mem_of_getElem? hLeft
  have hSecond : right ∈ arena.nodes := Array.mem_of_getElem? hRight
  cases left <;> cases right <;> simp only [Node.label, reduceCtorEq] at hLabel
  case named.named =>
    cases hLabel
    rfl
  case primitive.primitive token code token' code' =>
    cases hLabel
    exact congrArg some (hUniform token token' code hFirst hSecond)
  all_goals rfl

/-- Where primitives of one code have one token, bisimilar slots correspond. -/
theorem UniformPrimitives.counterparts (hUniform : arena.UniformPrimitives) :
    arena.Counterparts arena arena.Bisimilar where
  self := Bisimilar.refl
  looksAlike hSame := by
    cases hSame.looksSame with
    | absent hFirst hSecond => exact .absent hFirst hSecond
    | nodes hLeft hRight hLabel hChildren =>
        have hToken := hUniform.token?_eq (resolve?_eq_some hLeft).2 (resolve?_eq_some hRight).2 hLabel
        exact .nodes hLeft hRight (.of_label hLabel hToken hChildren)

end Arena

end CliSignature
