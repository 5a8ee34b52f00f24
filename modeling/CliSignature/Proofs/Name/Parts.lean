import CliSignature.Name.Formatter

/-!
What one visit contributes to a name. The name of a subject is a list of parts, which are texts and
visits of what lies one level deeper, and rendering it is rendering the parts one after the other. The
parts do not depend on the budget, so everything that the budget does to a name is done by the visits.
-/

namespace CliSignature

namespace Rendering

/-- What a rendering does is said by what it gives and what it leaves. -/
theorem append_apply (first second : Rendering) (budget : Budget) :
    (first ++ second) budget =
      ((first budget).1 ++ (second (first budget).2).1, (second (first budget).2).2) := rfl

theorem append_assoc (first second third : Rendering) :
    first ++ second ++ third = first ++ (second ++ third) := by
  funext budget
  simp only [append_apply, List.append_assoc]

@[simp] theorem nothing_append (rendering : Rendering) : nothing ++ rendering = rendering := rfl

@[simp] theorem append_nothing (rendering : Rendering) : rendering ++ nothing = rendering := by
  funext budget
  simp only [append_apply, nothing, List.append_nil]

/-- What is left out when visits were refused depends on the budget alone. -/
theorem unlessSpent_eq_append (first second : Rendering) :
    first.unlessSpent second = first ++ nothing.unlessSpent second := by
  funext budget
  simp only [append_apply, unlessSpent, nothing]
  by_cases hSpent : (first budget).2.spent = true <;> simp [hSpent]

end Rendering

/-- A part of a name, in which what lies one level deeper is not spelled out. -/
inductive NamePart where
  | text (content : String)
  | visit (subject : Subject) (isQualified : Bool)
  /-- A text that is left out when a visit was refused before it. -/
  | unlessSpent (content : String)

namespace NamePart

open Rendering (nothing text separated each)

section Render

/-- The rendering of a part, where `inner` renders what lies one level deeper. -/
def render (inner : Subject → Bool → Rendering) : NamePart → Rendering
  | .text content => Rendering.text content
  | .visit subject isQualified => inner subject isQualified
  | .unlessSpent content => nothing.unlessSpent (Rendering.text content)

/-- The parts one after the other. -/
def renderAll (inner : Subject → Bool → Rendering) : List NamePart → Rendering
  | [] => nothing
  | part :: parts => part.render inner ++ renderAll inner parts

variable (inner : Subject → Bool → Rendering)

@[simp] theorem renderAll_nil : renderAll inner [] = nothing := rfl

@[simp] theorem renderAll_cons (part : NamePart) (parts : List NamePart) :
    renderAll inner (part :: parts) = part.render inner ++ renderAll inner parts := rfl

@[simp] theorem renderAll_append (front back : List NamePart) :
    renderAll inner (front ++ back) = renderAll inner front ++ renderAll inner back := by
  induction front with
  | nil => rfl
  | cons part front ih => simp only [List.cons_append, renderAll_cons, ih, Rendering.append_assoc]

theorem renderAll_intercalate (separator : String) (items : List (List NamePart)) :
    renderAll inner ([NamePart.text separator].intercalate items) =
      separated separator (items.map (renderAll inner)) := by
  induction items with
  | nil => rfl
  | cons first rest ih =>
      cases rest with
      | nil => simp [separated]
      | cons second rest =>
          rw [List.intercalate_cons_cons, renderAll_append, renderAll_append, ih]
          simp [separated, render]

theorem renderAll_flatMap_cons (lead : String) (items : List (List NamePart)) :
    renderAll inner (items.flatMap fun item => .text lead :: item) =
      each lead (items.map (renderAll inner)) := by
  induction items with
  | nil => rfl
  | cons first rest ih =>
      simp [ih, each, render, Rendering.append_assoc]

end Render

/-! ### The parts of a name -/

/-- The qualified name of the type in a slot. -/
def ofSlot (slot : Option NodeId) : NamePart :=
  .visit (.slot slot) true

/-- A type's assembly-qualified name. -/
def ofAssemblyQualified (formatter : NameFormatter) (id : NodeId) : List NamePart :=
  ofSlot (some id) :: (formatter.assemblySuffix? id).toList.map .unlessSpent

/-- The arguments of an instantiation. -/
def ofArguments (formatter : NameFormatter) (args : List NodeId) : List NamePart :=
  match formatter.style with
  | .source =>
    .text "<" :: [NamePart.text ","].intercalate (args.map fun arg => [ofSlot (some arg)])
      ++ [.text ">"]
  | .reflection =>
    .text "[" :: [NamePart.text ","].intercalate (args.map fun arg =>
      .text "[" :: ofAssemblyQualified formatter arg ++ [.text "]"]) ++ [.text "]"]

/-- A custom modifier. -/
def ofModifier (formatter : NameFormatter) (required : Bool) (token : Token) : List NamePart :=
  match formatter.style with
  | .source =>
    [.text (if required then " modreq(" else " modopt("), .visit (.type token) true, .text ")"]
  | .reflection => []

/-- The parameters behind a sentinel. -/
def ofVarargs (fixed : List NodeId) : Option (List NodeId) → List NamePart
  | none => []
  | some ids =>
    (if fixed.isEmpty then [] else [.text ","]) ++ .text "..."
      :: (ids.map fun id => [ofSlot (some id)]).flatMap fun item => .text "," :: item

/-- The signature of a function pointer. -/
def ofFunctionPointer (formatter : NameFormatter) (signature : Signature) : List NamePart :=
  match formatter.style, signature.method? with
  | .source, some method =>
    [.text "method ", ofSlot method.result, .text " *("]
      ++ [NamePart.text ","].intercalate (method.params.map fun param => [ofSlot (some param)])
      ++ ofVarargs method.params method.varargs ++ [.text ")"]
  | _, _ => [.text "(fnptr)"]

/-- The name of a node. -/
def ofNode (formatter : NameFormatter) (isQualified : Bool) : Node → List NamePart
  | .named _ token => [.visit (.type token) isQualified]
  | .primitive _ code =>
    [.text (if isQualified then Primitive.namespaceName ++ "." ++ code.name else code.name)]
  | .genericParam .type number => [.text ("!" ++ Text.decimal number.toNat)]
  | .genericParam .method number => [.text ("!!" ++ Text.decimal number.toNat)]
  | .sentinel => [.text "..."]
  | .functionPointer signature => ofFunctionPointer formatter signature
  | .genericInst definition args =>
    .visit (.slot definition) isQualified :: ofArguments formatter args
  | .wrapper kind child =>
    [.visit (.slot child) isQualified, .text (kind.suffix formatter.style)]
  | .array child shape => [.visit (.slot child) isQualified, .text (shape.text formatter.style)]
  | .modified required token child =>
    .visit (.slot child) isQualified :: ofModifier formatter required token
  | .valueArray child size =>
    [.visit (.slot child) isQualified, .text (" ValueArray(" ++ Text.decimal size.toNat ++ ")")]
  | .moduleQualified index child =>
    [.text ("[module:" ++ Text.decimal index.toNat ++ "]"), .visit (.slot child) isQualified]

/-- What stands before the name of a type that is qualified. -/
def ofQualifier (formatter : NameFormatter) (entry : TypeEntry) : List NamePart :=
  match entry.declaringType? with
  | some outer => [.visit (.type outer) true, .text formatter.style.nesting]
  | none => if entry.namespaceName = "" then [] else [.text (entry.namespaceName ++ ".")]

/-- The name of what a token names. -/
def ofEntry (formatter : NameFormatter) (isQualified : Bool) : TypeEntry → List NamePart
  | .specification signature => [.visit (.slot signature) isQualified]
  | entry => (if isQualified then ofQualifier formatter entry else []) ++ [.text entry.name]

/-- The name of a subject. -/
def ofSubject (formatter : NameFormatter) : Subject → Bool → List NamePart
  | .slot slot, isQualified =>
    match formatter.arena.resolve? slot with
    | none => []
    | some (_, found) => ofNode formatter isQualified found
  | .type token, isQualified =>
    match formatter.types.type? token with
    | none => []
    | some found => ofEntry formatter isQualified found

/-! ### The program renders the parts -/

section Body

variable (inner : Subject → Bool → Rendering) (formatter : NameFormatter)

theorem renderAll_ofAssemblyQualified (id : NodeId) :
    renderAll inner (ofAssemblyQualified formatter id) =
      NameFormatter.assemblyQualified inner formatter id := by
  have hSuffix : renderAll inner ((formatter.assemblySuffix? id).toList.map .unlessSpent) =
      nothing.unlessSpent (formatter.assemblySuffix id) := by
    funext budget
    simp only [NameFormatter.assemblySuffix, Rendering.unlessSpent]
    cases formatter.assemblySuffix? id with
    | none => simp [nothing]
    | some suffix => simp [render, Rendering.unlessSpent]
  rw [NameFormatter.assemblyQualified, Rendering.unlessSpent_eq_append, ← hSuffix]
  rfl

theorem renderAll_ofArguments (args : List NodeId) :
    renderAll inner (ofArguments formatter args) = NameFormatter.arguments inner formatter args := by
  simp only [ofArguments, NameFormatter.arguments]
  cases formatter.style <;>
    simp [renderAll_intercalate, Function.comp_def, render, renderAll_ofAssemblyQualified,
      Rendering.append_assoc, NameFormatter.qualified, ofSlot]

theorem renderAll_ofModifier (required : Bool) (token : Token) :
    renderAll inner (ofModifier formatter required token) =
      NameFormatter.modifier inner formatter required token := by
  simp only [ofModifier, NameFormatter.modifier]
  cases formatter.style <;> simp [render, Rendering.append_assoc]

theorem renderAll_ofVarargs (fixed : List NodeId) (varargs : Option (List NodeId)) :
    renderAll inner (ofVarargs fixed varargs) = NameFormatter.varargs inner fixed varargs := by
  cases varargs with
  | none => rfl
  | some ids =>
      simp only [ofVarargs, NameFormatter.varargs, renderAll_append, renderAll_cons,
        renderAll_flatMap_cons]
      split <;>
        simp [render, Rendering.append_assoc, Function.comp_def, NameFormatter.qualified, ofSlot]

theorem renderAll_ofFunctionPointer (signature : Signature) :
    renderAll inner (ofFunctionPointer formatter signature) =
      NameFormatter.functionPointer inner formatter signature := by
  simp only [ofFunctionPointer, NameFormatter.functionPointer]
  cases formatter.style <;> cases signature.method? <;>
    simp [render, renderAll_intercalate, renderAll_ofVarargs, Rendering.append_assoc,
      Function.comp_def, NameFormatter.qualified, ofSlot]

theorem renderAll_ofNode (isQualified : Bool) (node : Node) :
    renderAll inner (ofNode formatter isQualified node) =
      NameFormatter.node inner formatter isQualified node := by
  cases node with
  | genericParam owner number => cases owner <;> rfl
  | functionPointer signature => exact renderAll_ofFunctionPointer inner formatter signature
  | genericInst definition args =>
      simp only [ofNode, NameFormatter.node, renderAll_cons, renderAll_ofArguments, render]
  | modified required token child =>
      simp only [ofNode, NameFormatter.node, renderAll_cons, renderAll_ofModifier, render]
  | named | primitive | sentinel | wrapper | array | valueArray | moduleQualified =>
      simp only [ofNode, NameFormatter.node, renderAll_cons, renderAll_nil, render,
        Rendering.append_nothing]

theorem renderAll_ofQualifier (entry : TypeEntry) :
    renderAll inner (ofQualifier formatter entry) = NameFormatter.qualifier inner formatter entry := by
  simp only [ofQualifier, NameFormatter.qualifier]
  cases entry.declaringType? with
  | some outer => simp only [renderAll_cons, renderAll_nil, render, Rendering.append_nothing]
  | none =>
      simp only
      split <;> simp only [renderAll_cons, renderAll_nil, render, Rendering.append_nothing]

theorem renderAll_ofEntry (isQualified : Bool) (entry : TypeEntry) :
    renderAll inner (ofEntry formatter isQualified entry) =
      NameFormatter.entry inner formatter isQualified entry := by
  cases entry with
  | specification =>
      simp only [ofEntry, NameFormatter.entry, renderAll_cons, renderAll_nil, render,
        Rendering.append_nothing]
  | definition | reference =>
      simp only [ofEntry, NameFormatter.entry, renderAll_append, renderAll_cons, renderAll_nil,
        Rendering.append_nothing, render]
      cases isQualified <;> simp [renderAll_ofQualifier]

/-- The name of a subject is the rendering of its parts. -/
theorem renderAll_ofSubject (subject : Subject) (isQualified : Bool) :
    renderAll inner (ofSubject formatter subject isQualified) =
      NameFormatter.body inner formatter subject isQualified := by
  cases subject with
  | slot slot =>
      simp only [ofSubject, NameFormatter.body]
      cases formatter.arena.resolve? slot with
      | none => rfl
      | some found => exact renderAll_ofNode inner formatter isQualified found.2
  | type token =>
      simp only [ofSubject, NameFormatter.body]
      cases formatter.types.type? token with
      | none => rfl
      | some entry => exact renderAll_ofEntry inner formatter isQualified entry

end Body

end NamePart

end CliSignature
