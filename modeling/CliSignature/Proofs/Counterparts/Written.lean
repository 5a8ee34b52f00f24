import CliSignature.Blob.Writer
import CliSignature.Proofs.Counterparts.Basic

/-!
Corresponding types are written alike: with the same bytes, the same levels kept and the same error, also
where the writing fails in the middle.
-/

namespace CliSignature.Emission

variable {A B : Arena} {R : Option NodeId → Option NodeId → Prop}

section OneLevel

variable {type type' : Option NodeId → Emission} (hType : ∀ a b, R a b → type a = type' b)

include hType

theorem types_congr {ids ids' : List NodeId} (hIds : ListCorresponds R ids ids') :
    types type ids = types type' ids' := by
  induction hIds with
  | nil => rfl
  | cons hHead _ ih =>
      simp only [types] at ih
      simp only [types, each, hType _ _ hHead, ih]

theorem list_congr {ids ids' : List NodeId} (hIds : ListCorresponds R ids ids') :
    list type ids = list type' ids' := by
  simp only [list, hIds.length_eq, types_congr hType hIds]

theorem varargs_congr {varargs varargs' : Option (List NodeId)}
    (hVarargs : Option.Rel (ListCorresponds R) varargs varargs') :
    Emission.varargs type varargs = Emission.varargs type' varargs' := by
  cases hVarargs with
  | none => rfl
  | some hIds => simp only [Emission.varargs, types_congr hType hIds]

theorem methodBody_congr {m m' : MethodSignature} (hMethod : m.Corresponds R m') :
    methodBody type m = methodBody type' m' := by
  have hCount := hMethod.paramCount_eq
  cases hMethod with
  | mk convention genericCount hResult hParams hVarargs =>
      simp only [methodBody, hCount, hType _ _ hResult, types_congr hType hParams,
        varargs_congr hType hVarargs]

theorem method_congr {m m' : MethodSignature} (hMethod : m.Corresponds R m') :
    method type m = method type' m' := by
  have hBody := methodBody_congr hType hMethod
  cases hMethod
  simp only [method, hBody]

/-- What follows the first byte of a node. -/
theorem payload_congr {left right : Node} (hNodes : left.Corresponds R right) :
    payload type left = payload type' right := by
  cases hNodes with
  | named | primitive | genericParam | sentinel => rfl
  | functionPointer hSignature =>
      cases hSignature with
      | method hMethod => exact method_congr hType hMethod
      | property hMethod =>
          cases hMethod
          rfl
      | field | locals | methodSpec => rfl
  | genericInst hDefinition hArgs =>
      simp only [payload, hType _ _ hDefinition, list_congr hType hArgs]
  | wrapper kind hChild | array shape hChild | modified required modifier hChild
  | valueArray size hChild | moduleQualified index hChild =>
      simp only [payload, hType _ _ hChild]

end OneLevel

/-- By induction on the levels. -/
theorem typeWithin_congr (hAlike : A.Counterparts B R) (limits : Limits) (levels : Nat)
    (a b : Option NodeId) (hSame : R a b) :
    typeWithin A limits levels a = typeWithin B limits levels b := by
  induction levels generalizing a b with
  | zero => rfl
  | succ levels ih =>
      cases hAlike.looksAlike hSame with
      | absent hFirst hSecond => simp only [typeWithin, typeBody, hFirst, hSecond]
      | nodes hLeft hRight hNodes =>
          simp only [typeWithin, typeBody, hLeft, hRight, hNodes.elementType_eq,
            payload_congr ih hNodes]

end CliSignature.Emission
