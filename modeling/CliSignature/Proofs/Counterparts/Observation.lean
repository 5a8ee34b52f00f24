import CliSignature.Proofs.Counterparts.Name
import CliSignature.Proofs.Counterparts.Written
import CliSignature.Proofs.Structural.Walks

/-!
Structurally equal types can not be told apart by their written forms, their names or their owners,
wherever the limits cut these. Primitives of one code must have one token for that, since structural
equality does not look at it but names and owners do.
-/

namespace CliSignature.Arena

/-- Two types of which everything that can be asked for under the given limits is the same. -/
structure Indistinguishable (A B : Arena) (types : TypeSource) (limits : Limits) (a b : NodeId) : Prop where
  written : ∀ writer : Writer, writer.writeType A limits (some a) = writer.writeType B limits (some b)
  encoded : A.encodeType limits (some a) = B.encodeType limits (some b)
  name : ∀ style, NameFormatter.name ⟨A, types, limits, style⟩ a = NameFormatter.name ⟨B, types, limits, style⟩ b
  fullName : ∀ style,
    NameFormatter.fullName ⟨A, types, limits, style⟩ a = NameFormatter.fullName ⟨B, types, limits, style⟩ b
  namespaceName : ∀ style, NameFormatter.namespaceName ⟨A, types, limits, style⟩ a =
    NameFormatter.namespaceName ⟨B, types, limits, style⟩ b
  assemblyQualifiedName : ∀ style, NameFormatter.assemblyQualifiedName ⟨A, types, limits, style⟩ a =
    NameFormatter.assemblyQualifiedName ⟨B, types, limits, style⟩ b
  owningModule : OwnerQuery.owningModule.resolve? A types limits (.node a) =
    OwnerQuery.owningModule.resolve? B types limits (.node b)
  definingAssembly : (OwnerQuery.definingAssembly types).resolve? A types limits (.node a) =
    (OwnerQuery.definingAssembly types).resolve? B types limits (.node b)

/-- Corresponding types in arenas of the same size are indistinguishable. -/
theorem Counterparts.indistinguishable {A B : Arena} {R : Option NodeId → Option NodeId → Prop}
    (hAlike : A.Counterparts B R) (hSize : A.size = B.size) (types : TypeSource) (limits : Limits)
    {a b : NodeId} (hSame : R (some a) (some b)) : A.Indistinguishable B types limits a b := by
  have hEmitted (writer : Writer) :
      writer.writeType A limits (some a) = writer.writeType B limits (some b) := by
    simp only [Writer.writeType, Writer.emitType, Emission.typeWithin_congr hAlike limits _ _ _ hSame]
  exact {
    written := hEmitted
    encoded := by rw [encodeType, encodeType, hEmitted]
    name := fun _ => NameFormatter.name_congr hAlike hSame
    fullName := fun _ => NameFormatter.fullName_congr hAlike hSame
    namespaceName := fun _ => NameFormatter.namespaceName_congr hAlike hSize hSame
    assemblyQualifiedName := fun _ => NameFormatter.assemblyQualifiedName_congr hAlike hSame
    owningModule := OwnerQuery.resolve?_congr hAlike _ types limits (.node hSame)
    definingAssembly := OwnerQuery.resolve?_congr hAlike _ types limits (.node hSame) }

/-- Types that are found structurally equal under any limits are indistinguishable under all. -/
theorem indistinguishable_of_structurallyEqual {arena : Arena} (hUniform : arena.UniformPrimitives)
    {compared : Limits} {a b : NodeId}
    (hEqual : arena.structurallyEqual compared (some a) (some b) = true) (types : TypeSource)
    (limits : Limits) : arena.Indistinguishable arena types limits a b :=
  hUniform.counterparts.indistinguishable rfl types limits (bisimilar_of_structurallyEqual hEqual)

/-- An instantiation that uses one node twice, and one with two nodes of the same content. -/
def sharedAndUnshared : Arena :=
  ⟨#[.named .reference ⟨0x02000001⟩, .primitive ⟨0x01000001⟩ .int32, .primitive ⟨0x01000001⟩ .int32,
    .genericInst (some ⟨0⟩) [⟨1⟩, ⟨1⟩], .genericInst (some ⟨0⟩) [⟨1⟩, ⟨2⟩]]⟩

theorem sharedAndUnshared_uniformPrimitives : sharedAndUnshared.UniformPrimitives := by
  intro token token' code hFirst hSecond
  simp only [sharedAndUnshared, List.mem_toArray, List.mem_cons, reduceCtorEq, Node.primitive.injEq,
    List.not_mem_nil, or_false, false_or, or_self] at hFirst hSecond
  rw [hFirst.1, hSecond.1]

/-- A source in which the two tokens of `sharedAndUnshared` name types of one assembly. -/
def listAndInt : TypeSource where
  type? token :=
    if token = ⟨0x02000001⟩ then some (.definition ⟨0⟩ "Collections" "Pair" none)
    else if token = ⟨0x01000001⟩ then some (.reference ⟨0⟩ (.assembly ⟨1⟩) "System" "Int32")
    else none
  module? _ := some ⟨"main", some ⟨0⟩⟩
  assembly? _ := none

theorem indistinguishable_sharing :
    sharedAndUnshared.UniformPrimitives ∧
      sharedAndUnshared.structurallyEqual .strict (some ⟨3⟩) (some ⟨4⟩) = true ∧
      sharedAndUnshared.Indistinguishable sharedAndUnshared listAndInt .standard ⟨3⟩ ⟨4⟩ := by
  have hEqual : sharedAndUnshared.structurallyEqual .strict (some ⟨3⟩) (some ⟨4⟩) = true := by decide +kernel
  exact ⟨sharedAndUnshared_uniformPrimitives, hEqual,
    indistinguishable_of_structurallyEqual sharedAndUnshared_uniformPrimitives hEqual listAndInt .standard⟩

end CliSignature.Arena
