import CliSignature.Proofs.Structural.Coverage

/-!
The structural hash without its shortcuts. As long as the limits suffice for what is below a slot, neither
the hashes that are remembered nor the bounds on the walk can be told from the result: it is made by plain
recursion on the outline of the slot.
-/

namespace CliSignature.Arena

variable {arena : Arena} {limits : Limits} {slot : Option NodeId}

/-- Nothing below a slot refers back to itself, and the limits suffice for how deep it nests and for the
nodes that are reached. -/
structure WithinLimits (arena : Arena) (limits : Limits) (slot : Option NodeId) : Prop where
  acyclic : arena.AcyclicBelow slot
  height : ∀ tree, arena.Unfolds slot tree → tree.height 0 ≤ limits.formatDepth
  nodes : (arena.nodesBelow slot).encard ≤ limits.resolutionSteps

theorem WithinLimits.of_unfolds {tree : Tree} (hTree : arena.Unfolds slot tree)
    (hHeight : tree.height 0 ≤ limits.formatDepth) (hSize : arena.size ≤ limits.resolutionSteps) :
    arena.WithinLimits limits slot where
  acyclic := hTree.acyclicBelow
  height other hOther := by rwa [hOther.unique hTree]
  nodes := (encard_nodesBelow_le slot).trans (by exact_mod_cast hSize)

theorem WithinLimits.hashedInFull (hWithin : arena.WithinLimits limits slot) :
    arena.HashedInFull limits slot := by
  obtain ⟨tree, hTree⟩ := hWithin.acyclic.exists_unfolds
  exact hashedInFull_of_below hWithin.acyclic (hTree.fitsIn (hWithin.height tree hTree)) hWithin.nodes

theorem WithinLimits.structuralHash_eq {outline : Outline} (hWithin : arena.WithinLimits limits slot)
    (hOutline : arena.Outlines slot outline) : arena.structuralHash limits slot = outline.hash := by
  obtain ⟨other, hOther, hHash⟩ := structuralHash_eq_hash hWithin.hashedInFull
  rw [hHash, hOther.unique hOutline]

/-- Within the limits, a slot has an outline, and its hash is that of the outline. It is that of the tree
unless some function pointer names a handle that refers to nothing. In any other arena, under any other
limits that suffice there, slots with this outline have this hash. -/
theorem structuralHash_eq_plain (hWithin : arena.WithinLimits limits slot) :
    ∃ outline, arena.Outlines slot outline ∧
      arena.structuralHash limits slot = outline.hash ∧
      (arena.PointersHeld slot → ∀ tree, arena.Unfolds slot tree →
        arena.structuralHash limits slot = tree.hash) ∧
      ∀ (other : Arena) (limits' : Limits) (slot' : Option NodeId), other.WithinLimits limits' slot' →
        other.Outlines slot' outline → other.structuralHash limits' slot' = arena.structuralHash limits slot := by
  obtain ⟨tree, hTree⟩ := hWithin.acyclic.exists_unfolds
  obtain ⟨outline, hOutline⟩ := hTree.exists_outlines
  have hHash := hWithin.structuralHash_eq hOutline
  refine ⟨outline, hOutline, hHash, fun hHeld tree hTree => ?_, fun other limits' slot' hOther hSame => ?_⟩
  · rw [hHash, hOutline.hash_eq hTree hHeld]
  · rw [hHash, hOther.structuralHash_eq hSame]

/-- An instantiation that uses one node twice, and whose definition is not there. -/
def sharedPrimitive : Arena :=
  ⟨#[.primitive ⟨0x01000001⟩ .int32, .genericInst (some ⟨9⟩) [⟨0⟩, ⟨0⟩]]⟩

theorem structuralHash_eq_plain_sharedPrimitive :
    sharedPrimitive.WithinLimits .strict (some ⟨1⟩) ∧
      sharedPrimitive.structuralHash .strict (some ⟨1⟩) =
        (Outline.node (.genericInst 2)
          [.dangling, .node (.primitive .int32) [], .node (.primitive .int32) []]).hash := by
  have hInt : sharedPrimitive.Unfolds (some ⟨0⟩) (.node (.primitive .int32) []) :=
    unfolds_node_iff.mpr ⟨_, .primitive _ .int32, rfl, rfl, .nil⟩
  have hTree : sharedPrimitive.Unfolds (some ⟨1⟩)
      (.node (.genericInst 2) [.absent, .node (.primitive .int32) [], .node (.primitive .int32) []]) :=
    unfolds_node_iff.mpr ⟨_, .genericInst _ _, rfl, rfl, .cons (.absent rfl) (.cons hInt (.cons hInt .nil))⟩
  have hWithin : sharedPrimitive.WithinLimits .strict (some ⟨1⟩) :=
    .of_unfolds hTree (by decide) (by decide)
  have hOutlineInt : sharedPrimitive.Outlines (some ⟨0⟩) (.node (.primitive .int32) []) :=
    (outlines_node_iff rfl).mpr ⟨_, rfl, .nil⟩
  have hNode : sharedPrimitive.get? ⟨1⟩ = some (.genericInst (some ⟨9⟩) [⟨0⟩, ⟨0⟩]) := rfl
  have hExpected : sharedPrimitive.Outlines (some ⟨1⟩) (.node (.genericInst 2)
      [.dangling, .node (.primitive .int32) [], .node (.primitive .int32) []]) :=
    .of_forall₂ hNode (.cons (.dangling rfl) (.cons hOutlineInt (.cons hOutlineInt .nil)))
  obtain ⟨outline, hOutline, hHash, -⟩ := structuralHash_eq_plain hWithin
  obtain rfl := hOutline.unique hExpected
  exact ⟨hWithin, hHash⟩

end CliSignature.Arena
