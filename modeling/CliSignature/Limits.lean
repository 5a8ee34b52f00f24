/-!
Bounds on the work that crafted metadata can cause.
-/

namespace CliSignature

/-- How far decoding, encoding, walking and rendering may go before they give up. -/
structure Limits where
  /-- Levels of nesting when types are decoded or encoded. -/
  decodeDepth : Nat := 50
  /-- Steps of one ownership walk, one comparison, one hash or one rendering. -/
  resolutionSteps : Nat := 4096
  /-- Levels of nesting when names are rendered, signatures compared or hashed. -/
  formatDepth : Nat := 100
  /-- The largest rank of a decoded array. -/
  arrayRank : Nat := 64
deriving DecidableEq, Repr

namespace Limits

/-- Bounds that all metadata of usual compilers stays far below. -/
def standard : Limits := {}

/-- Bounds for untrusted metadata. -/
def strict : Limits where
  decodeDepth := 16
  resolutionSteps := 256
  formatDepth := 32
  arrayRank := 32

/-- Bounds for trusted metadata of unusual size. -/
def permissive : Limits where
  decodeDepth := 200
  resolutionSteps := 1048576
  formatDepth := 400
  arrayRank := 255

end Limits

end CliSignature
