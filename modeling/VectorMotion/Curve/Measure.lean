import VectorMotion.Curve.Segment

/-!
# Measuring segments

Trims cut outlines by length. All that a trim needs of the geometry of curves is here: the length
of a segment, and the parameter at which a given length has been covered. What a trim keeps is
defined over any such measure, so its laws can be stated for exact measuring as well as for the
numerical one that runs.
-/

namespace VectorMotion

/-- Measuring along segments. -/
class Measure (P : Type) where
  /-- The length of a segment. -/
  length : Segment P → P
  /-- The parameter at which a segment has covered a length. -/
  parameterAt : Segment P → P → P

end VectorMotion
