/-!
# Midend.Tree.Basic

What every node of a tree carries: the number that the type table is keyed by, and the byte range
it came from.
-/

namespace Midend

/-- The number of a node; the type table of a unit is keyed by it. -/
structure NodeId where
  val : UInt32
  deriving DecidableEq, Repr, Inhabited

/-- A byte range of the unit's file. -/
structure Span where
  start : UInt64
  stop : UInt64
  deriving DecidableEq, Repr, Inhabited

namespace Span

def empty : Span := ⟨0, 0⟩

def join (a b : Span) : Span := ⟨min a.start b.start, max a.stop b.stop⟩

def text (s : Span) : String := toString s.start ++ ".." ++ toString s.stop

end Span

/-- The identity and the place of a node. -/
structure Mark where
  id : NodeId
  span : Span
  deriving DecidableEq, Repr, Inhabited

end Midend
