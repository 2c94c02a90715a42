/-!
# Midend.Ir.TypeStore

The types of a module. A type lives in a slot of the store and is referred to by the number of its
slot. Anonymous types are interned: a body has one anonymous slot at most, so equal bodies share a
number. A named type always has a slot of its own. It is declared with the shape its body will have
and defined later, which lets a struct hold a pointer to itself.

Nothing is stored twice: which slot a name or an anonymous body has is read off the slots.
-/

namespace Midend
namespace Ir

/-- The number of a slot of the type store. -/
structure TypeId where
  index : Nat
  deriving DecidableEq, Repr, Inhabited

inductive FloatKind where
  | single
  | double
  deriving DecidableEq, Repr

/-- What is fixed about a named type when it is declared. -/
inductive Shape where
  | pointer
  | struct
  | scalar
  deriving DecidableEq, Repr

inductive Ty where
  | void
  | int (bits : Nat)
  | float (kind : FloatKind)
  | pointer (elem : TypeId)
  | struct (fields : List TypeId)
  | pending (shape : Shape)
  deriving DecidableEq, Repr

namespace Ty

def shape : Ty → Shape
  | .pointer _ => .pointer
  | .struct _ => .struct
  | .pending shape => shape
  | .void | .int _ | .float _ => .scalar

def isPending : Ty → Bool
  | .pending _ => true
  | _ => false

def intBits? : Ty → Option Nat
  | .int bits => some bits
  | _ => none

def floatKind? : Ty → Option FloatKind
  | .float kind => some kind
  | _ => none

def pointee? : Ty → Option TypeId
  | .pointer elem => some elem
  | _ => none

def fields? : Ty → Option (List TypeId)
  | .struct fields => some fields
  | _ => none

def isInt (t : Ty) : Bool := t.intBits?.isSome

def isFloat (t : Ty) : Bool := t.floatKind?.isSome

def isBool (t : Ty) : Bool := t.intBits? = some 1

def isVoid : Ty → Bool
  | .void => true
  | _ => false

end Ty

structure Slot where
  name : Option String
  body : Ty
  deriving DecidableEq, Repr

structure TypeStore where
  slots : Array Slot
  deriving DecidableEq, Repr

inductive DefineError where
  | missing
  | alreadyDefined
  | anonymous
  | wrongShape
  deriving DecidableEq, Repr

namespace TypeStore

def empty : TypeStore := ⟨#[]⟩

instance : Inhabited TypeStore := ⟨empty⟩

def size (s : TypeStore) : Nat := s.slots.size

def slot? (s : TypeStore) (id : TypeId) : Option Slot := s.slots[id.index]?

def body? (s : TypeStore) (id : TypeId) : Option Ty := (s.slot? id).map Slot.body

def find? (s : TypeStore) (p : Slot → Bool) : Option TypeId :=
  (s.slots.findIdx? p).map TypeId.mk

def lookup? (s : TypeStore) (name : String) : Option TypeId :=
  s.find? fun slot => slot.name == some name

/-- The anonymous type of that body. -/
def interned? (s : TypeStore) (body : Ty) : Option TypeId :=
  s.find? fun slot => slot.name == none && slot.body == body

def push (s : TypeStore) (slot : Slot) : TypeId × TypeStore :=
  (⟨s.slots.size⟩, ⟨s.slots.push slot⟩)

/-- The anonymous type of that body, which is added if there is none. -/
def intern (body : Ty) (s : TypeStore) : TypeId × TypeStore :=
  match s.interned? body with
  | some id => (id, s)
  | none => s.push ⟨none, body⟩

def void : TypeStore → TypeId × TypeStore := intern .void

def int (bits : Nat) : TypeStore → TypeId × TypeStore := intern (.int bits)

def bool : TypeStore → TypeId × TypeStore := int 1

def float (kind : FloatKind) : TypeStore → TypeId × TypeStore := intern (.float kind)

def pointerTo (elem : TypeId) : TypeStore → TypeId × TypeStore := intern (.pointer elem)

def struct (fields : List TypeId) : TypeStore → TypeId × TypeStore := intern (.struct fields)

/-- A new named type without a body, unless the name is taken. -/
def declare (name : String) (shape : Shape) (s : TypeStore) : Option TypeId × TypeStore :=
  match s.lookup? name with
  | some _ => (none, s)
  | none =>
    let (id, s') := s.push ⟨some name, .pending shape⟩
    (some id, s')

/-- Give a declared type its body, which must have the declared shape. -/
def define (id : TypeId) (body : Ty) (s : TypeStore) : Except DefineError TypeStore :=
  match s.slot? id with
  | none => .error .missing
  | some slot =>
    match slot.body with
    | .pending shape =>
      if slot.name = none then .error .anonymous
      else if body.shape = shape then
        .ok ⟨s.slots.setIfInBounds id.index { slot with body := body }⟩
      else .error .wrongShape
    | _ => .error .alreadyDefined

/-- The named type of that name, which is added with the given body if there is none. -/
def memoized (name : String) (body : Ty) (s : TypeStore) : TypeId × TypeStore :=
  match s.lookup? name with
  | some id => (id, s)
  | none => s.push ⟨some name, body⟩

def namedFrom (index : Nat) : List Slot → List (String × TypeId)
  | [] => []
  | slot :: rest =>
    match slot.name with
    | some name => (name, ⟨index⟩) :: namedFrom (index + 1) rest
    | none => namedFrom (index + 1) rest

def named (s : TypeStore) : List (String × TypeId) := namedFrom 0 s.slots.toList

/-- A reference to a type: its name after a percent sign, or its body, as `body` writes it, if it
has no name. -/
def refVia? (s : TypeStore) (body : TypeId → Option String) (id : TypeId) : Option String :=
  match s.slot? id with
  | none => none
  | some slot =>
    match slot.name with
    | some name => some ("%" ++ name)
    | none => body id

/-- The body of a type. Every body written out on the way costs one unit of fuel. -/
def bodyText? (s : TypeStore) : Nat → TypeId → Option String
  | 0, _ => none
  | fuel + 1, id =>
    match s.body? id with
    | none => none
    | some .void => some "void"
    | some (.int bits) => some ("i" ++ toString bits)
    | some (.float .single) => some "float"
    | some (.float .double) => some "double"
    | some (.pointer elem) => (s.refVia? (s.bodyText? fuel) elem).map fun t => t ++ "*"
    | some (.struct []) => some "\x7b\x7d"
    | some (.struct fields) =>
      (fields.mapM (s.refVia? (s.bodyText? fuel))).map fun ts =>
        "\x7b " ++ String.intercalate ", " ts ++ " \x7d"
    | some (.pending _) => some "opaque"

/-- The text of a reference; `none` if a slot on the way is missing, or if anonymous types run in a
circle. As no anonymous type is met twice, the number of slots is fuel enough. -/
def ref? (s : TypeStore) (id : TypeId) : Option String := s.refVia? (s.bodyText? s.size) id

/-- The text of a body, never shortened to the type's own name. -/
def definition? (s : TypeStore) (id : TypeId) : Option String := s.bodyText? s.size id

end TypeStore

end Ir
end Midend
