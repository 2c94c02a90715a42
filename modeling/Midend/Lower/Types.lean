import Midend.Lower.Monad
import Midend.Routine

/-!
# Midend.Lower.Types

Which type of the store a source type stands for. Basic kinds have a fixed encoding; the kinds of
untyped constants have named definitions of their own, whose names no declared type may take. A name
stands for its definition. An alias chain is followed to the first type expression that is not the
name of another declared type.
-/

namespace Midend

open Ir

/-- The types that a unit declares, with their type expressions. -/
abbrev Declared := List (String × TypeExpr)

def nextAlias? (declared : Declared) : TypeExpr → Option TypeExpr
  | .ident _ name => if (BasicKind.ofName? name).isSome then none else declared.lookup name
  | _ => none

structure AliasWalk where
  /-- The names that stand for what came after them. -/
  passed : List String
  reached : TypeExpr

/-- A round on an alias chain: it ends where there is no declared name, and has no end if a name
comes up for the second time. -/
def aliasRound (declared : Declared) (w : AliasWalk) : Option TypeExpr ⊕ AliasWalk :=
  match nextAlias? declared w.reached, w.reached with
  | some next, .ident _ name =>
    if name ∈ w.passed then .inl none else .inr ⟨name :: w.passed, next⟩
  | _, t => .inl (some t)

theorem aliasRound_descends (declared : Declared) (w w' : AliasWalk)
    (h : aliasRound declared w = .inr w') :
    unseen (declared.map Prod.fst) w'.passed < unseen (declared.map Prod.fst) w.passed := by
  unfold aliasRound at h
  split at h
  · rename_i next span name hnext hident
    split at h
    · cases h
    · rename_i hnew
      cases h
      rw [hident, nextAlias?] at hnext
      split at hnext
      · cases hnext
      · obtain ⟨before, after, hsplit, _⟩ := List.lookup_eq_some_iff.mp hnext
        exact unseen_cons_lt (by simp [hsplit]) hnew
  · cases h

/-- Following an alias chain: there are no more names to pass than were declared. -/
def aliasRoutine (declared : Declared) : Routine AliasWalk (Option TypeExpr) :=
  ⟨aliasRound declared, fun w => unseen (declared.map Prod.fst) w.passed,
    aliasRound_descends declared⟩

/-- The end of an alias chain; `none` if it has none. -/
def followAlias (declared : Declared) (t : TypeExpr) : Option TypeExpr :=
  (aliasRoutine declared).run ⟨[], t⟩

def isUnsafePointer (package name : String) : Bool := package == "unsafe" && name == "Pointer"

/-- The names of the types of untyped constants. -/
def reservedTypeNames : List String :=
  ["untyped_bool", "untyped_int", "untyped_rune", "untyped_float", "untyped_complex",
    "untyped_string", "untyped_nil"]

def TypeExpr.unsupported : TypeExpr → Unsupported
  | .qualified span package name => ⟨"type " ++ package ++ "." ++ name, span⟩
  | t => ⟨t.describe ++ "s", t.span⟩

namespace Typing

def int (bits : Nat) : Typing TypeId := ofStore (TypeStore.int bits)

def bool : Typing TypeId := ofStore TypeStore.bool

def float (kind : FloatKind) : Typing TypeId := ofStore (TypeStore.float kind)

def pointerTo (elem : TypeId) : Typing TypeId := ofStore (TypeStore.pointerTo elem)

def struct (fields : List TypeId) : Typing TypeId := ofStore (TypeStore.struct fields)

def memoized (name : String) (body : Ty) : Typing TypeId := ofStore (TypeStore.memoized name body)

def named (name : String) (span : Span) : Typing TypeId := do
  match (← get).lookup? name with
  | some id => return id
  | none => throw (.report (.undefinedType name span))

def stringFields : Typing (List TypeId) := do
  let byte ← int 8
  let data ← pointerTo byte
  let length ← int 64
  return [data, length]

def complex (kind : FloatKind) : Typing TypeId := do
  let part ← float kind
  struct [part, part]

/-- The encoding of a basic kind. `wordBits` is the width of `int`, `uint` and addresses. -/
def basic (wordBits : Nat) (kind : BasicKind) (span : Span) : Typing TypeId :=
  match kind with
  | .bool => bool
  | .int | .uint | .uintptr | .unsafePointer => int wordBits
  | .int8 | .uint8 => int 8
  | .int16 | .uint16 => int 16
  | .int32 | .uint32 => int 32
  | .int64 | .uint64 => int 64
  | .float32 => float .single
  | .float64 => float .double
  | .complex64 => complex .single
  | .complex128 => complex .double
  | .string => do struct (← stringFields)
  | .untypedBool => memoized "untyped_bool" (.int 1)
  | .untypedInt => memoized "untyped_int" (.int 64)
  | .untypedRune => memoized "untyped_rune" (.int 32)
  | .untypedFloat => memoized "untyped_float" (.float .double)
  | .untypedComplex => do
    let part ← memoized "untyped_float" (.float .double)
    memoized "untyped_complex" (.struct [part, part])
  | .untypedString => do memoized "untyped_string" (.struct (← stringFields))
  | .untypedNil => do
    let byte ← int 8
    memoized "untyped_nil" (.pointer byte)
  | .invalid => throw (.abort ⟨"values of invalid type", span⟩)

mutual

/-- The type that a type expression denotes in a field, behind a pointer or in a signature. -/
def ofExpr (wordBits : Nat) : TypeExpr → Typing TypeId
  | .ident span name =>
    match BasicKind.ofName? name with
    | some kind => basic wordBits kind span
    | none => named name span
  | .qualified span package name =>
    if isUnsafePointer package name then int wordBits
    else throw (.abort (TypeExpr.unsupported (.qualified span package name)))
  | .pointer _ elem => do
    let elem ← ofExpr wordBits elem
    pointerTo elem
  | .struct _ fields => do
    let fields ← ofFields wordBits fields
    struct fields
  | .array span len elem => throw (.abort (TypeExpr.unsupported (.array span len elem)))
  | .map span key value => throw (.abort (TypeExpr.unsupported (.map span key value)))
  | .func span params results =>
    throw (.abort (TypeExpr.unsupported (.func span params results)))
  | .interface span => throw (.abort (TypeExpr.unsupported (.interface span)))

/-- The types of field groups, one for each entry of a group. -/
def ofFields (wordBits : Nat) : List Field → Typing (List TypeId)
  | [] => return []
  | .mk names type _ :: rest => do
    let id ← ofExpr wordBits type
    let ids ← ofFields wordBits rest
    return List.replicate (max names.length 1) id ++ ids

end

/-- The type that the checker's type of an expression denotes. -/
def ofChecked (wordBits : Nat) (span : Span) : CheckedType → Typing TypeId
  | .basic kind => basic wordBits kind span
  | .named name => named name span
  | .pointer elem => do
    let elem ← ofChecked wordBits span elem
    pointerTo elem
  | t => throw (.abort ⟨"values of type " ++ t.text, span⟩)

end Typing

/-- The basic kind under a checked type, seen through declared names. -/
def underlyingBasic? (declared : Declared) : CheckedType → Option BasicKind
  | .basic kind => some kind
  | .named name =>
    match (declared.lookup name).bind (followAlias declared) with
    | some (.ident _ target) => BasicKind.ofName? target
    | some (.qualified _ package target) =>
      if isUnsafePointer package target then some .unsafePointer else none
    | _ => none
  | _ => none

def isUnsigned (declared : Declared) (t : CheckedType) : Bool :=
  (underlyingBasic? declared t).any BasicKind.isUnsigned

end Midend
