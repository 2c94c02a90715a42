import Midend.Json.Basic

/-!
# Midend.Json.Decode

Reading typed data out of a JSON value: fields of an object, scalars, and members of an enumeration.
A decoder that can meet arrays and objects takes a `limit`, the number of them that may still be
opened inside one another.
-/

namespace Midend

inductive DecodeError where
  /-- The text is not one JSON value. -/
  | malformed
  | tooDeep
  | expected (what : String)
  | missing (field : String)
  | repeated (field : String)
  | unknown (variant : String)
  deriving DecidableEq, Repr

namespace DecodeError

def message : DecodeError → String
  | .malformed => "not a JSON value"
  | .tooDeep => "nested too deeply"
  | .expected what => "expected " ++ what
  | .missing field => "missing field `" ++ field ++ "`"
  | .repeated field => "repeated field `" ++ field ++ "`"
  | .unknown variant => "unknown variant `" ++ variant ++ "`"

end DecodeError

abbrev Decoded (α : Type) := Except DecodeError α

abbrev Fields := List (Json.Key × Json)

namespace Json

def asFields : Json → Decoded Fields
  | .obj fs => .ok fs
  | _ => .error (.expected "an object")

def asString : Json → Decoded String
  | .str s => .ok s
  | _ => .error (.expected "a string")

def asBool : Json → Decoded Bool
  | .bool b => .ok b
  | _ => .error (.expected "a boolean")

def asNat (bound : Nat) : Json → Decoded Nat
  | .int (.ofNat n) => if n < bound then .ok n else .error (.expected "a smaller integer")
  | _ => .error (.expected "a natural number")

def asUInt32 (j : Json) : Decoded UInt32 := (j.asNat UInt32.size).map UInt32.ofNat

def asUInt64 (j : Json) : Decoded UInt64 := (j.asNat UInt64.size).map UInt64.ofNat

/-- The value of a field that may occur once. -/
def field? (fs : Fields) (name : String) : Decoded (Option Json) :=
  match fs.filter (fun f => f.1.text == name) with
  | [] => .ok none
  | [(_, v)] => .ok (some v)
  | _ => .error (.repeated name)

def required {α : Type} (fs : Fields) (name : String) (decode : Json → Decoded α) : Decoded α :=
  match field? fs name with
  | .error e => .error e
  | .ok none => .error (.missing name)
  | .ok (some v) => decode v

/-- A field that may be missing or `null`. -/
def optional {α : Type} (fs : Fields) (name : String) (decode : Json → Decoded α) :
    Decoded (Option α) :=
  match field? fs name with
  | .error e => .error e
  | .ok none => .ok none
  | .ok (some .null) => .ok none
  | .ok (some v) => (decode v).map some

/-- A field that stands for `default` when it is missing, but must not be `null`. -/
def defaulted {α : Type} (fs : Fields) (name : String) (default : α)
    (decode : Json → Decoded α) : Decoded α :=
  match field? fs name with
  | .error e => .error e
  | .ok none => .ok default
  | .ok (some v) => decode v

/-- The fields of a record with the given field names: those of an object, or the elements of an
array in the order of the names, where up to `spare` names at the end may have none. -/
def record (names : List String) (spare : Nat) : Json → Decoded Fields
  | .obj fs => .ok fs
  | .arr xs =>
    if xs.length ≤ names.length ∧ names.length ≤ xs.length + spare then
      .ok ((names.map fun name => ⟨name, false⟩).zip xs)
    else .error (.expected "an element for each field")
  | _ => .error (.expected "an object")

/-- The elements of an array, each decoded within the limit that the array leaves. -/
def elements {α : Type} (decode : Nat → Json → Decoded α) : Nat → Json → Decoded (List α)
  | 0, _ => .error .tooDeep
  | n + 1, .arr xs => xs.mapM (decode n)
  | _ + 1, _ => .error (.expected "an array")

/-- The name of a variant without data: a string, or an object from that name to `null`. -/
def variantName : Nat → Json → Decoded String
  | _, .str tag => .ok tag
  | _ + 1, .obj [(⟨tag, _⟩, .null)] => .ok tag
  | 0, .obj _ => .error .tooDeep
  | _, _ => .error (.expected "a variant name")

def member {α : Type} (all : List α) (tag : α → String) (limit : Nat) (j : Json) : Decoded α :=
  match variantName limit j with
  | .error e => .error e
  | .ok name =>
    match all.find? (fun a => tag a == name) with
    | some a => .ok a
    | none => .error (.unknown name)

end Json
end Midend
