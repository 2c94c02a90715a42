/-!
# Midend.Json.Basic

JSON values as the text gives them: fields keep their order and their repetitions, so a reader can
refuse a repeated key, a number keeps its spelling unless it is written as an integer, and a key
tells whether it was spelled with escapes.
-/

namespace Midend

/-- A key of an object. `escaped` tells that an escape stood in its spelling. -/
structure Json.Key where
  text : String
  escaped : Bool
  deriving DecidableEq, Repr

instance : Coe String Json.Key := ⟨fun text => ⟨text, false⟩⟩

/-- A JSON value. `int` is a number written without point and exponent, other than `-0`; every
other number is a `real` and keeps its text. A value is `garbled` if it is well formed but cannot be
decoded, because an escape in it stands for half a surrogate pair: it is a string with such an
escape, or an object with one in a key of its own. -/
inductive Json where
  | null
  | bool (b : Bool)
  | int (n : Int)
  | real (text : String)
  | str (s : String)
  | arr (elems : List Json)
  | obj (fields : List (Json.Key × Json))
  | garbled

namespace Json

def ofOption {α : Type} (f : α → Json) : Option α → Json
  | some a => f a
  | none => .null

def ofList {α : Type} (f : α → Json) (xs : List α) : Json := .arr (xs.map f)

def ofNat (n : Nat) : Json := .int n

mutual

/-- How many arrays and objects enclose one another at most, the value itself included. -/
def depth : Json → Nat
  | .arr elems => elemsDepth elems + 1
  | .obj fields => fieldsDepth fields + 1
  | _ => 0

def elemsDepth : List Json → Nat
  | [] => 0
  | j :: rest => max (depth j) (elemsDepth rest)

def fieldsDepth : List (Key × Json) → Nat
  | [] => 0
  | (_, j) :: rest => max (depth j) (fieldsDepth rest)

end

mutual

/-- The value without regard to the spelling of its keys, if no part of it is garbled. -/
def plain? : Json → Option Json
  | .arr elems => (plainElems? elems).map .arr
  | .obj fields => (plainFields? fields).map .obj
  | .garbled => none
  | j => some j

def plainElems? : List Json → Option (List Json)
  | [] => some []
  | j :: rest =>
    match plain? j, plainElems? rest with
    | some j', some rest' => some (j' :: rest')
    | _, _ => none

def plainFields? : List (Key × Json) → Option (List (Key × Json))
  | [] => some []
  | (key, j) :: rest =>
    match plain? j, plainFields? rest with
    | some j', some rest' => some ((⟨key.text, false⟩, j') :: rest')
    | _, _ => none

end

end Json

end Midend
