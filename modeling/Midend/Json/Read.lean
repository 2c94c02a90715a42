import Midend.Json.Token

/-!
# Midend.Json.Read

Reading one JSON value from text. The tokens are taken one at a time; the containers still open are
kept on a stack, so depth costs no recursion and is not limited here.
-/

namespace Midend
namespace Json

/-- A field as it is read. It has no key if the key has no text. -/
abbrev ReadField := Option Key × Json

def ofReadFields (fields : List ReadField) : Json :=
  match fields.mapM fun f => f.1.map fun key => (key, f.2) with
  | some fs => .obj fs
  | none => .garbled

/-- A container that is still open: what it holds so far, last first. -/
inductive Open where
  | arr (done : List Json)
  | obj (done : List ReadField) (key : Option Key)

/-- Where the reader stands between two tokens, with the open containers, innermost first. -/
inductive Position where
  | value (stack : List Open)
  | arrStart (stack : List Open)
  | objStart (stack : List Open)
  | key (done : List ReadField) (stack : List Open)
  | colon (done : List ReadField) (key : Option Key) (stack : List Open)
  | after (v : Json) (stack : List Open)

namespace Position

def startValue (stack : List Open) : Token → Option Position
  | .arrOpen => some (.arrStart stack)
  | .objOpen => some (.objStart stack)
  | .null => some (.after .null stack)
  | .bool b => some (.after (.bool b) stack)
  | .int n => some (.after (.int n) stack)
  | .real t => some (.after (.real t) stack)
  | .str s _ => some (.after (.str s) stack)
  | .garbled => some (.after .garbled stack)
  | .arrClose | .objClose | .comma | .colon => none

def startField (done : List ReadField) (stack : List Open) : Token → Option Position
  | .str s escaped => some (.colon done (some ⟨s, escaped⟩) stack)
  | .garbled => some (.colon done none stack)
  | _ => none

/-- The position after one more token, or `none` where no value can go on that way. -/
def step : Position → Token → Option Position
  | .value stack, t => startValue stack t
  | .arrStart stack, .arrClose => some (.after (.arr []) stack)
  | .arrStart stack, t => startValue (.arr [] :: stack) t
  | .objStart stack, .objClose => some (.after (.obj []) stack)
  | .objStart stack, t => startField [] stack t
  | .key done stack, t => startField done stack t
  | .colon done k stack, .colon => some (.value (.obj done k :: stack))
  | .after v (.arr done :: stack), .comma => some (.value (.arr (v :: done) :: stack))
  | .after v (.arr done :: stack), .arrClose => some (.after (.arr (v :: done).reverse) stack)
  | .after v (.obj done k :: stack), .comma => some (.key ((k, v) :: done) stack)
  | .after v (.obj done k :: stack), .objClose =>
    some (.after (ofReadFields ((k, v) :: done).reverse) stack)
  | _, _ => none

def finished? : Position → Option Json
  | .after v [] => some v
  | _ => none

end Position

def ofTokens? (ts : List Token) : Option Json :=
  (ts.foldlM Position.step (.value [])).bind Position.finished?

/-- The value that the text spells; `none` if it spells none or if anything but blanks follows. -/
def parse? (text : String) : Option Json := (scan text.toList).bind ofTokens?

/-- The value of a text that is to be read as a whole, where no part may be garbled and the spelling
of keys means nothing. -/
def parsePlain? (text : String) : Option Json := (parse? text).bind plain?

end Json
end Midend
