import Midend.Json.Basic
import Midend.Text.Digit

/-!
# Midend.Json.Token

The tokens of JSON text. Blanks are space, tab, line feed and carriage return, and a string must not
hold a raw control character. A `\u` escape may stand for half a surrogate pair: two in order are
one character, and a string with a half on its own is a token without text. `scan` takes the longest
number it can, so what does not belong to a number (a second leading zero, a bare point) is left
over as a token of its own or as no token at all.
-/

namespace Midend
namespace Json

inductive Token where
  | arrOpen
  | arrClose
  | objOpen
  | objClose
  | comma
  | colon
  | null
  | bool (b : Bool)
  | int (n : Int)
  | real (text : String)
  | str (s : String) (escaped : Bool)
  /-- A string with half a surrogate pair on its own. -/
  | garbled
  deriving DecidableEq, Repr

def isBlank (c : Char) : Bool := c = ' ' || c = '\t' || c = '\n' || c = '\r'

def hexQuad? (a b c d : Char) : Option Nat := do
  let a ← Text.hexDigit? a
  let b ← Text.hexDigit? b
  let c ← Text.hexDigit? c
  let d ← Text.hexDigit? d
  some (((a * 16 + b) * 16 + c) * 16 + d)

def letterEscape? : Char → Option Char
  | '"' => some '"'
  | '\\' => some '\\'
  | '/' => some '/'
  | 'b' => some '\x08'
  | 'f' => some '\x0c'
  | 'n' => some '\n'
  | 'r' => some '\r'
  | 't' => some '\t'
  | _ => none

def isLeadSurrogate (n : Nat) : Bool := 0xD800 ≤ n && n < 0xDC00

def isTrailSurrogate (n : Nat) : Bool := 0xDC00 ≤ n && n < 0xE000

/-- What a string consists of between its quotes. -/
inductive Piece where
  | raw (c : Char)
  | escape (c : Char)
  /-- A `\u` escape: a character below 2^16 or half a surrogate pair. -/
  | unit (n : Nat)
  deriving DecidableEq, Repr

def Piece.isRaw : Piece → Bool
  | .raw _ => true
  | _ => false

/-- The rest of a string after its opening quote: its pieces, and the text after the closing quote.
`acc` holds the pieces read so far, last first. -/
def scanString (acc : List Piece) : List Char → Option (List Piece × List Char)
  | [] => none
  | ['\\'] => none
  | '"' :: rest => some (acc.reverse, rest)
  | '\\' :: 'u' :: a :: b :: c :: d :: rest =>
    match hexQuad? a b c d with
    | some n => scanString (.unit n :: acc) rest
    | none => none
  | '\\' :: c :: rest =>
    match letterEscape? c with
    | some d => scanString (.escape d :: acc) rest
    | none => none
  | c :: rest => if c.toNat < 0x20 then none else scanString (.raw c :: acc) rest

/-- The characters that pieces spell, after those in `acc`, last first: none if half a surrogate
pair stands on its own. -/
def joinPieces (acc : List Char) : List Piece → Option (List Char)
  | [] => some acc.reverse
  | .raw c :: rest => joinPieces (c :: acc) rest
  | .escape c :: rest => joinPieces (c :: acc) rest
  | .unit n :: rest =>
    if isLeadSurrogate n then
      match rest with
      | .unit m :: rest' =>
        if isTrailSurrogate m then
          joinPieces (Char.ofNat (0x10000 + (n - 0xD800) * 0x400 + (m - 0xDC00)) :: acc) rest'
        else none
      | _ => none
    else if isTrailSurrogate n then none
    else joinPieces (Char.ofNat n :: acc) rest

def Token.ofPieces (pieces : List Piece) : Token :=
  match joinPieces [] pieces with
  | some cs => .str (String.ofList cs) (!pieces.all Piece.isRaw)
  | none => .garbled

def integerPart : List Char → List Char × List Char
  | '0' :: rest => (['0'], rest)
  | cs => (cs.takeWhile Char.isDigit, cs.dropWhile Char.isDigit)

def fractionPart : List Char → List Char × List Char
  | '.' :: rest =>
    match rest.takeWhile Char.isDigit with
    | [] => ([], '.' :: rest)
    | ds => ('.' :: ds, rest.dropWhile Char.isDigit)
  | cs => ([], cs)

def exponentPart : List Char → List Char × List Char
  | e :: rest =>
    if e = 'e' ∨ e = 'E' then
      let (sign, body) :=
        match rest with
        | '+' :: r => (['+'], r)
        | '-' :: r => (['-'], r)
        | r => ([], r)
      match body.takeWhile Char.isDigit with
      | [] => ([], e :: rest)
      | ds => (e :: sign ++ ds, body.dropWhile Char.isDigit)
    else ([], e :: rest)
  | [] => ([], [])

def scanNumber (cs : List Char) : Option (Token × List Char) :=
  let (neg, body) :=
    match cs with
    | '-' :: r => (true, r)
    | r => (false, r)
  let (whole, r) := integerPart body
  if whole.isEmpty then none
  else
    let (frac, r) := fractionPart r
    let (exp, r) := exponentPart r
    let text := (if neg then ['-'] else []) ++ whole ++ frac ++ exp
    let n := Text.decimalValue whole
    if frac.isEmpty && exp.isEmpty && !(neg && n == 0) then
      some (.int (if neg then -(n : Int) else n), r)
    else some (.real (String.ofList text), r)

/-- One token at the start of the text, which must not start with a blank. -/
def scanToken : List Char → Option (Token × List Char)
  | '[' :: r => some (.arrOpen, r)
  | ']' :: r => some (.arrClose, r)
  | '\x7b' :: r => some (.objOpen, r)
  | '\x7d' :: r => some (.objClose, r)
  | ',' :: r => some (.comma, r)
  | ':' :: r => some (.colon, r)
  | '"' :: r =>
    match scanString [] r with
    | some (pieces, r') => some (.ofPieces pieces, r')
    | none => none
  | 'n' :: 'u' :: 'l' :: 'l' :: r => some (.null, r)
  | 't' :: 'r' :: 'u' :: 'e' :: r => some (.bool true, r)
  | 'f' :: 'a' :: 'l' :: 's' :: 'e' :: r => some (.bool false, r)
  | cs => scanNumber cs

/-- The tokens of the text, given at least as much fuel as the text has characters. -/
def scanAll : Nat → List Char → Option (List Token)
  | _, [] => some []
  | 0, _ :: _ => none
  | fuel + 1, c :: rest =>
    if isBlank c then scanAll fuel rest
    else
      match scanToken (c :: rest) with
      | none => none
      | some (t, rest') =>
        match scanAll fuel rest' with
        | some ts => some (t :: ts)
        | none => none

def scan (cs : List Char) : Option (List Token) := scanAll cs.length cs

end Json
end Midend
