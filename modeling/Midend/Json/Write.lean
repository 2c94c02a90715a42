import Midend.Json.Basic

/-!
# Midend.Json.Write

JSON text of a value: `compact` without blanks, `pretty` with one line per element and an indent of
two spaces per level. Both write strings with the short escapes for quote, backslash, backspace,
form feed, line feed, carriage return and tab, `\u00xx` for other controls, and all else as it is.
The replacement character stands for a garbled value.
-/

namespace Midend
namespace Json

def hexChar (n : Nat) : Char := if n < 10 then Char.ofNat (48 + n) else Char.ofNat (87 + n)

def escapeChar (c : Char) : List Char :=
  match c with
  | '"' => ['\\', '"']
  | '\\' => ['\\', '\\']
  | '\x08' => ['\\', 'b']
  | '\x0c' => ['\\', 'f']
  | '\n' => ['\\', 'n']
  | '\r' => ['\\', 'r']
  | '\t' => ['\\', 't']
  | c =>
    if c.toNat < 0x20 then
      ['\\', 'u', '0', '0', hexChar (c.toNat / 16), hexChar (c.toNat % 16)]
    else [c]

def quote (s : String) : List Char := '"' :: s.toList.flatMap escapeChar ++ ['"']

/-- A string that stands for a value without text. -/
def garbledText : List Char := quote "\ufffd"

def boolText (b : Bool) : List Char := (if b then "true" else "false").toList

mutual

def compactChars : Json → List Char
  | .null => "null".toList
  | .bool b => boolText b
  | .int n => (toString n).toList
  | .real text => text.toList
  | .str s => quote s
  | .garbled => garbledText
  | .arr [] => ['[', ']']
  | .arr (j :: rest) => '[' :: (compactChars j ++ (compactElems rest ++ [']']))
  | .obj [] => ['\x7b', '\x7d']
  | .obj ((k, j) :: rest) =>
    '\x7b' :: (quote k.text ++ ':' :: (compactChars j ++ (compactFields rest ++ ['\x7d'])))

/-- The elements after the first. -/
def compactElems : List Json → List Char
  | [] => []
  | j :: rest => ',' :: (compactChars j ++ compactElems rest)

def compactFields : List (Key × Json) → List Char
  | [] => []
  | (k, j) :: rest => ',' :: (quote k.text ++ ':' :: (compactChars j ++ compactFields rest))

end

def compact (j : Json) : String := String.ofList (compactChars j)

def newline (level : Nat) : List Char := '\n' :: List.replicate (2 * level) ' '

mutual

/-- The text of a value that stands at an indent level, one line per element and field. -/
def prettyChars (level : Nat) : Json → List Char
  | .null => "null".toList
  | .bool b => boolText b
  | .int n => (toString n).toList
  | .real text => text.toList
  | .str s => quote s
  | .garbled => garbledText
  | .arr [] => ['[', ']']
  | .arr (j :: rest) =>
    '[' :: (newline (level + 1) ++ (prettyChars (level + 1) j ++
      (prettyElems (level + 1) rest ++ (newline level ++ [']']))))
  | .obj [] => ['\x7b', '\x7d']
  | .obj ((k, j) :: rest) =>
    '\x7b' :: (newline (level + 1) ++ (quote k.text ++ ':' :: ' ' :: (prettyChars (level + 1) j ++
      (prettyFields (level + 1) rest ++ (newline level ++ ['\x7d'])))))

def prettyElems (level : Nat) : List Json → List Char
  | [] => []
  | j :: rest => ',' :: (newline level ++ (prettyChars level j ++ prettyElems level rest))

def prettyFields (level : Nat) : List (Key × Json) → List Char
  | [] => []
  | (k, j) :: rest =>
    ',' :: (newline level ++ (quote k.text ++ ':' :: ' ' :: (prettyChars level j ++
      prettyFields level rest)))

end

def pretty (j : Json) : String := String.ofList (prettyChars 0 j)

end Json
end Midend
