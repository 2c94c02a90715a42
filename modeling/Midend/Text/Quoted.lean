import Midend.Text.Grapheme

/-!
# Midend.Text.Quoted

A string between double quotes, written so that every character of it can be seen: quote and
backslash are escaped, NUL, tab, line feed and carriage return have short escapes, and a character
that is not printable or that would join the one before it is written by its number,
`\u` and lower-case hexadecimal digits in braces. All other characters stand for themselves.
-/

namespace Midend
namespace Text

def numberEscape (c : Char) : List Char :=
  ['\\', 'u', '\x7b'] ++ Nat.toDigits 16 c.toNat ++ ['\x7d']

/-- ASCII without the controls. -/
def isVisibleAscii (c : Char) : Bool := 0x20 ≤ c.toNat && c.toNat < 0x7f

def escapeVisible (c : Char) : List Char :=
  match c with
  | '\x00' => ['\\', '0']
  | '\t' => ['\\', 't']
  | '\r' => ['\\', 'r']
  | '\n' => ['\\', 'n']
  | '"' => ['\\', '"']
  | '\\' => ['\\', '\\']
  | c =>
    if isVisibleAscii c then [c]
    else if joinsPrevious c || !isPrintable c then numberEscape c
    else [c]

def quoted (s : String) : String :=
  String.ofList ('"' :: s.toList.flatMap escapeVisible ++ ['"'])

end Text
end Midend
