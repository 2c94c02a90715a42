/-!
# Midend.Text.Style

Text with a terminal style: an escape sequence that opens the style, the text, and one that resets
it. A reset inside the text would end the style too early, so the style is opened again after it.
-/

namespace Midend
namespace Text

/-- A style, by the parameters of the escape sequence that opens it. -/
structure Style where
  parameters : String
  deriving DecidableEq, Repr

namespace Style

def bold : Style := ⟨"1"⟩

def dimmed : Style := ⟨"2"⟩

def blue : Style := ⟨"34"⟩

def boldRed : Style := ⟨"1;31"⟩

def boldYellow : Style := ⟨"1;33"⟩

def boldCyan : Style := ⟨"1;36"⟩

def opening (s : Style) : List Char := '\x1b' :: '[' :: s.parameters.toList ++ ['m']

/-- The sequence that ends every style. -/
def reset : List Char := ['\x1b', '[', '0', 'm']

def reopen (opening : List Char) : List Char → List Char
  | '\x1b' :: '[' :: '0' :: 'm' :: rest => reset ++ (opening ++ reopen opening rest)
  | c :: rest => c :: reopen opening rest
  | [] => []

/-- The text in the style, or as it is where colours are off. -/
def apply (s : Style) (color : Bool) (text : String) : String :=
  if color then String.ofList (s.opening ++ (reopen s.opening text.toList ++ reset)) else text

end Style

end Text
end Midend
