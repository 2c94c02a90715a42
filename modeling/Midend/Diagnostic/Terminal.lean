import Midend.Diagnostic.Basic
import Midend.Text.Style

/-!
# Midend.Diagnostic.Terminal

Diagnostics for a terminal: the message on a line of its own, then two lines for each label, the
place and what is wrong there, then a line for each note and for the help. Places are byte ranges of
the unit's file, whose text is not at hand.
-/

namespace Midend

open Text (Style)

structure Terminal where
  color : Bool
  file : String
  deriving DecidableEq, Repr

namespace Terminal

/-- What stands for the name of the file where there is none. -/
def anonymousFile : String := "<unit>"

def styled (t : Terminal) (s : Style) (text : String) : String := s.apply t.color text

def headerText (t : Terminal) (d : Diagnostic) : String :=
  let code :=
    match d.code with
    | some code => "[" ++ code ++ "]"
    | none => ""
  t.styled .boldRed "error" ++ code ++ ": " ++ t.styled .bold d.message ++ "\n"

def labelText (t : Terminal) (l : Label) : String :=
  "  " ++ t.styled .blue "-->" ++ " " ++ t.file ++ ":" ++ l.span.text ++ "\n" ++
    "   " ++ t.styled .blue "=" ++ " " ++ t.styled .boldRed l.message ++ "\n"

def remarkText (t : Terminal) (s : Style) (kind text : String) : String :=
  "   " ++ t.styled .blue "=" ++ " " ++ t.styled s kind ++ ": " ++ text ++ "\n"

def text (t : Terminal) (d : Diagnostic) : String :=
  t.headerText d ++ String.join (d.labels.map t.labelText) ++
    String.join (d.notes.map (t.remarkText .bold "note")) ++
    String.join (d.help.toList.map (t.remarkText .boldCyan "help"))

end Terminal

end Midend
