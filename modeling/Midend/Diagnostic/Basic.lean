import Midend.Diagnostic.Code
import Midend.Tree.Encode

/-!
# Midend.Diagnostic.Basic

A diagnostic is what the user sees of one error: a message with an optional code, the places in the
unit that it is about, and remarks. The code is a text, since not every code needs to be registered.
-/

namespace Midend

/-- A byte range of the unit's file, with what is wrong there. -/
structure Label where
  span : Span
  message : String
  deriving DecidableEq, Repr

structure Diagnostic where
  code : Option String
  message : String
  labels : List Label
  notes : List String
  help : Option String
  deriving DecidableEq, Repr

def Label.encode (l : Label) : Json :=
  .obj [("span", l.span.encode), ("message", .str l.message)]

namespace Diagnostic

/-- A diagnostic of a registered kind without labels and remarks. -/
def ofCode (code : ErrorCode) (message : String) : Diagnostic :=
  ⟨some code.text, message, [], [], none⟩

def label (d : Diagnostic) (span : Span) (message : String) : Diagnostic :=
  { d with labels := d.labels ++ [⟨span, message⟩] }

def note (d : Diagnostic) (text : String) : Diagnostic := { d with notes := d.notes ++ [text] }

def suggest (d : Diagnostic) (text : String) : Diagnostic := { d with help := some text }

def primarySpan? (d : Diagnostic) : Option Span := d.labels.head?.map Label.span

def category? (d : Diagnostic) : Option Category :=
  (d.code.bind ErrorCode.ofText?).map ErrorCode.category

def encode (d : Diagnostic) : Json :=
  .obj [("code", Json.ofOption .str d.code), ("message", .str d.message),
    ("labels", Json.ofList Label.encode d.labels), ("notes", Json.ofList .str d.notes),
    ("help", Json.ofOption .str d.help)]

end Diagnostic

end Midend
