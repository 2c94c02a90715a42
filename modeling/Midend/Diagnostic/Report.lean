import Midend.Diagnostic.Basic
import Midend.Json.Write

/-!
# Midend.Diagnostic.Report

The diagnostics of one unit as JSON, for other programs to read. Fields without a value are left
out.
-/

namespace Midend

structure Report where
  file : String
  phase : String
  diagnostics : List Diagnostic
  deriving DecidableEq, Repr

namespace Report

def version : Nat := 1

def field (name : String) (value : Json) : List (Json.Key × Json) := [(name, value)]

/-- A field that is left out if there is no value. -/
def optionalField {α : Type} (name : String) (f : α → Json) : Option α → List (Json.Key × Json)
  | some a => [(name, f a)]
  | none => []

def textsField (name : String) : List String → List (Json.Key × Json)
  | [] => []
  | texts => [(name, Json.ofList .str texts)]

def labelJson (l : Label) : Json :=
  .obj [("message", .str l.message), ("start", .int l.span.start.toNat),
    ("end", .int l.span.stop.toNat)]

def diagnosticJson (d : Diagnostic) : Json :=
  .obj (optionalField "code" .str d.code ++
    optionalField "category" (fun c => .str c.text) d.category? ++
    field "message" (.str d.message) ++ optionalField "location" Span.encode d.primarySpan? ++
    field "labels" (Json.ofList labelJson d.labels) ++ textsField "notes" d.notes ++
    optionalField "help" .str d.help)

def json (r : Report) : Json :=
  .obj [("version", Json.ofNat version), ("file", .str r.file),
    ("success", .bool r.diagnostics.isEmpty), ("phase", .str r.phase),
    ("diagnostics", Json.ofList diagnosticJson r.diagnostics),
    ("error_count", Json.ofNat r.diagnostics.length)]

def text (r : Report) : String := r.json.pretty

end Report

end Midend
