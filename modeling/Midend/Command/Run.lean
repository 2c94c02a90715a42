import Midend.Command.Options
import Midend.Compile.Compilation
import Midend.Ir.Text
import Midend.Text.Blank

/-!
# Midend.Command.Run

What the command does: it compiles the units in order and writes their modules, or the errors. No
module is written when there are errors, and no error when a unit fails.

The exit code is 0 for success, 1 for errors in the units or an unknown code to be described, and 2
for a failure and for arguments that cannot be used.
-/

namespace Midend
namespace Command

open Text (Style)

structure Outcome where
  code : UInt8
  stdout : String
  stderr : String
  deriving DecidableEq, Repr

def versionText : String := "toyc 0.1.0"

def usageText : String :=
  "Lower checked units to block-structured IR\n\n" ++
  "Usage: toyc [OPTIONS] <UNIT.json>...\n\n" ++
  "Options:\n" ++
  "      --word-bits <N>    Width of `int`, `uint` and `uintptr` in bits, 8 to 64 (default 64)\n" ++
  "      --no-verify        Skip the IR verifier\n" ++
  "      --emit <WHAT>      ir (default) or types\n" ++
  "      --format <FORMAT>  summary (default), rich or json\n" ++
  "      --explain <CODE>   Describe an error code and exit\n" ++
  "  -v, --verbose          Raise log verbosity\n" ++
  "  -q, --quiet            Only log errors\n" ++
  "  -h, --help             Print help\n" ++
  "  -V, --version          Print version\n"

def reportsText (reports : List Report) : String :=
  "[" ++ String.intercalate ",\n" (reports.map Report.text) ++ "]\n"

def describeCode (color : Bool) (text : String) : Outcome :=
  match ErrorCode.ofText? text with
  | some c =>
    let category := Style.dimmed.apply color ("(" ++ c.category.text ++ ")")
    ⟨0, Style.boldYellow.apply color c.text ++ ": " ++ c.title ++ " " ++ category ++ "\n", ""⟩
  | none =>
    ⟨1, "", Style.boldRed.apply color "error" ++ ": unknown error code `" ++ text ++ "`\n"⟩

def failureText (color : Bool) (f : Failure) : ErrorFormat → String
  | .summary => Style.boldRed.apply color "fatal" ++ ": " ++ f.message ++ "\n"
  | .rich => Terminal.text ⟨color, f.file⟩ f.diagnostic
  | .json => reportsText [f.report]

/-- What is written about the errors in the units, where `summary` is their summary. The reports are
one for each path that was given. -/
def errorsText (color : Bool) (c : Compilation) (paths : List String) (summary : String) :
    ErrorFormat → String
  | .summary => summary ++ "\n"
  | .rich => String.join (c.terminalTexts color) ++ summary ++ "\n"
  | .json => reportsText (paths.map c.report)

/-- What is written of a module, without blanks at the end. Every type of a lowered module is in its
store, so there is always a text. -/
def moduleText (emit : Emit) (m : Ir.Module) : String :=
  let text? :=
    match emit with
    | .ir => m.text?
    | .types => m.typesText?
  Text.trimEnd (text?.getD "") ++ "\n"

def modulesText (emit : Emit) (ms : List Ir.Module) : String :=
  String.intercalate "\n" (ms.map (moduleText emit))

/-- Compile units; `read` yields the contents of files. -/
def compileUnits (color : Bool) (read : String → Except ReadError String) (o : Options) : Outcome :=
  match Compilation.empty.addFiles ⟨o.wordBits, o.verify⟩ read o.units with
  | .error f => ⟨2, "", failureText color f o.format⟩
  | .ok c =>
    match c.summary? with
    | some summary => ⟨1, "", errorsText color c o.units summary o.format⟩
    | none => ⟨0, modulesText o.emit c.modules, ""⟩

/-- Do what the options ask for. A code to be described goes before units. -/
def Options.run (color : Bool) (read : String → Except ReadError String) (o : Options) : Outcome :=
  match o.explain with
  | some code => describeCode color code
  | none => compileUnits color read o

def Halt.outcome : Halt → Outcome
  | .help => ⟨0, usageText, ""⟩
  | .version => ⟨0, versionText ++ "\n", ""⟩
  | .misuse e => ⟨2, "", "error: " ++ e.message ++ "\n\nFor more information, try '--help'.\n"⟩

def run (color : Bool) (read : String → Except ReadError String) (args : List String) : Outcome :=
  match Options.ofArgs args with
  | .ok o => o.run color read
  | .error h => h.outcome

end Command
end Midend
