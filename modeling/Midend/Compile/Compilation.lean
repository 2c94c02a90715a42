import Midend.Compile.Failure
import Midend.Diagnostic.Report
import Midend.Diagnostic.Terminal
import Midend.Lower.Unit
import Midend.Tree.Decode

/-!
# Midend.Compile.Compilation

What the units of one compilation have come to: their modules and the errors reported, each with the
file of its unit. The errors of a unit that has no module count as well.
-/

namespace Midend

structure UnitError where
  file : String
  error : LowerError
  deriving DecidableEq, Repr

structure Compilation where
  modules : List Ir.Module
  errors : List UnitError

namespace Compilation

def empty : Compilation := ⟨[], []⟩

/-- Lower a unit and add its module and its errors. A failure leaves the module out. -/
def add (c : Compilation) (config : Config) (file : String) (u : SourceUnit) :
    Option Failure × Compilation :=
  let (r, errors) := u.lower config
  let errors := c.errors ++ errors.map fun e => ⟨file, e⟩
  match r with
  | .ok m => (none, ⟨c.modules ++ [m], errors⟩)
  | .error why => (some (.stopped file why), ⟨c.modules, errors⟩)

def load (read : String → Except ReadError String) (file : String) :
    Except Failure SourceUnit :=
  match read file with
  | .error why => .error (.unreadable file why)
  | .ok text =>
    match SourceUnit.parse text with
    | .error why => .error (.undecodable file why)
    | .ok u => .ok u

/-- Read and add units in order, up to the first that fails. -/
def addFiles (config : Config) (read : String → Except ReadError String) (c : Compilation) :
    List String → Except Failure Compilation
  | [] => .ok c
  | file :: rest =>
    match load read file with
    | .error f => .error f
    | .ok u =>
      match c.add config file u with
      | (some f, _) => .error f
      | (none, c') => c'.addFiles config read rest

def summary? (c : Compilation) : Option String :=
  match c.errors with
  | [] => none
  | [e] => some ("error during compilation: " ++ e.error.message)
  | es =>
    some (toString es.length ++ " errors during compilation:" ++
      String.join (es.map fun e => "\n\t" ++ e.error.message))

def terminalTexts (c : Compilation) (color : Bool) : List String :=
  c.errors.map fun e => Terminal.text ⟨color, e.file⟩ e.error.diagnostic

/-- The report on a file: all errors of the units read from it. -/
def report (c : Compilation) (file : String) : Report :=
  ⟨file, "lower", (c.errors.filter fun e => e.file == file).map fun e => e.error.diagnostic⟩

end Compilation

def Failure.report (f : Failure) : Report := ⟨f.file, "lower", [f.diagnostic]⟩

end Midend
