import Midend.Text.Digit

/-!
# Midend.Command.Options

The arguments of the command. Options may stand before and after the files; `--` ends them, and what
follows are files. An option that takes a value has it after an equals sign or as the next argument,
which must not look like an option itself. No option but `-v` may be repeated.

Arguments are read from left to right. A request for the version or for help ends the reading, so
what follows it is not looked at.
-/

namespace Midend
namespace Command

/-- What is written of each module. -/
inductive Emit where
  | ir
  | types
  deriving DecidableEq, Repr

inductive ErrorFormat where
  | summary
  | rich
  | json
  deriving DecidableEq, Repr

def Emit.ofName? : String → Option Emit
  | "ir" => some .ir
  | "types" => some .types
  | _ => none

def ErrorFormat.ofName? : String → Option ErrorFormat
  | "summary" => some .summary
  | "rich" => some .rich
  | "json" => some .json
  | _ => none

/-- What the arguments ask for. -/
structure Options where
  units : List String
  wordBits : Nat
  verify : Bool
  emit : Emit
  format : ErrorFormat
  explain : Option String
  deriving DecidableEq, Repr

inductive UsageError where
  | unknownOption (name : String)
  | repeatedOption (name : String)
  | missingValue (name : String)
  | unexpectedValue (name : String)
  | invalidValue (name value : String)
  /-- Quiet and verbose at once. -/
  | conflict
  | missingUnits
  deriving DecidableEq, Repr

def UsageError.message : UsageError → String
  | .unknownOption name => "unexpected argument '" ++ name ++ "'"
  | .repeatedOption name => "the argument '" ++ name ++ "' cannot be used multiple times"
  | .missingValue name => "a value is required for '" ++ name ++ "'"
  | .unexpectedValue name => "no value is allowed for '" ++ name ++ "'"
  | .invalidValue name value => "invalid value '" ++ value ++ "' for '" ++ name ++ "'"
  | .conflict => "the argument '--quiet' cannot be used with '--verbose'"
  | .missingUnits => "no units are given"

/-- Why reading the arguments yields no options. -/
inductive Halt where
  | help
  | version
  | misuse (e : UsageError)
  deriving DecidableEq, Repr

inductive Flag where
  | noVerify
  | verbose
  | quiet
  | help
  | version
  deriving DecidableEq, Repr

namespace Flag

def ofLong? : String → Option Flag
  | "--no-verify" => some .noVerify
  | "--verbose" => some .verbose
  | "--quiet" => some .quiet
  | "--help" => some .help
  | "--version" => some .version
  | _ => none

def ofShort? : Char → Option Flag
  | 'v' => some .verbose
  | 'q' => some .quiet
  | 'h' => some .help
  | 'V' => some .version
  | _ => none

end Flag

inductive Setting where
  | wordBits
  | emit
  | format
  | explain
  deriving DecidableEq, Repr

namespace Setting

def name : Setting → String
  | .wordBits => "--word-bits"
  | .emit => "--emit"
  | .format => "--format"
  | .explain => "--explain"

def all : List Setting := [.wordBits, .emit, .format, .explain]

def ofName? (name : String) : Option Setting := all.find? fun s => s.name == name

end Setting

/-- The options read so far. -/
structure Given where
  units : List String
  wordBits : Option Nat
  emit : Option Emit
  format : Option ErrorFormat
  explain : Option String
  noVerify : Bool
  verbose : Bool
  quiet : Bool
  deriving DecidableEq, Repr

abbrev Reading (α : Type) := Except Halt α

/-- A decimal number, after a plus sign or not. -/
def decimal? (text : String) : Option Nat :=
  match text.toList with
  | [] => none
  | ['+'] => none
  | '+' :: digits => Text.digits? 10 digits
  | digits => Text.digits? 10 digits

def wordBits? (text : String) : Option Nat :=
  match decimal? text with
  | some n => if 8 ≤ n ∧ n ≤ 64 then some n else none
  | none => none

/-- The value of an option that is given for the first time. -/
def once {α : Type} (s : Setting) (before : Option α) (text : String) (value : Option α) :
    Reading (Option α) :=
  match before, value with
  | some _, _ => .error (.misuse (.repeatedOption s.name))
  | none, some a => .ok (some a)
  | none, none => .error (.misuse (.invalidValue s.name text))

namespace Given

def empty : Given := ⟨[], none, none, none, none, false, false, false⟩

def addUnit (g : Given) (path : String) : Reading Given :=
  if path = "" then .error (.misuse (.invalidValue "UNIT.json" path))
  else .ok { g with units := g.units ++ [path] }

def setFlag (g : Given) : Flag → Reading Given
  | .noVerify =>
    if g.noVerify then .error (.misuse (.repeatedOption "--no-verify"))
    else .ok { g with noVerify := true }
  | .quiet =>
    if g.quiet then .error (.misuse (.repeatedOption "--quiet"))
    else .ok { g with quiet := true }
  | .verbose => .ok { g with verbose := true }
  | .help => .error .help
  | .version => .error .version

/-- Flags of one letter each, behind one dash. -/
def setFlags (g : Given) : List Char → Reading Given
  | [] => .ok g
  | c :: rest =>
    match Flag.ofShort? c with
    | none => .error (.misuse (.unknownOption (String.ofList ['-', c])))
    | some flag =>
      match g.setFlag flag with
      | .error h => .error h
      | .ok g' => g'.setFlags rest

def setValue (g : Given) (s : Setting) (text : String) : Reading Given :=
  match s with
  | .wordBits => do
    return { g with wordBits := ← once s g.wordBits text (wordBits? text) }
  | .emit => do
    return { g with emit := ← once s g.emit text (Emit.ofName? text) }
  | .format => do
    return { g with format := ← once s g.format text (ErrorFormat.ofName? text) }
  | .explain => do
    return { g with explain := ← once s g.explain text (some text) }

/-- The options, once all arguments have been read. A description of a code needs no units. -/
def finish (g : Given) : Reading Options :=
  if g.quiet && g.verbose then .error (.misuse .conflict)
  else if g.units.isEmpty && g.explain.isNone then .error (.misuse .missingUnits)
  else .ok ⟨g.units, g.wordBits.getD 64, !g.noVerify, g.emit.getD .ir, g.format.getD .summary,
    g.explain⟩

end Given

inductive Argument where
  | terminator
  | long (name : String) (value : Option String)
  | short (letters : List Char)
  | plain (text : String)
  deriving DecidableEq, Repr

/-- The form of an argument. A dash alone is plain. -/
def Argument.ofString (arg : String) : Argument :=
  match arg.toList with
  | ['-', '-'] => .terminator
  | '-' :: '-' :: rest =>
    let name := String.ofList ('-' :: '-' :: rest.takeWhile (· != '='))
    match rest.dropWhile (· != '=') with
    | _ :: value => .long name (some (String.ofList value))
    | [] => .long name none
  | '-' :: c :: rest => .short (c :: rest)
  | _ => .plain arg

namespace Given

def readPaths (g : Given) : List String → Reading Options
  | [] => g.finish
  | path :: rest =>
    match g.addUnit path with
    | .error h => .error h
    | .ok g' => g'.readPaths rest

def read (g : Given) : List String → Reading Options
  | [] => g.finish
  | arg :: rest =>
    match Argument.ofString arg with
    | .terminator => g.readPaths rest
    | .plain path =>
      match g.addUnit path with
      | .error h => .error h
      | .ok g' => g'.read rest
    | .short letters =>
      match g.setFlags letters with
      | .error h => .error h
      | .ok g' => g'.read rest
    | .long name value? =>
      match Flag.ofLong? name, Setting.ofName? name, value? with
      | some flag, _, none =>
        match g.setFlag flag with
        | .error h => .error h
        | .ok g' => g'.read rest
      | some _, _, some _ => .error (.misuse (.unexpectedValue name))
      | none, some s, some value =>
        match g.setValue s value with
        | .error h => .error h
        | .ok g' => g'.read rest
      | none, some s, none =>
        match rest with
        | [] => .error (.misuse (.missingValue name))
        | next :: rest' =>
          match Argument.ofString next with
          | .plain value =>
            match g.setValue s value with
            | .error h => .error h
            | .ok g' => g'.read rest'
          | _ => .error (.misuse (.missingValue name))
      | none, none, _ => .error (.misuse (.unknownOption name))

end Given

def Options.ofArgs (args : List String) : Reading Options := Given.empty.read args

end Command
end Midend
