import Midend.Command.Run

/-!
# Midend.Main

The command itself: it reads the files that the arguments name and writes what the command leaves
behind. `NO_COLOR` in the environment turns colours off, `FORCE_COLOR` turns them on; without either
they are on where the output goes to a terminal.
-/

namespace Midend
namespace Command

/-- The words and the number of an error of the operating system. -/
def systemError? : IO.Error → Option (String × UInt32)
  | .noFileOrDirectory _ number words => some (words, number)
  | .inappropriateType _ number words => some (words, number)
  | .noSuchThing _ number words => some (words, number)
  | .permissionDenied _ number words => some (words, number)
  | .invalidArgument _ number words => some (words, number)
  | .otherError number words => some (words, number)
  | _ => none

/-- An error of reading as the command reports it. Some calls give the number of the error negated,
and with words of their own. -/
def readError (e : IO.Error) : ReadError :=
  match systemError? e with
  | none => .notText
  | some (words, number) =>
    match min number.toNat (-number).toNat with
    | 2 => .missing
    | 20 => .notDirectory
    | 21 => .isDirectory
    | 36 => .nameTooLong
    | n => .refused words n

def readFile (path : String) : IO (Except ReadError String) := do
  try
    return .ok (← IO.FS.readFile path)
  catch e =>
    return .error (readError e)

def wantsColor : IO Bool := do
  if (← IO.getEnv "NO_COLOR").isSome then return false
  if (← IO.getEnv "FORCE_COLOR").isSome then return true
  (← IO.getStdout).isTty

def unitPaths (args : List String) : List String :=
  match Options.ofArgs args with
  | .ok o => if o.explain.isSome then [] else o.units
  | .error _ => []

end Command
end Midend

def main (args : List String) : IO UInt32 := do
  let color ← Midend.Command.wantsColor
  let files ← (Midend.Command.unitPaths args).mapM fun path => do
    return (path, ← Midend.Command.readFile path)
  let read := fun path => (files.lookup path).getD (.error .missing)
  let outcome := Midend.Command.run color read args
  (← IO.getStdout).putStr outcome.stdout
  (← IO.getStderr).putStr outcome.stderr
  return outcome.code.toUInt32
