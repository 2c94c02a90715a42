import Midend.Diagnostic.Cause
import Midend.Json.Decode

/-!
# Midend.Compile.Failure

What ends the compilation of a list of units before its end.
-/

namespace Midend

inductive ReadError where
  /-- The operating system refuses, with its words and the number of its error. -/
  | refused (words : String) (number : Nat)
  | notText
  deriving DecidableEq, Repr

namespace ReadError

def message : ReadError → String
  | .refused words number => words ++ " (os error " ++ toString number ++ ")"
  | .notText => "stream did not contain valid UTF-8"

def missing : ReadError := .refused "No such file or directory" 2

def notDirectory : ReadError := .refused "Not a directory" 20

def isDirectory : ReadError := .refused "Is a directory" 21

def nameTooLong : ReadError := .refused "File name too long" 36

end ReadError

def Fault.message : Fault → String
  | .report e => e.message
  | .abort u => u.message
  | .breach b => b.message

/-- A unit, given by the name of its file, that has no module. -/
inductive Failure where
  | unreadable (file : String) (why : ReadError)
  | undecodable (file : String) (why : DecodeError)
  | stopped (file : String) (why : Fault)
  deriving DecidableEq, Repr

namespace Failure

def file : Failure → String
  | .unreadable file _ => file
  | .undecodable file _ => file
  | .stopped file _ => file

def message : Failure → String
  | .unreadable file why => "cannot read " ++ file ++ ": " ++ why.message
  | .undecodable file why => "cannot decode " ++ file ++ ": " ++ why.message
  | .stopped file why => file ++ ": " ++ why.message

/-- Only a construct without a lowering rule has a place in the unit. -/
def diagnostic (f : Failure) : Diagnostic :=
  match f with
  | .stopped _ (.abort u) => u.diagnostic
  | .stopped _ (.report e) => e.diagnostic
  | _ => ⟨none, f.message, [], [], none⟩

end Failure

end Midend
