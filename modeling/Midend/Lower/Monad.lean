import Midend.Lower.Error

/-!
# Midend.Lower.Monad

The steps of lowering. A step that fails keeps what it did to the state up to then: types that were
added stay, and so do blocks and errors. There are three kinds of steps, by what they may change:
the types only (`Typing`), the types and the errors of a unit (`Pass`), or also the function that is
being built (`Lower`).
-/

namespace Midend

open Ir

/-- A step that may add and look up types. -/
abbrev Typing (α : Type) := ExceptT Fault (StateM TypeStore) α

namespace Typing

def ofStore {α : Type} (f : TypeStore → α × TypeStore) : Typing α :=
  ExceptT.mk fun s =>
    let (a, s') := f s
    (.ok a, s')

def ask {α : Type} (f : TypeStore → Except Breach α) : Typing α :=
  ExceptT.mk fun s =>
    match f s with
    | .ok a => (.ok a, s)
    | .error b => (.error (.breach b), s)

def body (id : TypeId) : Typing Ty := ask fun s => s.body id

def ref (id : TypeId) : Typing String := ask fun s => s.ref id

/-- Nothing in place of a failure, unless a contract was broken. -/
def attempt {α : Type} (m : Typing α) : Typing (Option α) :=
  ExceptT.mk fun s =>
    match m.run s with
    | (.ok a, s') => (.ok (some a), s')
    | (.error (.breach b), s') => (.error (.breach b), s')
    | (.error _, s') => (.ok none, s')

end Typing

/-- What the declarations of a unit have come to so far. -/
structure Session where
  types : TypeStore
  errors : List LowerError

abbrev Pass (α : Type) := ExceptT Fault (StateM Session) α

namespace Pass

def report (e : LowerError) : Pass Unit := modify fun s => { s with errors := s.errors ++ [e] }

/-- Run a step on the types; report its error and yield nothing if it has one to report. -/
def recover {α : Type} (m : Typing α) : Pass (Option α) :=
  ExceptT.mk fun s =>
    match m.run s.types with
    | (.ok a, types) => (.ok (some a), { s with types := types })
    | (.error (.report e), types) =>
      (.ok none, { s with types := types, errors := s.errors ++ [e] })
    | (.error f, types) => (.error f, { s with types := types })

end Pass

/-- A function in the making, with the types and the errors of its unit. -/
structure FnState where
  types : TypeStore
  errors : List LowerError
  builder : Builder

abbrev Lower (α : Type) := ExceptT Fault (StateM FnState) α

namespace Lower

def report (e : LowerError) : Lower Unit := modify fun s => { s with errors := s.errors ++ [e] }

def typing {α : Type} (m : Typing α) : Lower α :=
  ExceptT.mk fun s =>
    let (r, types) := m.run s.types
    (r, { s with types := types })

def build {α : Type} (m : Build α) : Lower α :=
  ExceptT.mk fun s =>
    match m.run s.builder with
    | .ok (a, builder) => (.ok a, { s with builder := builder })
    | .error b => (.error (.breach b), s)

def recover {α : Type} (m : Lower α) : Lower (Option α) :=
  ExceptT.mk fun s =>
    match m.run s with
    | (.ok a, s') => (.ok (some a), s')
    | (.error (.report e), s') => (.ok none, { s' with errors := s'.errors ++ [e] })
    | (.error f, s') => (.error f, s')

/-- The outcome of a step, to be dealt with later. -/
def outcome {α : Type} (m : Lower α) : Lower (Except Fault α) :=
  ExceptT.mk fun s =>
    let (r, s') := m.run s
    (.ok r, s')

def ofOutcome {α : Type} (r : Except Fault α) : Lower α := ExceptT.mk fun s => (r, s)

end Lower

end Midend
