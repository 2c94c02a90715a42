import Midend.Lower.Unit
import Midend.Proofs.Machine
import Midend.Proofs.Steps

/-!
# Midend.Proofs.Source

What source code means, without regard to how it is lowered. Expressions are evaluated from left to
right, and a call is made when its arguments are known. Operators are given by the machine's
operations on values: `-x` is `0 - x` on integers, for instance, and `x &^ y` is `x & (y ^ -1)`.

Nothing happens after a return. A loop may go on for ever, so statements are run with fuel, of which
each round of a loop takes one unit; a run without enough of it comes to `timeout`.
-/

namespace Midend

open Ir

/-- A value with the body of its type. -/
structure Datum (V : Type) where
  value : V
  type : Ty

/-- The values of the parameters that have a name, the latest first. -/
abbrev Names (V : Type) := List (String × Datum V)

/-- Evaluation, which knows the calls made so far. Code without a meaning has no result. -/
abbrev Eval (V α : Type) := StateT (List (Call V)) Option α

/-- How a statement ends. -/
inductive Outcome (V : Type) where
  | normal
  | returned (value : Option V)
  | timeout

/-- What a function body means something in: a unit, its types, and an interpretation. -/
structure World (V : Type) extends Context where
  types : TypeStore
  interp : Interp V

variable {V : Type}

namespace World

variable (w : World V)

def constant (c : Const) (type : Ty) : Datum V := ⟨w.interp.const c type, type⟩

def typeOf (m : Mark) : Option Ty := do
  let t ← w.table.get? m.id
  match (runOn (Typing.ofChecked w.config.wordBits m.span t) w.types).1 with
  | .ok id => w.types.body? id
  | .error _ => none

def unsigned (m : Mark) : Bool := (w.table.get? m.id).any (isUnsigned w.declared)

def unary (op : UnaryOp) (x : Datum V) : Option (Datum V) :=
  match op, x.type with
  | .plus, _ => some x
  | .neg, .int _ =>
    some ⟨w.interp.binary .sub x.type (w.interp.const (.int 0) x.type) x.value, x.type⟩
  | .neg, .float _ => some ⟨w.interp.fneg x.type x.value, x.type⟩
  | .not, .int 1 =>
    some ⟨w.interp.binary .xor x.type x.value (w.interp.const (.bool true) x.type), x.type⟩
  | .bitNot, .int _ =>
    some ⟨w.interp.binary .xor x.type x.value (w.interp.const (.int (-1)) x.type), x.type⟩
  | _, _ => none

def intComparison (pred : IntPredicate) (x y : Datum V) : Datum V :=
  ⟨w.interp.icmp pred x.type x.value y.value, .int 1⟩

def floatComparison (pred : FloatPredicate) (x y : Datum V) : Datum V :=
  ⟨w.interp.fcmp pred x.type x.value y.value, .int 1⟩

def comparison (op : BinaryOp) (isUnsigned : Bool) (x y : Datum V) : Option (Datum V) :=
  match x.type, op with
  | .int _, .eq => some (w.intComparison .eq x y)
  | .int _, .ne => some (w.intComparison .ne x y)
  | .int _, .lt => some (w.intComparison (if isUnsigned then .ult else .slt) x y)
  | .int _, .le => some (w.intComparison (if isUnsigned then .ule else .sle) x y)
  | .int _, .gt => some (w.intComparison (if isUnsigned then .ugt else .sgt) x y)
  | .int _, .ge => some (w.intComparison (if isUnsigned then .uge else .sge) x y)
  | .float _, .eq => some (w.floatComparison .oeq x y)
  | .float _, .ne => some (w.floatComparison .one x y)
  | .float _, .lt => some (w.floatComparison .olt x y)
  | .float _, .le => some (w.floatComparison .ole x y)
  | .float _, .gt => some (w.floatComparison .ogt x y)
  | .float _, .ge => some (w.floatComparison .oge x y)
  | _, _ => none

/-- The count of a shift at the width of what is shifted. -/
def shiftCount (bits : Nat) (count : Datum V) : Option V :=
  match count.type with
  | .int countBits =>
    if countBits = bits then some count.value
    else
      let op : CastOp := if countBits < bits then .zext else .trunc
      some (w.interp.cast op count.type (.int bits) count.value)
  | _ => none

def shift (op : BinaryOp) (isUnsigned : Bool) (x y : Datum V) : Option (Datum V) :=
  match x.type with
  | .int bits => do
    let count ← w.shiftCount bits y
    match op with
    | .shl => some ⟨w.interp.binary .shl x.type x.value count, x.type⟩
    | .shr =>
      some ⟨w.interp.binary (if isUnsigned then .lshr else .ashr) x.type x.value count, x.type⟩
    | _ => none
  | _ => none

def operation (op : Opcode) (x y : Datum V) : Datum V :=
  ⟨w.interp.binary op x.type x.value y.value, x.type⟩

def arithmetic (op : BinaryOp) (isUnsigned : Bool) (x y : Datum V) : Option (Datum V) :=
  match x.type, op with
  | .int _, .add => some (w.operation .add x y)
  | .int _, .sub => some (w.operation .sub x y)
  | .int _, .mul => some (w.operation .mul x y)
  | .int _, .div => some (w.operation (if isUnsigned then .udiv else .sdiv) x y)
  | .int _, .rem => some (w.operation (if isUnsigned then .urem else .srem) x y)
  | .int _, .and => some (w.operation .and x y)
  | .int _, .or => some (w.operation .or x y)
  | .int _, .xor => some (w.operation .xor x y)
  | .int _, .andNot =>
    let inverted := w.operation .xor ⟨y.value, x.type⟩ (w.constant (.int (-1)) x.type)
    some (w.operation .and x inverted)
  | .float _, .add => some (w.operation .fadd x y)
  | .float _, .sub => some (w.operation .fsub x y)
  | .float _, .mul => some (w.operation .fmul x y)
  | .float _, .div => some (w.operation .fdiv x y)
  | .float _, .rem => some (w.operation .frem x y)
  | _, _ => none

def binary (op : BinaryOp) (isUnsigned : Bool) (x y : Datum V) : Option (Datum V) :=
  match op with
  | .eq | .ne | .lt | .le | .gt | .ge => w.comparison op isUnsigned x y
  | .shl | .shr => w.shift op isUnsigned x y
  | _ => w.arithmetic op isUnsigned x y

theorem binary_of_comparison {op : BinaryOp} (h : op.isComparison = true) (u : Bool)
    (x y : Datum V) : w.binary op u x y = w.comparison op u x y := by
  cases op <;> first | rfl | cases h

theorem binary_of_shift {op : BinaryOp} (h : op = .shl ∨ op = .shr) (u : Bool) (x y : Datum V) :
    w.binary op u x y = w.shift op u x y := by
  rcases h with rfl | rfl <;> rfl

theorem binary_of_arithmetic {op : BinaryOp} (hc : ¬ op.isComparison = true)
    (hs : ¬ (op = .shl ∨ op = .shr)) (u : Bool) (x y : Datum V) :
    w.binary op u x y = w.arithmetic op u x y := by
  cases op <;> first | rfl | exact absurd rfl hc | exact absurd (.inl rfl) hs |
    exact absurd (.inr rfl) hs

def call (name : String) (args : List (Datum V)) : Eval V (Datum V) := do
  let sig ← w.functions.lookup name
  let ret ← w.types.body? sig.ret
  modify fun calls => calls ++ [⟨name, args.map Datum.value⟩]
  if ret.isVoid then return w.constant .void ret
  else return ⟨w.interp.answer (← get), ret⟩

end World

/-- The function that is called, if the callee is a name that is no parameter. -/
def calledName? (names : Names V) (callee : Expr) : Option String :=
  match callee.unparen with
  | .ident _ name => if (names.lookup name).isSome then none else some name
  | _ => none

namespace Expr

mutual

def eval (w : World V) (names : Names V) : Expr → Eval V (Datum V)
  | .lit m kind text => do
    let type ← w.typeOf m
    let c ← literalConst? type kind text
    return w.constant c type
  | .ident m name =>
    match names.lookup name with
    | some x => return x
    | none => do
      let c : Const ←
        match name with
        | "true" => some (.bool true)
        | "false" => some (.bool false)
        | "nil" => some .null
        | _ => none
      return w.constant c (← w.typeOf m)
  | .paren _ inner => eval w names inner
  | .unary _ op operand => do
    let x ← eval w names operand
    w.unary op x
  | .binary _ op left right => do
    let x ← eval w names left
    match op with
    | .logicalAnd =>
      if w.interp.holds x.value then return ⟨(← eval w names right).value, .int 1⟩
      else return w.constant (.bool false) (.int 1)
    | .logicalOr =>
      if w.interp.holds x.value then return w.constant (.bool true) (.int 1)
      else return ⟨(← eval w names right).value, .int 1⟩
    | _ => do
      let y ← eval w names right
      w.binary op (w.unsigned left.mark) x y
  | .call _ callee args => do
    let name ← calledName? names callee
    let xs ← evalAll w names args
    w.call name xs
  | .selector _ _ _ | .index _ _ _ | .deref _ _ | .composite _ _ _ | .funcLit _ => failure

/-- The values of expressions, from left to right. -/
def evalAll (w : World V) (names : Names V) : List Expr → Eval V (List (Datum V))
  | [] => return []
  | e :: rest => do
    let x ← eval w names e
    let xs ← evalAll w names rest
    return x :: xs

end

end Expr

/-! ## Statements and functions -/

def andThen (first second : Eval V (Outcome V)) : Eval V (Outcome V) := do
  match ← first with
  | .normal => second
  | o => return o

/-- The rounds of a loop, at most as many as there is fuel. -/
def rounds (cond : Eval V Bool) (round : Eval V (Outcome V)) : Nat → Eval V (Outcome V)
  | 0 => return .timeout
  | fuel + 1 => do
    if ← cond then andThen round (rounds cond round fuel)
    else return .normal

/-- Whether a condition holds. A loop without a condition goes on. -/
def conditionHolds (w : World V) (names : Names V) : Option Expr → Eval V Bool
  | none => return true
  | some e => do
    let x ← e.eval w names
    return w.interp.holds x.value

/-- Whether one of the values of a clause equals the tag. The values after it are not evaluated. -/
def anyEqual (w : World V) (names : Names V) (tag : Datum V) : List Expr → Eval V Bool
  | [] => return false
  | e :: rest => do
    let x ← e.eval w names
    let c ← w.comparison .eq false tag x
    if w.interp.holds c.value then return true
    else anyEqual w names tag rest

/-- The disjunction of the values of a clause, which are all evaluated. -/
def disjunctionOf (w : World V) (names : Names V) (before : Option (Datum V)) :
    List Expr → Eval V (Option (Datum V))
  | [] => return before
  | e :: rest => do
    let x ← e.eval w names
    match before with
    | none => disjunctionOf w names (some x) rest
    | some y =>
      let both : Datum V := ⟨w.interp.binary .or (.int 1) y.value x.value, .int 1⟩
      disjunctionOf w names (some both) rest

def isTaken (w : World V) (names : Names V) (tag : Option (Datum V)) (values : List Expr) :
    Eval V Bool :=
  match tag with
  | some x => anyEqual w names x values
  | none => do
    let x ← disjunctionOf w names none values
    return x.any fun x => w.interp.holds x.value

/-- What is returned: nothing if the function returns nothing, and a struct if there are several
results. -/
def returnedValue (w : World V) (ret : Ty) (results : List (Datum V)) : Option V :=
  match results with
  | [] => none
  | [x] => if ret.isVoid then none else some x.value
  | xs => some (w.interp.aggregate (xs.map Datum.value))

namespace Stmt

section

variable (w : World V) (names : Names V) (ret : Ty) (fuel : Nat)

mutual

def exec : Stmt → Eval V (Outcome V)
  | .block _ body => execAll body
  | .empty _ => return .normal
  | .expr _ e => do
    let _ ← e.eval w names
    return .normal
  | .ifElse _ init cond thenBranch elseBranch =>
    andThen (execOption init) do
      let x ← cond.eval w names
      if w.interp.holds x.value then exec thenBranch else execOption elseBranch
  | .loop _ init cond post body =>
    andThen (execOption init)
      (rounds (conditionHolds w names cond) (andThen (exec body) (execOption post)) fuel)
  | .switch _ init none clauses => andThen (execOption init) (execClauses none clauses)
  | .switch _ init (some tag) clauses =>
    andThen (execOption init) do
      let x ← tag.eval w names
      execClauses (some x) clauses
  | .ret _ results => do
    let xs ← Expr.evalAll w names results
    return .returned (returnedValue w ret xs)
  | .assign _ _ _ _ | .incDec _ _ _ | .jump _ _ _ | .varDecl _ _ _ | .labeled _ _ _ | .defer _ _
  | .go _ _ | .range _ _ _ => failure

def execAll : List Stmt → Eval V (Outcome V)
  | [] => return .normal
  | s :: rest => andThen (exec s) (execAll rest)

def execOption : Option Stmt → Eval V (Outcome V)
  | none => return .normal
  | some s => exec s

/-- The clauses in order, until one is taken. A default clause is taken where it stands. -/
def execClauses (tag : Option (Datum V)) : List Clause → Eval V (Outcome V)
  | [] => return .normal
  | .mk values body _ :: rest => do
    if values.isEmpty then execAll body
    else if ← isTaken w names tag values then execAll body
    else execClauses tag rest

end

end

end Stmt

/-- The parameters that have a name, with their values. A later one hides an earlier one. -/
def boundNames (params : List (Option String)) (args : List (Datum V)) : Names V :=
  ((params.zip args).filterMap fun
    | (some name, x) => if name = "_" then none else some (name, x)
    | (none, _) => none).reverse

namespace FuncDecl

def run (w : World V) (decl : FuncDecl) (body : Stmt) (args : List V) (calls : List (Call V))
    (fuel : Nat) : Option (Outcome V × List (Call V)) := do
  let sig ← w.functions.lookup decl.name
  let types ← sig.params.mapM w.types.body?
  let ret ← w.types.body? sig.ret
  let data := List.zipWith Datum.mk args types
  let names := boundNames ((Field.flatten decl.params).map Prod.fst) data
  (body.exec w names ret fuel).run calls

/-- The body comes to an end: it returns a value, or nothing. -/
def Returns (w : World V) (decl : FuncDecl) (body : Stmt) (args : List V) (calls : List (Call V))
    (value : Option V) (calls' : List (Call V)) : Prop :=
  ∃ fuel, decl.run w body args calls fuel = some (.returned value, calls') ∨
    decl.run w body args calls fuel = some (.normal, calls') ∧ value = none

end FuncDecl

end Midend
