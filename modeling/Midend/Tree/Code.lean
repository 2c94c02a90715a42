import Midend.Tree.Type

/-!
# Midend.Tree.Code

Expressions and statements. Every node begins with its `Mark`; a case clause has a span only.
-/

namespace Midend

inductive LiteralKind where
  | int
  | float
  | imaginary
  | char
  | string
  deriving DecidableEq, Repr

inductive BinaryOp where
  | add
  | sub
  | mul
  | div
  | rem
  | and
  | or
  | xor
  | andNot
  | shl
  | shr
  | logicalAnd
  | logicalOr
  | eq
  | ne
  | lt
  | le
  | gt
  | ge
  deriving DecidableEq, Repr

namespace BinaryOp

def isComparison : BinaryOp → Bool
  | .eq | .ne | .lt | .le | .gt | .ge => true
  | _ => false

def text : BinaryOp → String
  | .add => "+"
  | .sub => "-"
  | .mul => "*"
  | .div => "/"
  | .rem => "%"
  | .and => "&"
  | .or => "|"
  | .xor => "^"
  | .andNot => "&^"
  | .shl => "<<"
  | .shr => ">>"
  | .logicalAnd => "&&"
  | .logicalOr => "||"
  | .eq => "=="
  | .ne => "!="
  | .lt => "<"
  | .le => "<="
  | .gt => ">"
  | .ge => ">="

end BinaryOp

inductive UnaryOp where
  | plus
  | neg
  | not
  | bitNot
  | addr
  | recv
  deriving DecidableEq, Repr

namespace UnaryOp

def text : UnaryOp → String
  | .plus => "+"
  | .neg => "-"
  | .not => "!"
  | .bitNot => "^"
  | .addr => "&"
  | .recv => "<-"

end UnaryOp

inductive Expr where
  | lit (mark : Mark) (kind : LiteralKind) (text : String)
  | ident (mark : Mark) (name : String)
  | paren (mark : Mark) (inner : Expr)
  | unary (mark : Mark) (op : UnaryOp) (operand : Expr)
  | binary (mark : Mark) (op : BinaryOp) (left right : Expr)
  | call (mark : Mark) (callee : Expr) (args : List Expr)
  | selector (mark : Mark) (object : Expr) (field : String)
  | index (mark : Mark) (object place : Expr)
  | deref (mark : Mark) (pointer : Expr)
  | composite (mark : Mark) (type : Option TypeExpr) (elems : List Expr)
  | funcLit (mark : Mark)

namespace Expr

def mark : Expr → Mark
  | .lit m _ _ | .ident m _ | .paren m _ | .unary m _ _ | .binary m _ _ _ | .call m _ _
  | .selector m _ _ | .index m _ _ | .deref m _ | .composite m _ _ | .funcLit m => m

def id (e : Expr) : NodeId := e.mark.id

def span (e : Expr) : Span := e.mark.span

def describe : Expr → String
  | .lit .. => "literal"
  | .ident .. => "identifier"
  | .paren .. => "parenthesized expression"
  | .unary _ .addr _ => "address-of expression"
  | .unary _ .recv _ => "channel receive"
  | .unary .. => "unary expression"
  | .binary .. => "binary expression"
  | .call .. => "call expression"
  | .selector .. => "selector expression"
  | .index .. => "index expression"
  | .deref .. => "dereference"
  | .composite .. => "composite literal"
  | .funcLit .. => "function literal"

def unparen : Expr → Expr
  | .paren _ inner => inner.unparen
  | e => e

end Expr

mutual

inductive Stmt where
  | block (mark : Mark) (body : List Stmt)
  | empty (mark : Mark)
  | expr (mark : Mark) (e : Expr)
  | ifElse (mark : Mark) (init : Option Stmt) (cond : Expr) (thenBranch : Stmt)
      (elseBranch : Option Stmt)
  | loop (mark : Mark) (init : Option Stmt) (cond : Option Expr) (post : Option Stmt)
      (body : Stmt)
  | switch (mark : Mark) (init : Option Stmt) (tag : Option Expr) (clauses : List Clause)
  | ret (mark : Mark) (results : List Expr)
  | assign (mark : Mark) (lhs rhs : List Expr) (define : Bool)
  | incDec (mark : Mark) (target : Expr) (inc : Bool)
  /-- `break`, `continue`, `goto` or `fallthrough`. -/
  | jump (mark : Mark) (keyword : String) (label : Option String)
  | varDecl (mark : Mark) (names : List String) (values : List Expr)
  | labeled (mark : Mark) (label : String) (body : Stmt)
  | defer (mark : Mark) (call : Expr)
  | go (mark : Mark) (call : Expr)
  | range (mark : Mark) (value : Expr) (body : Stmt)

/-- A clause of a switch. It is the default clause if it has no values. -/
inductive Clause where
  | mk (values : List Expr) (body : List Stmt) (span : Span)

end

namespace Clause

def values : Clause → List Expr
  | .mk values _ _ => values

def body : Clause → List Stmt
  | .mk _ body _ => body

def span : Clause → Span
  | .mk _ _ span => span

def isDefault (c : Clause) : Bool := c.values.isEmpty

end Clause

namespace Stmt

def mark : Stmt → Mark
  | .block m _ | .empty m | .expr m _ | .ifElse m _ _ _ _ | .loop m _ _ _ _ | .switch m _ _ _
  | .ret m _ | .assign m _ _ _ | .incDec m _ _ | .jump m _ _ | .varDecl m _ _ | .labeled m _ _
  | .defer m _ | .go m _ | .range m _ _ => m

def span (s : Stmt) : Span := s.mark.span

def describe : Stmt → String
  | .block .. => "block statement"
  | .empty .. => "empty statement"
  | .expr .. => "expression statement"
  | .ifElse .. => "if statement"
  | .loop .. => "for statement"
  | .switch .. => "switch statement"
  | .ret .. => "return statement"
  | .assign .. => "assignment"
  | .incDec .. => "increment statement"
  | .jump .. => "branch statement"
  | .varDecl .. => "local declaration"
  | .labeled .. => "labeled statement"
  | .defer .. => "defer statement"
  | .go .. => "go statement"
  | .range .. => "range loop"

end Stmt

end Midend
