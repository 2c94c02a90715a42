import Midend.Proofs.Shape
import Midend.Tree.Encode

/-!
# Midend.Proofs.Form

The shapes of a tree's parts: all the values that write one type, expression, statement, declaration
or unit. They are given by recursion on the tree, one line for each variant, and say nothing about
the order of fields or about fields that the tree does not have.
-/

namespace Midend

open Json (Shape Just HasField OptField DefaultField Record Tagged Named ArrayOf)

def NodeId.shape (id : NodeId) : Shape := Just (.int id.val.toNat)

def Span.shape (s : Span) : Shape :=
  Record ["start", "end"] 0 fun fs =>
    HasField fs "start" (Just (.int s.start.toNat)) ∧ HasField fs "end" (Just (.int s.stop.toNat))

/-- A node that carries a mark, with a kind of the given shape. -/
def Mark.shape (m : Mark) (kind : Shape) : Shape :=
  Record ["id", "kind", "span"] 0 fun fs =>
    HasField fs "id" m.id.shape ∧ HasField fs "kind" kind ∧ HasField fs "span" m.span.shape

def textShape (text : String) : Shape := Just (.str text)

def boolShape (b : Bool) : Shape := Just (.bool b)

def wordShape (n : UInt64) : Shape := Just (.int n.toNat)

def namesShape (names : List String) : Shape := ArrayOf (names.map textShape)

def partsShape (tag : String) (names : List String) (P : Fields → Prop) : Shape :=
  Tagged tag (Record names 0 P)

/-- Within a limit, a variant leaves its parts a limit that is smaller by two. -/
theorem partsShape_opened {tag : String} {names : List String} {P : Fields → Prop} {n : Nat}
    {j : Json} (h : partsShape tag names P j) (hn : j.depth ≤ n) :
    ∃ m escaped v fs, n = m + 1 + 1 ∧ j = .obj [(⟨tag, escaped⟩, v)] ∧
      Json.fieldsDepth fs ≤ m ∧ Json.record names 0 v = .ok fs ∧ P fs := by
  obtain ⟨_, escaped, v, rfl, rfl, hd, hv⟩ := Json.Tagged.opened h hn
  obtain ⟨m, fs, rfl, hd, hfs, hp⟩ := Json.Record.opened hv hd
  exact ⟨m, escaped, v, fs, rfl, rfl, hd, hfs, hp⟩

def Span.written (span : Span) (kind : Shape) : Shape :=
  Record ["kind", "span"] 0 fun fs => HasField fs "kind" kind ∧ HasField fs "span" span.shape

mutual

def TypeExpr.kindShape : TypeExpr → Shape
  | .ident _ name => Tagged "Ident" (textShape name)
  | .qualified _ package name =>
    partsShape "Qualified" ["package", "name"] fun fs =>
      HasField fs "package" (textShape package) ∧ HasField fs "name" (textShape name)
  | .pointer _ elem => Tagged "Pointer" (elem.span.written elem.kindShape)
  | .struct _ fields => Tagged "Struct" (ArrayOf (Field.shapes fields))
  | .array _ len elem =>
    partsShape "Array" ["len", "elem"] fun fs =>
      OptField fs "len" (len.map wordShape) ∧
        HasField fs "elem" (elem.span.written elem.kindShape)
  | .map _ key value =>
    partsShape "Map" ["key", "value"] fun fs =>
      HasField fs "key" (key.span.written key.kindShape) ∧
        HasField fs "value" (value.span.written value.kindShape)
  | .func _ params results =>
    partsShape "Func" ["params", "results"] fun fs =>
      HasField fs "params" (ArrayOf (Field.shapes params)) ∧
        HasField fs "results" (ArrayOf (Field.shapes results))
  | .interface _ => Named "Interface"

def Field.shape : Field → Shape
  | .mk names type span =>
    Record ["names", "ty", "span"] 1 fun fs =>
      DefaultField fs "names" (names = []) (namesShape names) ∧
        HasField fs "ty" (type.span.written type.kindShape) ∧
        DefaultField fs "span" (span = .empty) span.shape

def Field.shapes : List Field → List Shape
  | [] => []
  | f :: rest => f.shape :: Field.shapes rest

end

def TypeExpr.shape (t : TypeExpr) : Shape := t.span.written t.kindShape

mutual

def CheckedType.shape : CheckedType → Shape
  | .basic kind => Tagged "Basic" (Named kind.tag)
  | .named name => Tagged "Named" (textShape name)
  | .pointer elem => Tagged "Pointer" elem.shape
  | .struct fields => Tagged "Struct" (ArrayOf (CheckedType.shapes fields))
  | .slice elem => Tagged "Slice" elem.shape
  | .tuple elems => Tagged "Tuple" (ArrayOf (CheckedType.shapes elems))
  | .signature => Named "Signature"

def CheckedType.shapes : List CheckedType → List Shape
  | [] => []
  | t :: rest => t.shape :: CheckedType.shapes rest

end

mutual

def Expr.kindShape : Expr → Shape
  | .lit _ kind text =>
    partsShape "Lit" ["kind", "value"] fun fs =>
      HasField fs "kind" (Named kind.tag) ∧ HasField fs "value" (textShape text)
  | .ident _ name => Tagged "Ident" (textShape name)
  | .paren _ inner => Tagged "Paren" (inner.mark.shape inner.kindShape)
  | .unary _ op operand =>
    partsShape "Unary" ["op", "operand"] fun fs =>
      HasField fs "op" (Named op.tag) ∧
        HasField fs "operand" (operand.mark.shape operand.kindShape)
  | .binary _ op left right =>
    partsShape "Binary" ["op", "left", "right"] fun fs =>
      HasField fs "op" (Named op.tag) ∧ HasField fs "left" (left.mark.shape left.kindShape) ∧
        HasField fs "right" (right.mark.shape right.kindShape)
  | .call _ callee args =>
    partsShape "Call" ["func", "args"] fun fs =>
      HasField fs "func" (callee.mark.shape callee.kindShape) ∧
        HasField fs "args" (ArrayOf (Expr.shapes args))
  | .selector _ object field =>
    partsShape "Selector" ["object", "field"] fun fs =>
      HasField fs "object" (object.mark.shape object.kindShape) ∧
        HasField fs "field" (textShape field)
  | .index _ object place =>
    partsShape "Index" ["object", "index"] fun fs =>
      HasField fs "object" (object.mark.shape object.kindShape) ∧
        HasField fs "index" (place.mark.shape place.kindShape)
  | .deref _ pointer => Tagged "Deref" (pointer.mark.shape pointer.kindShape)
  | .composite _ type elems =>
    partsShape "Composite" ["ty", "elems"] fun fs =>
      OptField fs "ty" (type.map TypeExpr.shape) ∧
        HasField fs "elems" (ArrayOf (Expr.shapes elems))
  | .funcLit _ => Named "FuncLit"

def Expr.shapes : List Expr → List Shape
  | [] => []
  | e :: rest => e.mark.shape e.kindShape :: Expr.shapes rest

end

def Expr.shape (e : Expr) : Shape := e.mark.shape e.kindShape

mutual

def Stmt.kindShape : Stmt → Shape
  | .block _ body => Tagged "Block" (ArrayOf (Stmt.shapes body))
  | .empty _ => Named "Empty"
  | .expr _ e => Tagged "Expr" e.shape
  | .ifElse _ init cond thenBranch elseBranch =>
    partsShape "If" ["init", "cond", "then_branch", "else_branch"] fun fs =>
      OptField fs "init" (Stmt.optShape init) ∧ HasField fs "cond" cond.shape ∧
        HasField fs "then_branch" (thenBranch.mark.shape thenBranch.kindShape) ∧
        OptField fs "else_branch" (Stmt.optShape elseBranch)
  | .loop _ init cond post body =>
    partsShape "For" ["init", "cond", "post", "body"] fun fs =>
      OptField fs "init" (Stmt.optShape init) ∧ OptField fs "cond" (cond.map Expr.shape) ∧
        OptField fs "post" (Stmt.optShape post) ∧
        HasField fs "body" (body.mark.shape body.kindShape)
  | .switch _ init tag clauses =>
    partsShape "Switch" ["init", "tag", "clauses"] fun fs =>
      OptField fs "init" (Stmt.optShape init) ∧ OptField fs "tag" (tag.map Expr.shape) ∧
        HasField fs "clauses" (ArrayOf (Clause.shapes clauses))
  | .ret _ results => Tagged "Return" (ArrayOf (results.map Expr.shape))
  | .assign _ lhs rhs define =>
    partsShape "Assign" ["lhs", "rhs", "define"] fun fs =>
      HasField fs "lhs" (ArrayOf (lhs.map Expr.shape)) ∧
        HasField fs "rhs" (ArrayOf (rhs.map Expr.shape)) ∧
        HasField fs "define" (boolShape define)
  | .incDec _ target inc =>
    partsShape "IncDec" ["target", "inc"] fun fs =>
      HasField fs "target" target.shape ∧ HasField fs "inc" (boolShape inc)
  | .jump _ keyword label =>
    partsShape "Branch" ["keyword", "label"] fun fs =>
      HasField fs "keyword" (textShape keyword) ∧ OptField fs "label" (label.map textShape)
  | .varDecl _ names values =>
    partsShape "VarDecl" ["names", "values"] fun fs =>
      HasField fs "names" (namesShape names) ∧
        HasField fs "values" (ArrayOf (values.map Expr.shape))
  | .labeled _ label body =>
    partsShape "Labeled" ["label", "body"] fun fs =>
      HasField fs "label" (textShape label) ∧
        HasField fs "body" (body.mark.shape body.kindShape)
  | .defer _ call => Tagged "Defer" call.shape
  | .go _ call => Tagged "Go" call.shape
  | .range _ value body =>
    partsShape "Range" ["value", "body"] fun fs =>
      HasField fs "value" value.shape ∧ HasField fs "body" (body.mark.shape body.kindShape)

def Stmt.optShape : Option Stmt → Option Shape
  | none => none
  | some s => some (s.mark.shape s.kindShape)

def Stmt.shapes : List Stmt → List Shape
  | [] => []
  | s :: rest => s.mark.shape s.kindShape :: Stmt.shapes rest

def Clause.shape : Clause → Shape
  | .mk values body span =>
    Record ["values", "body", "span"] 0 fun fs =>
      HasField fs "values" (ArrayOf (values.map Expr.shape)) ∧
        HasField fs "body" (ArrayOf (Stmt.shapes body)) ∧ HasField fs "span" span.shape

def Clause.shapes : List Clause → List Shape
  | [] => []
  | c :: rest => c.shape :: Clause.shapes rest

end

def Stmt.shape (s : Stmt) : Shape := s.mark.shape s.kindShape

def TypeDecl.shape (d : TypeDecl) : Shape :=
  Record ["name", "ty"] 0 fun fs =>
    HasField fs "name" (textShape d.name) ∧ HasField fs "ty" d.type.shape

def FuncDecl.shape (d : FuncDecl) : Shape :=
  Record ["name", "params", "results", "body"] 0 fun fs =>
    HasField fs "name" (textShape d.name) ∧
      HasField fs "params" (ArrayOf (d.params.map Field.shape)) ∧
      HasField fs "results" (ArrayOf (d.results.map Field.shape)) ∧
      OptField fs "body" (d.body.map Stmt.shape)

def Decl.kindShape : Decl → Shape
  | .type _ d => Tagged "Type" d.shape
  | .func _ d => Tagged "Func" d.shape
  | .var _ names ty values isConst =>
    partsShape "Var" ["names", "ty", "values", "is_const"] fun fs =>
      HasField fs "names" (namesShape names) ∧ OptField fs "ty" (ty.map TypeExpr.shape) ∧
        HasField fs "values" (ArrayOf (values.map Expr.shape)) ∧
        HasField fs "is_const" (boolShape isConst)

def Decl.shape (d : Decl) : Shape := d.mark.shape d.kindShape

/-- An entry of a type table: the number of a node, spelled out, and its type. -/
def TypeTable.EntryShape (entry : NodeId × CheckedType) (f : Json.Key × Json) : Prop :=
  f.1 = ⟨toString entry.1.val.toNat, false⟩ ∧ entry.2.shape f.2

/-- The entries of a type table, of which a later one of a node replaces an earlier one. -/
def TypeTable.shape (t : TypeTable) : Shape := fun j =>
  ∃ entries fs, j = .obj fs ∧ List.Forall₂ TypeTable.EntryShape entries fs ∧
    TypeTable.ofList entries = t

def SourceUnit.shape (u : SourceUnit) : Shape :=
  Record ["name", "decls", "types"] 1 fun fs =>
    HasField fs "name" (textShape u.name) ∧
      HasField fs "decls" (ArrayOf (u.decls.map Decl.shape)) ∧
      DefaultField fs "types" (u.types = .empty) u.types.shape

theorem Field.shape_eq (f : Field) :
    f.shape = Record ["names", "ty", "span"] 1 fun fs =>
      DefaultField fs "names" (f.names = []) (namesShape f.names) ∧ HasField fs "ty" f.type.shape ∧
        DefaultField fs "span" (f.span = .empty) f.span.shape := by
  cases f
  rfl

theorem Clause.shape_eq (c : Clause) :
    c.shape = Record ["values", "body", "span"] 0 fun fs =>
      HasField fs "values" (ArrayOf (c.values.map Expr.shape)) ∧
        HasField fs "body" (ArrayOf (Stmt.shapes c.body)) ∧ HasField fs "span" c.span.shape := by
  cases c
  rfl

@[simp] theorem TypeExpr.written_kindShape (t : TypeExpr) : t.span.written t.kindShape = t.shape :=
  rfl

@[simp] theorem Expr.shape_kindShape (e : Expr) : e.mark.shape e.kindShape = e.shape := rfl

@[simp] theorem Stmt.shape_kindShape (s : Stmt) : s.mark.shape s.kindShape = s.shape := rfl

@[simp] theorem Field.shapes_eq (fields : List Field) :
    Field.shapes fields = fields.map Field.shape := by
  induction fields with
  | nil => rw [Field.shapes]; rfl
  | cons f rest ih => rw [Field.shapes, ih]; rfl

@[simp] theorem CheckedType.shapes_eq (types : List CheckedType) :
    CheckedType.shapes types = types.map CheckedType.shape := by
  induction types with
  | nil => rw [CheckedType.shapes]; rfl
  | cons t rest ih => rw [CheckedType.shapes, ih]; rfl

@[simp] theorem Expr.shapes_eq (es : List Expr) : Expr.shapes es = es.map Expr.shape := by
  induction es with
  | nil => rw [Expr.shapes]; rfl
  | cons e rest ih => rw [Expr.shapes, ih]; rfl

@[simp] theorem Stmt.shapes_eq (body : List Stmt) : Stmt.shapes body = body.map Stmt.shape := by
  induction body with
  | nil => rw [Stmt.shapes]; rfl
  | cons s rest ih => rw [Stmt.shapes, ih]; rfl

@[simp] theorem Stmt.optShape_eq (o : Option Stmt) : Stmt.optShape o = o.map Stmt.shape := by
  cases o with
  | none => rw [Stmt.optShape]; rfl
  | some s => rw [Stmt.optShape]; rfl

@[simp] theorem Clause.shapes_eq (clauses : List Clause) :
    Clause.shapes clauses = clauses.map Clause.shape := by
  induction clauses with
  | nil => rw [Clause.shapes]; rfl
  | cons c rest ih => rw [Clause.shapes, ih]; rfl

end Midend
