import Midend.Tree.Code

/-!
# Midend.Tree.Unit

A checked unit: its declarations in source order and the table of the types that the checker found.
The table holds each node once; recording a node again replaces its type.
-/

namespace Midend

structure TypeDecl where
  name : String
  type : TypeExpr

structure FuncDecl where
  name : String
  params : List Field
  results : List Field
  /-- Absent for an external function. -/
  body : Option Stmt

inductive Decl where
  | type (mark : Mark) (decl : TypeDecl)
  | func (mark : Mark) (decl : FuncDecl)
  /-- A package-level variable, or a constant. -/
  | var (mark : Mark) (names : List String) (type : Option TypeExpr) (values : List Expr)
      (isConst : Bool)

namespace Decl

def mark : Decl → Mark
  | .type m _ | .func m _ | .var m _ _ _ _ => m

def span (d : Decl) : Span := d.mark.span

end Decl

/-- The checker's types by node, in the order in which the nodes were first recorded. -/
structure TypeTable where
  entries : List (NodeId × CheckedType)
  nodup : (entries.map Prod.fst).Nodup

namespace TypeTable

def empty : TypeTable := ⟨[], .nil⟩

instance : Inhabited TypeTable := ⟨empty⟩

def size (t : TypeTable) : Nat := t.entries.length

def get? (t : TypeTable) (id : NodeId) : Option CheckedType := t.entries.lookup id

/-- The entries with the type of a node replaced, or added at the end. -/
def put (id : NodeId) (type : CheckedType) :
    List (NodeId × CheckedType) → List (NodeId × CheckedType)
  | [] => [(id, type)]
  | (k, v) :: rest => if k = id then (k, type) :: rest else (k, v) :: put id type rest

theorem keys_put (id : NodeId) (type : CheckedType) (l : List (NodeId × CheckedType)) :
    (put id type l).map Prod.fst =
      if id ∈ l.map Prod.fst then l.map Prod.fst else l.map Prod.fst ++ [id] := by
  induction l with
  | nil => simp [put]
  | cons p rest ih =>
    obtain ⟨k, v⟩ := p
    by_cases h : k = id
    · simp [put, h]
    · have h' : ¬ id = k := fun e => h e.symm
      simp only [put, h, if_false, List.map_cons, ih, List.mem_cons, h', false_or]
      split <;> simp

theorem nodup_put (id : NodeId) (type : CheckedType) {l : List (NodeId × CheckedType)}
    (h : (l.map Prod.fst).Nodup) : ((put id type l).map Prod.fst).Nodup := by
  rw [keys_put]
  split
  · exact h
  · rename_i hn
    rw [List.nodup_append]
    refine ⟨h, by simp, ?_⟩
    intro a ha b hb e
    simp only [List.mem_singleton] at hb
    exact hn (by rw [← hb, ← e]; exact ha)

def insert (t : TypeTable) (id : NodeId) (type : CheckedType) : TypeTable :=
  ⟨put id type t.entries, nodup_put id type t.nodup⟩

def ofList (entries : List (NodeId × CheckedType)) : TypeTable :=
  entries.foldl (fun t e => t.insert e.1 e.2) empty

end TypeTable

structure SourceUnit where
  name : String
  decls : List Decl
  types : TypeTable

end Midend
