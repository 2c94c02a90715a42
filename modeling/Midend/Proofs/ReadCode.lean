import Midend.Proofs.ReadType

/-!
# Midend.Proofs.ReadCode

The decoders of expressions and statements read their shapes. The kind of a node is decoded with its
mark at hand, so what is shown of a kind is that the node has this mark and the kind its shape.
-/

namespace Midend

open Json

variable {n : Nat} {j : Json} {tag : String} {m : Mark}

theorem Expr.reads_all (h : ∀ k < n, Reads k (Expr.decode k) Expr.shape) :
    Reads n (Expr.decodeAll n) fun es => ArrayOf (Expr.shapes es) := by
  have heq : Expr.decodeAll n = elements Expr.decode n := by
    funext j
    cases n <;> cases j <;> simp [Expr.decodeAll, elements]
  simpa [heq] using Reads.elements h

namespace Expr

section

variable (ih : ∀ k < n, Reads k (Expr.decode k) shape)

include ih

theorem parts_sound {e : Expr} (h : decodeParts n m tag j = .ok e) :
    e.mark = m ∧ ∀ escaped, e.kindShape (.obj [(⟨tag, escaped⟩, j)]) := by
  cases n with
  | zero => simp [decodeParts] at h
  | succ n =>
    have ih₀ := ih n (by omega)
    have hall := reads_all fun k (hk : k < n) => ih k (by omega)
    unfold decodeParts at h
    split at h
    next =>
      simp only [bind_eq_ok, Except.ok.injEq] at h
      obtain ⟨fs, hfs, kind, hk, text, ht, rfl⟩ := h
      exact ⟨rfl, fun _ => ⟨_, _, rfl, rfl, fs, hfs, (LiteralKind.reads n).hasField hk,
        (reads_string n).hasField ht⟩⟩
    next =>
      simp only [bind_eq_ok, Except.ok.injEq] at h
      obtain ⟨fs, hfs, op, ho, operand, he, rfl⟩ := h
      exact ⟨rfl, fun _ => ⟨_, _, rfl, rfl, fs, hfs, (UnaryOp.reads n).hasField ho,
        ih₀.hasField he⟩⟩
    next =>
      simp only [bind_eq_ok, Except.ok.injEq] at h
      obtain ⟨fs, hfs, op, ho, left, hl, right, hr, rfl⟩ := h
      exact ⟨rfl, fun _ => ⟨_, _, rfl, rfl, fs, hfs, (BinaryOp.reads n).hasField ho,
        ih₀.hasField hl, ih₀.hasField hr⟩⟩
    next =>
      simp only [bind_eq_ok, Except.ok.injEq] at h
      obtain ⟨fs, hfs, callee, hc, args, ha, rfl⟩ := h
      exact ⟨rfl, fun _ => ⟨_, _, rfl, rfl, fs, hfs, ih₀.hasField hc, hall.hasField ha⟩⟩
    next =>
      simp only [bind_eq_ok, Except.ok.injEq] at h
      obtain ⟨fs, hfs, object, ho, field, hf, rfl⟩ := h
      exact ⟨rfl, fun _ => ⟨_, _, rfl, rfl, fs, hfs, ih₀.hasField ho,
        (reads_string n).hasField hf⟩⟩
    next =>
      simp only [bind_eq_ok, Except.ok.injEq] at h
      obtain ⟨fs, hfs, object, ho, place, hp, rfl⟩ := h
      exact ⟨rfl, fun _ => ⟨_, _, rfl, rfl, fs, hfs, ih₀.hasField ho, ih₀.hasField hp⟩⟩
    next =>
      simp only [bind_eq_ok, Except.ok.injEq] at h
      obtain ⟨fs, hfs, type, ht, elems, he, rfl⟩ := h
      exact ⟨rfl, fun _ => ⟨_, _, rfl, rfl, fs, hfs, (TypeExpr.reads n).optField ht,
        hall.hasField he⟩⟩
    next => cases h

theorem kind_sound {e : Expr} (h : decodeKind n m j = .ok e) : e.mark = m ∧ e.kindShape j := by
  unfold decodeKind at h
  split at h
  next =>
    split at h
    next htag => cases h; exact ⟨rfl, .inl (congrArg _ htag)⟩
    next => cases h
  next => cases h
  next n tag escaped data =>
    have ih₀ := ih n (by omega)
    split at h
    next =>
      obtain ⟨name, hn, rfl⟩ := map_eq_ok.1 h
      exact ⟨rfl, _, _, rfl, rfl, (reads_string n).sound hn⟩
    next =>
      obtain ⟨inner, hi, rfl⟩ := map_eq_ok.1 h
      exact ⟨rfl, _, _, rfl, rfl, ih₀.sound hi⟩
    next =>
      obtain ⟨pointer, hp, rfl⟩ := map_eq_ok.1 h
      exact ⟨rfl, _, _, rfl, rfl, ih₀.sound hp⟩
    next => cases h; exact ⟨rfl, .inr ⟨_, _, rfl, rfl, rfl⟩⟩
    next =>
      obtain ⟨hmark, hshape⟩ := parts_sound (fun k hk => ih k (by omega)) h
      exact ⟨hmark, hshape escaped⟩
  next => cases h

theorem kind_complete {e : Expr} (hn : j.depth ≤ n) (h : e.kindShape j) :
    decodeKind n e.mark j = .ok e := by
  cases e with
  | lit m kind text =>
    obtain ⟨n, escaped, v, fs, rfl, rfl, hd, hfs, hk, ht⟩ := partsShape_opened h hn
    show decodeParts (n + 1) m "Lit" v = _
    simp only [decodeParts, bind_eq_ok, Except.ok.injEq]
    exact ⟨fs, hfs, kind, (LiteralKind.reads n).required hd hk, text,
      (reads_string n).required hd ht, rfl⟩
  | ident m name =>
    obtain ⟨n, escaped, v, rfl, rfl, hd, hv⟩ := Tagged.opened h hn
    exact map_eq_ok.2 ⟨name, (reads_string n).complete hd hv, rfl⟩
  | paren m inner =>
    obtain ⟨n, escaped, v, rfl, rfl, hd, hv⟩ := Tagged.opened h hn
    exact map_eq_ok.2 ⟨inner, (ih n (by omega)).complete hd hv, rfl⟩
  | unary m op operand =>
    obtain ⟨n, escaped, v, fs, rfl, rfl, hd, hfs, ho, he⟩ := partsShape_opened h hn
    show decodeParts (n + 1) m "Unary" v = _
    simp only [decodeParts, bind_eq_ok, Except.ok.injEq]
    exact ⟨fs, hfs, op, (UnaryOp.reads n).required hd ho, operand,
      (ih n (by omega)).required hd he, rfl⟩
  | binary m op left right =>
    obtain ⟨n, escaped, v, fs, rfl, rfl, hd, hfs, ho, hl, hr⟩ := partsShape_opened h hn
    have ih₀ := ih n (by omega)
    show decodeParts (n + 1) m "Binary" v = _
    simp only [decodeParts, bind_eq_ok, Except.ok.injEq]
    exact ⟨fs, hfs, op, (BinaryOp.reads n).required hd ho, left, ih₀.required hd hl, right,
      ih₀.required hd hr, rfl⟩
  | call m callee args =>
    obtain ⟨n, escaped, v, fs, rfl, rfl, hd, hfs, hc, ha⟩ := partsShape_opened h hn
    have hall := reads_all fun k (hk : k < n) => ih k (by omega)
    show decodeParts (n + 1) m "Call" v = _
    simp only [decodeParts, bind_eq_ok, Except.ok.injEq]
    exact ⟨fs, hfs, callee, (ih n (by omega)).required hd hc, args, hall.required hd ha, rfl⟩
  | selector m object field =>
    obtain ⟨n, escaped, v, fs, rfl, rfl, hd, hfs, ho, hf⟩ := partsShape_opened h hn
    show decodeParts (n + 1) m "Selector" v = _
    simp only [decodeParts, bind_eq_ok, Except.ok.injEq]
    exact ⟨fs, hfs, object, (ih n (by omega)).required hd ho, field,
      (reads_string n).required hd hf, rfl⟩
  | index m object place =>
    obtain ⟨n, escaped, v, fs, rfl, rfl, hd, hfs, ho, hp⟩ := partsShape_opened h hn
    have ih₀ := ih n (by omega)
    show decodeParts (n + 1) m "Index" v = _
    simp only [decodeParts, bind_eq_ok, Except.ok.injEq]
    exact ⟨fs, hfs, object, ih₀.required hd ho, place, ih₀.required hd hp, rfl⟩
  | deref m pointer =>
    obtain ⟨n, escaped, v, rfl, rfl, hd, hv⟩ := Tagged.opened h hn
    exact map_eq_ok.2 ⟨pointer, (ih n (by omega)).complete hd hv, rfl⟩
  | composite m type elems =>
    obtain ⟨n, escaped, v, fs, rfl, rfl, hd, hfs, ht, he⟩ := partsShape_opened h hn
    have hall := reads_all fun k (hk : k < n) => ih k (by omega)
    show decodeParts (n + 1) m "Composite" v = _
    simp only [decodeParts, bind_eq_ok, Except.ok.injEq]
    exact ⟨fs, hfs, type, (TypeExpr.reads n).optional hd ht, elems, hall.required hd he, rfl⟩
  | funcLit m =>
    rcases h with rfl | h
    · simp [decodeKind, Expr.mark]
    · obtain ⟨n, escaped, v, rfl, rfl, -, rfl⟩ := Tagged.opened h hn
      simp [decodeKind, Expr.mark]

theorem reads_kind (m : Mark) :
    Reads n (decodeKind n m) fun e j => e.mark = m ∧ e.kindShape j where
  sound h := kind_sound ih h
  complete hn h := by
    obtain ⟨rfl, h⟩ := h
    exact kind_complete ih hn h

end

theorem reads (n : Nat) : Reads n (Expr.decode n) shape := by
  induction n using Nat.strongRecOn with
  | ind n ih =>
    exact Mark.reads_node (fun j => by rw [decode]) (fun n j => by rw [decode]) fun k hk m =>
      reads_kind (fun i hi => ih i (by omega)) m

end Expr

theorem Expr.reads_list (n : Nat) :
    Reads n (Expr.decodeAll n) fun es => ArrayOf (es.map Expr.shape) := by
  simpa using Expr.reads_all fun k (_ : k < n) => Expr.reads k

/-! ## Statements -/

theorem Stmt.reads_all (h : ∀ k < n, Reads k (Stmt.decode k) Stmt.shape) :
    Reads n (Stmt.decodeAll n) fun body => ArrayOf (Stmt.shapes body) := by
  have heq : Stmt.decodeAll n = elements Stmt.decode n := by
    funext j
    cases n <;> cases j <;> simp [Stmt.decodeAll, elements]
  simpa [heq] using Reads.elements h

theorem Clause.reads_all (h : ∀ k < n, Reads k (Clause.decode k) Clause.shape) :
    Reads n (Clause.decodeAll n) fun clauses => ArrayOf (Clause.shapes clauses) := by
  have heq : Clause.decodeAll n = elements Clause.decode n := by
    funext j
    cases n <;> cases j <;> simp [Clause.decodeAll, elements]
  simpa [heq] using Reads.elements h

namespace Stmt

section

variable (ih : ∀ k < n, Reads k (Stmt.decode k) shape)
  (hc : ∀ k < n, Reads k (Clause.decode k) Clause.shape)

include ih hc

theorem parts_sound {s : Stmt} (h : decodeParts n m tag j = .ok s) :
    s.mark = m ∧ ∀ escaped, s.kindShape (.obj [(⟨tag, escaped⟩, j)]) := by
  cases n with
  | zero => simp [decodeParts] at h
  | succ n =>
    have ih₀ := ih n (by omega)
    have hexpr := Expr.reads n
    have hexprs := Expr.reads_list n
    unfold decodeParts at h
    split at h
    next =>
      simp only [bind_eq_ok, Except.ok.injEq] at h
      obtain ⟨fs, hfs, init, hi, cond, hcond, thenBranch, ht, elseBranch, he, rfl⟩ := h
      exact ⟨rfl, fun _ => ⟨_, _, rfl, rfl, fs, hfs, optShape_eq init ▸ ih₀.optField hi,
        hexpr.hasField hcond, ih₀.hasField ht, optShape_eq elseBranch ▸ ih₀.optField he⟩⟩
    next =>
      simp only [bind_eq_ok, Except.ok.injEq] at h
      obtain ⟨fs, hfs, init, hi, cond, hcond, post, hp, body, hb, rfl⟩ := h
      exact ⟨rfl, fun _ => ⟨_, _, rfl, rfl, fs, hfs, optShape_eq init ▸ ih₀.optField hi,
        hexpr.optField hcond, optShape_eq post ▸ ih₀.optField hp, ih₀.hasField hb⟩⟩
    next =>
      simp only [bind_eq_ok, Except.ok.injEq] at h
      obtain ⟨fs, hfs, init, hi, subject, hs, clauses, hcl, rfl⟩ := h
      have hclauses := Clause.reads_all fun k (hk : k < n) => hc k (by omega)
      exact ⟨rfl, fun _ => ⟨_, _, rfl, rfl, fs, hfs, optShape_eq init ▸ ih₀.optField hi,
        hexpr.optField hs, hclauses.hasField hcl⟩⟩
    next =>
      simp only [bind_eq_ok, Except.ok.injEq] at h
      obtain ⟨fs, hfs, lhs, hl, rhs, hr, define, hd, rfl⟩ := h
      exact ⟨rfl, fun _ => ⟨_, _, rfl, rfl, fs, hfs, hexprs.hasField hl, hexprs.hasField hr,
        (reads_bool n).hasField hd⟩⟩
    next =>
      simp only [bind_eq_ok, Except.ok.injEq] at h
      obtain ⟨fs, hfs, target, ht, inc, hi, rfl⟩ := h
      exact ⟨rfl, fun _ => ⟨_, _, rfl, rfl, fs, hfs, hexpr.hasField ht,
        (reads_bool n).hasField hi⟩⟩
    next =>
      simp only [bind_eq_ok, Except.ok.injEq] at h
      obtain ⟨fs, hfs, keyword, hk, label, hl, rfl⟩ := h
      exact ⟨rfl, fun _ => ⟨_, _, rfl, rfl, fs, hfs, (reads_string n).hasField hk,
        (reads_string n).optField hl⟩⟩
    next =>
      simp only [bind_eq_ok, Except.ok.injEq] at h
      obtain ⟨fs, hfs, names, hn, values, hv, rfl⟩ := h
      exact ⟨rfl, fun _ => ⟨_, _, rfl, rfl, fs, hfs, (reads_names n).hasField hn,
        hexprs.hasField hv⟩⟩
    next =>
      simp only [bind_eq_ok, Except.ok.injEq] at h
      obtain ⟨fs, hfs, label, hl, body, hb, rfl⟩ := h
      exact ⟨rfl, fun _ => ⟨_, _, rfl, rfl, fs, hfs, (reads_string n).hasField hl,
        ih₀.hasField hb⟩⟩
    next =>
      simp only [bind_eq_ok, Except.ok.injEq] at h
      obtain ⟨fs, hfs, value, hv, body, hb, rfl⟩ := h
      exact ⟨rfl, fun _ => ⟨_, _, rfl, rfl, fs, hfs, hexpr.hasField hv, ih₀.hasField hb⟩⟩
    next => cases h

theorem kind_sound {s : Stmt} (h : decodeKind n m j = .ok s) : s.mark = m ∧ s.kindShape j := by
  unfold decodeKind at h
  split at h
  next =>
    split at h
    next htag => cases h; exact ⟨rfl, .inl (congrArg _ htag)⟩
    next => cases h
  next => cases h
  next n tag escaped data =>
    split at h
    next =>
      obtain ⟨body, hb, rfl⟩ := map_eq_ok.1 h
      exact ⟨rfl, _, _, rfl, rfl, (reads_all fun k hk => ih k (by omega)).sound hb⟩
    next => cases h; exact ⟨rfl, .inr ⟨_, _, rfl, rfl, rfl⟩⟩
    next =>
      obtain ⟨e, he, rfl⟩ := map_eq_ok.1 h
      exact ⟨rfl, _, _, rfl, rfl, (Expr.reads n).sound he⟩
    next =>
      obtain ⟨results, hr, rfl⟩ := map_eq_ok.1 h
      exact ⟨rfl, _, _, rfl, rfl, (Expr.reads_list n).sound hr⟩
    next =>
      obtain ⟨call, he, rfl⟩ := map_eq_ok.1 h
      exact ⟨rfl, _, _, rfl, rfl, (Expr.reads n).sound he⟩
    next =>
      obtain ⟨call, he, rfl⟩ := map_eq_ok.1 h
      exact ⟨rfl, _, _, rfl, rfl, (Expr.reads n).sound he⟩
    next =>
      obtain ⟨hmark, hshape⟩ :=
        parts_sound (fun k hk => ih k (by omega)) (fun k hk => hc k (by omega)) h
      exact ⟨hmark, hshape escaped⟩
  next => cases h

theorem kind_complete {s : Stmt} (hn : j.depth ≤ n) (h : s.kindShape j) :
    decodeKind n s.mark j = .ok s := by
  cases s with
  | block m body =>
    obtain ⟨n, escaped, v, rfl, rfl, hd, hv⟩ := Tagged.opened h hn
    exact map_eq_ok.2 ⟨body, (reads_all fun k hk => ih k (by omega)).complete hd hv, rfl⟩
  | empty m =>
    rcases h with rfl | h
    · simp [decodeKind, Stmt.mark]
    · obtain ⟨n, escaped, v, rfl, rfl, -, rfl⟩ := Tagged.opened h hn
      simp [decodeKind, Stmt.mark]
  | expr m e =>
    obtain ⟨n, escaped, v, rfl, rfl, hd, hv⟩ := Tagged.opened h hn
    exact map_eq_ok.2 ⟨e, (Expr.reads n).complete hd hv, rfl⟩
  | ifElse m init cond thenBranch elseBranch =>
    obtain ⟨n, escaped, v, fs, rfl, rfl, hd, hfs, hi, hcond, ht, he⟩ := partsShape_opened h hn
    rw [optShape_eq] at hi he
    have ih₀ := ih n (by omega)
    show decodeParts (n + 1) m "If" v = _
    simp only [decodeParts, bind_eq_ok, Except.ok.injEq]
    exact ⟨fs, hfs, init, ih₀.optional hd hi, cond, (Expr.reads n).required hd hcond,
      thenBranch, ih₀.required hd ht, elseBranch, ih₀.optional hd he, rfl⟩
  | loop m init cond post body =>
    obtain ⟨n, escaped, v, fs, rfl, rfl, hd, hfs, hi, hcond, hp, hb⟩ := partsShape_opened h hn
    rw [optShape_eq] at hi hp
    have ih₀ := ih n (by omega)
    show decodeParts (n + 1) m "For" v = _
    simp only [decodeParts, bind_eq_ok, Except.ok.injEq]
    exact ⟨fs, hfs, init, ih₀.optional hd hi, cond, (Expr.reads n).optional hd hcond, post,
      ih₀.optional hd hp, body, ih₀.required hd hb, rfl⟩
  | switch m init subject clauses =>
    obtain ⟨n, escaped, v, fs, rfl, rfl, hd, hfs, hi, hs, hcl⟩ := partsShape_opened h hn
    rw [optShape_eq] at hi
    have hclauses := Clause.reads_all fun k (hk : k < n) => hc k (by omega)
    show decodeParts (n + 1) m "Switch" v = _
    simp only [decodeParts, bind_eq_ok, Except.ok.injEq]
    exact ⟨fs, hfs, init, (ih n (by omega)).optional hd hi, subject,
      (Expr.reads n).optional hd hs, clauses, hclauses.required hd hcl, rfl⟩
  | ret m results =>
    obtain ⟨n, escaped, v, rfl, rfl, hd, hv⟩ := Tagged.opened h hn
    exact map_eq_ok.2 ⟨results, (Expr.reads_list n).complete hd hv, rfl⟩
  | assign m lhs rhs define =>
    obtain ⟨n, escaped, v, fs, rfl, rfl, hd, hfs, hl, hr, hdef⟩ := partsShape_opened h hn
    have hexprs := Expr.reads_list n
    show decodeParts (n + 1) m "Assign" v = _
    simp only [decodeParts, bind_eq_ok, Except.ok.injEq]
    exact ⟨fs, hfs, lhs, hexprs.required hd hl, rhs, hexprs.required hd hr, define,
      (reads_bool n).required hd hdef, rfl⟩
  | incDec m target inc =>
    obtain ⟨n, escaped, v, fs, rfl, rfl, hd, hfs, ht, hi⟩ := partsShape_opened h hn
    show decodeParts (n + 1) m "IncDec" v = _
    simp only [decodeParts, bind_eq_ok, Except.ok.injEq]
    exact ⟨fs, hfs, target, (Expr.reads n).required hd ht, inc, (reads_bool n).required hd hi, rfl⟩
  | jump m keyword label =>
    obtain ⟨n, escaped, v, fs, rfl, rfl, hd, hfs, hk, hl⟩ := partsShape_opened h hn
    show decodeParts (n + 1) m "Branch" v = _
    simp only [decodeParts, bind_eq_ok, Except.ok.injEq]
    exact ⟨fs, hfs, keyword, (reads_string n).required hd hk, label,
      (reads_string n).optional hd hl, rfl⟩
  | varDecl m names values =>
    obtain ⟨n, escaped, v, fs, rfl, rfl, hd, hfs, hnames, hv⟩ := partsShape_opened h hn
    show decodeParts (n + 1) m "VarDecl" v = _
    simp only [decodeParts, bind_eq_ok, Except.ok.injEq]
    exact ⟨fs, hfs, names, (reads_names n).required hd hnames, values,
      (Expr.reads_list n).required hd hv, rfl⟩
  | labeled m label body =>
    obtain ⟨n, escaped, v, fs, rfl, rfl, hd, hfs, hl, hb⟩ := partsShape_opened h hn
    show decodeParts (n + 1) m "Labeled" v = _
    simp only [decodeParts, bind_eq_ok, Except.ok.injEq]
    exact ⟨fs, hfs, label, (reads_string n).required hd hl, body,
      (ih n (by omega)).required hd hb, rfl⟩
  | defer m call =>
    obtain ⟨n, escaped, v, rfl, rfl, hd, hv⟩ := Tagged.opened h hn
    exact map_eq_ok.2 ⟨call, (Expr.reads n).complete hd hv, rfl⟩
  | go m call =>
    obtain ⟨n, escaped, v, rfl, rfl, hd, hv⟩ := Tagged.opened h hn
    exact map_eq_ok.2 ⟨call, (Expr.reads n).complete hd hv, rfl⟩
  | range m value body =>
    obtain ⟨n, escaped, v, fs, rfl, rfl, hd, hfs, hv, hb⟩ := partsShape_opened h hn
    show decodeParts (n + 1) m "Range" v = _
    simp only [decodeParts, bind_eq_ok, Except.ok.injEq]
    exact ⟨fs, hfs, value, (Expr.reads n).required hd hv, body,
      (ih n (by omega)).required hd hb, rfl⟩

theorem reads_kind (m : Mark) :
    Reads n (decodeKind n m) fun s j => s.mark = m ∧ s.kindShape j where
  sound h := kind_sound ih hc h
  complete hn h := by
    obtain ⟨rfl, h⟩ := h
    exact kind_complete ih hc hn h

end

end Stmt

theorem Clause.reads_step (ih : ∀ k < n, Reads k (Stmt.decode k) Stmt.shape) :
    Reads n (Clause.decode n) Clause.shape := by
  rw [funext Clause.shape_eq]
  refine Reads.record (fun _ => by rw [decode]) (fun _ _ => by rw [decode]) fun n hn => ⟨?_, ?_⟩
  all_goals
    have hbody := Stmt.reads_all fun k (hk : k < n) => ih k (by omega)
    have hvalues := Expr.reads_list n
  · intro fs c h
    simp only [bind_eq_ok, Except.ok.injEq] at h
    obtain ⟨values, hv, body, hb, span, hs, rfl⟩ := h
    exact ⟨hvalues.hasField hv, hbody.hasField hb, (Span.reads n).hasField hs⟩
  · rintro fs ⟨values, body, span⟩ hd ⟨hv, hb, hs⟩
    simp only [bind_eq_ok, Except.ok.injEq]
    exact ⟨values, hvalues.required hd hv, body, hbody.required hd hb, span,
      (Span.reads n).required hd hs, rfl⟩

theorem Stmt.reads_both (n : Nat) :
    Reads n (Stmt.decode n) Stmt.shape ∧ Reads n (Clause.decode n) Clause.shape := by
  induction n using Nat.strongRecOn with
  | ind n ih =>
    refine ⟨?_, Clause.reads_step fun k hk => (ih k hk).1⟩
    exact Mark.reads_node (fun j => by rw [decode]) (fun n j => by rw [decode]) fun k hk m =>
      reads_kind (fun i hi => (ih i (by omega)).1) (fun i hi => (ih i (by omega)).2) m

theorem Stmt.reads (n : Nat) : Reads n (Stmt.decode n) Stmt.shape := (reads_both n).1

end Midend
