import Midend.Proofs.Spec

/-!
# Midend.Proofs.Operators

Operations on values that are already there: each adds an instruction that is well typed, reads what
is in sight, and computes what the operator means.
-/

namespace Midend

open Ir

variable {ctx : FnContext} {g : Draft ctx} {lhs rhs v : Value}

namespace Ir.Ty

theorem isInt_iff {t : Ty} : t.isInt = true ↔ ∃ bits, t = .int bits := by
  cases t <;> simp [isInt, intBits?]

theorem isFloat_iff {t : Ty} : t.isFloat = true ↔ ∃ kind, t = .float kind := by
  cases t <;> simp [isFloat, floatKind?]

theorem isBool_iff {t : Ty} : t.isBool = true ↔ t = .int 1 := by
  cases t <;> simp [isBool, intBits?]

theorem isVoid_iff {t : Ty} : t.isVoid = true ↔ t = .void := by
  cases t <;> simp [isVoid]

end Ir.Ty

theorem Draft.sees_const {c : Const} {type : TypeId} (h : g.types.Proper type) :
    g.Sees (.ofConst c type) := by
  obtain ⟨t, ht, hne⟩ := h
  refine ⟨⟨⟨t, ht⟩, (fun id hid => by cases hid), fun hv => ?_⟩, fun id hid => by cases hid⟩
  exact absurd (Option.some.inj (ht.symm.trans hv)) hne

/-- What becomes of an operation on one value: `f` is what it means. -/
def Maps (g g' : Draft ctx) (v r : Value)
    (f : ∀ {V : Type}, World V → Datum V → Option (Datum V)) : Prop :=
  ∀ ⦃V : Type⦄ (s : Scene ctx V), s.Covers g' → ∀ env calls x, s.Holds env v x →
    ∃ y, f s.world x = some y ∧ s.Computes g g' env calls r y calls

/-- What becomes of an operation on two values. -/
def Joins (g g' : Draft ctx) (lhs rhs r : Value)
    (f : ∀ {V : Type}, World V → Datum V → Datum V → Option (Datum V)) : Prop :=
  ∀ ⦃V : Type⦄ (s : Scene ctx V), s.Covers g' → ∀ env calls x y, s.Holds env lhs x →
    s.Holds env rhs y → ∃ z, f s.world x y = some z ∧ s.Computes g g' env calls r z calls

/-- A new instruction is executed once the machine gets there. -/
theorem push_evals {type : TypeId} {operation : Operation} {t : Ty} (hopen : g.Open g.cur)
    (htyped : OperationTyped g.types ctx.functions operation type)
    (hphi : operation.isPhi = false) (hsees : ∀ v ∈ operation.operands, g.Sees v)
    (ht : g.types.body? type = some t) (hne : t ≠ .void) :
    Evals (Lower.push type operation) g fun r g' => g'.Sees r ∧ g'.types.body? r.type = some t ∧
      r.type = type ∧ ∀ {V : Type} (s : Scene ctx V), s.Covers g' → ∀ env calls y calls',
        (∀ prev, s.perform (g.spot prev env calls) type operation = some (y, calls')) →
          s.Computes g g' env calls r ⟨y, t⟩ calls' :=
  .push (.of_sees hopen htyped hphi hsees) (Typing.proper_of_body? ht hne) hphi
    ⟨Draft.sees_push, ht, rfl, fun _ hc _ _ _ _ hy => Scene.computes_push hc ht hy⟩

theorem arith_evals (op : Opcode) {t : Ty} (hopen : g.Open g.cur) (hl : g.Sees lhs)
    (hr : g.Sees rhs) (hshift : op.isShift = false) (hsame : rhs.type = lhs.type)
    (ht : g.types.body? lhs.type = some t)
    (hkind : if op.isFloat then t.isFloat = true else t.isInt = true) :
    Evals (Lower.push lhs.type (.binary op lhs rhs)) g fun r g' => g'.Sees r ∧
      r.type = lhs.type ∧
        ∀ {V : Type} (s : Scene ctx V), s.Covers g' → ∀ env calls x b, s.Holds env lhs x →
          s.read env rhs = some b →
            s.Computes g g' env calls r ⟨s.interp.binary op t x.value b, t⟩ calls := by
  have hne : t ≠ .void := by
    rintro rfl
    split at hkind <;> simp [Ty.isInt, Ty.isFloat, Ty.intBits?, Ty.floatKind?] at hkind
  have htyped : OperationTyped g.types ctx.functions (.binary op lhs rhs) lhs.type := by
    refine .arith hshift rfl hsame ?_
    split at hkind
    · rename_i hf
      rw [if_pos hf]
      obtain ⟨kind, rfl⟩ := Ty.isFloat_iff.mp hkind
      exact ⟨kind, ht⟩
    · rename_i hf
      rw [if_neg hf]
      obtain ⟨bits, rfl⟩ := Ty.isInt_iff.mp hkind
      exact ⟨bits, ht⟩
  have hsees : ∀ v ∈ (Operation.binary op lhs rhs).operands, g.Sees v := by
    simp [Operation.operands, hl, hr]
  refine (push_evals hopen htyped rfl hsees ht hne).mono ?_
  rintro r g' hstep ⟨hsees', _, htype, hrun⟩
  refine ⟨hsees', htype, fun s hc env calls x b hx hb => ?_⟩
  have hxt : x.type = t := (hc.of_since hstep.toSince).type_eq ht hx
  exact hrun s hc env calls _ calls fun prev => by
    rw [Scene.perform_binary hx hb, hxt]

theorem read_const {V : Type} {s : Scene ctx V} {env : Locals V} {c : Const} {type : TypeId}
    {t : Ty} (h : s.types.body? type = some t) :
    s.read env (.ofConst c type) = some (s.interp.const c t) := by
  simp [Machine.read, Value.ofConst, h]

theorem unary_evals (m : Mark) (op : UnaryOp) (hopen : g.Open g.cur) (hv : g.Sees v) :
    Evals (Lower.unary m op v) g fun r g' => g'.Sees r ∧ Maps g g' v r fun w x => w.unary op x := by
  obtain ⟨t, ht⟩ := hv.typed.has
  have hfail : Evals (Lower.unary.unsupported m op v) g fun r g' =>
      g'.Sees r ∧ Maps g g' v r fun w x => w.unary op x := .ref ⟨t, ht⟩ fun _ => .abort hopen
  have hconst : ∀ c, t ≠ .void → g.Sees (.ofConst c v.type) :=
    fun c hne => Draft.sees_const (Typing.proper_of_body? ht hne)
  rw [Lower.unary]
  refine .body ht ?_
  cases op with
  | plus => exact .pure hopen ⟨hv, fun _ s _ env calls x hx => ⟨x, rfl, .still rfl hx⟩⟩
  | neg =>
    by_cases hi : t.isInt
    · obtain ⟨bits, rfl⟩ := Ty.isInt_iff.mp hi
      refine (arith_evals .sub hopen (hconst (.int 0) (by simp)) hv rfl rfl ht rfl).mono ?_
      rintro r g' hstep ⟨hsees, _, hrun⟩
      refine ⟨hsees, fun _ s hc env calls x hx => ?_⟩
      have hxt : x.type = .int bits := (hc.of_since hstep.toSince).type_eq ht hx
      refine ⟨_, ?_, hrun s hc env calls _ _ (Scene.holds_const (hxt ▸ hx.type)) hx.read⟩
      simp [World.unary, hxt, World.constant]
    · by_cases hf : t.isFloat
      · obtain ⟨kind, rfl⟩ := Ty.isFloat_iff.mp hf
        refine (push_evals hopen (.fneg rfl ⟨kind, ht⟩) rfl (by simpa [Operation.operands]) ht
          (by simp)).mono ?_
        rintro r g' hstep ⟨hsees, _, _, hrun⟩
        refine ⟨hsees, fun _ s hc env calls x hx => ?_⟩
        have hxt : x.type = .float kind := (hc.of_since hstep.toSince).type_eq ht hx
        refine ⟨_, ?_, hrun s hc env calls _ calls fun prev => Scene.perform_fneg hx prev⟩
        simp [World.unary, hxt]
      · rw [if_neg hi, if_neg hf]
        exact hfail
  | not =>
    by_cases hb : t.isBool
    · obtain rfl := Ty.isBool_iff.mp hb
      refine (arith_evals .xor hopen hv (hconst (.bool true) (by simp)) rfl rfl ht rfl).mono
        ?_
      rintro r g' hstep ⟨hsees, _, hrun⟩
      refine ⟨hsees, fun _ s hc env calls x hx => ?_⟩
      have hxt : x.type = .int 1 := (hc.of_since hstep.toSince).type_eq ht hx
      refine ⟨_, ?_, hrun s hc env calls x _ hx (read_const (hxt ▸ hx.type))⟩
      simp [World.unary, hxt]
    · rw [if_neg hb]
      exact hfail
  | bitNot =>
    by_cases hi : t.isInt
    · obtain ⟨bits, rfl⟩ := Ty.isInt_iff.mp hi
      refine (arith_evals .xor hopen hv (hconst (.int (-1)) (by simp)) rfl rfl ht rfl).mono
        ?_
      rintro r g' hstep ⟨hsees, _, hrun⟩
      refine ⟨hsees, fun _ s hc env calls x hx => ?_⟩
      have hxt : x.type = .int bits := (hc.of_since hstep.toSince).type_eq ht hx
      refine ⟨_, ?_, hrun s hc env calls x _ hx (read_const (hxt ▸ hx.type))⟩
      simp [World.unary, hxt]
    · show Evals (if t.isInt then _ else _) _ _
      rw [if_neg hi]
      exact hfail
  | addr => exact hfail
  | recv => exact hfail

theorem expectSameType_evals {β : Type} {f : Unit → Lower β} {R : β → Draft ctx → Prop}
    {span : Span} (hopen : g.Open g.cur) (hl : g.types.Has lhs.type) (hr : g.types.Has rhs.type)
    (hf : lhs.type = rhs.type → Evals (f ()) g R) :
    Evals (Lower.expectSameType lhs rhs span >>= f) g R := by
  by_cases hsame : lhs.type = rhs.type
  · refine .next (a := ()) ?_ (hf hsame)
    rw [Lower.expectSameType, if_pos hsame]
    rfl
  · refine .bind (P := fun _ _ => False) ?_ fun _ _ _ h => h.elim
    rw [Lower.expectSameType, if_neg hsame]
    exact .ref hl fun _ => .ref hr fun _ => .throw hopen trivial

theorem comparison_of_int {V : Type} (w : World V) {op : BinaryOp} {u : Bool} {pred : IntPredicate}
    (hop : Lower.intPredicate? op u = some pred) {x : Datum V} {bits : Nat}
    (hx : x.type = .int bits) (y : Datum V) :
    w.comparison op u x y = some ⟨w.interp.icmp pred x.type x.value y.value, .int 1⟩ := by
  cases op <;> cases u <;> simp [Lower.intPredicate?] at hop <;> subst hop <;>
    simp [World.comparison, World.intComparison, hx]

theorem comparison_of_float {V : Type} (w : World V) {op : BinaryOp} {u : Bool}
    {pred : FloatPredicate} (hop : Lower.floatPredicate? op = some pred) {x : Datum V}
    {kind : FloatKind} (hx : x.type = .float kind) (y : Datum V) :
    w.comparison op u x y = some ⟨w.interp.fcmp pred x.type x.value y.value, .int 1⟩ := by
  cases op <;> simp [Lower.floatPredicate?] at hop <;> subst hop <;>
    simp [World.comparison, World.floatComparison, hx]

theorem compare_evals (op : BinaryOp) (u : Bool) (span : Span) {result : TypeId}
    (hopen : g.Open g.cur) (hl : g.Sees lhs) (hr : g.Sees rhs) (hresult : g.types.IsBool result) :
    Evals (Lower.compare op lhs rhs u result span) g fun r g' => g'.Sees r ∧
      g'.types.IsBool r.type ∧ Joins g g' lhs rhs r fun w x y => w.comparison op u x y := by
  obtain ⟨t, ht⟩ := hl.typed.has
  rw [Lower.compare]
  refine expectSameType_evals hopen ⟨t, ht⟩ hr.typed.has fun hsame => ?_
  refine .body ht ?_
  by_cases hi : t.isInt
  · rw [if_pos hi, pure_bind]
    obtain ⟨bits, rfl⟩ := Ty.isInt_iff.mp hi
    cases hop : Lower.intPredicate? op u with
    | none => exact .abort hopen
    | some pred =>
      refine (push_evals hopen (.icmp hsame ⟨bits, ht⟩ hresult) rfl
        (by simp [Operation.operands, hl, hr]) hresult (by simp)).mono ?_
      rintro r g' hstep ⟨hsees, hbody, _, hrun⟩
      refine ⟨hsees, hbody, fun _ s hc env calls x y hx hy => ?_⟩
      have hxt : x.type = .int bits := (hc.of_since hstep.toSince).type_eq ht hx
      exact ⟨_, comparison_of_int s.world hop hxt y,
        hrun s hc env calls _ calls fun prev => Scene.perform_icmp hx hy pred prev⟩
  · rw [if_neg hi]
    by_cases hf : t.isFloat
    · rw [if_pos hf, pure_bind]
      obtain ⟨kind, rfl⟩ := Ty.isFloat_iff.mp hf
      cases hop : Lower.floatPredicate? op with
      | none => exact .abort hopen
      | some pred =>
        refine (push_evals hopen (.fcmp hsame ⟨kind, ht⟩ hresult) rfl
          (by simp [Operation.operands, hl, hr]) hresult (by simp)).mono ?_
        rintro r g' hstep ⟨hsees, hbody, _, hrun⟩
        refine ⟨hsees, hbody, fun _ s hc env calls x y hx hy => ?_⟩
        have hxt : x.type = .float kind := (hc.of_since hstep.toSince).type_eq ht hx
        exact ⟨_, comparison_of_float s.world hop hxt y,
          hrun s hc env calls _ calls fun prev => Scene.perform_fcmp hx hy pred prev⟩
    · rw [if_neg hf]
      exact .ref ⟨t, ht⟩ fun _ => .abort_bind hopen

theorem Joins.of_still {g₁ g' : Draft ctx} {r : Value}
    {f : ∀ {V : Type}, World V → Datum V → Datum V → Option (Datum V)}
    (h : Joins g₁ g' lhs rhs r f) (hb : g₁.builder = g.builder) : Joins g g' lhs rhs r f := by
  intro V s hc env calls x y hx hy
  obtain ⟨z, hz, hrun⟩ := h s hc env calls x y hx hy
  exact ⟨z, hz, hrun.of_still hb⟩

theorem equal_evals (span : Span) (hopen : g.Open g.cur) (hl : g.Sees lhs) (hr : g.Sees rhs) :
    Evals (Lower.equal lhs rhs span) g fun r g' => g'.Sees r ∧ g'.types.IsBool r.type ∧
      Joins g g' lhs rhs r fun w x y => w.comparison .eq false x y := by
  have hbool : Evals (Lower.typing Typing.bool) g fun result g₁ =>
      g₁.types.IsBool result ∧ g₁.builder = g.builder :=
    .typing hopen (Typing.bool_adds g.wf) fun _ _ _ _ hresult _ => ⟨hresult, rfl⟩
  refine hbool.bind ?_
  rintro result g₁ hstep ⟨hresult, hb⟩
  refine (compare_evals .eq false span hstep.opened (hstep.seen hl) (hstep.seen hr) hresult).mono ?_
  rintro r g' _ ⟨hsees, hisBool, hjoins⟩
  exact ⟨hsees, hisBool, hjoins.of_still hb⟩

theorem unsupportedBinary_evals {op : BinaryOp} {type : TypeId} {span : Span} (hopen : g.Open g.cur)
    (h : g.types.Has type) {Q : Value → Draft ctx → Prop} :
    Evals (Lower.unsupportedBinary op type span) g Q :=
  .ref h fun _ => .abort hopen

theorem unsigned_evals {β : Type} {ctx' : Context} {m : Mark} {f : Bool → Lower β}
    {R : β → Draft ctx → Prop} (hopen : g.Open g.cur)
    (hf : ∀ t, ctx'.table.get? m.id = some t → Evals (f (isUnsigned ctx'.declared t)) g R) :
    Evals (Lower.unsigned ctx' m >>= f) g R := by
  rw [Lower.unsigned, Lower.checkedType, bind_assoc]
  cases ht : ctx'.table.get? m.id with
  | none => exact .throw_bind hopen (f := .report (.missingType m.span)) trivial
  | some t =>
    rw [pure_bind, pure_bind]
    exact hf t ht

theorem unsigned_eq {V : Type} {w : World V} {m : Mark} {t : CheckedType}
    (h : w.table.get? m.id = some t) : w.unsigned m = isUnsigned w.declared t := by
  simp [World.unsigned, h]

def shiftedCount (bits countBits : Nat) (type : TypeId) (count : Value) : Lower Value :=
  if countBits < bits then Lower.push type (.cast .zext count)
  else if bits < countBits then Lower.push type (.cast .trunc count)
  else pure count

theorem shiftedCount_bind {β : Type} (bits countBits : Nat) (type : TypeId) (count : Value)
    (f : Value → Lower β) :
    (if countBits < bits then Lower.push type (.cast .zext count) >>= f
      else if bits < countBits then Lower.push type (.cast .trunc count) >>= f
      else pure count >>= f) = shiftedCount bits countBits type count >>= f := by
  unfold shiftedCount
  split
  · rfl
  · split <;> rfl

theorem shiftedCount_evals {bits countBits : Nat} (hopen : g.Open g.cur)
    (hr : g.Sees rhs) (ht : g.types.body? lhs.type = some (.int bits))
    (hcount : g.types.body? rhs.type = some (.int countBits)) :
    Evals (shiftedCount bits countBits lhs.type rhs) g fun r g' => g'.Sees r ∧
      g'.types.body? r.type = some (.int bits) ∧
        Maps g g' rhs r fun w y => (w.shiftCount bits y).map fun b => ⟨b, .int bits⟩ := by
  rw [shiftedCount]
  have hcast : ∀ op, OperationTyped g.types ctx.functions (.cast op rhs) lhs.type →
      Evals (Lower.push lhs.type (.cast op rhs)) g fun r g' => g'.Sees r ∧
        g'.types.body? r.type = some (.int bits) ∧
          Maps g g' rhs r fun w y =>
            some ⟨w.interp.cast op (.int countBits) (.int bits) y.value, .int bits⟩ := by
    intro op htyped
    refine (push_evals hopen htyped rfl (by simp [Operation.operands, hr]) ht (by simp)).mono ?_
    rintro r g' hstep ⟨hsees, hbody, _, hrun⟩
    refine ⟨hsees, hbody, fun _ s hc env calls y hy => ⟨_, rfl, ?_⟩⟩
    have hyt : y.type = .int countBits := (hc.of_since hstep.toSince).type_eq hcount hy
    refine hrun s hc env calls _ calls fun prev => ?_
    rw [Scene.perform_cast hy ((hc.of_since hstep.toSince).body? ht), hyt]
    rfl
  by_cases hlt : countBits < bits
  · rw [if_pos hlt]
    refine (hcast .zext (.zext hcount ht hlt)).mono fun r g' hstep h => ⟨h.1, h.2.1, ?_⟩
    intro V s hc env calls y hy
    obtain ⟨z, hz, hrun⟩ := h.2.2 s hc env calls y hy
    have hyt : y.type = .int countBits := (hc.of_since hstep.toSince).type_eq hcount hy
    refine ⟨z, ?_, hrun⟩
    rw [← hz]
    simp [World.shiftCount, hyt, hlt, Nat.ne_of_lt hlt]
  · by_cases hgt : bits < countBits
    · rw [if_neg hlt, if_pos hgt]
      refine (hcast .trunc (.trunc hcount ht hgt)).mono fun r g' hstep h => ⟨h.1, h.2.1, ?_⟩
      intro V s hc env calls y hy
      obtain ⟨z, hz, hrun⟩ := h.2.2 s hc env calls y hy
      have hyt : y.type = .int countBits := (hc.of_since hstep.toSince).type_eq hcount hy
      refine ⟨z, ?_, hrun⟩
      rw [← hz]
      simp [World.shiftCount, hyt, hlt, Nat.ne_of_gt hgt]
    · rw [if_neg hlt, if_neg hgt]
      obtain rfl : countBits = bits := by omega
      refine .pure hopen ⟨hr, hcount, fun _ s hc env calls y hy => ?_⟩
      have hyt : y.type = .int countBits := hc.type_eq hcount hy
      refine ⟨y, ?_, .still rfl hy⟩
      obtain ⟨value, type⟩ := y
      simp_all [World.shiftCount]

theorem shiftOpcode_evals {β : Type} {op : BinaryOp} {left : Mark} {f : Opcode → Lower β}
    {R : β → Draft ctx → Prop} (hop : op = .shl ∨ op = .shr) (hopen : g.Open g.cur)
    (hf : ∀ opcode : Opcode, opcode.isShift = true →
      (∀ {V : Type} (s : Scene ctx V) (x y : Datum V) (bits : Nat) (b : V),
        x.type = .int bits → s.world.shiftCount bits y = some b →
          s.world.shift op (s.world.unsigned left) x y =
            some ⟨s.interp.binary opcode x.type x.value b, x.type⟩) →
        Evals (f opcode) g R) :
    Evals (Lower.shiftOpcode ctx.toContext op left >>= f) g R := by
  rcases hop with rfl | rfl
  · rw [Lower.shiftOpcode, if_pos rfl, pure_bind]
    refine hf .shl rfl fun s x y bits b hx hb => ?_
    simp [World.shift, hx, hb]
  · rw [Lower.shiftOpcode, if_neg (by simp), bind_assoc]
    refine unsigned_evals hopen fun t ht => ?_
    rw [pure_bind]
    refine hf _ ?_ fun s x y bits b hx hb => ?_
    · split <;> rfl
    · have hu : s.world.unsigned left = isUnsigned ctx.declared t := unsigned_eq ht
      simp [World.shift, hx, hb, hu]

theorem shift_evals (op : BinaryOp) (left : Mark) (span : Span) (hop : op = .shl ∨ op = .shr)
    (hopen : g.Open g.cur) (hl : g.Sees lhs) (hr : g.Sees rhs) :
    Evals (Lower.shift ctx.toContext op lhs rhs left span) g fun r g' => g'.Sees r ∧
      Joins g g' lhs rhs r fun w x y => w.shift op (w.unsigned left) x y := by
  obtain ⟨t, ht⟩ := hl.typed.has
  obtain ⟨t', ht'⟩ := hr.typed.has
  rw [Lower.shift]
  refine .body ht (.body ht' ?_)
  cases t with
  | int bits =>
    cases t' with
    | int countBits =>
      show Evals (if countBits < bits then _ else _) _ _
      rw [shiftedCount_bind]
      refine (shiftedCount_evals hopen hr ht ht').bind ?_
      rintro count g₁ hstep ⟨hcount, hbody, hmaps⟩
      refine shiftOpcode_evals hop hstep.opened fun opcode hshift hmeaning => ?_
      have ht₁ : g₁.types.body? lhs.type = some (.int bits) := TypeStore.body?_le hstep.types ht
      refine (push_evals hstep.opened (.shift hshift rfl ht₁ hbody) rfl
        (by simp [Operation.operands, hstep.seen hl, hcount]) ht₁ (by simp)).mono ?_
      rintro r g' hstep' ⟨hsees, _, _, hrun⟩
      refine ⟨hsees, fun _ s hc env calls x y hx hy => ?_⟩
      have hc₁ := hc.of_since hstep'.toSince
      have hxt : x.type = .int bits := hc₁.type_eq ht₁ hx
      obtain ⟨z, hz, env₁, hlead, hz₁⟩ := hmaps s hc₁ env calls y hy
      obtain ⟨b, hb, rfl⟩ := Option.map_eq_some_iff.mp hz
      have hx₁ := hlead.holds hl.typed hx
      refine ⟨_, hmeaning s x y bits b hxt hb, ?_⟩
      rw [hxt]
      refine (hrun s hc env₁ calls _ calls fun prev => ?_).after hlead hstep.builder
      rw [Scene.perform_binary hx₁ hz₁.read, hxt]
    | void | float | pointer | struct | pending => exact unsupportedBinary_evals hopen ⟨_, ht⟩
  | void | float | pointer | struct | pending => exact unsupportedBinary_evals hopen ⟨_, ht⟩

theorem intOpcode_kind {op : BinaryOp} {u : Bool} {opcode : Opcode}
    (hop : Lower.intOpcode? op u = some opcode) :
    opcode.isShift = false ∧ opcode.isFloat = false := by
  cases op <;> cases u <;> simp [Lower.intOpcode?] at hop <;> subst hop <;> exact ⟨rfl, rfl⟩

theorem floatOpcode_kind {op : BinaryOp} {opcode : Opcode}
    (hop : Lower.floatOpcode? op = some opcode) :
    opcode.isShift = false ∧ opcode.isFloat = true := by
  cases op <;> simp [Lower.floatOpcode?] at hop <;> subst hop <;> exact ⟨rfl, rfl⟩

theorem arithmetic_of_int {V : Type} (w : World V) {op : BinaryOp} {u : Bool} {opcode : Opcode}
    (hop : Lower.intOpcode? op u = some opcode) {x : Datum V} {bits : Nat}
    (hx : x.type = .int bits) (y : Datum V) :
    w.arithmetic op u x y = some ⟨w.interp.binary opcode x.type x.value y.value, x.type⟩ := by
  cases op <;> cases u <;> simp [Lower.intOpcode?] at hop <;> subst hop <;>
    simp [World.arithmetic, World.operation, hx]

theorem arithmetic_of_float {V : Type} (w : World V) {op : BinaryOp} {u : Bool} {opcode : Opcode}
    (hop : Lower.floatOpcode? op = some opcode) {x : Datum V} {kind : FloatKind}
    (hx : x.type = .float kind) (y : Datum V) :
    w.arithmetic op u x y = some ⟨w.interp.binary opcode x.type x.value y.value, x.type⟩ := by
  cases op <;> simp [Lower.floatOpcode?] at hop <;> subst hop <;>
    simp [World.arithmetic, World.operation, hx]

/-- `a &^ b` takes two instructions. -/
theorem andNot_evals {left : Mark} {bits : Nat} (hopen : g.Open g.cur) (hl : g.Sees lhs)
    (hr : g.Sees rhs) (hsame : lhs.type = rhs.type)
    (ht : g.types.body? lhs.type = some (.int bits)) :
    Evals (do
      let inverted ← Lower.push lhs.type (.binary .xor rhs (.ofConst (.int (-1)) lhs.type))
      Lower.push lhs.type (.binary .and lhs inverted)) g fun r g' => g'.Sees r ∧
        Joins g g' lhs rhs r fun w x y => w.arithmetic .andNot (w.unsigned left) x y := by
  have hones : g.Sees (.ofConst (.int (-1)) lhs.type) :=
    Draft.sees_const (Typing.proper_of_body? ht (by simp))
  have ht' : g.types.body? rhs.type = some (.int bits) := hsame ▸ ht
  have hinvert := arith_evals .xor hopen hr hones rfl hsame ht' rfl
  rw [← hsame] at hinvert
  refine hinvert.bind ?_
  rintro inverted g₁ hstep ⟨hsees, htype, hrun⟩
  have ht₁ : g₁.types.body? lhs.type = some (.int bits) := TypeStore.body?_le hstep.types ht
  refine (arith_evals .and hstep.opened (hstep.seen hl) hsees rfl htype ht₁ rfl).mono ?_
  rintro r g' hstep' ⟨hsees', _, hrun'⟩
  refine ⟨hsees', fun _ s hc env calls x y hx hy => ?_⟩
  have hc₁ := hc.of_since hstep'.toSince
  have hxt : x.type = .int bits := hc₁.type_eq ht₁ hx
  obtain ⟨env₁, hlead, hz₁⟩ := hrun s hc₁ env calls y _ hy (read_const (hc₁.body? ht₁))
  have hx₁ := hlead.holds hl.typed hx
  refine ⟨_, ?_, (hrun' s hc env₁ calls x _ hx₁ hz₁.read).after hlead hstep.builder⟩
  simp [World.arithmetic, World.operation, World.constant, hxt]

theorem arithmetic_evals (op : BinaryOp) (left : Mark) (span : Span)
    (hopen : g.Open g.cur) (hl : g.Sees lhs) (hr : g.Sees rhs) :
    Evals (Lower.arithmetic ctx.toContext op lhs rhs left span) g fun r g' => g'.Sees r ∧
      Joins g g' lhs rhs r fun w x y => w.arithmetic op (w.unsigned left) x y := by
  obtain ⟨t, ht⟩ := hl.typed.has
  rw [Lower.arithmetic]
  refine expectSameType_evals hopen ⟨t, ht⟩ hr.typed.has fun hsame => ?_
  refine .body ht ?_
  have hplain : ∀ opcode : Opcode, opcode.isShift = false →
      (if opcode.isFloat then t.isFloat = true else t.isInt = true) →
      (∀ {V : Type} (s : Scene ctx V) (x y : Datum V), x.type = t →
        s.world.arithmetic op (s.world.unsigned left) x y =
          some ⟨s.interp.binary opcode x.type x.value y.value, x.type⟩) →
      Evals (Lower.push lhs.type (.binary opcode lhs rhs)) g fun r g' => g'.Sees r ∧
        Joins g g' lhs rhs r fun w x y => w.arithmetic op (w.unsigned left) x y := by
    intro opcode hshift hkind hmeaning
    refine (arith_evals opcode hopen hl hr hshift hsame.symm ht hkind).mono ?_
    rintro r g' hstep ⟨hsees, _, hrun⟩
    refine ⟨hsees, fun _ s hc env calls x y hx hy => ?_⟩
    have hxt : x.type = t := (hc.of_since hstep.toSince).type_eq ht hx
    refine ⟨_, hmeaning s x y hxt, ?_⟩
    rw [hxt]
    exact hrun s hc env calls x y.value hx hy.read
  by_cases hi : t.isInt
  · rw [if_pos hi]
    obtain ⟨bits, rfl⟩ := Ty.isInt_iff.mp hi
    refine unsigned_evals hopen fun checked hchecked => ?_
    by_cases hnot : op = .andNot
    · subst hnot
      rw [if_pos rfl]
      exact andNot_evals hopen hl hr hsame ht
    · rw [if_neg hnot]
      cases hop : Lower.intOpcode? op (isUnsigned ctx.declared checked) with
      | none => exact unsupportedBinary_evals hopen ⟨_, ht⟩
      | some opcode =>
        obtain ⟨hshift, hkind⟩ := intOpcode_kind hop
        refine hplain opcode hshift (by simp [hkind, hi]) fun s x y hxt => ?_
        have hu : s.world.unsigned left = isUnsigned ctx.declared checked :=
          unsigned_eq hchecked
        rw [hu]
        exact arithmetic_of_int s.world hop hxt y
  · rw [if_neg hi]
    by_cases hf : t.isFloat
    · rw [if_pos hf]
      obtain ⟨kind, rfl⟩ := Ty.isFloat_iff.mp hf
      cases hop : Lower.floatOpcode? op with
      | none => exact unsupportedBinary_evals hopen ⟨_, ht⟩
      | some opcode =>
        obtain ⟨hshift, hkind⟩ := floatOpcode_kind hop
        exact hplain opcode hshift (by simp [hkind, hf])
          fun s x y hxt => arithmetic_of_float s.world hop hxt y
    · rw [if_neg hf]
      exact unsupportedBinary_evals hopen ⟨_, ht⟩

/-! ## Binary operators -/

/-- Finding a type may fail, but then nothing is left of it but more types. -/
theorem attempt_evals {m : Typing TypeId} (hopen : g.Open g.cur)
    (h : m.Adds g.types fun id types => types.Proper id) :
    Evals (Lower.typing (Typing.attempt m)) g fun id? g' =>
      (∀ id, id? = some id → g'.types.Has id) ∧ g'.builder = g.builder := by
  rcases h.cases with ⟨id, types, hrun, hle, hw, hid, _⟩ | ⟨f, types, hrun, hle, hw, htame⟩
  · refine .inl ⟨some id, g.grow types hle hw, ?_, .grow hopen hle hw, ?_, rfl⟩
    · rw [Lower.runOn_typing, Typing.runOn_attempt, hrun]
      rfl
    · intro id' hid'
      cases hid'
      exact hid.has
  · refine .inl ⟨none, g.grow types hle hw, ?_, .grow hopen hle hw, ?_, rfl⟩
    case refine_2 => intro id hid; cases hid
    rw [Lower.runOn_typing, Typing.runOn_attempt, hrun]
    cases f with
    | report e => rfl
    | abort u => rfl
    | breach b => exact htame.elim

/-- The type of a truth value always has one bit. -/
theorem boolType_evals (m : Mark) (hopen : g.Open g.cur) :
    Evals (Lower.boolType ctx.toContext m) g fun id g' =>
      g'.types.IsBool id ∧ g'.builder = g.builder := by
  have hbool : ∀ {g : Draft ctx}, g.Open g.cur →
      Evals (Lower.typing Typing.bool) g fun id g' =>
        g'.types.IsBool id ∧ g'.builder = g.builder :=
    fun {g} hopen => .typing hopen (Typing.bool_adds g.wf) fun _ _ _ _ hid _ => ⟨hid, rfl⟩
  rw [Lower.boolType]
  cases ctx.table.get? m.id with
  | none => exact hbool hopen
  | some t =>
    have htry : Evals
        (Lower.typing (Typing.attempt (Typing.ofChecked ctx.config.wordBits m.span t)))
        g fun id? g' => (∀ id, id? = some id → g'.types.Has id) ∧ g'.builder = g.builder :=
      attempt_evals hopen (Typing.ofChecked_adds ctx.config.wordBits m.span t g.wf)
    refine htry.bind ?_
    rintro id? g₁ hstep ⟨hhas, hb⟩
    cases id? with
    | none => exact (hbool hstep.opened).mono fun id g' _ h => ⟨h.1, h.2.trans hb⟩
    | some id =>
      obtain ⟨body, hbody⟩ := hhas id rfl
      refine .body hbody ?_
      by_cases hone : body.isBool
      · rw [if_pos hone]
        obtain rfl := Ty.isBool_iff.mp hone
        exact .pure hstep.opened ⟨hbody, hb⟩
      · rw [if_neg hone]
        exact (hbool hstep.opened).mono fun id g' _ h => ⟨h.1, h.2.trans hb⟩

theorem binary_evals (m : Mark) (op : BinaryOp) (left : Mark) (hopen : g.Open g.cur)
    (hl : g.Sees lhs) (hr : g.Sees rhs) :
    Evals (Lower.binary ctx.toContext m op left lhs rhs) g fun r g' => g'.Sees r ∧
      Joins g g' lhs rhs r fun w x y => w.binary op (w.unsigned left) x y := by
  rw [Lower.binary]
  by_cases hcomparison : op.isComparison
  · rw [if_pos hcomparison]
    refine unsigned_evals hopen fun checked hchecked => ?_
    refine (boolType_evals m hopen).bind ?_
    rintro result g₁ hstep ⟨hresult, hb⟩
    refine (compare_evals op _ m.span hstep.opened (hstep.seen hl) (hstep.seen hr) hresult).mono ?_
    rintro r g' _ ⟨hsees, _, hjoins⟩
    refine ⟨hsees, fun _ s hc env calls x y hx hy => ?_⟩
    have hu : s.world.unsigned left = isUnsigned ctx.declared checked := unsigned_eq hchecked
    obtain ⟨z, hz, hrun⟩ := hjoins.of_still hb s hc env calls x y hx hy
    refine ⟨z, ?_, hrun⟩
    show s.world.binary op (s.world.unsigned left) x y = some z
    rw [World.binary_of_comparison _ hcomparison, hu]
    exact hz
  · rw [if_neg hcomparison]
    by_cases hshift : op = .shl ∨ op = .shr
    · rw [if_pos hshift]
      refine (shift_evals op left m.span hshift hopen hl hr).mono ?_
      rintro r g' _ ⟨hsees, hjoins⟩
      refine ⟨hsees, fun _ s hc env calls x y hx hy => ?_⟩
      obtain ⟨z, hz, hrun⟩ := hjoins s hc env calls x y hx hy
      exact ⟨z, (World.binary_of_shift _ hshift _ x y).trans hz, hrun⟩
    · rw [if_neg hshift]
      refine (arithmetic_evals op left m.span hopen hl hr).mono ?_
      rintro r g' _ ⟨hsees, hjoins⟩
      refine ⟨hsees, fun _ s hc env calls x y hx hy => ?_⟩
      obtain ⟨z, hz, hrun⟩ := hjoins s hc env calls x y hx hy
      exact ⟨z, (World.binary_of_arithmetic _ hcomparison hshift _ x y).trans hz, hrun⟩

end Midend
