import Midend.Ir.Text
import Midend.Proofs.SameCode

/-!
# Midend.Proofs.SameText

Functions whose code is the same but for the numbers of types have the same text
(`Function.Same.text`), as a type is written by its name or its body.
-/

namespace Midend
namespace Ir

open TypeStore

/-- Functions that have been built in the same way. -/
def Function.Same (s t : TypeStore) (f f' : Function) : Prop :=
  ∃ b b' : Builder, b.Same s t b' ∧ f = b.finish ∧ f' = b'.finish

/-- The texts are there, and they are the same. -/
def Written (a b : Option String) : Prop := ∃ text, a = some text ∧ b = some text

namespace Written

variable {a b a' b' : Option String}

theorem intro (text : String) : Written (some text) (some text) := ⟨text, rfl, rfl⟩

theorem bind (h : Written a b) {f g : String → Option String}
    (hf : ∀ text, Written (f text) (g text)) : Written (a >>= f) (b >>= g) := by
  obtain ⟨text, rfl, rfl⟩ := h
  exact hf text

theorem map (h : Written a b) (f : String → String) : Written (a.map f) (b.map f) := by
  obtain ⟨text, rfl, rfl⟩ := h
  exact .intro (f text)

theorem mapM_bind {α β : Type} {R : α → β → Prop} {xs : List α} {ys : List β}
    (h : List.Forall₂ R xs ys) {f : α → Option String} {g : β → Option String}
    (hfg : ∀ x y, R x y → Written (f x) (g y)) {k k' : List String → Option String}
    (hk : ∀ texts, Written (k texts) (k' texts)) :
    Written (xs.mapM f >>= k) (ys.mapM g >>= k') := by
  induction h generalizing k k' with
  | nil => exact hk []
  | cons hxy _ ih =>
    obtain ⟨text, hx, hy⟩ := hfg _ _ hxy
    simp only [List.mapM_cons, hx, hy, Option.bind_eq_bind, Option.bind_some, Option.bind_assoc,
      Option.pure_def]
    exact ih fun texts => hk (text :: texts)

end Written

variable {s t : TypeStore}

theorem TypeStore.Alike.written (hs : s.WF) (ht : t.WF) {i j : TypeId} (h : Alike s t i j) :
    Written (s.ref? i) (t.ref? j) := by
  obtain ⟨body, hbody⟩ := h.has_left
  obtain ⟨text, htext⟩ := ref?_isSome hs hbody
  exact ⟨text, htext, (h.ref?_eq hs ht).symm.trans htext⟩

namespace Function

section

variable {f f' : Function} (hs : s.WF) (ht : t.WF)
  (hlocal : ∀ id, f.localText id = f'.localText id)

include hlocal

theorem operandText_eq (o : Operand) : f.operandText o = f'.operandText o := by
  cases o with
  | «local» id => exact hlocal id
  | const c => rfl

include hs ht

theorem valueText_same {v v' : Value} (h : SameOperand s t v v') :
    Written (f.valueText? s v) (f'.valueText? t v') := by
  refine (h.type.written hs ht).bind fun type => ?_
  rw [operandText_eq hlocal, h.operand]
  exact .intro _

theorem valuesText_same {vs vs' : List Value} (h : List.Forall₂ (SameOperand s t) vs vs') :
    Written (f.valuesText? s vs) (f'.valuesText? t vs') :=
  .mapM_bind h (fun _ _ hv => valueText_same hs ht hlocal hv) fun _ => .intro _

theorem pairText_same {l l' r r' : Value} (hl : SameOperand s t l l') (hr : SameOperand s t r r') :
    Written (f.pairText? s l r) (f'.pairText? t l' r') := by
  refine (valueText_same hs ht hlocal hl).bind fun left => ?_
  rw [operandText_eq hlocal, hr.operand]
  exact .intro _

theorem operationText_same {i j : TypeId} (hij : Alike s t i j) {op op' : Operation}
    (h : op.Matches (SameOperand s t) Eq op') :
    Written (f.operationText? s i op) (f'.operationText? t j op') := by
  cases h with
  | binary op hl hr =>
    exact (pairText_same hs ht hlocal hl hr).bind fun _ => .intro _
  | icmp p hl hr =>
    exact (pairText_same hs ht hlocal hl hr).bind fun _ => .intro _
  | fcmp p hl hr =>
    exact (pairText_same hs ht hlocal hl hr).bind fun _ => .intro _
  | fneg hv => exact (valueText_same hs ht hlocal hv).bind fun _ => .intro _
  | cast op hv =>
    exact (valueText_same hs ht hlocal hv).bind fun _ => (hij.written hs ht).bind fun _ => .intro _
  | call g hvs =>
    exact (hij.written hs ht).bind fun _ =>
      (valuesText_same hs ht hlocal hvs).bind fun _ => .intro _
  | aggregate hvs =>
    exact (hij.written hs ht).bind fun _ =>
      (valuesText_same hs ht hlocal hvs).bind fun _ => .intro _
  | @phi es es' hes =>
    have hincoming : es.map f.incomingText = es'.map f'.incomingText := by
      induction hes with
      | nil => rfl
      | cons h _ ih =>
        simp only [List.map_cons, ih, incomingText, h.1.operand, h.2, operandText_eq hlocal]
    refine (hij.written hs ht).bind fun _ => ?_
    rw [hincoming]
    exact .intro _

theorem instText_same {inst inst' : Inst} (h : Inst.Same s t inst inst') :
    Written (f.instText? s inst) (f'.instText? t inst') := by
  refine (operationText_same hs ht hlocal h.type h.operation).bind fun operation => ?_
  rw [h.dst]
  cases inst'.dst with
  | some dst =>
    simp only [hlocal]
    exact .intro _
  | none => exact .intro _

theorem terminatorText_same {e e' : Terminator} (h : e.Matches (SameOperand s t) Eq e') :
    Written (f.terminatorText? s e) (f'.terminatorText? t e') := by
  cases h with
  | br hk =>
    subst hk
    exact .intro _
  | condBr hv hk hj =>
    subst hk hj
    exact (valueText_same hs ht hlocal hv).bind fun _ => .intro _
  | retNone => exact .intro _
  | retSome hv => exact (valueText_same hs ht hlocal hv).bind fun _ => .intro _
  | unreachable => exact .intro _

theorem blockText_same {blk blk' : Block} (h : Block.Same s t blk blk') :
    Written (f.blockText? s blk) (f'.blockText? t blk') := by
  have hend : Written (f.blockEndText? s blk.terminator) (f'.blockEndText? t blk'.terminator) := by
    cases hterm : blk.terminator with
    | none =>
      rw [h.terminator.none_left hterm]
      exact .intro _
    | some e =>
      obtain ⟨e', he', hmatch⟩ := h.terminator.some_left hterm
      rw [he']
      exact (terminatorText_same hs ht hlocal hmatch).map _
  refine .mapM_bind h.insts (fun _ _ hi => instText_same hs ht hlocal hi) fun texts => ?_
  rw [h.id]
  exact hend.bind fun _ => .intro _

end

end Function

theorem Builder.Same.blocks_toList {b b' : Builder} (h : b.Same s t b') :
    List.Forall₂ (Block.Same s t) b.blocks.toList b'.blocks.toList := by
  have hsize : b.blocks.size = b'.blocks.size := h.size
  refine List.forall₂_iff_get.mpr ⟨by simpa using hsize, fun i hi hi' => ?_⟩
  have hlt : i < b.blocks.size := by simpa using hi
  have hblk : b.block? ⟨i⟩ = some b.blocks[i] := Array.getElem?_eq_getElem hlt
  obtain ⟨blk', hblk', hsame⟩ := (h.blocks ⟨i⟩).some_left hblk
  obtain ⟨_, heq⟩ := Array.getElem?_eq_some_iff.mp (show b'.blocks[i]? = some blk' from hblk')
  simpa [heq] using hsame

/-- Functions that have been built in the same way are written in the same way. -/
theorem Function.Same.text {f f' : Function} (h : f.Same s t f') (hs : s.WF) (ht : t.WF) :
    Written (f.text? s) (f'.text? t) := by
  obtain ⟨b, b', hb, rfl, rfl⟩ := h
  have hlocal : ∀ id, b.finish.localText id = b'.finish.localText id := by
    intro id
    have hl : Option.Rel (Local.Same s t) (b.finish.local? id) (b'.finish.local? id) := hb.locals id
    unfold localText
    cases hid : b.finish.local? id with
    | none => rw [hl.none_left hid]
    | some l =>
      obtain ⟨l', hl', hsame⟩ := hl.some_left hid
      rw [hl', Option.bind_some, Option.bind_some, hsame.name]
  have hparam : ∀ id, Written (b.finish.paramText? s id) (b'.finish.paramText? t id) := by
    intro id
    have hl : Option.Rel (Local.Same s t) (b.finish.local? id) (b'.finish.local? id) := hb.locals id
    unfold paramText?
    rw [← hlocal]
    cases hid : b.finish.local? id with
    | none =>
      rw [hl.none_left hid]
      exact .intro _
    | some l =>
      obtain ⟨l', hl', hsame⟩ := hl.some_left hid
      rw [hl']
      exact (hsame.type.written hs ht).map _
  have hname : b.finish.name = b'.finish.name := hb.name
  have hparams : List.Forall₂ Eq b.finish.params b'.finish.params :=
    List.forall₂_eq_eq_eq ▸ hb.params
  refine (hb.ret.written hs ht).bind fun ret => ?_
  refine .mapM_bind hparams (fun i j hij => hij ▸ hparam i) fun params => ?_
  refine .mapM_bind hb.blocks_toList (fun _ _ hblk => blockText_same hs ht hlocal hblk)
    fun blocks => ?_
  rw [hname]
  exact .intro _

theorem Function.Same.grow {s' t' : TypeStore} {f f' : Function} (h : f.Same s t f')
    (hr : ∀ i j, Alike s t i j → Alike s' t' i j) : f.Same s' t' f' := by
  obtain ⟨b, b', hb, hf, hf'⟩ := h
  exact ⟨b, b', hb.grow hr, hf, hf'⟩

end Ir
end Midend
