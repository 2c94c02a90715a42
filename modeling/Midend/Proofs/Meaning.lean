import Midend.Proofs.Unit

/-!
# Midend.Proofs.Meaning

The code of a unit means what its source means (`SourceUnit.lower_implements`): if no error was
reported, every function makes the calls that its body makes and returns what its body returns, on
all arguments and whatever the called functions do.
-/

namespace Midend

open Ir

namespace SourceUnit

/-- The functions that a unit declares, with the signatures that are found in the store. -/
def functionsIn (wordBits : Nat) (types : TypeStore) (decls : List (FuncDecl × Span)) : Functions :=
  decls.filterMap fun d =>
    match (runOn (signatureOf wordBits d.1) types).1 with
    | .ok sig => some (d.1.name, sig)
    | .error _ => none

/-- What the function bodies of a unit mean something in. -/
def world {V : Type} (u : SourceUnit) (config : Config) (types : TypeStore) (interp : Interp V) :
    World V where
  config := config
  table := u.types
  declared := u.typeDecls.map fun d => (d.1.name, d.1.type)
  functions := functionsIn config.wordBits types u.funcDecls
  types := types
  interp := interp

theorem functionsIn_of_registers {wordBits : Nat} {types : TypeStore}
    {decls : List (FuncDecl × Span)} {functions : Functions}
    (h : List.Forall₂ (Registers wordBits types) decls functions) :
    functionsIn wordBits types decls = functions := by
  induction h with
  | nil => rfl
  | @cons d entry decls functions hd _ ih =>
    obtain ⟨name, sig⟩ := entry
    obtain ⟨rfl, hsigned⟩ : name = d.1.name ∧ SignedAs wordBits types d.1 sig := hd
    rw [functionsIn, List.filterMap_cons, hsigned.found types (TypeStore.le_refl _)]
    exact congrArg _ ih

theorem Lowers.context_eq {config : Config} {u : SourceUnit} {ctx : Context}
    {kept : List (FuncDecl × Span)} {m : Module} (h : Lowers config u ctx kept m []) {V : Type}
    (interp : Interp V) :
    ({ ctx with types := m.types, interp := interp } : World V) =
      u.world config m.types interp := by
  obtain ⟨hkept, hadmitted⟩ := h.complete rfl
  have hfunctions : functionsIn config.wordBits m.types u.funcDecls = ctx.functions :=
    functionsIn_of_registers (hkept ▸ h.registered)
  rw [h.context, world, hfunctions, declaredTypes, hadmitted]

/-- The function does what the declaration says, on all arguments and after all calls. -/
def Realizes (config : Config) (u : SourceUnit) (types : TypeStore) (decl : FuncDecl)
    (fn : Function) : Prop :=
  fn.name = decl.name ∧ fn.params.length = (Field.flatten decl.params).length ∧
    ∃ body, decl.body = some body ∧
      ∀ {V : Type} (interp : Interp V) (args : List V) (past : List (Call V)),
        args.length = fn.params.length →
          Implements ⟨fn, types, interp⟩ (u.world config types interp) decl body args past

/-- Lowering preserves meaning. The functions of a module that was lowered without an error are
those of the declarations that have a body, in their order. Each makes the same calls as its body,
in the same order and on the same arguments, and returns the same, or neither returns. -/
theorem lower_implements {config : Config} {u : SourceUnit} {m : Module}
    (h : u.lower config = (.ok m, [])) :
    List.Forall₂ (Realizes config u m.types)
      ((u.funcDecls.map Prod.fst).filter fun decl => decl.body.isSome) m.functions := by
  obtain ⟨ctx, kept, hlowers⟩ := lowers_of_lower h
  obtain rfl : kept = u.funcDecls := (hlowers.complete rfl).1
  have hsigned : ∀ decl ∈ (u.funcDecls.map Prod.fst).filter fun decl => decl.body.isSome,
      ∃ sig, ctx.functions.lookup decl.name = some sig ∧
        SignedAs config.wordBits m.types decl sig := by
    intro decl hdecl
    obtain ⟨d, hd, rfl⟩ := List.mem_map.mp (List.mem_filter.mp hdecl).1
    exact lookup_of_registered hlowers.registered hlowers.nodup hd
  refine ((List.forall₂_and_left _ _).mpr ⟨hsigned, hlowers.functions⟩).imp fun decl fn hfn => ?_
  obtain ⟨⟨sig, hsig, hsigned⟩, body, sig', b, hbody, hsig', rfl, hlowered, _, himplements⟩ := hfn
  obtain rfl : sig = sig' := Option.some.inj (hsig.symm.trans hsig')
  have hparams : b.finish.params.length = sig.params.length := hlowered.params
  refine ⟨hlowered.name, hparams.trans hsigned.length, body, hbody,
    fun interp args past hargs => ?_⟩
  rw [← hlowers.context_eq interp]
  exact himplements rfl m.types (TypeStore.le_refl _) interp args past (hargs.trans hparams)

theorem lower_implements_sample :
    ∃ m, sample.lower ⟨64, true⟩ = (.ok m, []) ∧ m.functions.length = 1 ∧
      List.Forall₂ (Realizes ⟨64, true⟩ sample m.types)
        ((sample.funcDecls.map Prod.fst).filter fun decl => decl.body.isSome) m.functions := by
  obtain ⟨m, hlower, hone⟩ := sample_lowers
  exact ⟨m, hlower, hone, lower_implements hlower⟩

end SourceUnit

end Midend
