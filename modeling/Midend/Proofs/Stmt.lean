import Midend.Proofs.Loop
import Midend.Proofs.Return
import Midend.Proofs.Switch

/-!
# Midend.Proofs.Stmt

Lowering of whole statements, by induction on the statement.
-/

namespace Midend

open Ir

variable {ctx : FnContext} {g g' : Draft ctx}

namespace Stmt

mutual

/-- Control can fall off the end of the statement, as its form goes. Of the clauses of a switch
those after the first default clause do not count. What has no lowering rule does not matter. -/
def canFall : Stmt → Bool
  | .empty _ | .expr _ _ => true
  | .ret _ _ => false
  | .block _ body => canFallAll body
  | .ifElse _ init _ thenBranch elseBranch =>
    canFallOption init && (elseBranch.isNone || canFall thenBranch || canFallOption elseBranch)
  | .loop _ init cond _ _ => canFallOption init && cond.isSome
  | .switch _ init _ clauses =>
    canFallOption init && (!clauses.any Clause.isDefault || canFallClauses clauses)
  | .assign _ _ _ _ | .incDec _ _ _ | .jump _ _ _ | .varDecl _ _ _ | .labeled _ _ _ | .defer _ _
  | .go _ _ | .range _ _ _ => true

def canFallAll : List Stmt → Bool
  | [] => true
  | s :: rest => canFall s && canFallAll rest

def canFallOption : Option Stmt → Bool
  | none => true
  | some s => canFall s

/-- The body of a clause up to the first default clause can be fallen off. -/
def canFallClauses : List Clause → Bool
  | [] => false
  | .mk values body _ :: rest =>
    canFallAll body || (!values.isEmpty && canFallClauses rest)

end

theorem anyFalls_canFall (clauses : List Clause) :
    AnyFalls (fun c => canFallAll c.body = true) clauses ↔ canFallClauses clauses = true := by
  induction clauses with
  | nil => simp [AnyFalls, canFallClauses]
  | cons clause rest ih =>
    obtain ⟨values, body, span⟩ := clause
    rw [AnyFalls, canFallClauses, ih]
    simp [Clause.isDefault, Clause.values, Clause.body]

theorem unsupported_sound (u : Unsupported)
    {act : ∀ {V : Type}, Scene ctx V → Nat → Eval V (Outcome V)} {p : Prop} :
    Sound ctx (MonadExcept.throw (Fault.abort u)) act p := fun _ => .abort

theorem exprStmt_sound (e : Expr) :
    Sound ctx (do
      let _ ← Lower.build Build.ensureOpen
      let _ ← Lower.recover (e.lower ctx)) (fun s _ => do
        let _ ← e.eval s.world s.names
        return .normal) True := by
  intro g
  refine Does.ensureOpen fun g₁ hreopens => ?_
  refine (Does.of_evals (Evals.recover (Expr.lower_evals e g₁ hreopens.opened))).bind ?_
  rintro r g₂ - ⟨hstep, hr⟩
  cases r with
  | none => exact .pure (.of_errors hr)
  | some v =>
    refine .pure ⟨fun _ _ V s hc fuel env calls hfits => ?_, fun _ => hstep.falls⟩
    obtain ⟨x, calls₁, hx, env₁, hlead, _⟩ := hr.2 s hc env calls hfits
    exact ⟨.normal, calls₁, by simp [hx], hstep.opened, env₁, hlead⟩

variable {m₁ m₂ : Lower Unit} {act₁ act₂ : ∀ {V : Type}, Scene ctx V → Nat → Eval V (Outcome V)}
  {p q : Prop}

theorem sound_nothing : Sound ctx (return ()) (fun _ _ => return .normal) True :=
  fun g => .pure ⟨.still rfl fun _ _ _ => rfl, fun _ => .refl g⟩

theorem sound_andThen (h₁ : Sound ctx m₁ act₁ p) (h₂ : Sound ctx m₂ act₂ q) :
    Sound ctx (do m₁; m₂) (fun s fuel => andThen (act₁ s fuel) (act₂ s fuel)) (p ∧ q) := by
  intro g
  refine (h₁ g).bind ?_
  intro _ g₁ hstep hrenders
  refine (h₂ g₁).mono ?_
  intro _ g' hstep' hrenders'
  exact hrenders.andThen hstep.toLe hrenders' hstep'.toLe

mutual

theorem lower_sound (s : Stmt) :
    Sound ctx (s.lower ctx) (fun sc fuel => s.exec sc.world sc.names sc.ret fuel)
      (s.canFall = true) := by
  cases s with
  | block m body =>
    simp only [lower, exec, canFall]
    exact lowerAll_sound body
  | empty m =>
    simp only [lower, exec, canFall]
    exact Sound.congr sound_nothing (by simp)
  | expr m e =>
    simp only [lower, exec, canFall]
    exact Sound.congr (exprStmt_sound e) (by simp)
  | ifElse m init cond thenBranch elseBranch =>
    simp only [lower, exec, canFall, Bool.and_eq_true]
    refine sound_andThen (lowerOption_sound init) ?_
    have hthen := lower_sound thenBranch
    cases elseBranch with
    | none =>
      simp only [execOption]
      refine Sound.congr (p := True) (fun g => ?_) (by simp)
      exact ifElse_does cond fun g v hopen hv hbool => branch_none_does hopen hv hbool hthen
    | some s =>
      simp only [execOption]
      have helse := lower_sound s
      refine Sound.congr (fun g => ifElse_does cond fun g v hopen hv hbool =>
        branch_some_does hopen hv hbool hthen helse) (by simp [canFallOption])
  | loop m init cond post body =>
    simp only [lower, exec, canFall, Bool.and_eq_true]
    have hinit := lowerOption_sound init
    have hpost := lowerOption_sound post
    have hbody := lower_sound body
    intro g
    cases cond with
    | none => exact loop_does none hinit hbody hpost g
    | some cond => exact loop_does (some cond) hinit hbody hpost g
  | switch m init tag clauses =>
    have hinit := lowerOption_sound init
    have hclauses := lowerClauses_sound clauses
    have hfalls : (∀ c ∈ clauses, ¬ c.isDefault = true) ∨
        AnyFalls (fun c => canFallAll c.body = true) clauses ↔
          (!clauses.any Clause.isDefault || canFallClauses clauses) = true := by
      simp [anyFalls_canFall]
    simp only [canFall, Bool.and_eq_true]
    cases tag with
    | none =>
      simp only [lower, exec]
      refine sound_andThen hinit (Sound.congr (fun g => ?_) hfalls)
      exact switch_none_does g hclauses
    | some tag =>
      simp only [lower, exec]
      refine sound_andThen hinit (Sound.congr (fun g => ?_) hfalls)
      exact switch_some_does tag g hclauses
  | ret m results =>
    simp only [lower, exec, canFall]
    exact Sound.congr (fun g => returnStmt_does m.span results g) (by simp)
  | assign m lhs rhs define => exact unsupported_sound _
  | incDec m target inc => exact unsupported_sound _
  | jump m keyword label => exact unsupported_sound _
  | varDecl m names values => exact unsupported_sound _
  | labeled m label body => exact unsupported_sound _
  | defer m call => exact unsupported_sound _
  | go m call => exact unsupported_sound _
  | range m value body => exact unsupported_sound _

theorem lowerAll_sound (body : List Stmt) :
    Sound ctx (lowerAll ctx body) (fun sc fuel =>
      execAll sc.world sc.names sc.ret fuel body) (canFallAll body = true) := by
  cases body with
  | nil =>
    simp only [lowerAll, execAll, canFallAll]
    exact Sound.congr sound_nothing (by simp)
  | cons s rest =>
    simp only [lowerAll, execAll, canFallAll, Bool.and_eq_true]
    exact sound_andThen (lower_sound s) (lowerAll_sound rest)

theorem lowerOption_sound (s : Option Stmt) :
    Sound ctx (lowerOption ctx s) (fun sc fuel =>
      execOption sc.world sc.names sc.ret fuel s) (canFallOption s = true) := by
  cases s with
  | none =>
    simp only [lowerOption, execOption, canFallOption]
    exact Sound.congr sound_nothing (by simp)
  | some s =>
    simp only [lowerOption, execOption, canFallOption]
    exact lower_sound s

theorem lowerClauses_sound (clauses : List Clause) :
    ∀ c ∈ clauses, Sound ctx (lowerAll ctx c.body) (fun sc fuel =>
      execAll sc.world sc.names sc.ret fuel c.body) (canFallAll c.body = true) := by
  cases clauses with
  | nil => simp
  | cons clause rest =>
    obtain ⟨values, body, span⟩ := clause
    intro c hc
    rcases List.mem_cons.mp hc with rfl | hc
    · exact lowerAll_sound body
    · exact lowerClauses_sound rest c hc

end

end Stmt

end Midend
