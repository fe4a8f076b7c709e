import Anadil.Tree.Basic

/-! # Induction on trees

Trees hold lists of trees, so the inductions on them are stated once, with one hypothesis for all
members of a list. -/

namespace Anadil

theorem Expr.induct {P : Expr → Prop}
    (binary : ∀ span op l r, P l → P r → P (.binary span op l r))
    (unary : ∀ span op e, P e → P (.unary span op e))
    (call : ∀ span f args, P f → (∀ e ∈ args, P e) → P (.call span f args))
    (member : ∀ span o name, P o → P (.member span o name))
    (name : ∀ span n, P (.name span n))
    (self : ∀ span, P (.self span))
    (literal : ∀ span v, P (.literal span v))
    (absent : P .absent) (e : Expr) : P e :=
  @Expr.rec P (fun es => ∀ e ∈ es, P e) binary unary call member name self literal absent
    (List.forall_mem_nil _) (fun _ _ hd tl => List.forall_mem_cons.mpr ⟨hd, tl⟩) e

/-- Induction on statements, through functions, classes, branches and loops. -/
theorem Stmt.induct {P : Stmt → Prop}
    (function : ∀ f : Function Stmt, (∀ s ∈ f.body, P s) → P (.function f))
    (classDef : ∀ span name methods, (∀ f ∈ methods, ∀ s ∈ f.body, P s) → P (.classDef span name methods))
    (branch : ∀ span c body, (∀ s ∈ body, P s) → P (.branch span c body none))
    (branchElse : ∀ span c body otherwise, (∀ s ∈ body, P s) → (∀ s ∈ otherwise, P s) →
      P (.branch span c body (some otherwise)))
    (loop : ∀ span c body, (∀ s ∈ body, P s) → P (.loop span c body))
    (ret : ∀ span value, P (.ret span value))
    (print : ∀ span e, P (.print span e))
    (expression : ∀ span e, P (.expression span e))
    (assign : ∀ span target e, P (.assign span target e))
    (breakLoop : ∀ span, P (.breakLoop span))
    (continueLoop : ∀ span, P (.continueLoop span))
    (absent : P .absent) (s : Stmt) : P s :=
  @Stmt.rec P (fun f => ∀ s ∈ f.body, P s) (fun fs => ∀ f ∈ fs, ∀ s ∈ f.body, P s)
    (fun ss => ∀ s ∈ ss, P s) (fun o => ∀ ss, o = some ss → ∀ s ∈ ss, P s)
    function classDef
    (fun span c body otherwise hbody hotherwise =>
      match otherwise, hotherwise with
      | none, _ => branch span c body hbody
      | some ss, h => branchElse span c body ss hbody (h ss rfl))
    loop ret print expression assign breakLoop continueLoop absent
    (fun _ _ _ _ hbody => hbody)
    (List.forall_mem_nil _) (fun _ _ hd tl => List.forall_mem_cons.mpr ⟨hd, tl⟩)
    (List.forall_mem_nil _) (fun _ _ hd tl => List.forall_mem_cons.mpr ⟨hd, tl⟩)
    (fun _ h => absurd h (by simp))
    (fun _ h _ heq => Option.some.inj heq ▸ h) s

end Anadil
