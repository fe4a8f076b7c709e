import Anadil.Proofs.Tree.Enclosure

/-! # Where readers find fault

Every refusal is at a token that the parser was given, and names it; and every return of a program that is read
from tokens in order starts at one of them. -/

namespace Anadil

/-- A span starts where a token does. -/
structure Span.StartsAt (s : Span) (t : Token) : Prop where
  start : s.start = t.span.start
  line : s.line = t.span.line
  column : s.column = t.span.column

theorem Program.Stands.node {p : Program} {frames : List Frame} {s : Stmt} (h : p.Stands frames s) :
    (TreeNode.program p).Below (.stmt s) := by
  have hchild : ∀ {s s' : Stmt}, s' ∈ s.stmts → TreeNode.stmt s' ∈ (TreeNode.stmt s).children := fun hs =>
    List.mem_append_right _ (List.mem_map_of_mem hs)
  induction h with
  | top hs => exact .child .refl (List.mem_map_of_mem hs)
  | function _ hs ih => exact .child ih (hchild hs)
  | method _ hf hs ih => exact .child (.child ih (hchild (List.mem_map_of_mem hf))) (hchild hs)
  | loop _ hs ih => exact .child ih (hchild hs)
  | @branch frames span c body otherwise s _ hs ih =>
    cases otherwise with
    | none => exact .child ih (hchild hs)
    | some otherwise => exact .child ih (hchild (List.mem_append_left _ hs))
  | otherwise _ hs ih => exact .child ih (hchild (List.mem_append_right _ hs))

namespace Parser

/-- Tokens that make no program are refused at one of them, or at the end behind them. -/
theorem parse_refused {tokens : List Token} {r : Refusal} (h : parse tokens = .error (.refused r)) :
    ∃ t ∈ endBehind tokens :: tokens, r.At t := by
  have hprogram : ReadsAt (Cursor.ofTokens tokens) [] (Cursor.ofTokens tokens).token (program (fuelFor tokens))
      fun _ _ => True :=
    readsAt_peek fun _ => (readsAt_program (fun _ _ => True) (fun _ _ => trivial) _ _ _).bind
      fun _ _ _ _ => readsAt_pure trivial
  unfold parse run at h
  cases hrun : program (fuelFor tokens) (Cursor.ofTokens tokens) with
  | refused r' log =>
    rw [hrun] at h
    cases h
    obtain ⟨t, ht, hat⟩ := (hprogram _ (behind_ofTokens tokens) rfl).2 r log hrun
    exact ⟨t, List.cons_subset_cons _ (List.takeWhile_subset _) ht, hat⟩
  | ok p c => simp [hrun, Reply.result] at h
  | spent => simp [hrun, Reply.result] at h

theorem parse_return {tokens : List Token} {p : Program} (h : parse tokens = .ok p)
    (ho : InOrder (tokens.takeWhile (·.kind != .endOfInput))) {frames : List Frame} {span : Span}
    {value : Option Expr} (hret : p.Stands frames (.ret span value)) : ∃ t ∈ tokens, span.StartsAt t := by
  have hne : p.body ≠ [] := by
    intro hnil
    cases hret.node.eq_of_childless (by rw [TreeNode.children, hnil, List.map_nil])
  obtain ⟨core, hcore, hsits⟩ := parse_seated h ho hne
  obtain ⟨us, hus, hnode⟩ := hsits.descend hret.node
  obtain ⟨first, last, hfirst, -, hspan⟩ := hnode.over
  refine ⟨first, List.takeWhile_subset _ ((hus.trans hcore).subset (List.mem_of_head? hfirst)), ?_⟩
  rw [show span = _ from hspan]
  exact ⟨rfl, rfl, rfl⟩

end Parser

end Anadil
