import Anadil.Proofs.Outcome
import Anadil.Proofs.Token.Slices
import Anadil.Proofs.Token.Stops
import Anadil.Proofs.Translation
import Anadil.Proofs.Tree.Standalone

/-! # Exact spans

The spans of a program say where its parts stand in the source: they are nested as the nodes are, and in the
order in which a walk meets these, and the stretch of an expression, read by itself, is that expression. -/

namespace Anadil

open Anadil.Parser

/-! ### Tokens of a source -/

/-- The text behind a byte order mark is the one that its bytes write, if it has tokens. -/
theorem ofBytes_withoutMark {bytes : List UInt8} {tokens : List Token}
    (h : tokenize (withoutMark (.ofBytes bytes)) = .ok tokens) :
    Text.ofBytes (withoutMark (.ofBytes bytes)).bytes = withoutMark (.ofBytes bytes) := by
  have hclean : Text.StartsClean (withoutMark (.ofBytes bytes)) := by
    have hcovers : Lexer.Covers [] _ _ := (tokenize_eq_ok_iff.mp h).covers rfl
    rw [Cell.join_ofText] at hcovers
    exact hcovers.startsClean
  rcases mark_cases (.ofBytes bytes) with ⟨hnone, -⟩ | hmark
  · rw [hnone, Text.bytes_ofBytes]
  · exact (Text.ofBytes_parts hmark hclean).2

/-! ### Expressions read by themselves -/

/-- An expression without `bu` that sits on tokens of a source is read again from its stretch of the bytes. -/
theorem parseSource_stretch {source : Text} {pre us post : List Token} {e : Expr}
    (hsource : Text.ofBytes source.bytes = source) (h : tokenize source = .ok (pre ++ (us ++ post)))
    (hpost : post ≠ []) (hus : ∀ t ∈ us, t.kind ≠ .endOfInput)
    (hsits : (TreeNode.expr e).Sits (Whole fun _ _ => True) us) (hself : e.usesSelf = false) :
    ∃ span s e', parseSource (.ofBytes (e.span.bytes source.bytes)) = .ok ⟨span, [.expression s e']⟩ ∧
      e'.bare = e.bare := by
  obtain ⟨first, last, hfirst, hlast, hspan⟩ := hsits.over
  obtain ⟨before, mid, rest, tokens, rfl, hstart, hstop, hclean, hclean', htokens, hwords⟩ :=
    tokenize_slice h hpost hfirst hlast
  have hbytes : e.span.bytes (before ++ (mid ++ rest)).bytes = mid.bytes := by
    refine Lexer.bytes_between rfl ?_ ?_
    · rw [show e.span = _ from hspan, ← hstart]
      rfl
    · rw [show e.span = _ from hspan, ← hstop]
      rfl
  have hmid : Text.ofBytes mid.bytes = mid :=
    (Text.ofBytes_parts (Text.ofBytes_parts hsource hclean).2 hclean').1
  -- the tokens of the stretch say the words that the expression was read from
  obtain ⟨init, _, rfl, hinit, hend⟩ := List.map_eq_append_iff.mp hwords
  obtain ⟨end', rfl, hword⟩ := List.map_eq_singleton_iff.mp hend
  have hkinds : ∀ t ∈ init, t.kind ≠ .endOfInput := by
    intro t ht hk
    have hmem : t.word ∈ us.map Token.word := hinit ▸ List.mem_map_of_mem ht
    obtain ⟨u, hu, hword⟩ := List.mem_map.mp hmem
    exact hus u hu ((congrArg Prod.fst hword).trans hk)
  have hinput := input_append hkinds (congrArg Prod.fst hword)
  have halone : Alone Context.top .or e
      (((init ++ [end']).takeWhile (·.kind != .endOfInput)).map Token.word) := by
    rw [hinput, hinit]
    exact hsits.expr.alone hself
  obtain ⟨span, s, e', hparse, hbare⟩ := halone.parse
  refine ⟨span, s, e', ?_, hbare⟩
  simp only [parseSource, bind_eq_ok, mapError_eq_ok]
  rw [hbytes, hmid, withoutMark_eq htokens]
  exact ⟨_, htokens, hparse⟩

/-! ### Programs -/

/-- The spans of a program are those of its parts in a source. -/
structure Program.Exact (p : Program) (source : List UInt8) : Prop where
  inside : 0 ≤ p.span.start ∧ p.span.start ≤ p.span.stop ∧ p.span.stop ≤ source.length
  /-- A node lies within the one above it, and is not empty. -/
  within : ∀ n m, (TreeNode.program p).Below n → m ∈ n.children →
    n.span.start ≤ m.span.start ∧ m.span.start < m.span.stop ∧ m.span.stop ≤ n.span.stop
  /-- Nodes right below the same one stand one behind the other. -/
  apart : ∀ n, (TreeNode.program p).Below n → n.children.Pairwise fun a b => a.span.stop ≤ b.span.start
  /-- A walk meets nodes by their starts, whichever it goes below. -/
  visits : ∀ enter, (p.nodes enter).Pairwise fun x y => x.2.start ≤ y.2.start
  /-- The stretch of an expression without `bu` is that expression, up to spans. -/
  reread : ∀ e, (TreeNode.program p).Below (.expr e) → e.usesSelf = false →
    ∃ span s e', parseSource (.ofBytes (e.span.bytes source)) = .ok ⟨span, [.expression s e']⟩ ∧ e'.bare = e.bare

theorem Program.exact_of_empty {p : Program} {source : List UInt8} (hbody : p.body = [])
    (hinside : 0 ≤ p.span.start ∧ p.span.start ≤ p.span.stop ∧ p.span.stop ≤ source.length) : p.Exact source := by
  have hnone : (TreeNode.program p).children = [] := by rw [TreeNode.children, hbody, List.map_nil]
  have hroot : ∀ n, (TreeNode.program p).Below n → n = .program p := fun n h => h.eq_of_childless hnone
  refine ⟨hinside, fun n m h hm => ?_, fun n h => ?_, fun enter => ?_, fun e h => ?_⟩
  · rw [hroot n h, hnone] at hm
    cases hm
  · rw [hroot n h, hnone]
    exact .nil
  · rw [Program.nodes, hbody, visit]
    split <;> exact List.pairwise_singleton _ _
  · cases hroot _ h

/-- Every program that is read from a source has exact spans in the source behind its byte order mark. -/
theorem parseSource_exact {bytes : List UInt8} {p : Program} (h : parseSource (.ofBytes bytes) = .ok p) :
    p.Exact (withoutMark (.ofBytes bytes)).bytes := by
  simp only [parseSource, bind_eq_ok, mapError_eq_ok] at h
  obtain ⟨tokens, htokens, hparse⟩ := h
  have hsource := ofBytes_withoutMark htokens
  generalize withoutMark (.ofBytes bytes) = source at htokens hsource
  obtain ⟨init, last, rfl, hlast, hinit⟩ := (tokenize_eq_ok_iff.mp htokens).last
  have hbounds := tokenize_bounds htokens
  have hinput := input_append hinit hlast
  have ho := tokenize_inOrder htokens
  by_cases hbody : p.body = []
  · obtain ⟨c, -, hspan⟩ := parse_eq_ok hparse
    refine Program.exact_of_empty hbody ?_
    rw [hspan, hbody]
    have hend : endBehind (init ++ [last]) = last := by
      rw [endBehind, List.getLast?_concat]
      simp [hlast]
    have hmem : (Cursor.ofTokens (init ++ [last])).token ∈ last :: init := by
      have hmem := (behind_ofTokens (init ++ [last])).token_mem
      simpa only [Cursor.ofTokens, hinput, hend] using hmem
    exact hbounds _ (List.perm_append_singleton last init |>.mem_iff.mpr hmem)
  obtain ⟨core, hcore, hsits⟩ := parse_seated hparse ho hbody
  rw [hinput] at ho hcore
  have ho' := ho.sublist hcore.sublist
  refine ⟨?_, fun n m hn hm => ?_, fun n hn => ?_, fun enter => (hsits.walk ho' enter).2, fun e he hself => ?_⟩
  · obtain ⟨t, ht, u, hu, hstart, hstop⟩ := hsits.over.ends
    have hsolid := hsits.over.solid ho'
    have hfirst := hbounds t (List.mem_append_left _ (hcore.subset ht))
    have hend := hbounds u (List.mem_append_left _ (hcore.subset hu))
    have hstart : p.span.start = t.span.start := hstart
    have hstop : p.span.stop = u.span.stop := hstop
    have hsolid : p.span.start < p.span.stop := hsolid
    omega
  · obtain ⟨us, hus, hn⟩ := hsits.descend hn
    exact hn.within (ho'.sublist hus.sublist) hm
  · obtain ⟨us, hus, hn⟩ := hsits.descend hn
    exact hn.children.apart (ho'.sublist hus.sublist)
  · obtain ⟨us, hus, he⟩ := hsits.descend he
    obtain ⟨pre, post, rfl⟩ := hus.trans hcore
    rw [List.append_assoc, List.append_assoc] at htokens
    refine parseSource_stretch hsource htokens (by simp) (fun t ht => hinit t ?_) he hself
    exact List.mem_append_left _ (List.mem_append_right _ ht)

/-- A byte order mark, a letter of two bytes, and parentheses that the sum in them does not count. -/
def markedProduct : List UInt8 := Text.bytes "\uFEFFş = (a + 1) * f(\"ğ\")\n"

/-- The nodes of the marked source with their spans, in order. -/
def markedNodes : List (NodeKind × Span) := [
  (.program, ⟨0, 22, 1, 1⟩), (.assignment, ⟨0, 22, 1, 1⟩), (.identifier, ⟨0, 2, 1, 1⟩), (.binary, ⟨5, 22, 1, 5⟩),
  (.binary, ⟨6, 11, 1, 6⟩), (.identifier, ⟨6, 7, 1, 6⟩), (.literal, ⟨10, 11, 1, 10⟩), (.call, ⟨15, 22, 1, 15⟩),
  (.identifier, ⟨15, 16, 1, 15⟩), (.literal, ⟨17, 21, 1, 17⟩)]

theorem parseSource_exact_markedProduct :
    ∃ p, parseSource (.ofBytes markedProduct) = .ok p ∧ p.nodes (fun _ => true) = markedNodes ∧
      p.Exact (withoutMark (.ofBytes markedProduct)).bytes := by
  have hrun : (parseSource (.ofBytes markedProduct)).toOption.map (·.nodes fun _ => true) = some markedNodes := by
    decide +kernel
  obtain ⟨p, hp, hnodes⟩ := Option.map_eq_some_iff.mp hrun
  have hp := toOption_eq_some.mp hp
  exact ⟨p, hp, hnodes, parseSource_exact hp⟩

end Anadil
