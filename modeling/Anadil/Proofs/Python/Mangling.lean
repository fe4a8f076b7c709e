import Anadil.Proofs.Python.Spelling

/-! # Private names

The source knows no rule for names in classes. So the uses of a variable, which are one for the source, are one for
Python as well exactly if its name is not private or all of them stand in classes of one name (`names_survive_iff`).
This holds where no two names come to be spelled alike; where they do, a function may catch a name that is not its
own. -/

namespace Anadil.Python

open Scoping (Site)

/-! ### Spots -/

/-- Where names are used: in the module, or in a function with those around it. -/
abbrev Spot := List Site

namespace Spot

/-- The class around a spot, if any. -/
def cls : Spot → Option Text
  | [] => none
  | site :: _ => site.cls

/-- The names that are written in a spot. -/
def names (module : List Stmt) : Spot → List Text
  | [] => Scoping.namesAll module
  | site :: _ => site.frame.head ++ Scoping.namesAll site.frame.body

/-- The scope whose variable a name is in a spot, by the rule of the source. -/
def scope (module : List Stmt) (F : Spot) (x : Text) : Spot :=
  F.drop (F.length - Scoping.owner module (F.map Site.frame) x)

/-- A name as a spot means it. -/
def spell (F : Spot) (x : Text) : Text := mangle (cls F) x

/-- The variable that Python takes a name in a spot for: the scope, and the name as it is taken. -/
def meaning (style : Style) (module : List Stmt) (F : Spot) (x : Text) : Option (List Frame × Text) :=
  (owner (mangledChain style module F) (spell F x)).map fun n =>
    ((mangledChain style module F).drop (F.length - n), spell F x)

/-- No function around binds another name that is spelled as the name is in the spot. -/
def Clear (F : Spot) (x : Text) : Prop :=
  ∀ site ∈ F, ∀ y ∈ site.frame.bound, mangle site.cls y = spell F x → y = x

instance (F : Spot) (x : Text) : Decidable (Clear F x) := inferInstanceAs (Decidable (∀ _ ∈ _, _))

section Scopes
variable {style : Style} {module : List Stmt} {x : Text}

theorem owner_le (module : List Stmt) (chain : List Scoping.Frame) (x : Text) :
    Scoping.owner module chain x ≤ chain.length := by
  induction chain with
  | nil => exact Nat.le_refl 0
  | cons f outer ih =>
    rw [Scoping.owner]
    split
    · exact Nat.le_refl _
    · exact Nat.le_succ_of_le ih

/-- A name is a function's own by the rule of the source. -/
def Keeps (module : List Stmt) (site : Site) (outer : Spot) (x : Text) : Prop :=
  site.frame.Owns x ∨ (Scoping.Assigned site.frame.body x ∧ ¬Scoping.Bound module (outer.map Site.frame) x)

section Keeps
variable {site : Site} {outer : Spot}

theorem owner_of_keeps (h : Keeps module site outer x) :
    Scoping.owner module ((site :: outer).map Site.frame) x = outer.length + 1 := by
  unfold Keeps at h
  rw [List.map_cons, Scoping.owner, if_pos h, List.length_map]

theorem owner_of_not_keeps (h : ¬Keeps module site outer x) :
    Scoping.owner module ((site :: outer).map Site.frame) x = Scoping.owner module (outer.map Site.frame) x := by
  unfold Keeps at h
  rw [List.map_cons, Scoping.owner, if_neg h]

theorem scope_of_keeps (h : Keeps module site outer x) : scope module (site :: outer) x = site :: outer := by
  rw [scope, owner_of_keeps h, List.length_cons, Nat.sub_self, List.drop_zero]

theorem scope_of_not_keeps (h : ¬Keeps module site outer x) :
    scope module (site :: outer) x = scope module outer x := by
  have hle := owner_le module (outer.map Site.frame) x
  rw [List.length_map] at hle
  rw [scope, scope, owner_of_not_keeps h, List.length_cons, Nat.succ_sub hle, List.drop_succ_cons]

end Keeps

theorem length_mangledChain (F : Spot) : (mangledChain style module F).length = F.length := by
  induction F with
  | nil => rfl
  | cons site outer ih => rw [mangledChain, List.length_cons, List.length_cons, ih]

theorem drop_mangledChain (F : Spot) (n : Nat) :
    (mangledChain style module F).drop n = mangledChain style module (F.drop n) := by
  induction n generalizing F with
  | zero => rfl
  | succ n ih =>
    cases F with
    | nil => rfl
    | cons site outer => exact ih outer

end Scopes

end Spot

/-! ### Resolution of spelled names -/

section Resolution
variable {style : Style} {module : List Stmt} {outer : Spot} {site : Site} {x y : Text}

section Spelled
variable (hclear : ∀ z, site.frame.Binds z → mangle site.cls z = y → z = x)
include hclear

theorem spelled_binds {scopes : List Scope} : ((Frame.of style scopes site.frame).mangled site.cls).Binds y ↔
    site.frame.Binds x ∧ mangle site.cls x = y := by
  simp only [Frame.mangled_binds, of_binds]
  exact ⟨fun ⟨z, hz, hy⟩ => hclear z hz hy ▸ ⟨hz, hy⟩, fun h => ⟨x, h⟩⟩

theorem spelled_global {scopes : List Scope} : ((Frame.of style scopes site.frame).mangled site.cls).Global y ↔
    (Frame.of style scopes site.frame).Global x ∧ mangle site.cls x = y := by
  rw [Frame.mangled_global]
  exact ⟨fun ⟨z, hz, hy⟩ => hclear z (.inr (of_global.mp hz).1) hy ▸ ⟨hz, hy⟩, fun h => ⟨x, h⟩⟩

theorem spelled_nonlocal {scopes : List Scope} : ((Frame.of style scopes site.frame).mangled site.cls).Nonlocal y ↔
    (Frame.of style scopes site.frame).Nonlocal x ∧ mangle site.cls x = y := by
  rw [Frame.mangled_nonlocal]
  exact ⟨fun ⟨z, hz, hy⟩ => hclear z (.inr (of_nonlocal.mp hz).1) hy ▸ ⟨hz, hy⟩, fun h => ⟨x, h⟩⟩

end Spelled

/-- A name that Python takes as `y` is the variable of the same scope by both rules. -/
structure Resolved (style : Style) (module : List Stmt) (F : Spot) (x y : Text) : Prop where
  owner : owner (mangledChain style module F) y = some (Scoping.owner module (F.map Site.frame) x)
  nearest : 0 < Scoping.owner module (F.map Site.frame) x →
    nearest (mangledChain style module F) y = some (Scoping.owner module (F.map Site.frame) x)

theorem nearest_pos {chain : List Frame} {n : Nat} (h : nearest chain x = some n) : 0 < n := by
  induction chain with
  | nil => cases h
  | cons f outer ih =>
    rw [nearest] at h
    split at h
    · exact Option.some.inj h ▸ Nat.succ_pos _
    · exact ih h

namespace Resolved

/-- A name that is the function's own: it is bound there as it is spelled, and not declared. -/
theorem own (hb : ((Frame.of style (scopesOf module (outer.map Site.frame)) site.frame).mangled site.cls).Binds y)
    (hg : ¬((Frame.of style (scopesOf module (outer.map Site.frame)) site.frame).mangled site.cls).Global y)
    (hn : ¬((Frame.of style (scopesOf module (outer.map Site.frame)) site.frame).mangled site.cls).Nonlocal y)
    (hown : Spot.Keeps module site outer x) : Resolved style module (site :: outer) x y := by
  have howner := Spot.owner_of_keeps hown
  have hlen := @Spot.length_mangledChain style module outer
  refine ⟨?_, fun _ => ?_⟩
  · rw [mangledChain, Python.owner, if_neg hg, if_neg hn, if_pos hb, howner, hlen]
  · rw [mangledChain, Python.nearest, if_pos ⟨hb, hg, hn⟩, howner, hlen]

/-- A name that is declared as it is spelled: it is what it is around the function. -/
theorem declared (ih : Resolved style module outer x y)
    (around : Agrees style module (outer.map Site.frame) x)
    (hclear : ∀ z, site.frame.Binds z → mangle site.cls z = y → z = x) (hspell : mangle site.cls x = y)
    (hassigned : Scoping.Assigned site.frame.body x)
    (hown : ¬(x ∈ site.frame.params ∨ Scoping.Defined site.frame.body x))
    (hbound : Scoping.Bound module (outer.map Site.frame) x) (hkeeps : ¬Spot.Keeps module site outer x) :
    Resolved style module (site :: outer) x y := by
  have howner := Spot.owner_of_not_keeps hkeeps
  cases hd : Scope.lookup x (scopesOf module (outer.map Site.frame)) with
  | none => exact absurd hbound (around.unbound.mp hd)
  | some d =>
    cases d with
    | global =>
      have hzero := around.global hd
      have hg := (@spelled_global style _ x y hclear _).mpr ⟨of_global.mpr ⟨hassigned, hown, hd⟩, hspell⟩
      refine ⟨?_, fun hpos => ?_⟩
      · rw [mangledChain, Python.owner, if_pos hg, howner, hzero]
      · rw [howner, hzero] at hpos
        cases hpos
    | nonlocal =>
      have hnearest := ih.nearest (nearest_pos (around.nonlocal hd))
      have hn := (@spelled_nonlocal style _ x y hclear _).mpr ⟨of_nonlocal.mpr ⟨hassigned, hown, hd⟩, hspell⟩
      have hg := mt (@spelled_global style _ x y hclear _).mp fun h => by
        have hglobal := (of_global.mp h.1).2.2
        rw [hd] at hglobal
        cases hglobal
      refine ⟨?_, fun _ => ?_⟩
      · rw [mangledChain, Python.owner, if_neg hg, if_pos hn, howner, hnearest]
      · rw [mangledChain, Python.nearest, if_neg fun h => h.2.2 hn, howner, hnearest]

/-- A name that the function does not bind as it is spelled: it is what it is around the function. -/
theorem pass (ih : Resolved style module outer x y)
    (hclear : ∀ z, site.frame.Binds z → mangle site.cls z = y → z = x)
    (hfree : ¬(Scoping.Assigned site.frame.body x ∧ mangle site.cls x = y))
    (hkeeps : ¬Spot.Keeps module site outer x) : Resolved style module (site :: outer) x y := by
  have howner := Spot.owner_of_not_keeps hkeeps
  have hb := mt (@spelled_binds style _ x y hclear (scopesOf module (outer.map Site.frame))).mp fun h =>
    h.1.elim (fun hx => hkeeps (.inl hx)) fun hx => hfree ⟨hx, h.2⟩
  have hg := mt (@spelled_global style _ x y hclear (scopesOf module (outer.map Site.frame))).mp fun h =>
    hfree ⟨(of_global.mp h.1).1, h.2⟩
  have hn := mt (@spelled_nonlocal style _ x y hclear (scopesOf module (outer.map Site.frame))).mp fun h =>
    hfree ⟨(of_nonlocal.mp h.1).1, h.2⟩
  refine ⟨?_, fun hpos => ?_⟩
  · rw [mangledChain, Python.owner, if_neg hg, if_neg hn, if_neg hb, howner, ih.owner]
  · rw [howner] at hpos ⊢
    rw [mangledChain, Python.nearest, if_neg fun h => hb h.1, ih.nearest hpos]

end Resolved

/-- The receiver apart, a name is the variable of the same scope by both rules if it is spelled as the scope spells
it, where the scope is a function, and no function takes it for another name. -/
theorem resolved {F : Spot} (hself : ∀ site ∈ F, site.frame.isMethod = true → x ≠ ("self" : Text))
    (hclear : ∀ site ∈ F, ∀ z, site.frame.Binds z → mangle site.cls z = y → z = x)
    (hspell : Spot.scope module F x ≠ [] → Spot.spell (Spot.scope module F x) x = y) :
    Resolved style module F x y := by
  induction F with
  | nil => exact ⟨rfl, fun h => absurd h (Nat.lt_irrefl 0)⟩
  | cons site outer ih =>
    obtain ⟨hmethod, hself⟩ := List.forall_mem_cons.mp hself
    obtain ⟨hclear, houter⟩ := List.forall_mem_cons.mp hclear
    have around : Agrees style module (outer.map Site.frame) x := agrees fun f hf => by
      obtain ⟨site, hsite, rfl⟩ := List.mem_map.mp hf
      exact hself site hsite
    have howns : site.frame.Owns x ↔ x ∈ site.frame.params ∨ Scoping.Defined site.frame.body x := by
      simp only [Scoping.Frame.Owns]
      grind
    by_cases hown : Spot.Keeps module site outer x
    · rw [Spot.scope_of_keeps hown] at hspell
      have hy : mangle site.cls x = y := hspell (List.cons_ne_nil _ _)
      -- what is the function's own is not declared: it is defined there, or bound nowhere around
      have hundeclared : ∀ d, ¬(¬(x ∈ site.frame.params ∨ Scoping.Defined site.frame.body x) ∧
          Scope.lookup x (scopesOf module (outer.map Site.frame)) = some d) := by
        rintro d ⟨hforeign, hd⟩
        rcases hown with hown | ⟨-, hunbound⟩
        · exact hforeign (howns.mp hown)
        · rw [around.unbound.mpr hunbound] at hd
          cases hd
      exact .own ((spelled_binds hclear).mpr ⟨hown.imp_right And.left, hy⟩)
        (fun h => hundeclared _ (of_global.mp ((spelled_global hclear).mp h).1).2)
        (fun h => hundeclared _ (of_nonlocal.mp ((spelled_nonlocal hclear).mp h).1).2) hown
    · have ih : Resolved style module outer x y := ih hself houter (Spot.scope_of_not_keeps hown ▸ hspell)
      obtain ⟨hforeign, hbound⟩ := not_or.mp hown
      by_cases hassigned : Scoping.Assigned site.frame.body x ∧ mangle site.cls x = y
      · exact ih.declared around hclear hassigned.2 hassigned.1 (mt howns.mpr hforeign)
          (Decidable.not_not.mp fun h => hbound ⟨hassigned.1, h⟩) hown
      · exact ih.pass hclear hassigned hown

/-- Python takes a name that it leaves as it is for what it was without classes. -/
theorem mangledChain_plain (hx : isPrivate x = false) {F : Spot}
    (hclear : ∀ site ∈ F, ∀ z, site.frame.Binds z → mangle site.cls z = x → z = x) :
    nearest (mangledChain style module F) x = nearest (chainOf style module (F.map Site.frame)) x ∧
      owner (mangledChain style module F) x = owner (chainOf style module (F.map Site.frame)) x := by
  induction F with
  | nil => exact ⟨rfl, rfl⟩
  | cons site outer ih =>
    obtain ⟨hclear, houter⟩ := List.forall_mem_cons.mp hclear
    have hb := @spelled_binds style site x x hclear (scopesOf module (outer.map Site.frame))
    have hg := @spelled_global style site x x hclear (scopesOf module (outer.map Site.frame))
    have hn := @spelled_nonlocal style site x x hclear (scopesOf module (outer.map Site.frame))
    simp only [mangle_of_plain hx, and_true] at hb hg hn
    simp only [mangledChain, List.map_cons, chainOf, nearest, owner, hb, hg, hn, of_binds, ih houter,
      Spot.length_mangledChain, length_chainOf, List.length_map, and_self]

end Resolution

namespace Spot

section Meaning
variable {style : Style} {module : List Stmt} {F : Spot} {x : Text}

theorem owner_spell (hguarded : Guarded (F.map Site.frame)) (hclear : Clear F x)
    (hspell : scope module F x ≠ [] → spell (scope module F x) x = spell F x) :
    owner (mangledChain style module F) (spell F x) = some (Scoping.owner module (F.map Site.frame) x) := by
  have hclear : ∀ site ∈ F, ∀ z, site.frame.Binds z → mangle site.cls z = spell F x → z = x :=
    fun site hsite z hz => hclear site hsite z (Scoping.Frame.mem_bound.mpr hz)
  by_cases hself : InMethod (F.map Site.frame) ∧ x = ("self" : Text)
  · obtain ⟨hmethod, rfl⟩ := hself
    have hplain : spell F "self" = "self" := mangle_of_plain rfl _
    rw [hplain] at hclear ⊢
    rw [(mangledChain_plain rfl hclear).2, owner_self hguarded hmethod]
  · exact (resolved (fun site hsite hm hx => hself ⟨⟨_, List.mem_map_of_mem hsite, hm⟩, hx⟩) hclear hspell).owner

/-- A name that is spelled as the scope of its variable spells it is that variable, if the scope is a function. One of
the module is the module's however it is spelled. -/
theorem meaning_eq (hguarded : Guarded (F.map Site.frame)) (hclear : Clear F x)
    (hspell : scope module F x ≠ [] → isPrivate x = true → bare (cls F) = bare (cls (scope module F x))) :
    meaning style module F x = some (mangledChain style module (scope module F x), spell F x) := by
  rw [meaning, owner_spell hguarded hclear fun h => mangle_eq_iff.mpr fun hx => (hspell h hx).symm, Option.map_some,
    drop_mangledChain, scope]

theorem spell_of_meaning {v : List Frame × Text} (h : meaning style module F x = some v) : spell F x = v.2 := by
  obtain ⟨n, -, rfl⟩ := Option.map_eq_some_iff.mp h
  rfl

end Meaning

end Spot

/-! ### Uses of a variable -/

/-- The module and every function of a program. -/
def spots (p : Program) : List Spot := [] :: Scoping.sitesAll none [] p.body

/-- A spot uses a name, and the name is the variable of a scope there. -/
structure Use (p : Program) (S : Spot) (x : Text) (F : Spot) : Prop where
  spot : F ∈ spots p
  named : x ∈ F.names p.body
  scope : F.scope p.body x = S

section Uses
variable {p : Program} {S F : Spot} {x : Text}

theorem around_mem_spots {site : Site} {outer : Spot} (h : site :: outer ∈ spots p) : outer ∈ spots p := by
  rcases List.mem_cons.mp h with h | h
  · cases h
  · rcases Scoping.nested_sitesAll (fun s _ => Scoping.nested s) h with rfl | h
    · exact List.mem_cons_self
    · exact List.mem_cons_of_mem _ h

theorem use_scope (hF : F ∈ spots p) (hS : F.scope p.body x ≠ []) : Use p (F.scope p.body x) x (F.scope p.body x) := by
  induction F with
  | nil => exact absurd rfl hS
  | cons site outer ih =>
    by_cases hown : Spot.Keeps p.body site outer x
    · have hscope := Spot.scope_of_keeps hown
      rw [hscope]
      exact ⟨hF, Scoping.Frame.Binds.named (hown.imp_right And.left), hscope⟩
    · rw [Spot.scope_of_not_keeps hown] at hS ⊢
      exact ih (around_mem_spots hF) hS

theorem Use.own (h : Use p S x F) (hS : S ≠ []) : Use p S x S := by
  obtain ⟨hF, -, rfl⟩ := h
  exact use_scope hF hS

theorem guarded_of_parse {tokens : List Token} (h : parse tokens = .ok p) (hF : F ∈ spots p) :
    Guarded (F.map Site.frame) := by
  rcases List.mem_cons.mp hF with rfl | hF
  · trivial
  have hlegal := (Parser.parse_sound (fun _ _ => True) (fun _ _ => trivial) h).2
  have hframes := Scoping.frames_sitesAll none [] fun s (_ : s ∈ p.body) => Scoping.unclassed s
  have hguarded : ∀ chain ∈ Scoping.chainsAll [] p.body, Guarded chain :=
    chainsAll_guarded (by simp [InMethod, Parser.Context.top]) (show Guarded [] from trivial)
      (fun s _ => chainsGuarded s) hlegal
  exact hguarded _ (hframes ▸ List.mem_map_of_mem hF)

end Uses

/-- The names that are used in the module or in the first function of a chain. -/
def Code.namesIn (module : List Code) : List Frame → List Text
  | [] => namesAll module
  | f :: _ => f.names

theorem mem_namesIn {style : Style} {p : Program} {y : Text} (F : Spot) :
    y ∈ Code.namesIn (Code.mangledAll none (Code.ofProgram style p)) (mangledChain style p.body F) ↔
      ∃ x ∈ F.names p.body, F.spell x = y := by
  cases F with
  | nil =>
    rw [mangledChain, Code.namesIn, Code.namesAll_mangledAll, Code.ofProgram,
      Code.namesAll_ofStmts fun s _ => Code.names_ofStmt _ s, List.mem_map]
    rfl
  | cons site outer =>
    rw [mangledChain, Code.namesIn, Frame.mangled_names, List.mem_map]
    simp only [Frame.mem_names_of]
    rfl

/-- For every program that is read, the lines that are written for it are those of a tree of Python statements. As
Python takes the names in it, this tree has the functions of the program, and each uses the names that it did, as they
are spelled in their class. A name that is spelled as in the function whose variable it is, or is the module's, is a
variable of that scope. So all uses of a variable are one for Python exactly if its name is not private or the classes
around the uses have one name, where no function around binds another name that is spelled alike. -/
theorem names_survive_iff {tokens : List Token} {p : Program} (style : Style) (h : parse tokens = .ok p) :
    (∀ ls, lines style p = .ok ls →
      ∃ ns, Code.nodes (Code.ofProgram style p) = .ok ns ∧ ls = Node.linesAll 0 ns) ∧
    Code.chainsAll [] (Code.mangledAll none (Code.ofProgram style p)) =
      (Scoping.sitesAll none [] p.body).map (mangledChain style p.body) ∧
    (∀ F ∈ spots p, ∀ y,
      y ∈ Code.namesIn (Code.mangledAll none (Code.ofProgram style p)) (mangledChain style p.body F) ↔
        ∃ x ∈ F.names p.body, F.spell x = y) ∧
    (∀ S x F, Use p S x F → F.Clear x → (S ≠ [] → isPrivate x = true → bare F.cls = bare S.cls) →
      F.meaning style p.body x = some (mangledChain style p.body S, F.spell x)) ∧
    ∀ S x, (∀ F, Use p S x F → F.Clear x) →
      ((∀ F G, Use p S x F → Use p S x G → F.meaning style p.body x = G.meaning style p.body x) ↔
        (isPrivate x = true → ∀ F G, Use p S x F → Use p S x G → bare F.cls = bare G.cls)) := by
  have hmeaning : ∀ S x F, Use p S x F → F.Clear x → (S ≠ [] → isPrivate x = true → bare F.cls = bare S.cls) →
      F.meaning style p.body x = some (mangledChain style p.body S, F.spell x) := by
    rintro S x F ⟨hF, -, rfl⟩ hclear hspell
    exact Spot.meaning_eq (guarded_of_parse h hF) hclear hspell
  have hchains := @chainsAll_mangled p.body style p.body none [] fun s _ => taken s
  refine ⟨fun ls hls => lines_eq hls, hchains, fun F _ y => mem_namesIn F, hmeaning, fun S x hclear => ⟨?_, ?_⟩⟩
  · intro hsame hprivate F G hF hG
    -- some use is the variable that it should be: any of them in the module, else that of the function itself
    obtain ⟨E, hE, hspell⟩ : ∃ E, Use p S x E ∧ (S ≠ [] → isPrivate x = true → bare E.cls = bare S.cls) := by
      by_cases hS : S = []
      · exact ⟨F, hF, fun h => absurd hS h⟩
      · exact ⟨S, hF.own hS, fun _ _ => rfl⟩
    have hE' := hmeaning S x E hE (hclear E hE) hspell
    have hspell := (Spot.spell_of_meaning ((hsame F E hF hE).trans hE')).trans
      (Spot.spell_of_meaning ((hsame G E hG hE).trans hE')).symm
    exact mangle_eq_iff.mp hspell hprivate
  · intro hbare F G hF hG
    have hspell : F.spell x = G.spell x := mangle_eq_iff.mpr fun hprivate => hbare hprivate F G hF hG
    rw [hmeaning S x F hF (hclear F hF) fun hS hprivate => hbare hprivate F S hF (hF.own hS),
      hmeaning S x G hG (hclear G hG) fun hS hprivate => hbare hprivate G S hG (hG.own hS), hspell]

/-- The tokens of `sınıf A { fonksiyon f() { __x = 1 ; fonksiyon g() { yazdır(__x) } } }`. -/
def privateTokens : List Token :=
  Token.ofWords [sign .classWord, (.identifier, "A"), sign .leftBrace, sign .functionWord, (.identifier, "f"),
    sign .leftParen, sign .rightParen, sign .leftBrace, (.identifier, "__x"), sign .assign, (.number, "1"),
    sign .semicolon, sign .functionWord, (.identifier, "g"), sign .leftParen, sign .rightParen,
    sign .leftBrace, sign .printWord, sign .leftParen, (.identifier, "__x"), sign .rightParen,
    sign .rightBrace, sign .rightBrace, sign .rightBrace]

/-- In a class the variable `__x` of `f` is one in `f` and in `g`, and is called `_A__x`. -/
theorem names_survive_private :
    ∃ p, parse privateTokens = .ok p ∧ (∀ F ∈ spots p, F.Clear "__x") ∧
      ∃ G ∈ spots p, G.length = 2 ∧ (G.scope p.body "__x").length = 1 ∧
        G.meaning .default p.body "__x" = some (mangledChain .default p.body (G.scope p.body "__x"), ("_A__x" : Text)) ∧
        ∀ F, Use p (G.scope p.body "__x") "__x" F →
          F.meaning .default p.body "__x" = G.meaning .default p.body "__x" := by
  have hsource : (parse privateTokens).toOption.map (fun p =>
      decide (∀ F ∈ spots p, F.Clear "__x") &&
        decide (∀ F ∈ spots p, ("__x" : Text) ∈ F.names p.body → bare F.cls = ("A" : Text)) &&
        decide (∃ G ∈ spots p, G.length = 2 ∧ (G.scope p.body "__x").length = 1 ∧
          ("__x" : Text) ∈ G.names p.body ∧ G.spell "__x" = ("_A__x" : Text))) = some true := by
    decide +kernel
  simp only [Option.map_eq_some_iff, toOption_eq_some, Bool.and_eq_true, decide_eq_true_eq] at hsource
  obtain ⟨p, hparse, ⟨hclear, hbare⟩, G, hG, htwo, hone, hnamed, hspelled⟩ := hsource
  obtain ⟨-, -, -, hmeaning, hsame⟩ := names_survive_iff .default hparse
  have huse : Use p (G.scope p.body "__x") "__x" G := ⟨hG, hnamed, rfl⟩
  have hall : ∀ F, Use p (G.scope p.body "__x") "__x" F → bare F.cls = ("A" : Text) :=
    fun F hF => hbare F hF.spot hF.named
  have hG' := hmeaning _ _ G huse (hclear G hG) fun hS _ => (hall G huse).trans (hall _ (huse.own hS)).symm
  rw [hspelled] at hG'
  exact ⟨p, hparse, hclear, G, hG, htwo, hone, hG', fun F hF =>
    (hsame _ _ fun F hF => hclear F hF.spot).mpr (fun _ F G hF hG => (hall F hF).trans (hall G hG).symm) F G hF huse⟩

/-- The tokens of `__x = 1 ; sınıf A { fonksiyon f() { yazdır(__x) } }`. -/
def leakedTokens : List Token :=
  Token.ofWords [(.identifier, "__x"), sign .assign, (.number, "1"), sign .semicolon, sign .classWord, (.identifier, "A"),
    sign .leftBrace, sign .functionWord, (.identifier, "f"), sign .leftParen, sign .rightParen,
    sign .leftBrace, sign .printWord, sign .leftParen, (.identifier, "__x"), sign .rightParen,
    sign .rightBrace, sign .rightBrace]

/-- The program is written, and `f` prints the module's `__x` by the rule of the source, but `_A__x` by Python's. -/
theorem leaked_name_splits :
    ∃ p, parse leakedTokens = .ok p ∧
      lines .default p = .ok [⟨0, "__x = 1"⟩, ⟨0, "class A:"⟩, ⟨1, "def f(self):"⟩, ⟨2, "print(__x)"⟩] ∧
      Use p [] "__x" [] ∧ Spot.meaning .default p.body [] "__x" = some ([], ("__x" : Text)) ∧
      ∃ F, Use p [] "__x" F ∧ F.Clear "__x" ∧ F.meaning .default p.body "__x" = some ([], ("_A__x" : Text)) := by
  have hsource : (parse leakedTokens).toOption.map (fun p =>
      decide ((lines .default p).toOption =
          some [⟨0, "__x = 1"⟩, ⟨0, "class A:"⟩, ⟨1, "def f(self):"⟩, ⟨2, "print(__x)"⟩]) &&
        decide (("__x" : Text) ∈ Spot.names p.body []) &&
        decide (∃ F ∈ spots p, ("__x" : Text) ∈ F.names p.body ∧ (F.scope p.body "__x").length = 0 ∧
          F.Clear "__x" ∧ (F.meaning .default p.body "__x").map (fun v => (v.1.length, v.2)) =
            some (0, ("_A__x" : Text)))) = some true := by
    decide +kernel
  simp only [Option.map_eq_some_iff, toOption_eq_some, Bool.and_eq_true, decide_eq_true_eq, List.length_eq_zero_iff]
    at hsource
  obtain ⟨p, hparse, ⟨hlines, hmodule⟩, F, hF, hnamed, hscope, hclear, ⟨chain, y⟩, hmeaning, hv⟩ := hsource
  obtain ⟨hchain, rfl⟩ := Prod.mk.inj hv
  obtain rfl := List.length_eq_zero_iff.mp hchain
  exact ⟨p, hparse, hlines, ⟨List.mem_cons_self, hmodule, rfl⟩, rfl, F, ⟨hF, hnamed, hscope⟩, hclear, hmeaning⟩

end Anadil.Python
