import Anadil.Compile
import Anadil.Proofs.Python.Scoping
import Anadil.Proofs.Tree.Enclosure

/-! # Initialisers that return a value

Every program that is read from tokens can be written in Python, unless the method of a class that becomes
`__init__` returns a value. The complaint is then about the first such return of the first such method, in
the order in which methods are written (`generate_offences`). -/

namespace Anadil.Python

open Anadil.Parser

variable {style : Style} {e : Expr} {body : List Stmt} {fs : List (Function Stmt)}

/-! ### Offences -/

/-- Python's name of a method is `__init__`: it is called so, or it has the constructor's name. -/
def Style.Initialises (style : Style) (name : Text) : Prop :=
  name = ("__init__" : Text) ∨ (style.constructor ≠ [] ∧ name = style.constructor)

instance (style : Style) (name : Text) : Decidable (style.Initialises name) :=
  inferInstanceAs (Decidable (_ ∨ _))

/-- Where a statement returns a value. -/
def valued : Stmt → Option Span
  | .ret span (some _) => some span
  | _ => none

/-- Where a function with a body returns a value, in the order of the source: through branches and loops,
and not in the functions and classes inside. -/
def ownReturns (body : List Stmt) : List Span := (Scoping.leavesAll body).filterMap valued

/-- The returns of a value from a function that may not return one, with the function's name. -/
def offencesOf (style : Style) (f : Scoping.Frame) : List (Text × Span) :=
  if f.isMethod ∧ style.Initialises f.name then (ownReturns f.body).map (f.name, ·) else []

/-- The offences of the innermost functions of chains. -/
def offencesIn (style : Style) (chains : List (List Scoping.Frame)) : List (Text × Span) :=
  (chains.filterMap List.head?).flatMap (offencesOf style)

/-- The offences of a program, method by method at any depth, a method before those inside it. -/
def offences (style : Style) (p : Program) : List (Text × Span) :=
  offencesIn style (Scoping.chainsAll [] p.body)

/-- The failure that an offence makes. -/
def complaint : Text × Span → Failure
  | (name, span) => .constructorReturns name span.line span.column

/-- The result is a value if there are no offences, and else the complaint about the first. -/
def Answers {α : Type} (found : List (Text × Span)) (result : Except Failure α) : Prop :=
  match found with
  | [] => ∃ a, result = .ok a
  | o :: _ => result = .error (complaint o)

section Answers
variable {α β : Type} {x : Except Failure α} {k : α → Except Failure β} {found more : List (Text × Span)}

theorem Answers.bind (hx : Answers found x) (hk : ∀ a, Answers more (k a)) :
    Answers (found ++ more) (x >>= k) := by
  cases found with
  | nil =>
    obtain ⟨a, rfl⟩ := hx
    exact hk a
  | cons o found =>
    rw [show x = .error (complaint o) from hx]
    rfl

theorem answers_pure (a : α) : Answers [] (pure a : Except Failure α) := ⟨a, rfl⟩

/-- What is done with a value at the end does not matter. -/
theorem Answers.map {f : α → β} (hx : Answers found x) : Answers found (do return f (← x)) := by
  have h := hx.bind fun a => answers_pure (f a)
  rwa [List.append_nil] at h

theorem Answers.behind (hx : ∃ a, x = .ok a) (hk : ∀ a, Answers found (k a)) : Answers found (x >>= k) := by
  have h : Answers ([] ++ found) (x >>= k) := Answers.bind hx hk
  exact h

end Answers

theorem offencesIn_append (a b : List (List Scoping.Frame)) :
    offencesIn style (a ++ b) = offencesIn style a ++ offencesIn style b := by
  simp only [offencesIn, List.filterMap_append, List.flatMap_append]

/-! ### Expressions can be written -/

theorem binaryOperator?_isSome {kind : Kind} (h : kind ∈ joiningKinds) : ∃ o, binaryOperator? kind = some o := by
  have hall : ∀ kind ∈ joiningKinds, (binaryOperator? kind).isSome := by decide
  exact Option.isSome_iff_exists.mp (hall kind h)

theorem leading_ok {kind : Kind} (h : kind ∈ leadingKinds) (operand : Written) :
    ∃ w, leading kind operand = .ok w := by
  simp only [leadingKinds, List.mem_cons, List.not_mem_nil, or_false] at h
  rcases h with rfl | rfl | rfl
  · exact ⟨_, rfl⟩
  · exact ⟨_, rfl⟩
  · exact ⟨_, rfl⟩

section Legal
variable {known : Lexicon} {ctx : Context}

theorem literal_ok {v : Literal} (h : v.Legal known) : ∃ t, literal v = .ok t := by
  cases v with
  | string content => exact ⟨_, rfl⟩
  | number digits => exact ⟨_, rfl⟩
  | boolean value => cases value <;> exact ⟨_, rfl⟩
  | null => exact ⟨_, rfl⟩
  | other kind => exact h.elim

theorem writtenArgs_ok {args : List Expr} (h : ∀ e ∈ args, ∃ w, written e = .ok w) :
    ∃ ts, writtenArgs args = .ok ts := by
  induction args with
  | nil => exact ⟨[], rfl⟩
  | cons e es ih =>
    obtain ⟨he, hes⟩ := List.forall_mem_cons.mp h
    obtain ⟨w, hw⟩ := he
    obtain ⟨ts, hts⟩ := ih hes
    rw [writtenArgs, hw, hts]
    exact ⟨_, rfl⟩

theorem written_ok (h : e.Legal known ctx) : ∃ w, written e = .ok w := by
  induction e using Expr.induct with
  | binary span op l r ihl ihr =>
    obtain ⟨hop, hl, hr⟩ := h
    obtain ⟨⟨operator, strength⟩, ho⟩ := binaryOperator?_isSome hop
    obtain ⟨left, hleft⟩ := ihl hl
    obtain ⟨right, hright⟩ := ihr hr
    rw [written, ho, hleft, hright]
    exact ⟨_, rfl⟩
  | unary span op e ih =>
    obtain ⟨hop, he⟩ := h
    obtain ⟨operand, hoperand⟩ := ih he
    rw [written, hoperand]
    exact leading_ok hop operand
  | call span f args ihf ihargs =>
    obtain ⟨-, hf, hargs⟩ := h
    obtain ⟨callee, hcallee⟩ := ihf hf
    obtain ⟨ts, hts⟩ := writtenArgs_ok fun e he => ihargs e he (exprsLegal_iff.mp hargs e he)
    rw [written, hcallee, hts]
    exact ⟨_, rfl⟩
  | member span o name ih =>
    obtain ⟨object, hobject⟩ := ih h.1
    rw [written, hobject]
    exact ⟨_, rfl⟩
  | name span n => exact ⟨_, rfl⟩
  | self span => exact ⟨_, rfl⟩
  | literal span v =>
    obtain ⟨t, ht⟩ := literal_ok h
    rw [written, ht]
    exact ⟨_, rfl⟩
  | absent => exact h.elim

theorem exprText_ok (h : e.Legal known ctx) : ∃ t, exprText e = .ok t := by
  obtain ⟨w, hw⟩ := written_ok h
  exact ⟨w.text, by rw [exprText, hw]; rfl⟩

end Legal

/-! ### The first return with a value -/

/-- The return that is complained of is the first one with a value. -/
theorem valuedReturnIn_eq (h : ∀ s ∈ body, valuedReturn s = ((Scoping.leaves s).filterMap valued).head?) :
    valuedReturnIn body = (ownReturns body).head? := by
  induction body with
  | nil => rfl
  | cons s ss ih =>
    obtain ⟨hs, hss⟩ := List.forall_mem_cons.mp h
    rw [valuedReturnIn, hs, ih hss, ownReturns, ownReturns, Scoping.leavesAll, List.filterMap_append,
      List.head?_append]

theorem valuedReturn_eq (s : Stmt) : valuedReturn s = ((Scoping.leaves s).filterMap valued).head? := by
  induction s using Stmt.induct with
  | branch span c body ih => exact valuedReturnIn_eq ih
  | branchElse span c body otherwise ih ih' =>
    rw [valuedReturn, valuedReturnIn_eq ih, valuedReturnIn_eq ih', Scoping.leaves, List.filterMap_append,
      List.head?_append]
    rfl
  | loop span c body ih => exact valuedReturnIn_eq ih
  | ret span value => cases value <;> rfl
  | _ => rfl

theorem methodName_eq_init {name : Text} :
    methodName style name = ("__init__" : Text) ↔ style.Initialises name := by
  unfold methodName Style.Initialises
  split
  · rename_i h
    simp only [Bool.and_eq_true, Bool.not_eq_true', List.isEmpty_eq_false_iff, beq_iff_eq] at h
    exact ⟨fun _ => Or.inr h, fun _ => rfl⟩
  · rename_i h
    simp only [Bool.and_eq_true, Bool.not_eq_true', List.isEmpty_eq_false_iff, beq_iff_eq] at h
    exact ⟨Or.inl, fun hname => hname.resolve_right h⟩

theorem checkMethod_answers (style : Style) (f : Function Stmt) :
    Answers (offencesOf style ⟨true, f.name, f.params, f.body⟩) (checkMethod style f) := by
  have hfirst : valuedReturnIn f.body = (ownReturns f.body).head? :=
    valuedReturnIn_eq fun s _ => valuedReturn_eq s
  unfold checkMethod offencesOf
  simp only [beq_iff_eq, methodName_eq_init, true_and, hfirst]
  split
  · cases ownReturns f.body with
    | nil => exact ⟨(), rfl⟩
    | cons span spans => rfl
  · exact ⟨(), rfl⟩

/-! ### Statements -/

section Statements
variable {known : Lexicon}

/-- A legal statement is written, or the first offence in it is complained about. -/
def AnswersStmt (known : Lexicon) (style : Style) (s : Stmt) : Prop :=
  ∀ ctx frames outer depth chained, s.Legal known ctx →
    Answers (offencesIn style (Scoping.chains frames s)) (stmt style outer depth chained s)

variable {ctx : Context} {ss : List Stmt} (h : ∀ s ∈ ss, AnswersStmt known style s)
  (hlegal : stmtsLegal known ctx ss) (frames : List Scoping.Frame) (outer : List Scope) (depth : Nat)

include h hlegal

theorem stmts_answers :
    Answers (offencesIn style (Scoping.chainsAll frames ss)) (stmts style outer depth ss) := by
  induction ss with
  | nil => exact ⟨[], rfl⟩
  | cons s ss ih =>
    obtain ⟨hs, hss⟩ := List.forall_mem_cons.mp h
    rw [Scoping.chainsAll, offencesIn_append, stmts]
    exact (hs ctx frames outer depth false hlegal.1).bind fun ls => (ih hss hlegal.2).map

theorem block_answers :
    Answers (offencesIn style (Scoping.chainsAll frames ss)) (block style outer depth ss) := by
  cases ss with
  | nil => exact ⟨_, rfl⟩
  | cons s ss =>
    have hstmts := stmts_answers h hlegal frames outer depth
    rwa [stmts] at hstmts

theorem elseBlock_answers :
    Answers (offencesIn style (Scoping.chainsAll frames ss)) (elseBlock style outer depth ss) := by
  match ss with
  | [] => exact ⟨_, rfl⟩
  | [s] =>
    have hs := h s List.mem_cons_self
    have hone : Scoping.chainsAll frames [s] = Scoping.chains frames s := List.append_nil _
    rw [hone, elseBlock]
    split
    · exact hs ctx frames outer depth true hlegal.1
    · exact (hs ctx frames outer (depth + 1) false hlegal.1).map
  | s :: t :: ss =>
    obtain ⟨hs, hss⟩ := List.forall_mem_cons.mp h
    have hrest := stmts_answers hss hlegal.2 frames outer (depth + 1)
    rw [Scoping.chainsAll, offencesIn_append, elseBlock]
    · exact (hs ctx frames outer (depth + 1) false hlegal.1).bind fun ls => hrest.map
    · exact List.cons_ne_nil t ss

end Statements

section Functions
variable {known : Lexicon} {ctx : Context} (frames : List Scoping.Frame) (outer : List Scope) (depth : Nat)

/-- A method is checked before its body is written. -/
theorem function_answers {f : Function Stmt} (h : ∀ s ∈ f.body, AnswersStmt known style s) (isMethod : Bool)
    (hlegal : functionLegal known ctx isMethod f) :
    Answers (offencesIn style (Scoping.functionChains frames isMethod f))
      (function style outer depth isMethod f) := by
  have hbody := (functionLegal_iff.mp hlegal).2.2.2.2
  have hcheck := checkMethod_answers style f
  obtain ⟨span, name, params, body⟩ := f
  have hblock := fun scope => block_answers h hbody (⟨isMethod, name, params, body⟩ :: frames) (scope :: outer)
    (depth + 1)
  have hsplit : offencesIn style (Scoping.functionChains frames isMethod ⟨span, name, params, body⟩) =
      offencesOf style ⟨isMethod, name, params, body⟩ ++
        offencesIn style (Scoping.chainsAll (⟨isMethod, name, params, body⟩ :: frames) body) := rfl
  rw [hsplit, function]
  cases isMethod with
  | false =>
    have hnone : offencesOf style ⟨false, name, params, body⟩ = [] := by simp [offencesOf]
    rw [hnone, List.nil_append]
    exact (hblock _).map
  | true => exact hcheck.bind fun _ => (hblock _).map

theorem methods_answers (h : ∀ f ∈ fs, ∀ s ∈ f.body, AnswersStmt known style s)
    (hlegal : methodsLegal known ctx fs) :
    Answers (offencesIn style (Scoping.methodsChains frames fs)) (methods style outer depth fs) := by
  induction fs with
  | nil => exact ⟨[], rfl⟩
  | cons f fs ih =>
    obtain ⟨hf, hfs⟩ := List.forall_mem_cons.mp h
    rw [Scoping.methodsChains, offencesIn_append, methods]
    exact (function_answers frames outer depth hf true hlegal.1).bind fun ls => (ih hfs hlegal.2).map

theorem classBody_answers (h : ∀ f ∈ fs, ∀ s ∈ f.body, AnswersStmt known style s)
    (hlegal : methodsLegal known ctx fs) :
    Answers (offencesIn style (Scoping.methodsChains frames fs)) (classBody style outer depth fs) := by
  cases fs with
  | nil => exact ⟨_, rfl⟩
  | cons f fs =>
    have hmethods := methods_answers frames outer depth h hlegal
    rwa [methods] at hmethods

end Functions

theorem answersStmt (known : Lexicon) (style : Style) (s : Stmt) : AnswersStmt known style s := by
  induction s using Stmt.induct with
  | function f ih =>
    intro ctx frames outer depth chained hlegal
    exact function_answers frames outer depth ih false hlegal
  | classDef span name methods ih =>
    intro ctx frames outer depth chained hlegal
    exact (classBody_answers frames outer (depth + 1) ih hlegal.2.2).map
  | branch span c body ih =>
    intro ctx frames outer depth chained hlegal
    exact .behind (exprText_ok hlegal.1) fun t => (block_answers ih hlegal.2 frames outer (depth + 1)).map
  | branchElse span c body otherwise ih ih' =>
    intro ctx frames outer depth chained hlegal
    obtain ⟨hc, hbody, hotherwise⟩ := hlegal
    rw [Scoping.chains, offencesIn_append]
    exact .behind (exprText_ok hc) fun t => (block_answers ih hbody frames outer (depth + 1)).bind fun ls =>
      (elseBlock_answers ih' hotherwise frames outer depth).map
  | loop span c body ih =>
    intro ctx frames outer depth chained hlegal
    exact .behind (exprText_ok hlegal.1) fun t => (block_answers ih hlegal.2 frames outer (depth + 1)).map
  | ret span value =>
    intro ctx frames outer depth chained hlegal
    cases value with
    | none => exact ⟨_, rfl⟩
    | some e => exact .behind (exprText_ok hlegal.2) fun t => answers_pure _
  | print span e =>
    intro ctx frames outer depth chained hlegal
    exact .behind (exprText_ok hlegal) fun t => answers_pure _
  | expression span e =>
    intro ctx frames outer depth chained hlegal
    exact .behind (exprText_ok hlegal) fun t => answers_pure _
  | assign span target e =>
    intro ctx frames outer depth chained hlegal
    obtain ⟨-, htarget, he⟩ := hlegal
    exact .behind (exprText_ok htarget) fun t => .behind (exprText_ok he) fun v => answers_pure _
  | breakLoop span => exact fun _ _ _ _ _ _ => ⟨_, rfl⟩
  | continueLoop span => exact fun _ _ _ _ _ _ => ⟨_, rfl⟩
  | absent => exact fun _ _ _ _ _ hlegal => hlegal.elim

/-! ### Where offences stand -/

/-- A function with a body returns a value at `span`. -/
inductive ReturnsAt : List Stmt → Span → Prop where
  | here {body span e} : .ret span (some e) ∈ body → ReturnsAt body span
  | branch {body span s c inner otherwise} : .branch s c inner otherwise ∈ body → ReturnsAt inner span →
      ReturnsAt body span
  | otherwise {body span s c inner otherwise} : .branch s c inner (some otherwise) ∈ body →
      ReturnsAt otherwise span → ReturnsAt body span
  | loop {body span s c inner} : .loop s c inner ∈ body → ReturnsAt inner span → ReturnsAt body span

theorem mem_leavesAll {l : Stmt} : l ∈ Scoping.leavesAll body ↔ ∃ s ∈ body, l ∈ Scoping.leaves s := by
  induction body with
  | nil => simp [Scoping.leavesAll]
  | cons s ss ih => simp [Scoping.leavesAll, ih]

theorem mem_ownReturns {span : Span} :
    span ∈ ownReturns body ↔ ∃ s ∈ body, ∃ e, .ret span (some e) ∈ Scoping.leaves s := by
  have hvalued : ∀ l : Stmt, valued l = some span ↔ ∃ e, l = .ret span (some e) := by
    intro l
    constructor
    · intro h
      unfold valued at h
      split at h
      · cases h
        exact ⟨_, rfl⟩
      · cases h
    · rintro ⟨e, rfl⟩
      rfl
  simp only [ownReturns, List.mem_filterMap, mem_leavesAll, hvalued]
  constructor
  · rintro ⟨l, ⟨s, hs, hl⟩, e, rfl⟩
    exact ⟨s, hs, e, hl⟩
  · rintro ⟨s, hs, e, hl⟩
    exact ⟨_, ⟨s, hs, hl⟩, e, rfl⟩

theorem returnsAt_of_leaf (s : Stmt) {span : Span} (hl : .ret span (some e) ∈ Scoping.leaves s) :
    ∀ body, s ∈ body → ReturnsAt body span := by
  have hinner : ∀ {inner : List Stmt},
      (∀ s ∈ inner, .ret span (some e) ∈ Scoping.leaves s → ∀ body, s ∈ body → ReturnsAt body span) →
      .ret span (some e) ∈ Scoping.leavesAll inner → ReturnsAt inner span := by
    intro inner ih hl
    obtain ⟨s, hs, hl⟩ := mem_leavesAll.mp hl
    exact ih s hs hl inner hs
  induction s using Stmt.induct with
  | branch s c inner ih => exact fun body hs => .branch hs (hinner ih hl)
  | branchElse s c inner otherwise ih ih' =>
    intro body hs
    rcases List.mem_append.mp hl with hl | hl
    · exact .branch hs (hinner ih hl)
    · exact .otherwise hs (hinner ih' hl)
  | loop s c inner ih => exact fun body hs => .loop hs (hinner ih hl)
  | ret s value =>
    intro body hs
    rw [← List.mem_singleton.mp hl] at hs
    exact .here hs
  | _ => exact absurd (List.mem_singleton.mp hl) (by simp)

theorem mem_ownReturns_iff {span : Span} : span ∈ ownReturns body ↔ ReturnsAt body span := by
  constructor
  · intro h
    obtain ⟨s, hs, e, hl⟩ := mem_ownReturns.mp h
    exact returnsAt_of_leaf s hl body hs
  · intro h
    rw [mem_ownReturns]
    induction h with
    | @here body span e hs => exact ⟨_, hs, e, List.mem_singleton_self _⟩
    | @branch body span s c inner otherwise hs _ ih =>
      obtain ⟨t, ht, e, hl⟩ := ih
      have hleaf := mem_leavesAll.mpr ⟨t, ht, hl⟩
      refine ⟨_, hs, e, ?_⟩
      cases otherwise with
      | none => exact hleaf
      | some => exact List.mem_append_left _ hleaf
    | otherwise hs _ ih =>
      obtain ⟨t, ht, e, hl⟩ := ih
      exact ⟨_, hs, e, List.mem_append_right _ (mem_leavesAll.mpr ⟨t, ht, hl⟩)⟩
    | loop hs _ ih =>
      obtain ⟨t, ht, e, hl⟩ := ih
      exact ⟨_, hs, e, mem_leavesAll.mpr ⟨t, ht, hl⟩⟩

section Places
variable {p : Program}

/-- The frame of a function. -/
def frameOf (isMethod : Bool) (f : Function Stmt) : Scoping.Frame := ⟨isMethod, f.name, f.params, f.body⟩

theorem mem_chainsAll {frames : List Scoping.Frame} {chain : List Scoping.Frame} :
    chain ∈ Scoping.chainsAll frames body ↔ ∃ s ∈ body, chain ∈ Scoping.chains frames s := by
  induction body with
  | nil => simp [Scoping.chainsAll]
  | cons s ss ih => simp [Scoping.chainsAll, ih]

theorem mem_methodsChains {frames : List Scoping.Frame} {chain : List Scoping.Frame} :
    chain ∈ Scoping.methodsChains frames fs ↔ ∃ f ∈ fs, chain ∈ Scoping.functionChains frames true f := by
  induction fs with
  | nil => simp [Scoping.methodsChains]
  | cons f fs ih => simp [Scoping.methodsChains, ih]

theorem functionChains_eq (frames : List Scoping.Frame) (isMethod : Bool) (f : Function Stmt) :
    Scoping.functionChains frames isMethod f =
      (frameOf isMethod f :: frames) :: Scoping.chainsAll (frameOf isMethod f :: frames) f.body := by
  cases f
  rfl

/-- The chains of a statement of a program are among those of the program. -/
theorem stands_chains {around : List Anadil.Frame} {s : Stmt} (h : p.Stands around s) :
    ∃ frames, ∀ chain ∈ Scoping.chains frames s, chain ∈ Scoping.chainsAll [] p.body := by
  induction h with
  | top hs => exact ⟨[], fun chain hchain => mem_chainsAll.mpr ⟨_, hs, hchain⟩⟩
  | @function around f s _ hs ih =>
    obtain ⟨frames, ih⟩ := ih
    refine ⟨frameOf false f :: frames, fun chain hchain => ih chain ?_⟩
    rw [Scoping.chains, functionChains_eq]
    exact List.mem_cons_of_mem _ (mem_chainsAll.mpr ⟨s, hs, hchain⟩)
  | @method around span name methods f s _ hf hs ih =>
    obtain ⟨frames, ih⟩ := ih
    refine ⟨frameOf true f :: frames, fun chain hchain => ih chain (mem_methodsChains.mpr ⟨f, hf, ?_⟩)⟩
    rw [functionChains_eq]
    exact List.mem_cons_of_mem _ (mem_chainsAll.mpr ⟨s, hs, hchain⟩)
  | loop _ hs ih =>
    obtain ⟨frames, ih⟩ := ih
    exact ⟨frames, fun chain hchain => ih chain (mem_chainsAll.mpr ⟨_, hs, hchain⟩)⟩
  | @branch _ _ _ _ otherwise _ _ hs ih =>
    obtain ⟨frames, ih⟩ := ih
    refine ⟨frames, fun chain hchain => ih chain ?_⟩
    have hmem := mem_chainsAll.mpr ⟨_, hs, hchain⟩
    cases otherwise with
    | none => exact hmem
    | some => exact List.mem_append_left _ hmem
  | otherwise _ hs ih =>
    obtain ⟨frames, ih⟩ := ih
    exact ⟨frames, fun chain hchain =>
      ih chain (List.mem_append_right _ (mem_chainsAll.mpr ⟨_, hs, hchain⟩))⟩

/-- The innermost function of each chain stands in the program. -/
def HeadsStand (p : Program) (chains : List (List Scoping.Frame)) : Prop :=
  ∀ chain ∈ chains, ∀ frame, chain.head? = some frame →
    ∃ around isMethod f, p.HasFunction around isMethod f ∧ frame = frameOf isMethod f

theorem headsStand_function {around : List Anadil.Frame} {isMethod : Bool} {f : Function Stmt}
    (hf : p.HasFunction around isMethod f) (frames : List Scoping.Frame)
    (hbody : ∀ frames, ∀ s ∈ f.body, HeadsStand p (Scoping.chains frames s)) :
    HeadsStand p (Scoping.functionChains frames isMethod f) := by
  intro chain hchain frame hhead
  rw [functionChains_eq] at hchain
  rcases List.mem_cons.mp hchain with rfl | hchain
  · exact ⟨around, isMethod, f, hf, (Option.some.inj hhead).symm⟩
  · obtain ⟨s, hs, hchain⟩ := mem_chainsAll.mp hchain
    exact hbody _ s hs chain hchain frame hhead

theorem headsStand (s : Stmt) : ∀ around frames, p.Stands around s → HeadsStand p (Scoping.chains frames s) := by
  -- a list of statements, each of which stands in the program
  have hall : ∀ {ss : List Stmt} {around : List Anadil.Frame} (frames : List Scoping.Frame),
      (∀ s ∈ ss, ∀ around frames, p.Stands around s → HeadsStand p (Scoping.chains frames s)) →
      (∀ s ∈ ss, p.Stands around s) → HeadsStand p (Scoping.chainsAll frames ss) := by
    intro ss around frames ih hss chain hchain
    obtain ⟨s, hs, hchain⟩ := mem_chainsAll.mp hchain
    exact ih s hs around frames (hss s hs) chain hchain
  induction s using Stmt.induct with
  | function f ih =>
    intro around frames h
    exact headsStand_function (.function h) frames fun frames s hs => ih s hs _ frames (.function h hs)
  | classDef span name methods ih =>
    intro around frames h chain hchain
    obtain ⟨f, hf, hchain⟩ := mem_methodsChains.mp hchain
    exact headsStand_function (.method h hf) frames
      (fun frames s hs => ih f hf s hs _ frames (.method h hf hs)) chain hchain
  | branch span c body ih =>
    intro around frames h
    exact hall frames ih fun s hs => .branch h hs
  | branchElse span c body otherwise ih ih' =>
    intro around frames h chain hchain
    rcases List.mem_append.mp hchain with hchain | hchain
    · exact hall frames ih (fun s hs => .branch h hs) chain hchain
    · exact hall frames ih' (fun s hs => .otherwise h hs) chain hchain
  | loop span c body ih =>
    intro around frames h
    exact hall frames ih fun s hs => .loop h hs
  | _ => exact fun _ _ _ chain hchain => absurd hchain List.not_mem_nil

/-- The frames at the heads of chains are those of the functions of the program. -/
theorem hasFunction_iff {isMethod : Bool} {frame : Scoping.Frame} (hframe : frame.isMethod = isMethod) :
    frame ∈ (Scoping.chainsAll [] p.body).filterMap List.head? ↔
      ∃ around f, p.HasFunction around isMethod f ∧ frame = frameOf isMethod f := by
  rw [List.mem_filterMap]
  constructor
  · rintro ⟨chain, hchain, hhead⟩
    obtain ⟨s, hs, hchain⟩ := mem_chainsAll.mp hchain
    obtain ⟨around, isMethod', f, hf, rfl⟩ := headsStand s [] [] (.top hs) chain hchain frame hhead
    cases hframe
    exact ⟨around, f, hf, rfl⟩
  · rintro ⟨around, f, hf, rfl⟩
    have hmem : ∃ frames, ∀ chain ∈ Scoping.functionChains frames isMethod f,
        chain ∈ Scoping.chainsAll [] p.body := by
      cases hf with
      | function hs => exact stands_chains hs
      | method hs hf =>
        obtain ⟨frames, hchains⟩ := stands_chains hs
        exact ⟨frames, fun chain hchain => hchains chain (mem_methodsChains.mpr ⟨f, hf, hchain⟩)⟩
    obtain ⟨frames, hchains⟩ := hmem
    refine ⟨frameOf isMethod f :: frames, hchains _ ?_, rfl⟩
    rw [functionChains_eq]
    exact List.mem_cons_self

/-- An offence is a return with a value in a method that initialises. -/
theorem mem_offences {name : Text} {span : Span} : (name, span) ∈ offences style p ↔
      ∃ around f, p.HasFunction around true f ∧ f.name = name ∧ style.Initialises name ∧
        ReturnsAt f.body span := by
  have hof : ∀ frame : Scoping.Frame, (name, span) ∈ offencesOf style frame ↔
      frame.isMethod = true ∧ frame.name = name ∧ style.Initialises name ∧ ReturnsAt frame.body span := by
    intro frame
    unfold offencesOf
    split
    · rename_i h
      simp only [List.mem_map, Prod.mk.injEq, mem_ownReturns_iff]
      constructor
      · rintro ⟨_, hspan, rfl, rfl⟩
        exact ⟨h.1, rfl, h.2, hspan⟩
      · rintro ⟨-, rfl, -, hspan⟩
        exact ⟨span, hspan, rfl, rfl⟩
    · rename_i h
      refine iff_of_false List.not_mem_nil ?_
      rintro ⟨hmethod, rfl, hinit, -⟩
      exact h ⟨hmethod, hinit⟩
  simp only [offences, offencesIn, List.mem_flatMap, hof]
  constructor
  · rintro ⟨frame, hframe, hmethod, hname, hinit, hspan⟩
    obtain ⟨around, f, hf, rfl⟩ := (hasFunction_iff hmethod).mp hframe
    exact ⟨around, f, hf, hname, hinit, hspan⟩
  · rintro ⟨around, f, hf, hname, hinit, hspan⟩
    exact ⟨frameOf true f, (hasFunction_iff rfl).mpr ⟨around, f, hf, rfl⟩, rfl, hname, hinit, hspan⟩

end Places

/-! ### Programs -/

/-- What is said of an offence. -/
theorem complaint_fault (name : Text) (span : Span) :
    (complaint (name, span)).fault = .parse span.line span.column
      ["bare \"dön\" in constructor " ++ Text.inQuotes name] "a return value" := by
  have hword : ("bare " : Text) ++ Kind.returnWord.describe ++ " in constructor " =
      "bare \"dön\" in constructor " := by
    decide
  rw [← hword]
  rfl

/-- A program that is read from tokens is written in Python, or a fault of the source is named: the first
return of a value from the first method that becomes `__init__` and returns one. There is such a return
exactly if a class at any depth has such a method. -/
theorem generate_offences {tokens : List Token} {p : Program} {style : Style} (hp : parse tokens = .ok p)
    (hindent : 1 ≤ style.indent) :
    (offences style p = [] → ∃ text, generate style p = .ok text) ∧
      (∀ name span more, offences style p = (name, span) :: more →
        ∃ f, generate style p = .error f ∧
          f.fault = .parse span.line span.column
            ["bare \"dön\" in constructor " ++ Text.inQuotes name] "a return value") ∧
      (offences style p ≠ [] ↔ ∃ around f span, p.HasFunction around true f ∧ style.Initialises f.name ∧
        ReturnsAt f.body span) := by
  have hlegal := (parse_sound (fun _ _ => True) (fun _ _ => trivial) hp).2
  have hstmts : Answers (offences style p) (lines style p) :=
    stmts_answers (fun s _ => answersStmt _ style s) hlegal [] _ 0
  have hgenerate : generate style p = do
      let ls ← lines style p
      return ls.flatMap (Line.text style.indent.toNat) := by
    rw [generate, if_neg (by omega)]
  have hanswer : Answers (offences style p) (generate style p) := hgenerate ▸ hstmts.map
  refine ⟨fun hnone => ?_, fun name span more hfirst => ?_, ?_⟩
  · rwa [hnone] at hanswer
  · rw [hfirst] at hanswer
    exact ⟨_, hanswer, complaint_fault name span⟩
  · constructor
    · intro hsome
      obtain ⟨⟨name, span⟩, hmem⟩ := List.exists_mem_of_ne_nil _ hsome
      obtain ⟨around, f, hf, rfl, hinit, hspan⟩ := mem_offences.mp hmem
      exact ⟨around, f, span, hf, hinit, hspan⟩
    · rintro ⟨around, f, span, hf, hinit, hspan⟩
      exact List.ne_nil_of_mem (mem_offences.mpr ⟨around, f, hf, rfl, hinit, hspan⟩)

/-- A class in a constructor, whose own constructor returns a value from an else-if in a loop. -/
def nestedReturn : Text :=
  "sınıf A \x7b fonksiyon kurucu() \x7b sınıf B \x7b fonksiyon __init__(x) \x7b döngü x \x7b eğer x \x7b dön \x7d\n" ++
    "değilse eğer x \x7b dön 1 \x7d \x7d dön 2 \x7d \x7d \x7d \x7d"

/-- Both returns of a value in `nestedReturn`. -/
def nestedOffences : List (Text × Span) :=
  [(("__init__" : Text), ⟨117, 123, 2, 18⟩), (("__init__" : Text), ⟨128, 134, 2, 28⟩)]

theorem generate_offences_nestedReturn :
    ∃ tokens p f, tokenize nestedReturn = .ok tokens ∧ parse tokens = .ok p ∧
      offences ⟨4, "kurucu"⟩ p = nestedOffences ∧
      generate ⟨4, "kurucu"⟩ p = .error f ∧
      f.fault = .parse 2 18 ["bare \"dön\" in constructor \"__init__\""] "a return value" := by
  have hrun : ((tokenize nestedReturn).toOption.bind fun tokens => (parse tokens).toOption.map fun p =>
      offences ⟨4, "kurucu"⟩ p) = some nestedOffences := by
    decide +kernel
  simp only [Option.bind_eq_some_iff, Option.map_eq_some_iff, toOption_eq_some] at hrun
  obtain ⟨tokens, htokens, p, hp, hoffences⟩ := hrun
  obtain ⟨f, hf, hfault⟩ := (generate_offences hp (by decide)).2.1 _ _ _ hoffences
  exact ⟨tokens, p, f, htokens, hp, hoffences, hf, hfault⟩

end Anadil.Python
