import Anadil.Proofs.Tree.Retold
import Anadil.Proofs.Tree.Legal
import Anadil.Proofs.Tree.Sketch

/-! # Trees that are told by their sketches

The sketches of legal trees are the same if and only if the trees are, spans aside and with stray bytes
seen as U+FFFD: the kind of a node says which fields its sketch has, and every part that tells two nodes
apart is in one of them. -/

namespace Anadil

variable {ctx ctx' : Context}

/-! ### Trees without spans and stray bytes -/

theorem Text.clean_clean (t : Text) : t.clean.clean = t.clean := clean_of_isClean (isClean_clean t)

theorem Literal.sketch_cleaned (v : Literal) : v.cleaned.sketch = v.sketch := by
  cases v with
  | string content => simp only [cleaned, sketch, Text.clean_clean]
  | _ => rfl

theorem exprsSketch_cleaned {es : List Expr} (h : ∀ e ∈ es, e.bare.cleaned.sketch = e.sketch) :
    exprsSketch (exprsRetold .cleaned (exprsRetold .bare es)) = exprsSketch es := by
  rw [exprsRetold_eq_map, exprsRetold_eq_map, exprsSketch_eq, exprsSketch_eq, List.map_map, List.map_map]
  exact List.map_congr_left h

theorem Expr.sketch_cleaned (e : Expr) : e.bare.cleaned.sketch = e.sketch := by
  induction e using Expr.induct with
  | binary s op l r ihl ihr => simp only [retold, sketch, ihl, ihr]
  | unary s op e ih => simp only [retold, sketch, ih]
  | call s f args ihf ihargs => simp only [retold, sketch, ihf, exprsSketch_cleaned ihargs]
  | member s o name ih => simp only [retold, sketch, ih]
  | literal s v => simp only [retold, sketch, Literal.sketch_cleaned]
  | _ => rfl

theorem stmtsSketch_cleaned {ss : List Stmt} (h : ∀ s ∈ ss, s.bare.cleaned.sketch = s.sketch) :
    stmtsSketch (stmtsRetold .cleaned (stmtsRetold .bare ss)) = stmtsSketch ss := by
  rw [stmtsRetold_eq_map, stmtsRetold_eq_map, stmtsSketch_eq, stmtsSketch_eq, List.map_map, List.map_map]
  exact List.map_congr_left h

theorem functionSketch_cleaned {f : Function Stmt} (h : ∀ s ∈ f.body, s.bare.cleaned.sketch = s.sketch) :
    functionSketch (functionRetold .cleaned (functionRetold .bare f)) = functionSketch f := by
  obtain ⟨s, name, params, body⟩ := f
  simp only [functionRetold, functionSketch, stmtsSketch_cleaned h]

theorem methodsSketch_cleaned {fs : List (Function Stmt)}
    (h : ∀ f ∈ fs, ∀ s ∈ f.body, s.bare.cleaned.sketch = s.sketch) :
    methodsSketch (methodsRetold .cleaned (methodsRetold .bare fs)) = methodsSketch fs := by
  rw [methodsRetold_eq_map, methodsRetold_eq_map, methodsSketch_eq, methodsSketch_eq, List.map_map, List.map_map]
  exact List.map_congr_left fun f hf => functionSketch_cleaned (h f hf)

theorem Stmt.sketch_cleaned (s : Stmt) : s.bare.cleaned.sketch = s.sketch := by
  induction s using Stmt.induct with
  | function f ih => simp only [retold, sketch, functionSketch_cleaned ih]
  | classDef s name fs ih => simp only [retold, sketch, methodsSketch_cleaned ih]
  | branch s c body ih => simp only [retold, sketch, Expr.sketch_cleaned, stmtsSketch_cleaned ih]
  | branchElse s c body otherwise ih ih' =>
    simp only [retold, sketch, Expr.sketch_cleaned, stmtsSketch_cleaned ih, stmtsSketch_cleaned ih']
  | loop s c body ih => simp only [retold, sketch, Expr.sketch_cleaned, stmtsSketch_cleaned ih]
  | ret s value =>
    cases value with
    | none => rfl
    | some e =>
      simp only [retold, Option.map_some, sketch, Expr.sketch_cleaned]
  | print s e => simp only [retold, sketch, Expr.sketch_cleaned]
  | expression s e => simp only [retold, sketch, Expr.sketch_cleaned]
  | assign s target e => simp only [retold, sketch, Expr.sketch_cleaned]
  | _ => rfl

theorem Program.sketch_cleaned (p : Program) : p.bare.cleaned.sketch = p.sketch := by
  simp only [retold, sketch, stmtsSketch_cleaned fun s _ => s.sketch_cleaned]

/-! ### Trees that are told by their sketches -/

/-- The type that an object names. -/
def Json.tag? : Json → Option Json
  | .object fields => fields.lookup ("type" : Text)
  | _ => none

/-- All kinds of nodes. -/
def NodeKind.all : List NodeKind := [
    .program, .functionDef, .classDef, .branch, .loop, .ret, .print, .expression, .assignment, .breakLoop,
    .continueLoop, .binary, .unary, .call, .member, .identifier, .self, .literal]

theorem NodeKind.name_inj {k k' : NodeKind} (h : (k.name : Text) = k'.name) : k = k' := by
  have hall : ∀ k ∈ all, ∀ k' ∈ all, (k.name : Text) = k'.name → k = k' := by decide
  have hmem : ∀ k : NodeKind, k ∈ all := by
    intro k
    cases k <;> decide
  exact hall k (hmem k) k' (hmem k') h

/-- The kind of node that an expression is. -/
def Expr.kind? : Expr → Option NodeKind
  | .binary .. => some .binary
  | .unary .. => some .unary
  | .call .. => some .call
  | .member .. => some .member
  | .name .. => some .identifier
  | .self _ => some .self
  | .literal .. => some .literal
  | .absent => none

/-- The kind of node that a statement is. -/
def Stmt.kind? : Stmt → Option NodeKind
  | .function _ => some .functionDef
  | .classDef .. => some .classDef
  | .branch .. => some .branch
  | .loop .. => some .loop
  | .ret .. => some .ret
  | .print .. => some .print
  | .expression .. => some .expression
  | .assign .. => some .assignment
  | .breakLoop _ => some .breakLoop
  | .continueLoop _ => some .continueLoop
  | .absent => none

theorem kind_of_tag {k k' : Option NodeKind}
    (h : k.map (fun k => Json.string k.name) = k'.map fun k => Json.string k.name) : k = k' := by
  cases k <;> cases k' <;> simp only [Option.map_some, Option.map_none, Option.some.injEq, Json.string.injEq,
    reduceCtorEq] at h ⊢
  exact NodeKind.name_inj h

theorem Expr.tag_sketch (e : Expr) : e.sketch.tag? = e.kind?.map fun k => Json.string k.name := by
  cases e with
  | literal s v => cases v <;> rfl
  | _ => rfl

theorem Stmt.tag_sketch (s : Stmt) : s.sketch.tag? = s.kind?.map fun k => Json.string k.name := by
  cases s with
  | function f =>
    cases f
    rfl
  | branch s c body otherwise => cases otherwise <;> rfl
  | ret s value => cases value <;> rfl
  | _ => rfl

theorem Expr.kind_of_sketch {e e' : Expr} (h : e.sketch = e'.sketch) : e.kind? = e'.kind? :=
  kind_of_tag (e.tag_sketch ▸ e'.tag_sketch ▸ congrArg Json.tag? h)

theorem Stmt.kind_of_sketch {s s' : Stmt} (h : s.sketch = s'.sketch) : s.kind? = s'.kind? :=
  kind_of_tag (s.tag_sketch ▸ s'.tag_sketch ▸ congrArg Json.tag? h)

open Anadil.Parser

/-- The texts of tokens as far as documents need them: names without stray bytes, and numbers with a
spelling. -/
structure Clear (known : Lexicon) : Prop where
  name : ∀ {t : Text}, known .identifier t → t.isClean = true
  number : ∀ {t : Text}, known .number t → t.isEmpty = false

theorem joining_inj : ∀ op ∈ joiningKinds, ∀ op' ∈ joiningKinds,
    Text.clean op.spelling = Text.clean op'.spelling → op = op' := by
  decide

theorem leading_inj : ∀ op ∈ leadingKinds, ∀ op' ∈ leadingKinds,
    Text.clean op.spelling = Text.clean op'.spelling → op = op' := by
  decide

theorem clean_inj {t u : Text} (ht : t.isClean = true) (hu : u.isClean = true) (h : t.clean = u.clean) : t = u := by
  rwa [Text.clean_of_isClean ht, Text.clean_of_isClean hu] at h

theorem sketchNode_length {kind kind' : NodeKind} {front front' back back' : List (Text × Json)}
    (h : sketchNode kind front back = sketchNode kind' front' back') :
    front.length + back.length = front'.length + back'.length := by
  have hlen := congrArg List.length (Json.object.inj h)
  simp only [List.length_append, List.length_cons] at hlen
  omega

/-- Nodes of one kind with the same fields in front have the same parts. -/
theorem sketchNode_inj {kind : NodeKind} {front front' back back' : List (Text × Json)}
    (h : sketchNode kind front back = sketchNode kind front' back') (hlen : front.length = front'.length := by simp) :
    front = front' ∧ back = back' := by
  obtain ⟨hfront, hback⟩ := List.append_inj (Json.object.inj h) hlen
  exact ⟨hfront, (List.cons.inj hback).2⟩

theorem field_inj {n : Text} {v w : Json} {fs gs : List (Text × Json)} (h : (n, v) :: fs = (n, w) :: gs) :
    v = w ∧ fs = gs := by
  obtain ⟨hfirst, hrest⟩ := List.cons.inj h
  exact ⟨(Prod.mk.inj hfirst).2, hrest⟩

/-- Members of lists that their sketches tell, one by one. -/
theorem map_told {α β : Type} {sketch : α → Json} {key : α → β} {xs ys : List α}
    (h : ∀ x ∈ xs, ∀ y ∈ ys, sketch x = sketch y → key x = key y) (hsketch : xs.map sketch = ys.map sketch) :
    xs.map key = ys.map key := by
  induction xs generalizing ys with
  | nil =>
    cases ys with
    | nil => rfl
    | cons y ys => cases hsketch
  | cons x xs ih =>
    cases ys with
    | nil => cases hsketch
    | cons y ys =>
      obtain ⟨hfirst, hrest⟩ := List.cons.inj hsketch
      rw [List.map_cons, List.map_cons, h x List.mem_cons_self y List.mem_cons_self hfirst,
        ih (fun a ha b hb => h a (List.mem_cons_of_mem x ha) b (List.mem_cons_of_mem y hb)) hrest]

section Told
variable {known : Lexicon} (hknown : Clear known)

/-- An expression that its sketch tells from every other legal one. -/
def Expr.Told (known : Lexicon) (e : Expr) : Prop :=
  ∀ {ctx ctx' : Context} {e' : Expr}, e.Legal known ctx → e'.Legal known ctx' → e.sketch = e'.sketch →
    e.bare.cleaned = e'.bare.cleaned

/-- Legal expressions with one sketch are the same but for spans and broken bytes. -/
theorem exprs_told {es es' : List Expr} (htold : ∀ e ∈ es, e.Told known)
    (h : exprsLegal known ctx es) (h' : exprsLegal known ctx' es') (hsketch : exprsSketch es = exprsSketch es') :
    exprsRetold .cleaned (exprsRetold .bare es) = exprsRetold .cleaned (exprsRetold .bare es') := by
  rw [exprsSketch_eq, exprsSketch_eq] at hsketch
  simp only [exprsRetold_eq_map, List.map_map]
  exact map_told (fun e he e' he' => htold e he (exprsLegal_iff.mp h e he) (exprsLegal_iff.mp h' e' he')) hsketch

/-- A statement that its sketch tells from every other legal one. -/
def Stmt.Told (known : Lexicon) (s : Stmt) : Prop :=
  ∀ {ctx ctx' : Context} {s' : Stmt}, s.Legal known ctx → s'.Legal known ctx' → s.sketch = s'.sketch →
    s.bare.cleaned = s'.bare.cleaned

/-- So are legal statements. -/
theorem stmts_told {ss ss' : List Stmt} (htold : ∀ s ∈ ss, s.Told known)
    (h : stmtsLegal known ctx ss) (h' : stmtsLegal known ctx' ss') (hsketch : stmtsSketch ss = stmtsSketch ss') :
    stmtsRetold .cleaned (stmtsRetold .bare ss) = stmtsRetold .cleaned (stmtsRetold .bare ss') := by
  rw [stmtsSketch_eq, stmtsSketch_eq] at hsketch
  simp only [stmtsRetold_eq_map, List.map_map]
  exact map_told (fun s hs s' hs' => htold s hs (stmtsLegal_iff.mp h s hs) (stmtsLegal_iff.mp h' s' hs')) hsketch

include hknown

theorem Literal.told {v v' : Literal} (h : v.Legal known) (h' : v'.Legal known) (hsketch : v.sketch = v'.sketch) :
    v.cleaned = v'.cleaned := by
  cases v with
  | string content =>
    cases v' with
    | string content' =>
      have hvalue := (field_inj (sketchNode_inj hsketch).2).1
      exact congrArg Literal.string (Json.string.inj hvalue)
    | null => exact absurd (sketchNode_inj hsketch).2 (List.cons_ne_nil _ _)
    | other kind => exact False.elim h'
    | _ => cases (field_inj (sketchNode_inj hsketch).2).1
  | number digits =>
    cases v' with
    | number digits' =>
      have hvalue := Json.number.inj (field_inj (sketchNode_inj hsketch).2).1
      rw [Json.spelled, hknown.number h, Json.spelled, hknown.number h'] at hvalue
      exact congrArg Literal.number hvalue
    | null => exact absurd (sketchNode_inj hsketch).2 (List.cons_ne_nil _ _)
    | other kind => exact False.elim h'
    | _ => cases (field_inj (sketchNode_inj hsketch).2).1
  | boolean b =>
    cases v' with
    | boolean b' =>
      have hvalue := (field_inj (sketchNode_inj hsketch).2).1
      exact congrArg Literal.boolean (Json.bool.inj hvalue)
    | null => exact absurd (sketchNode_inj hsketch).2 (List.cons_ne_nil _ _)
    | other kind => exact False.elim h'
    | _ => cases (field_inj (sketchNode_inj hsketch).2).1
  | null =>
    cases v' with
    | null => rfl
    | other kind => exact False.elim h'
    | _ => exact absurd (sketchNode_inj hsketch).2.symm (List.cons_ne_nil _ _)
  | other kind => exact False.elim h

theorem Expr.told (e : Expr) : e.Told known := by
  induction e using Expr.induct with
  | binary s op l r ihl ihr =>
    intro ctx ctx' e' h h' hsketch
    cases e' with
    | binary s' op' l' r' =>
      obtain ⟨hl, hfields⟩ := field_inj (sketchNode_inj hsketch).1
      obtain ⟨hop, hfields⟩ := field_inj hfields
      obtain ⟨hr, -⟩ := field_inj hfields
      obtain rfl := joining_inj op h.1 op' h'.1 (Json.string.inj hop)
      simp only [retold, ihl h.2.1 h'.2.1 hl, ihr h.2.2 h'.2.2 hr]
    | _ => cases Expr.kind_of_sketch hsketch
  | unary s op e ih =>
    intro ctx ctx' e' h h' hsketch
    cases e' with
    | unary s' op' e' =>
      obtain ⟨he, hfields⟩ := field_inj (sketchNode_inj hsketch).1
      obtain ⟨hop, -⟩ := field_inj hfields
      obtain rfl := leading_inj op h.1 op' h'.1 (Json.string.inj hop)
      simp only [retold, ih h.2 h'.2 he]
    | _ => cases Expr.kind_of_sketch hsketch
  | call s f args ihf ihargs =>
    intro ctx ctx' e' h h' hsketch
    cases e' with
    | call s' f' args' =>
      obtain ⟨hargs, hfields⟩ := field_inj (sketchNode_inj hsketch).1
      obtain ⟨hf, -⟩ := field_inj hfields
      simp only [retold, ihf h.2.1 h'.2.1 hf,
        exprs_told ihargs h.2.2 h'.2.2 (Json.array.inj hargs)]
    | _ => cases Expr.kind_of_sketch hsketch
  | member s o name ih =>
    intro ctx ctx' e' h h' hsketch
    cases e' with
    | member s' o' name' =>
      obtain ⟨hname, hfields⟩ := field_inj (sketchNode_inj hsketch).1
      obtain ⟨ho, -⟩ := field_inj hfields
      obtain rfl := clean_inj (hknown.name h.2.2) (hknown.name h'.2.2) (Json.string.inj hname)
      simp only [retold, ih h.1 h'.1 ho]
    | _ => cases Expr.kind_of_sketch hsketch
  | name s n =>
    intro ctx ctx' e' h h' hsketch
    cases e' with
    | name s' n' =>
      have hname := (field_inj (sketchNode_inj hsketch).1).1
      obtain rfl := clean_inj (hknown.name h.2) (hknown.name h'.2) (Json.string.inj hname)
      rfl
    | _ => cases Expr.kind_of_sketch hsketch
  | self s =>
    intro ctx ctx' e' h h' hsketch
    cases e' with
    | self s' => rfl
    | _ => cases Expr.kind_of_sketch hsketch
  | literal s v =>
    intro ctx ctx' e' h h' hsketch
    cases e' with
    | literal s' v' => simp only [retold, Literal.told hknown h h' hsketch]
    | _ => cases Expr.kind_of_sketch hsketch
  | absent => exact fun h => False.elim h

/-- Parameters that are printed the same are the same. -/
theorem params_told {ns ns' : List Text} (h : ∀ n ∈ ns, known .identifier n) (h' : ∀ n ∈ ns', known .identifier n)
    (hsketch : (ns.map fun n => Json.string n.clean) = ns'.map fun n => Json.string n.clean) : ns = ns' := by
  rw [← List.map_id ns, ← List.map_id ns']
  exact map_told (fun n hn n' hn' heq => clean_inj (hknown.name (h n hn)) (hknown.name (h' n' hn')) (Json.string.inj heq))
    hsketch

/-- So are legal functions. -/
theorem function_told {f f' : Function Stmt} {isMethod isMethod' : Bool}
    (htold : ∀ s ∈ f.body, s.Told known) (h : functionLegal known ctx isMethod f)
    (h' : functionLegal known ctx' isMethod' f') (hsketch : functionSketch f = functionSketch f') :
    functionRetold .cleaned (functionRetold .bare f) = functionRetold .cleaned (functionRetold .bare f') := by
  obtain ⟨s, name, params, body⟩ := f
  obtain ⟨s', name', params', body'⟩ := f'
  obtain ⟨hbody, hfields⟩ := field_inj (sketchNode_inj hsketch).1
  obtain ⟨hname, hfields⟩ := field_inj hfields
  obtain ⟨hparams, -⟩ := field_inj hfields
  obtain ⟨⟨-, hn⟩, hps, -, -, hlegal⟩ := h
  obtain ⟨⟨-, hn'⟩, hps', -, -, hlegal'⟩ := h'
  obtain rfl := clean_inj (hknown.name hn) (hknown.name hn') (Json.string.inj hname)
  obtain rfl := params_told hknown (fun n hn => (hps n hn).2) (fun n hn => (hps' n hn).2) (Json.array.inj hparams)
  simp only [functionRetold, stmts_told htold hlegal hlegal' (Json.array.inj hbody)]

theorem methods_told {fs fs' : List (Function Stmt)}
    (htold : ∀ f ∈ fs, ∀ s ∈ f.body, s.Told known) (h : methodsLegal known ctx fs) (h' : methodsLegal known ctx' fs')
    (hsketch : methodsSketch fs = methodsSketch fs') :
    methodsRetold .cleaned (methodsRetold .bare fs) = methodsRetold .cleaned (methodsRetold .bare fs') := by
  rw [methodsSketch_eq, methodsSketch_eq] at hsketch
  simp only [methodsRetold_eq_map, List.map_map]
  refine map_told (fun f hf f' hf' => ?_) hsketch
  exact function_told hknown (htold f hf) (methodsLegal_iff.mp h f hf) (methodsLegal_iff.mp h' f' hf')

theorem Stmt.told (s : Stmt) : s.Told known := by
  induction s using Stmt.induct with
  | function f ih =>
    intro ctx ctx' s' h h' hsketch
    cases s' with
    | function f' => simp only [retold, function_told hknown ih h h' hsketch]
    | _ => cases Stmt.kind_of_sketch hsketch
  | classDef s name fs ih =>
    intro ctx ctx' s' h h' hsketch
    cases s' with
    | classDef s' name' fs' =>
      obtain ⟨hmethods, hfields⟩ := field_inj (sketchNode_inj hsketch).1
      obtain ⟨hname, -⟩ := field_inj hfields
      obtain rfl := clean_inj (hknown.name h.2.1) (hknown.name h'.2.1) (Json.string.inj hname)
      simp only [retold, methods_told hknown ih h.2.2 h'.2.2 (Json.array.inj hmethods)]
    | _ => cases Stmt.kind_of_sketch hsketch
  | branch s c body ih =>
    intro ctx ctx' s' h h' hsketch
    cases s' with
    | branch s' c' body' otherwise =>
      cases otherwise with
      | none =>
        obtain ⟨hc, hfields⟩ := field_inj (sketchNode_inj hsketch).1
        obtain ⟨hbody, -⟩ := field_inj hfields
        simp only [retold, c.told hknown h.1 h'.1 hc, stmts_told ih h.2 h'.2 (Json.array.inj hbody)]
      | some otherwise => exact absurd (sketchNode_length hsketch) (by simp)
    | _ => cases Stmt.kind_of_sketch hsketch
  | branchElse s c body otherwise ih ih' =>
    intro ctx ctx' s' h h' hsketch
    cases s' with
    | branch s' c' body' otherwise' =>
      cases otherwise' with
      | none => exact absurd (sketchNode_length hsketch) (by simp)
      | some otherwise' =>
        obtain ⟨hc, hfields⟩ := field_inj (sketchNode_inj hsketch).1
        obtain ⟨helse, hfields⟩ := field_inj hfields
        obtain ⟨hbody, -⟩ := field_inj hfields
        simp only [retold, c.told hknown h.1 h'.1 hc,
          stmts_told ih h.2.1 h'.2.1 (Json.array.inj hbody), stmts_told ih' h.2.2 h'.2.2 (Json.array.inj helse)]
    | _ => cases Stmt.kind_of_sketch hsketch
  | loop s c body ih =>
    intro ctx ctx' s' h h' hsketch
    cases s' with
    | loop s' c' body' =>
      obtain ⟨hbody, hfields⟩ := field_inj (sketchNode_inj hsketch).1
      obtain ⟨hc, -⟩ := field_inj hfields
      simp only [retold, c.told hknown h.1 h'.1 hc, stmts_told ih h.2 h'.2 (Json.array.inj hbody)]
    | _ => cases Stmt.kind_of_sketch hsketch
  | ret s value =>
    intro ctx ctx' s' h h' hsketch
    cases s' with
    | ret s' value' =>
      cases value with
      | none =>
        cases value' with
        | none => rfl
        | some e' => exact absurd (sketchNode_inj hsketch).2.symm (List.cons_ne_nil _ _)
      | some e =>
        cases value' with
        | none => exact absurd (sketchNode_inj hsketch).2 (List.cons_ne_nil _ _)
        | some e' =>
          have he := (field_inj (sketchNode_inj hsketch).2).1
          simp only [retold, Option.map_some, e.told hknown h.2 h'.2 he]
    | _ => cases Stmt.kind_of_sketch hsketch
  | print s e =>
    intro ctx ctx' s' h h' hsketch
    cases s' with
    | print s' e' =>
      have he := (field_inj (sketchNode_inj hsketch).2).1
      simp only [retold, e.told hknown h h' he]
    | _ => cases Stmt.kind_of_sketch hsketch
  | expression s e =>
    intro ctx ctx' s' h h' hsketch
    cases s' with
    | expression s' e' =>
      have he := (field_inj (sketchNode_inj hsketch).1).1
      simp only [retold, e.told hknown h h' he]
    | _ => cases Stmt.kind_of_sketch hsketch
  | assign s target e =>
    intro ctx ctx' s' h h' hsketch
    cases s' with
    | assign s' target' e' =>
      obtain ⟨hfront, hback⟩ := sketchNode_inj hsketch
      simp only [retold, target.told hknown h.2.1 h'.2.1 (field_inj hfront).1,
        e.told hknown h.2.2 h'.2.2 (field_inj hback).1]
    | _ => cases Stmt.kind_of_sketch hsketch
  | breakLoop s =>
    intro ctx ctx' s' h h' hsketch
    cases s' with
    | breakLoop s' => rfl
    | _ => cases Stmt.kind_of_sketch hsketch
  | continueLoop s =>
    intro ctx ctx' s' h h' hsketch
    cases s' with
    | continueLoop s' => rfl
    | _ => cases Stmt.kind_of_sketch hsketch
  | absent => exact fun h => False.elim h

/-- Legal programs have the same sketch if and only if they are the same, spans aside and with stray bytes
seen as U+FFFD. -/
theorem Program.sketch_eq_iff {p q : Program} (hp : stmtsLegal known ctx p.body)
    (hq : stmtsLegal known ctx' q.body) : p.sketch = q.sketch ↔ p.bare.cleaned = q.bare.cleaned := by
  constructor
  · intro h
    have hbody := Json.array.inj (field_inj (sketchNode_inj h).1).1
    exact congrArg (Program.mk Span.none) (stmts_told (fun s _ => s.told hknown) hp hq hbody)
  · intro h
    rw [← p.sketch_cleaned, h, q.sketch_cleaned]

end Told

end Anadil
