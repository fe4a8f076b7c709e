import Anadil.Proofs.Python.Code

/-! # Blocks by indentation

Python finds the blocks of a text by its indentation. A line that ends in a colon opens a block of lines
that are indented alike and deeper, and `elif` and `else` belong to the `if` in front of them.
`readBlocks` reads a text so. It reads the lines of a tree of statements as that tree
(`readBlocks_lines`). -/

namespace Anadil.Python

variable {code : Text} {ns : List Node} {c : Clause Node} {cs : List (Clause Node)}

/-! ### Rows -/

/-- A line of a text: how many blanks stand in front, and what stands behind them. -/
structure Row where
  indent : Nat
  code : Text

/-- A line, parted into its blanks and the rest. -/
def Row.ofText (t : Text) : Row :=
  ⟨(t.takeWhile (· == .char ' ')).length, t.dropWhile (· == .char ' ')⟩

/-- The lines of a text that are ended, and what stands behind the last of them. -/
def endedLines : Text → List Text × Text
  | [] => ([], [])
  | g :: rest =>
    if g = .char '\n' then ([] :: (endedLines rest).1, (endedLines rest).2)
    else
      match endedLines rest with
      | ([], last) => ([], g :: last)
      | (l :: ls, last) => ((g :: l) :: ls, last)

/-- The rows of a text all of whose lines are ended. -/
def rows? (t : Text) : Option (List Row) :=
  match endedLines t with
  | (ls, []) => some (ls.map Row.ofText)
  | _ => none

/-! ### Blocks -/

/-- Whether a line ends in a colon. -/
def opensBlock (code : Text) : Bool := code.getLast? == some (.char ':')

/-- Whether a clause goes on with an `if` in front of it. -/
def isBehindIf (head : Text) : Bool := ("elif " : Text).isPrefixOf head || head == ("else:" : Text)

/-- Whether an `elif` or an `else` may follow a clause. -/
def isOpenIf (head : Text) : Bool := ("if " : Text).isPrefixOf head || ("elif " : Text).isPrefixOf head

/-- Puts a clause in front of statements, the first of which may go on with it. -/
def attach (c : Clause Node) : List Node → List Node
  | .block next more :: ns =>
    if isBehindIf next.head && isOpenIf c.head then .block c (next :: more) :: ns
    else .block c [] :: .block next more :: ns
  | ns => .block c [] :: ns

/-- Whether every `elif` and every `else` at the front of a statement has found its `if`. -/
def settled (ns : List Node) : Bool :=
  ns.all fun
    | .line _ => true
    | .block first _ => !isBehindIf first.head

/-- How far the first row is indented. -/
def indentOf : List Row → Nat
  | [] => 0
  | row :: _ => row.indent

/-- The statements of rows with one indentation, with the blocks below them. -/
def group (indent : Nat) : List Row → Option (List Node)
  | [] => some []
  | row :: rest =>
    let body := rest.takeWhile (indent < ·.indent)
    let behind := rest.dropWhile (indent < ·.indent)
    if row.indent ≠ indent ∨ row.code.isEmpty ∨ opensBlock row.code = body.isEmpty then none
    else if body.isEmpty then (group indent behind).map (.line row.code :: ·)
    else do
      let inner ← group (indentOf body) body
      let ns ← group indent behind
      if settled inner then some (attach ⟨row.code, inner⟩ ns) else none
termination_by rows => rows.length
decreasing_by
  · exact Nat.lt_succ_of_le (List.dropWhile_sublist _).length_le
  · exact Nat.lt_succ_of_le (List.takeWhile_sublist _).length_le
  · exact Nat.lt_succ_of_le (List.dropWhile_sublist _).length_le

/-- The statements of a text, by its indentation. -/
def readBlocks (t : Text) : Option (List Node) := do
  let ns ← group 0 (← rows? t)
  if settled ns then some ns else none

/-! ### Neat trees -/

/-- Whether a glyph is a character, and none of the control characters of ASCII. Python ends no line at
such a glyph. -/
def isPrintable : Glyph → Bool
  | .char c => 0x20 ≤ c.toNat && c.toNat != 0x7f
  | .byte _ => false

/-- Code that fills one line and begins where its indentation ends. -/
structure Tidy (code : Text) : Prop where
  printable : ∀ g ∈ code, isPrintable g = true
  first : ∃ g ∈ code.head?, g ≠ .char ' '

instance : DecidablePred Tidy := fun code =>
  decidable_of_iff ((∀ g ∈ code, isPrintable g = true) ∧ ∃ g ∈ code.head?, g ≠ .char ' ')
    ⟨fun h => ⟨h.1, h.2⟩, fun h => ⟨h.1, h.2⟩⟩

theorem Tidy.eq_cons (h : Tidy code) : ∃ g rest, code = g :: rest ∧ g ≠ .char ' ' := by
  obtain ⟨g, hg, hne⟩ := h.first
  obtain ⟨rest, rfl⟩ := List.head?_eq_some_iff.mp hg
  exact ⟨g, rest, rfl, hne⟩

theorem Tidy.ne_nil (h : Tidy code) : code ≠ [] := by
  obtain ⟨g, rest, rfl, -⟩ := h.eq_cons
  exact List.cons_ne_nil g rest

mutual

/-- A tree that indentation can show: what opens a block ends in a colon and nothing else does, no block
is empty, and only an `if` has clauses behind it. -/
def Node.IsNeat : Node → Prop
  | .line code => Tidy code ∧ opensBlock code = false
  | .block first more => isBehindIf first.head = false ∧ clauseNeat first ∧ clausesNeat first.head more

/-- Trees that indentation can show. -/
def allNeat : List Node → Prop
  | [] => True
  | n :: ns => n.IsNeat ∧ allNeat ns

/-- A neat clause: its head opens a block, which is neat and not empty. -/
def clauseNeat : Clause Node → Prop
  | ⟨head, body⟩ => (Tidy head ∧ opensBlock head = true) ∧ body ≠ [] ∧ allNeat body

/-- Neat clauses, each of which may stand behind the one before. -/
def clausesNeat (before : Text) : List (Clause Node) → Prop
  | [] => True
  | c :: cs => (isOpenIf before = true ∧ isBehindIf c.head = true) ∧ clauseNeat c ∧ clausesNeat c.head cs

end

/-- A property of nodes holds if it goes from the bodies of a block and of its clauses to the block. -/
theorem Node.induct {P : Node → Prop} (line : ∀ code, P (.line code))
    (block : ∀ first more, (∀ n ∈ first.body, P n) → (∀ c ∈ more, ∀ n ∈ c.body, P n) → P (.block first more))
    (n : Node) : P n :=
  @Node.rec P (fun c => ∀ n ∈ c.body, P n) (fun cs => ∀ c ∈ cs, ∀ n ∈ c.body, P n) (fun ns => ∀ n ∈ ns, P n)
    line block (fun _ _ hbody => hbody)
    (List.forall_mem_nil _) (fun _ _ hd tl => List.forall_mem_cons.mpr ⟨hd, tl⟩)
    (List.forall_mem_nil _) (fun _ _ hd tl => List.forall_mem_cons.mpr ⟨hd, tl⟩) n

theorem allNeat_iff : allNeat ns ↔ ∀ n ∈ ns, n.IsNeat := by
  induction ns with
  | nil => simp [allNeat]
  | cons n ns ih => rw [allNeat, ih, List.forall_mem_cons]

theorem settled_of_neat (h : allNeat ns) : settled ns = true := by
  rw [settled, List.all_eq_true]
  intro n hn
  cases n with
  | line code => rfl
  | block first more =>
    have hfirst := (allNeat_iff.mp h _ hn).1
    simp [hfirst]

/-! ### Reading rows -/

/-- The row of a line, with a number of blanks for each level. -/
def Line.row (indent : Nat) (l : Line) : Row := ⟨indent * l.depth, l.code⟩

/-- The first row is indented no further than `indent`. -/
def Shallow (indent : Nat) (rs : List Row) : Prop := ∀ r ∈ rs.head?, r.indent ≤ indent

section Rows
variable {indent : Nat} {body behind : List Row}

theorem takeWhile_body (hbody : ∀ r ∈ body, indent < r.indent) (hbehind : Shallow indent behind) :
    (body ++ behind).takeWhile (indent < ·.indent) = body ∧
      (body ++ behind).dropWhile (indent < ·.indent) = behind := by
  have hbody : ∀ r ∈ body, decide (indent < r.indent) = true := fun r hr => decide_eq_true (hbody r hr)
  rw [List.takeWhile_append_of_pos hbody, List.dropWhile_append_of_pos hbody]
  cases behind with
  | nil => simp
  | cons r rs =>
    have hr : ¬indent < r.indent := Nat.not_lt.mpr (hbehind r rfl)
    simp [hr]

/-- A line that opens no block stands for itself. -/
theorem group_line (hne : code ≠ []) (hopens : opensBlock code = false) (hbehind : Shallow indent behind) :
    group indent (⟨indent, code⟩ :: behind) = (group indent behind).map (.line code :: ·) := by
  obtain ⟨htake, hdrop⟩ := @takeWhile_body indent [] behind (by simp) hbehind
  rw [List.nil_append] at htake hdrop
  rw [group, htake, hdrop]
  simp [hne, hopens]

/-- A line that opens a block takes the deeper lines behind it. -/
theorem group_block {inner : List Node} (hne : code ≠ []) (hopens : opensBlock code = true)
    (hbody : ∀ r ∈ body, indent < r.indent) (hbody_ne : body ≠ []) (hbehind : Shallow indent behind)
    (hinner : group (indentOf body) body = some inner) (hsettled : settled inner = true) :
    group indent (⟨indent, code⟩ :: (body ++ behind)) = (group indent behind).map (attach ⟨code, inner⟩) := by
  obtain ⟨htake, hdrop⟩ := takeWhile_body hbody hbehind
  rw [group, htake, hdrop]
  simp only [List.isEmpty_eq_false_iff.mpr hne, hopens, List.isEmpty_eq_false_iff.mpr hbody_ne, hinner]
  cases group indent behind <;> simp [hsettled]

end Rows

/-! ### Reading the lines of a tree -/

/-- Clauses in front of statements, as one statement. -/
def withClauses : List (Clause Node) → List Node → List Node
  | [], ns => ns
  | c :: cs, ns => .block c cs :: ns

/-- Clauses go on with the clause in front of them, and the next statement does not. -/
theorem attach_withClauses (hcs : clausesNeat c.head cs) (hns : settled ns = true) :
    attach c (withClauses cs ns) = .block c cs :: ns := by
  cases cs with
  | cons next cs => simp [withClauses, attach, hcs.1.1, hcs.1.2]
  | nil =>
    cases ns with
    | nil => rfl
    | cons n ns =>
      cases n with
      | line code => rfl
      | block first more =>
        have hfirst : isBehindIf first.head = false := by
          simpa [settled] using List.all_eq_true.mp hns _ List.mem_cons_self
        simp [withClauses, attach, hfirst]

theorem linesAll_eq (depth : Nat) (ns : List Node) : Node.linesAll depth ns = ns.flatMap (Node.lines depth) := by
  induction ns with
  | nil => rfl
  | cons n ns ih => rw [Node.linesAll, ih, List.flatMap_cons]

theorem clausesLines_eq (depth : Nat) (cs : List (Clause Node)) :
    Node.clausesLines depth cs = cs.flatMap (Node.clauseLines depth) := by
  induction cs with
  | nil => rfl
  | cons c cs ih => rw [Node.clausesLines, ih, List.flatMap_cons]

theorem clauseNeat_of_mem {before : Text} (h : clausesNeat before cs) (hc : c ∈ cs) : clauseNeat c := by
  induction cs generalizing before with
  | nil => cases hc
  | cons d cs ih =>
    rcases List.mem_cons.mp hc with rfl | hc
    · exact h.2.1
    · exact ih h.2.2 hc

/-- The lines of a neat statement are tidy and no less deep than the statement. -/
theorem tidy_lines (n : Node) (depth : Nat) (h : n.IsNeat) :
    ∀ l ∈ n.lines depth, depth ≤ l.depth ∧ Tidy l.code := by
  induction n using Node.induct generalizing depth with
  | line code =>
    intro l hl
    cases List.mem_singleton.mp hl
    exact ⟨Nat.le_refl depth, h.1⟩
  | block first more ihfirst ihmore =>
    have hclause : ∀ c : Clause Node, clauseNeat c →
        (∀ n ∈ c.body, ∀ depth, n.IsNeat → ∀ l ∈ n.lines depth, depth ≤ l.depth ∧ Tidy l.code) →
        ∀ l ∈ Node.clauseLines depth c, depth ≤ l.depth ∧ Tidy l.code := by
      rintro ⟨head, body⟩ ⟨hhead, -, hbody⟩ ih l hl
      rcases List.mem_cons.mp hl with rfl | hl
      · exact ⟨Nat.le_refl depth, hhead.1⟩
      · rw [linesAll_eq, List.mem_flatMap] at hl
        obtain ⟨n, hn, hl⟩ := hl
        obtain ⟨hdepth, htidy⟩ := ih n hn (depth + 1) (allNeat_iff.mp hbody n hn) l hl
        exact ⟨Nat.le_of_succ_le hdepth, htidy⟩
    intro l hl
    rcases List.mem_append.mp hl with hl | hl
    · exact hclause first h.2.1 ihfirst l hl
    · rw [clausesLines_eq, List.mem_flatMap] at hl
      obtain ⟨c, hc, hl⟩ := hl
      exact hclause c (clauseNeat_of_mem h.2.2 hc) (ihmore c hc) l hl

theorem tidy_linesAll (depth : Nat) (h : allNeat ns) :
    ∀ l ∈ Node.linesAll depth ns, depth ≤ l.depth ∧ Tidy l.code := by
  intro l hl
  rw [linesAll_eq, List.mem_flatMap] at hl
  obtain ⟨n, hn, hl⟩ := hl
  exact tidy_lines n depth (allNeat_iff.mp h n hn) l hl

section Lines
variable {k depth : Nat} {behind : List Row} {ns : List Node}

/-- The rows of nodes, `k` blanks a level. -/
def rowsOf (k depth : Nat) (ns : List Node) : List Row := (Node.linesAll depth ns).map (Line.row k)

theorem rowsOf_cons (n : Node) :
    ∃ code rest, rowsOf k depth (n :: ns) = ⟨k * depth, code⟩ :: rest := by
  cases n with
  | line code => exact ⟨code, _, rfl⟩
  | block first more =>
    obtain ⟨head, body⟩ := first
    exact ⟨head, _, rfl⟩

theorem shallow_rowsOf : Shallow (k * depth) (rowsOf k depth ns) := by
  cases ns with
  | nil => simp [Shallow, rowsOf, Node.linesAll]
  | cons n ns =>
    obtain ⟨code, rest, hrows⟩ := @rowsOf_cons k depth ns n
    simp [Shallow, hrows]

/-- The lines of a node in front of others are grouped into the node and the others. -/
def ReadsBack (k : Nat) (n : Node) : Prop :=
  ∀ depth behind ns, n.IsNeat → Shallow (k * depth) behind → group (k * depth) behind = some ns →
    settled ns = true → group (k * depth) ((n.lines depth).map (Line.row k) ++ behind) = some (n :: ns)

theorem group_rowsOf (hreads : ∀ n ∈ ns, ReadsBack k n) (h : allNeat ns) :
    group (k * depth) (rowsOf k depth ns) = some ns := by
  induction ns with
  | nil => rw [rowsOf, Node.linesAll, List.map_nil, group]
  | cons n ns ih =>
    obtain ⟨hn, hns⟩ := List.forall_mem_cons.mp hreads
    rw [rowsOf, Node.linesAll, List.map_append]
    exact hn depth _ ns h.1 shallow_rowsOf (ih hns h.2) (settled_of_neat h.2)

theorem group_clause (hk : 1 ≤ k) (hreads : ∀ n ∈ c.body, ReadsBack k n) (h : clauseNeat c)
    (hbehind : Shallow (k * depth) behind) :
    group (k * depth) ((Node.clauseLines depth c).map (Line.row k) ++ behind) =
      (group (k * depth) behind).map (attach c) := by
  obtain ⟨head, body⟩ := c
  obtain ⟨⟨htidy, hopens⟩, hne, hneat⟩ := h
  obtain ⟨n, ns, rfl⟩ := List.exists_cons_of_ne_nil hne
  obtain ⟨code, rest, hrows⟩ := @rowsOf_cons k (depth + 1) ns n
  have hdeeper : ∀ r ∈ rowsOf k (depth + 1) (n :: ns), k * depth < r.indent := by
    intro r hr
    obtain ⟨l, hl, rfl⟩ := List.mem_map.mp hr
    have hdepth := (tidy_linesAll (depth + 1) hneat l hl).1
    exact Nat.mul_lt_mul_of_pos_left hdepth hk
  have hindent : indentOf (rowsOf k (depth + 1) (n :: ns)) = k * (depth + 1) := by rw [hrows, indentOf]
  have hinner : group (indentOf (rowsOf k (depth + 1) (n :: ns))) (rowsOf k (depth + 1) (n :: ns)) =
      some (n :: ns) := by
    rw [hindent]
    exact group_rowsOf hreads hneat
  have hrows_ne : rowsOf k (depth + 1) (n :: ns) ≠ [] := by
    rw [hrows]
    exact List.cons_ne_nil _ _
  exact group_block htidy.ne_nil hopens hdeeper hrows_ne hbehind hinner (settled_of_neat hneat)

theorem shallow_clauses (hbehind : Shallow (k * depth) behind) :
    Shallow (k * depth) ((Node.clausesLines depth cs).map (Line.row k) ++ behind) := by
  cases cs with
  | nil => exact hbehind
  | cons c cs =>
    obtain ⟨head, body⟩ := c
    simp [Shallow, Node.clausesLines, Node.clauseLines, Line.row]

/-- Clauses that fit are put back to the block they were written behind. -/
theorem group_clauses {before : Text} (hk : 1 ≤ k)
    (hreads : ∀ c ∈ cs, ∀ n ∈ c.body, ReadsBack k n) (h : clausesNeat before cs)
    (hbehind : Shallow (k * depth) behind) (hns : group (k * depth) behind = some ns)
    (hsettled : settled ns = true) :
    group (k * depth) ((Node.clausesLines depth cs).map (Line.row k) ++ behind) = some (withClauses cs ns) := by
  induction cs generalizing before with
  | nil => exact hns
  | cons c cs ih =>
    obtain ⟨hc, hcs⟩ := List.forall_mem_cons.mp hreads
    rw [Node.clausesLines, List.map_append, List.append_assoc,
      group_clause hk hc h.2.1 (shallow_clauses hbehind), ih hcs h.2.2, Option.map_some,
      attach_withClauses h.2.2 hsettled]
    rfl

theorem readsBack (hk : 1 ≤ k) (n : Node) : ReadsBack k n := by
  induction n using Node.induct with
  | line code =>
    intro depth behind ns h hbehind hns _
    show group (k * depth) (⟨k * depth, code⟩ :: behind) = _
    rw [group_line h.1.ne_nil h.2 hbehind, hns, Option.map_some]
  | block first more ihfirst ihmore =>
    intro depth behind ns h hbehind hns hsettled
    -- the clauses behind come first: the first clause takes over the statement that they are read as
    rw [Node.lines, List.map_append, List.append_assoc,
      group_clause hk ihfirst h.2.1 (shallow_clauses hbehind), group_clauses hk ihmore h.2.2 hbehind hns hsettled,
      Option.map_some, attach_withClauses h.2.2 hsettled]

end Lines

/-! ### Reading the text of a tree -/

theorem endedLines_line {t rest : Text} (h : ∀ g ∈ t, isPrintable g = true) :
    endedLines (t ++ .char '\n' :: rest) = (t :: (endedLines rest).1, (endedLines rest).2) := by
  induction t with
  | nil => simp [endedLines]
  | cons g t ih =>
    obtain ⟨hg, ht⟩ := List.forall_mem_cons.mp h
    have hne : g ≠ .char '\n' := by
      rintro rfl
      exact absurd hg (by decide)
    rw [List.cons_append, endedLines, if_neg hne, ih ht]

theorem ofText_blanks (n : Nat) (h : Tidy code) : Row.ofText (Text.blanks n ++ code) = ⟨n, code⟩ := by
  obtain ⟨g, rest, rfl, hg⟩ := h.eq_cons
  have hblanks : ∀ g ∈ Text.blanks n, (g == .char ' ') = true := by
    intro g hg
    rw [List.eq_of_mem_replicate hg]
    decide
  rw [Row.ofText, List.takeWhile_append_of_pos hblanks, List.dropWhile_append_of_pos hblanks]
  simp [hg, Text.blanks]

/-- Written lines are found again, each with the blanks in front of it. -/
theorem endedLines_lines {k : Nat} {ls : List Line} (h : ∀ l ∈ ls, Tidy l.code) :
    endedLines (ls.flatMap (Line.text k)) = (ls.map fun l => Text.blanks (k * l.depth) ++ l.code, []) := by
  induction ls with
  | nil => rfl
  | cons l ls ih =>
    obtain ⟨hl, hls⟩ := List.forall_mem_cons.mp h
    have hprintable : ∀ g ∈ Text.blanks (k * l.depth) ++ l.code, isPrintable g = true := by
      intro g hg
      rcases List.mem_append.mp hg with hg | hg
      · rw [List.eq_of_mem_replicate hg]
        decide
      · exact hl.printable g hg
    have htext : (l :: ls).flatMap (Line.text k) =
        (Text.blanks (k * l.depth) ++ l.code) ++ .char '\n' :: ls.flatMap (Line.text k) := by
      simp [Line.text, Text.ofString]
    rw [htext, endedLines_line hprintable, ih hls, List.map_cons]

theorem readBlocks_lines {k : Nat} (hk : 1 ≤ k) (h : allNeat ns) :
    readBlocks ((Node.linesAll 0 ns).flatMap (Line.text k)) = some ns := by
  have htidy : ∀ l ∈ Node.linesAll 0 ns, Tidy l.code := fun l hl => (tidy_linesAll 0 h l hl).2
  have hrows : rows? ((Node.linesAll 0 ns).flatMap (Line.text k)) = some (rowsOf k 0 ns) := by
    rw [rows?, endedLines_lines htidy]
    show some _ = some _
    rw [List.map_map, rowsOf]
    exact congrArg some (List.map_congr_left fun l hl => ofText_blanks _ (htidy l hl))
  have hgroup : group 0 (rowsOf k 0 ns) = some ns := @group_rowsOf k 0 ns (fun n _ => readsBack hk n) h
  rw [readBlocks, hrows]
  show (group 0 (rowsOf k 0 ns)).bind _ = _
  rw [hgroup, Option.bind_some, if_pos (settled_of_neat h)]

end Anadil.Python
