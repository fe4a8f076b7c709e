import Anadil.Path
import Anadil.Proofs.Text.Split

/-! # Paths and their parts

A shortest path is the route along its parts. Parts that lead a step down stay at the end of a path, whatever
stands in front of them, so a path below a directory is the route of the directory and those parts. -/

namespace Anadil.Path

/-- No slash in a text. -/
def Unslashed (t : Text) : Prop := ∀ g ∈ t, g.is '/' = false

instance (t : Text) : Decidable (Unslashed t) := inferInstanceAs (Decidable (∀ g ∈ t, g.is '/' = false))

/-- A part that is not passed over. -/
structure IsPart (t : Text) : Prop where
  nonempty : t ≠ []
  unslashed : Unslashed t

/-- A part that leads one step down. -/
structure IsElement (t : Text) : Prop extends IsPart t where
  not_here : t ≠ here
  not_up : t ≠ up

instance (t : Text) : Decidable (IsElement t) :=
  decidable_of_iff (t ≠ [] ∧ Unslashed t ∧ t ≠ here ∧ t ≠ up)
    ⟨fun h => ⟨⟨h.1, h.2.1⟩, h.2.2.1, h.2.2.2⟩, fun h => ⟨h.nonempty, h.unslashed, h.not_here, h.not_up⟩⟩

/-! ### Parts -/

section Parts
variable {t : Text} {ps : List Text}

theorem parts_ne_nil (p : Text) : parts p ≠ [] := Text.splitAt_ne_nil '/' p

theorem unslashed_of_mem_parts {p q : Text} (h : q ∈ parts p) : Unslashed q :=
  Text.notMem_iff.mp (Text.notMem_of_mem_splitAt h)

theorem parts_append (a b : Text) : parts (a ++ .char '/' :: b) = parts a ++ parts b := Text.splitAt_append '/' a b

theorem parts_of_unslashed (h : Unslashed t) : parts t = [t] := Text.splitAt_of_notMem (Text.notMem_iff.mpr h)

theorem join_cons_cons (p q : Text) (ps : List Text) :
    Text.join "/" (p :: q :: ps) = p ++ .char '/' :: Text.join "/" (q :: ps) := Text.join_cons_cons '/' p q ps

theorem parts_join (hne : ps ≠ []) (h : ∀ p ∈ ps, Unslashed p) : parts (Text.join "/" ps) = ps :=
  Text.splitAt_join hne fun p hp => Text.notMem_iff.mpr (h p hp)

end Parts

/-! ### Reduced parts -/

/-- Where a part leads from the parts on the way so far, the last first. -/
def move (rooted : Bool) (done : List Text) (p : Text) : List Text :=
  if p.isEmpty || p == here then done
  else if p == up then
    match done with
    | d :: ds => if d == up then up :: done else ds
    | [] => if rooted then [] else [up]
  else p :: done

section Reduced
variable {rooted : Bool} {p t : Text} {ps done : List Text}

theorem reduce_eq (rooted : Bool) (done ps : List Text) : reduce rooted done ps = ps.foldl (move rooted) done := by
  induction ps generalizing done with
  | nil => rfl
  | cons p ps ih =>
    rw [List.foldl_cons, ← ih, reduce.eq_def]
    unfold move
    dsimp only
    split
    · rfl
    · split
      · rcases done with _ | ⟨d, ds⟩
        · dsimp only
          split <;> rfl
        · dsimp only
          split <;> rfl
      · rfl

theorem move_element (h : IsElement p) : move rooted done p = p :: done := by
  have hstay : ¬ (p.isEmpty || p == here) = true := by simp [h.nonempty, h.not_here]
  have hup : ¬ (p == up) = true := by simp [h.not_up]
  unfold move
  rw [if_neg hstay, if_neg hup]

theorem move_nil (rooted : Bool) (done : List Text) : move rooted done [] = done := rfl

theorem foldl_move_elements (h : ∀ p ∈ ps, IsElement p) : ps.foldl (move rooted) done = ps.reverse ++ done := by
  induction ps generalizing done with
  | nil => rfl
  | cons p ps ih =>
    obtain ⟨hp, hps⟩ := List.forall_mem_cons.mp h
    rw [List.foldl_cons, move_element hp, ih hps, List.reverse_cons, List.append_assoc]
    rfl

/-- A part leads nowhere, one step back or one step further. A step up leads further only without a root or behind
another one. -/
theorem move_or (rooted : Bool) (done : List Text) (p : Text) :
    move rooted done p = done ∨ move rooted done p = done.tail ∨
      (p ≠ [] ∧ p ≠ here ∧ (p = up → rooted = true → up ∈ done)) ∧ move rooted done p = p :: done := by
  unfold move
  split
  · exact .inl rfl
  · rename_i hstay
    simp only [Bool.or_eq_true, List.isEmpty_iff, beq_iff_eq, not_or] at hstay
    split
    · rename_i hup
      obtain rfl := beq_iff_eq.mp hup
      rcases done with _ | ⟨d, ds⟩
      · cases rooted <;> simp [hstay]
      · by_cases hd : d = up <;> simp [hd, hstay]
    · rename_i hup
      simp only [beq_iff_eq] at hup
      simp [hstay, hup]

/-- From the root a part leads a step down, a step up or nowhere. -/
theorem move_cases (hp : Unslashed p) (hdone : ∀ t ∈ done, t ≠ up) :
    move true done p = done ∨ move true done p = done.tail ∨ IsElement p ∧ move true done p = p :: done := by
  rcases move_or true done p with h | h | ⟨⟨hne, hhere, hup⟩, h⟩
  · exact .inl h
  · exact .inr (.inl h)
  · exact .inr (.inr ⟨⟨⟨hne, hp⟩, hhere, fun heq => hdone up (hup heq rfl) rfl⟩, h⟩)

theorem isElement_foldl_move (hdone : ∀ t ∈ done, IsElement t) (hps : ∀ p ∈ ps, Unslashed p) :
    ∀ t ∈ ps.foldl (move true) done, IsElement t := by
  induction ps generalizing done with
  | nil => exact hdone
  | cons p ps ih =>
    obtain ⟨hp, hps⟩ := List.forall_mem_cons.mp hps
    refine ih ?_ hps
    rcases move_cases hp fun t ht => (hdone t ht).not_up with h | h | ⟨hp, h⟩
    · rw [h]
      exact hdone
    · rw [h]
      exact fun t ht => hdone t (List.mem_of_mem_tail ht)
    · rw [h]
      exact List.forall_mem_cons.mpr ⟨hp, hdone⟩

theorem mem_move (h : t ∈ move rooted done p) : t ∈ done ∨ t = p ∧ t ≠ [] := by
  rcases move_or rooted done p with hmove | hmove | ⟨⟨hp, -⟩, hmove⟩
  · exact .inl (hmove ▸ h)
  · exact .inl (List.mem_of_mem_tail (hmove ▸ h))
  · rw [hmove] at h
    exact (List.mem_cons.mp h).symm.imp_right fun h => ⟨h, h ▸ hp⟩

theorem mem_foldl_move (h : t ∈ ps.foldl (move rooted) done) : t ∈ done ∨ t ∈ ps ∧ t ≠ [] := by
  induction ps generalizing done with
  | nil => exact .inl h
  | cons p ps ih =>
    rcases ih h with h | ⟨h, hne⟩
    · rcases mem_move h with h | ⟨rfl, hne⟩
      · exact .inl h
      · exact .inr ⟨List.mem_cons_self, hne⟩
    · exact .inr ⟨List.mem_cons_of_mem p h, hne⟩

theorem length_foldl_move (rooted : Bool) (done ps : List Text) :
    (ps.foldl (move rooted) done).length ≤ ps.length + done.length := by
  induction ps generalizing done with
  | nil => exact (Nat.zero_add _).ge
  | cons p ps ih =>
    refine (ih _).trans ?_
    rw [List.length_cons]
    rcases move_or rooted done p with hmove | hmove | ⟨-, hmove⟩
    · rw [hmove]
      omega
    · rw [hmove, List.length_tail]
      omega
    · rw [hmove, List.length_cons]
      omega

/-- Parts, the last first, each of which leads one step further. -/
inductive Reduced (rooted : Bool) : List Text → Prop
  | nil : Reduced rooted []
  | cons {p : Text} {done : List Text} (h : Reduced rooted done) (hmove : move rooted done p = p :: done) :
    Reduced rooted (p :: done)

theorem reduced_elements (h : ∀ p ∈ done, IsElement p) : Reduced rooted done := by
  induction done with
  | nil => exact .nil
  | cons p done ih =>
    obtain ⟨hp, h⟩ := List.forall_mem_cons.mp h
    exact (ih h).cons (move_element hp)

theorem Reduced.foldl_move (h : Reduced rooted done) (ps : List Text) : Reduced rooted (ps.foldl (move rooted) done) := by
  induction ps generalizing done with
  | nil => exact h
  | cons p ps ih =>
    refine ih ?_
    rcases move_or rooted done p with hmove | hmove | ⟨-, hmove⟩
    · rwa [hmove]
    · rw [hmove]
      cases h with
      | nil => exact .nil
      | cons h => exact h
    · rw [hmove]
      exact h.cons hmove

theorem Reduced.foldl_reverse (h : Reduced rooted done) : done.reverse.foldl (move rooted) [] = done := by
  induction h with
  | nil => rfl
  | cons h hmove ih => rw [List.reverse_cons, List.foldl_concat, ih, hmove]

end Reduced

/-! ### Routes -/

/-- The shortest path along parts. -/
def route (rooted : Bool) (ps : List Text) : Text :=
  let body := Text.join "/" ps
  if rooted then .char '/' :: body else if body.isEmpty then here else body

/-- Where a path leads, name by name. -/
def steps (p : Text) : List Text := ((parts p).foldl (move (isAbsolute p)) []).reverse

theorem clean_eq (p : Text) : clean p = route (isAbsolute p) (steps p) := by
  rw [clean, reduce_eq]
  rfl

section Routes
variable {rooted : Bool} {p t : Text} {ps xs : List Text}

theorem isPart_of_mem_steps (h : t ∈ steps p) : IsPart t := by
  rcases mem_foldl_move (List.mem_reverse.mp h) with h | ⟨h, hne⟩
  · exact absurd h List.not_mem_nil
  · exact ⟨hne, unslashed_of_mem_parts h⟩

theorem length_steps (p : Text) : (steps p).length ≤ p.length + 1 := by
  have hparts := Text.length_splitAt_le '/' p
  have hmove := length_foldl_move (isAbsolute p) [] (parts p)
  rw [steps, List.length_reverse]
  exact hmove.trans hparts

theorem isElement_of_mem_steps (hp : isAbsolute p = true) (h : t ∈ steps p) : IsElement t := by
  rw [steps, hp] at h
  exact isElement_foldl_move (fun _ h => absurd h List.not_mem_nil) (fun _ => unslashed_of_mem_parts) t
    (List.mem_reverse.mp h)

theorem join_eq_nil (h : ∀ p ∈ ps, p ≠ []) : Text.join "/" ps = [] ↔ ps = [] := by
  rcases ps with _ | ⟨p, _ | ⟨q, ps⟩⟩
  · exact ⟨fun _ => rfl, fun _ => rfl⟩
  · simpa [Text.join] using h p List.mem_cons_self
  · rw [join_cons_cons]
    simp

theorem route_ne_nil (rooted : Bool) (ps : List Text) : route rooted ps ≠ [] := by
  unfold route
  cases rooted with
  | true => exact List.cons_ne_nil _ _
  | false =>
    rw [if_neg Bool.false_ne_true]
    split
    · decide
    · rename_i hbody
      exact mt List.isEmpty_iff.mpr hbody

/-- The steps of a route are its parts behind the slash in front. -/
theorem parts_route (hne : ps ≠ []) (h : ∀ p ∈ ps, IsPart p) :
    parts (route rooted ps) = if rooted then [] :: ps else ps := by
  have hparts := parts_join hne fun p hp => (h p hp).unslashed
  have hbody : ¬ (Text.join "/" ps).isEmpty = true := by
    rw [List.isEmpty_iff, join_eq_nil fun p hp => (h p hp).nonempty]
    exact hne
  cases rooted with
  | true => exact (parts_append [] _).trans (congrArg ([] :: ·) hparts)
  | false =>
    rw [route, if_neg Bool.false_ne_true, if_neg hbody, hparts]
    rfl

theorem isAbsolute_eq_false {q : Text} {qs : List Text} (h : parts p = q :: qs) (hq : q ≠ []) :
    isAbsolute p = false := by
  cases p with
  | nil => rfl
  | cons g p =>
    cases hg : g.is '/' with
    | true =>
      have hparts := (parts_append [] p).symm.trans (Text.is_iff.mp hg ▸ h)
      exact absurd (List.cons.inj hparts).1.symm hq
    | false => exact hg

theorem isAbsolute_route (hne : ps ≠ []) (h : ∀ p ∈ ps, IsPart p) :
    isAbsolute (route rooted ps) = rooted := by
  cases rooted with
  | true => rfl
  | false =>
    have hparts : parts (route false ps) = ps := parts_route hne h
    obtain ⟨p, ps, rfl⟩ := List.exists_cons_of_ne_nil hne
    exact isAbsolute_eq_false hparts (h p List.mem_cons_self).nonempty

theorem isAbsolute_append (hp : p ≠ []) (t : Text) : isAbsolute (p ++ t) = isAbsolute p := by
  obtain ⟨g, p, rfl⟩ := List.exists_cons_of_ne_nil hp
  rfl

/-- A path behind another starts where the other leads. -/
theorem steps_append (hp : p ≠ []) (t : Text) :
    steps (p ++ .char '/' :: t) = ((parts t).foldl (move (isAbsolute p)) (steps p).reverse).reverse := by
  rw [steps, steps, isAbsolute_append hp, parts_append, List.foldl_append, List.reverse_reverse]

theorem clean_append (hp : p ≠ []) (hne : xs ≠ []) (h : ∀ x ∈ xs, IsElement x) :
    clean (p ++ .char '/' :: Text.join "/" xs) = route (isAbsolute p) (steps p ++ xs) := by
  have hsteps : steps (p ++ .char '/' :: Text.join "/" xs) = steps p ++ xs := by
    rw [steps_append hp, parts_join hne fun x hx => (h x hx).unslashed, foldl_move_elements h,
      List.reverse_append, List.reverse_reverse, List.reverse_reverse]
  rw [clean_eq, hsteps, isAbsolute_append hp]

theorem clean_elements (hne : xs ≠ []) (h : ∀ x ∈ xs, IsElement x) :
    clean (Text.join "/" xs) = route false xs := by
  have hparts := parts_join hne fun x hx => (h x hx).unslashed
  obtain ⟨x, xs, rfl⟩ := List.exists_cons_of_ne_nil hne
  have habsolute := isAbsolute_eq_false hparts (h x List.mem_cons_self).nonempty
  rw [clean_eq, steps, habsolute, hparts, foldl_move_elements h, List.append_nil, List.reverse_reverse]

/-- A path below a directory is the route of the directory with the elements behind it. -/
theorem join_below (directory : Text) (hne : xs ≠ []) (h : ∀ x ∈ xs, IsElement x) :
    join [directory, Text.join "/" xs] = route (isAbsolute directory) (steps directory ++ xs) := by
  have hbody : (Text.join "/" xs).isEmpty = false := by
    rw [← Bool.not_eq_true, List.isEmpty_iff, join_eq_nil fun x hx => (h x hx).nonempty]
    exact hne
  cases directory with
  | nil =>
    have hjoin : join [[], Text.join "/" xs] = clean (Text.join "/" xs) := by
      simp [join, hbody, Text.join]
    rw [hjoin, clean_elements hne h]
    rfl
  | cons g d =>
    have hjoin : join [g :: d, Text.join "/" xs] = clean (g :: d ++ .char '/' :: Text.join "/" xs) := by
      simp [join, hbody, Text.join]
      rfl
    rw [hjoin, clean_append (List.cons_ne_nil g d) hne h]

theorem steps_route (h : ∀ p ∈ ps, IsElement p) : steps (route true ps) = ps := by
  cases ps with
  | nil => rfl
  | cons p ps =>
    have hparts : parts (route true (p :: ps)) = [] :: p :: ps :=
      parts_route (List.cons_ne_nil p ps) fun q hq => (h q hq).toIsPart
    have hrooted : isAbsolute (route true (p :: ps)) = true := rfl
    rw [steps, hparts, hrooted, List.foldl_cons, move_nil, foldl_move_elements h, List.append_nil,
      List.reverse_reverse]

/-- One part further on from a route. -/
theorem clean_step (h : ∀ p ∈ ps, IsElement p) (ht : Unslashed t) :
    clean (route true ps ++ .char '/' :: t) = route true (move true ps.reverse t).reverse := by
  have hne : route true ps ≠ [] := List.cons_ne_nil _ _
  rw [clean_eq, isAbsolute_append hne, steps_append hne, steps_route h, parts_of_unslashed ht]
  rfl

theorem isPart_append (hps : ∀ p ∈ ps, IsPart p) (hxs : ∀ x ∈ xs, IsElement x) : ∀ p ∈ ps ++ xs, IsPart p := by
  intro p hp
  rcases List.mem_append.mp hp with hp | hp
  · exact hps p hp
  · exact (hxs p hp).toIsPart

/-- The parts of a route lead where its steps do. -/
theorem foldl_parts_route (hne : ps ≠ []) (h : ∀ p ∈ ps, IsPart p) (other : Bool) (done : List Text) :
    (parts (route rooted ps)).foldl (move other) done = ps.foldl (move other) done := by
  rw [parts_route hne h]
  cases rooted <;> rfl

/-- Elements at the end of a route stay there when the rest of it is reduced. -/
theorem clean_route_below (hps : ∀ p ∈ ps, IsPart p) (hne : xs ≠ []) (hxs : ∀ x ∈ xs, IsElement x) :
    clean (route rooted (ps ++ xs)) = route rooted ((ps.foldl (move rooted) []).reverse ++ xs) := by
  have hne' : ps ++ xs ≠ [] := by simp [hne]
  have happend := isPart_append hps hxs
  rw [clean_eq, steps, isAbsolute_route hne' happend, foldl_parts_route hne' happend, List.foldl_append,
    foldl_move_elements hxs, List.reverse_append, List.reverse_reverse]

/-! ### The last part -/

theorem getLast?_parts_route (hps : ∀ p ∈ ps, IsPart p) (hne : xs ≠ []) (hxs : ∀ x ∈ xs, IsElement x) :
    (parts (route rooted (ps ++ xs))).getLast? = xs.getLast? := by
  have hend : ∀ ys : List Text, (ys ++ xs).getLast? = xs.getLast? := by
    intro ys
    rw [List.getLast?_append, Option.or_of_isSome (by simpa using hne)]
  rw [parts_route (by simp [hne]) (isPart_append hps hxs)]
  cases rooted with
  | true => exact hend ([] :: ps)
  | false => exact hend ps

theorem route_ne (hps : ∀ p ∈ ps, IsPart p) (hne : xs ≠ []) (hxs : ∀ x ∈ xs, IsElement x) (ht : Unslashed t)
    (hother : ¬ IsElement t) : route rooted (ps ++ xs) ≠ t := by
  rintro heq
  have hlast : (parts (route rooted (ps ++ xs))).getLast? = xs.getLast? := getLast?_parts_route hps hne hxs
  rw [heq, parts_of_unslashed ht] at hlast
  exact hother (hxs t (List.mem_of_getLast? hlast.symm))

theorem join_append (hps : ps ≠ []) (hxs : xs ≠ []) :
    Text.join "/" (ps ++ xs) = Text.join "/" ps ++ .char '/' :: Text.join "/" xs := Text.join_append hps hxs

theorem exists_front (rooted : Bool) (ps : List Text) :
    ∃ front, ∀ x : Text, x ≠ [] → route rooted (ps ++ [x]) = front ++ x := by
  -- what is in front depends on the other parts only: nothing, or all of them and a slash
  have hbody : ∃ front, ∀ x : Text, Text.join "/" (ps ++ [x]) = front ++ x := by
    cases ps with
    | nil => exact ⟨[], fun x => rfl⟩
    | cons p ps =>
      refine ⟨Text.join "/" (p :: ps) ++ [.char '/'], fun x => ?_⟩
      rw [join_append (List.cons_ne_nil p ps) (List.cons_ne_nil x []), List.append_assoc]
      rfl
  obtain ⟨front, hfront⟩ := hbody
  refine ⟨if rooted then .char '/' :: front else front, fun x hx => ?_⟩
  have hempty : ¬ (front ++ x).isEmpty = true := by simp [hx]
  cases rooted with
  | true => exact congrArg (Glyph.char '/' :: ·) (hfront x)
  | false => rw [route, if_neg Bool.false_ne_true, hfront, if_neg hempty, if_neg Bool.false_ne_true]

/-- Routes are the same only if their parts are. -/
theorem route_inj {qs : List Text} (hps : ps ≠ []) (hqs : qs ≠ []) (h : ∀ p ∈ ps, IsPart p) (h' : ∀ q ∈ qs, IsPart q)
    (heq : route rooted ps = route rooted qs) : ps = qs := by
  have hparts := congrArg parts heq
  rw [parts_route hps h, parts_route hqs h'] at hparts
  cases rooted with
  | true => exact (List.cons.inj hparts).2
  | false => exact hparts

theorem route_append (hps : ps ≠ []) (h : ∀ p ∈ ps, IsPart p) (hxs : xs ≠ []) :
    route rooted (ps ++ xs) = route rooted ps ++ .char '/' :: Text.join "/" xs := by
  have hbody : ¬ (Text.join "/" ps).isEmpty = true := by
    rw [List.isEmpty_iff, join_eq_nil fun p hp => (h p hp).nonempty]
    exact hps
  unfold route
  rw [join_append hps hxs]
  cases rooted with
  | true => rfl
  | false => simp [hbody]

/-! ### Directories -/

theorem dir_append (t : Text) {u : Text} (hu : Unslashed u) : dir (t ++ .char '/' :: u) = clean (t ++ [.char '/']) := by
  have hdrop : (t ++ .char '/' :: u).reverse.dropWhile (fun g => !g.is '/') = .char '/' :: t.reverse := by
    rw [List.reverse_append, List.reverse_cons, List.append_assoc, List.dropWhile_append_of_pos]
    · rfl
    · intro g hg
      simpa using hu g (List.mem_reverse.mp hg)
  rw [dir, hdrop, List.reverse_cons, List.reverse_reverse]

theorem dir_of_unslashed (ht : Unslashed t) : dir t = here := by
  have hdrop : t.reverse.dropWhile (fun g => !g.is '/') = [] :=
    List.dropWhile_eq_nil_iff.mpr fun g hg => by simpa using ht g (List.mem_reverse.mp hg)
  rw [dir, hdrop]
  rfl

/-- The directory of a route is the route without its last part. -/
theorem dir_route (h : Reduced rooted ps.reverse) (hps : ∀ p ∈ ps, IsPart p) (ht : IsPart t) :
    dir (route rooted (ps ++ [t])) = route rooted ps := by
  by_cases hne : ps = []
  · subst hne
    cases rooted with
    | true => exact dir_append [] ht.unslashed
    | false =>
      have hroute : route false [t] = t := if_neg (mt List.isEmpty_iff.mp ht.nonempty)
      exact (congrArg dir hroute).trans (dir_of_unslashed ht.unslashed)
  · have hsteps := h.foldl_reverse
    rw [List.reverse_reverse] at hsteps
    have hnil := route_ne_nil rooted ps
    have hroute : route rooted (ps ++ [t]) = route rooted ps ++ .char '/' :: t := route_append hne hps (by simp)
    rw [hroute, dir_append _ ht.unslashed, clean_eq, isAbsolute_append hnil, isAbsolute_route hne hps, steps_append hnil,
      isAbsolute_route hne hps, steps, isAbsolute_route hne hps, foldl_parts_route hne hps, hsteps]
    simp [parts, Text.splitAt, move_nil]

/-! ### Elements one below the other -/

theorem filter_elements (h : ∀ x ∈ xs, IsElement x) : xs.filter (fun x => !x.isEmpty) = xs :=
  List.filter_eq_self.mpr fun x hx => by simpa using (h x hx).nonempty

theorem join_elements (hne : xs ≠ []) (h : ∀ x ∈ xs, IsElement x) : join xs = Text.join "/" xs := by
  have hbody : ¬ (Text.join "/" xs).isEmpty = true := by
    rw [List.isEmpty_iff, join_eq_nil fun x hx => (h x hx).nonempty]
    exact hne
  rw [join, filter_elements h, if_neg (by simpa using hne), clean_elements hne h, route, if_neg Bool.false_ne_true,
    if_neg hbody]

theorem join_cons_elements (directory : Text) (hne : xs ≠ []) (h : ∀ x ∈ xs, IsElement x) :
    join (directory :: xs) = join [directory, Text.join "/" xs] := by
  obtain ⟨x, xs, rfl⟩ := List.exists_cons_of_ne_nil hne
  have hbody : (Text.join "/" (x :: xs)).isEmpty = false := by
    rw [← Bool.not_eq_true, List.isEmpty_iff, join_eq_nil fun x hx => (h x hx).nonempty]
    exact hne
  cases directory with
  | nil => simp [join, hbody, filter_elements h, Text.join]
  | cons g d => simp [join, hbody, filter_elements h, Text.join]

/-! ### Extensions -/

theorem ext_of_getLast? {u e : Text} (hlast : (parts p).getLast? = some (u ++ .char '.' :: e))
    (he : ∀ g ∈ e, g.is '.' = false) : ext p = .char '.' :: e := by
  have htake : (u ++ .char '.' :: e).reverse.takeWhile (fun g => !g.is '.') = e.reverse := by
    rw [List.reverse_append, List.reverse_cons, List.append_assoc, List.takeWhile_append_of_pos]
    · exact List.append_nil _
    · intro g hg
      simpa using he g (List.mem_reverse.mp hg)
  have hlength : ¬ e.reverse.length = (u ++ .char '.' :: e).length := by
    simp
    omega
  rw [ext, hlast, Option.getD_some, htake, if_neg hlength, List.reverse_reverse]

theorem exists_last (p : Text) :
    ∃ front last, p = front ++ last ∧ ∀ u, Unslashed u → (parts (p ++ u)).getLast? = some (last ++ u) := by
  have hjoin : Text.join "/" (parts p) = p := Text.join_splitAt '/' p
  obtain ⟨ps, last, hparts⟩ := (List.eq_nil_or_concat (parts p)).resolve_left (parts_ne_nil p)
  have hlast : Unslashed last := unslashed_of_mem_parts (p := p) (by simp [hparts])
  have hboth : ∀ u, Unslashed u → Unslashed (last ++ u) := fun u hu g hg => (List.mem_append.mp hg).elim (hlast g) (hu g)
  by_cases hps : ps = []
  · refine ⟨[], p, rfl, fun u hu => ?_⟩
    rw [hparts, hps] at hjoin
    rw [← show last = p from hjoin, parts_of_unslashed (hboth u hu)]
    rfl
  · have hp : p = Text.join "/" ps ++ .char '/' :: last := by
      rw [← hjoin, hparts, List.concat_eq_append]
      exact Text.join_append hps (List.cons_ne_nil last [])
    refine ⟨Text.join "/" ps ++ [.char '/'], last, by simpa using hp, fun u hu => ?_⟩
    rw [hp, List.append_assoc, List.cons_append, parts_append, parts_of_unslashed (hboth u hu), List.getLast?_concat]

theorem ext_append (p : Text) {e : Text} (hslash : Unslashed e) (hdot : ∀ g ∈ e, g.is '.' = false) :
    ext (p ++ .char '.' :: e) = .char '.' :: e := by
  obtain ⟨front, last, -, hlast⟩ := exists_last p
  exact ext_of_getLast? (hlast _ (List.forall_mem_cons.mpr ⟨rfl, hslash⟩)) hdot

theorem withoutExt_append_ext (p : Text) : withoutExt p ++ ext p = p := by
  obtain ⟨front, last, hp, hlast⟩ := exists_last p
  have hparts : (parts p).getLast? = some last := by simpa using hlast [] (by simp [Unslashed])
  by_cases hdot : .char '.' ∈ last
  · obtain ⟨e, u, hreverse, he⟩ := List.eq_append_cons_of_mem (List.mem_reverse.mpr hdot)
    have hext : last = u.reverse ++ .char '.' :: e.reverse := by simpa using congrArg List.reverse hreverse
    rw [hext] at hp hparts
    have := ext_of_getLast? hparts (Text.notMem_iff.mp (by simpa using he))
    rw [withoutExt, this, hp, ← List.append_assoc, List.length_append, Nat.add_sub_cancel, List.take_left]
  · have htake : last.reverse.takeWhile (fun g => !g.is '.') = last.reverse :=
      List.takeWhile_eq_self_iff.mpr fun g hg => by
        simpa using Text.notMem_iff.mp hdot g (List.mem_reverse.mp hg)
    have hext : ext p = [] := by simp [ext, hparts, htake]
    simp [withoutExt, hext]

/-- Below a directory, another extension makes another last element. -/
theorem withoutExt_below (directory : Text) (hxs : ∀ x ∈ xs, IsElement x) {u e e' : Text}
    (he : ∀ g ∈ e, g.is '.' = false) (hold : IsElement (u ++ .char '.' :: e)) (hnew : IsElement (u ++ e')) :
    withoutExt (join [directory, Text.join "/" (xs ++ [u ++ .char '.' :: e])]) ++ e' =
      join [directory, Text.join "/" (xs ++ [u ++ e'])] := by
  have helements : ∀ {x : Text}, IsElement x → ∀ y ∈ xs ++ [x], IsElement y := by
    intro x hx y hy
    rcases List.mem_append.mp hy with hy | hy
    · exact hxs y hy
    · exact List.mem_singleton.mp hy ▸ hx
  have hsteps : ∀ p ∈ steps directory ++ xs, IsPart p := isPart_append (fun p => isPart_of_mem_steps) hxs
  obtain ⟨front, hfront⟩ := exists_front (isAbsolute directory) (steps directory ++ xs)
  have hext : ext (front ++ (u ++ .char '.' :: e)) = .char '.' :: e := by
    have hlast : (parts (front ++ (u ++ .char '.' :: e))).getLast? = some (u ++ .char '.' :: e) := by
      rw [← hfront _ hold.nonempty, getLast?_parts_route hsteps (List.cons_ne_nil _ _) (by simpa using hold)]
      rfl
    exact ext_of_getLast? hlast he
  rw [join_below directory (by simp) (helements hold), join_below directory (by simp) (helements hnew),
    ← List.append_assoc, ← List.append_assoc, hfront _ hold.nonempty, hfront _ hnew.nonempty, withoutExt, hext,
    ← List.append_assoc front, List.length_append, Nat.add_sub_cancel, List.take_left, List.append_assoc]

end Routes

end Anadil.Path
