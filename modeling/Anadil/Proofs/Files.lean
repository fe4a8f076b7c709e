import Anadil.Files
import Anadil.Proofs.Outcome
import Anadil.Proofs.Path

/-! # Files that stay

What is written under a path can be read there until something else is written under the same key. On a disk
this needs that a file is never made a directory: nothing is put below it, because every place on the way to
something new has to be a directory already. -/

namespace Anadil.Files

open Anadil.Path

variable {fs fs' : Files} {path text k : Text}

/-! ### Keys -/

/-- Relative paths of a disk start from a directory that is given by its shortest path. -/
structure IsAnchored (fs : Files) : Prop where
  absolute : fs.volume = .disk → isAbsolute fs.workDir = true
  shortest : fs.volume = .disk → clean fs.workDir = fs.workDir

theorem key_congr (hvolume : fs'.volume = fs.volume) (hworkDir : fs'.workDir = fs.workDir) (path : Text) :
    fs'.key path = fs.key path := by
  unfold key
  rw [hvolume, hworkDir]

/-- Where a disk starts to follow a path. -/
def origin (fs : Files) (rooted : Bool) : Text := if rooted then "/" else fs.workDir

namespace IsAnchored
variable (h : fs.IsAnchored) (hdisk : fs.volume = .disk)
include h hdisk

theorem origin_eq (rooted : Bool) : route true (steps (fs.origin rooted)) = fs.origin rooted := by
  cases rooted with
  | true => rfl
  | false =>
    have habsolute : isAbsolute (fs.origin false) = true := h.absolute hdisk
    rw [← habsolute, ← clean_eq]
    exact h.shortest hdisk

theorem isElement_origin (rooted : Bool) : ∀ w ∈ steps (fs.origin rooted), IsElement w := by
  cases rooted with
  | true => exact fun w hw => absurd hw List.not_mem_nil
  | false => exact fun w => isElement_of_mem_steps (h.absolute hdisk)

theorem key_eq (path : Text) : fs.key path =
    route true ((parts path).foldl (move true) (steps (fs.origin (isAbsolute path))).reverse).reverse := by
  unfold key
  rw [hdisk]
  dsimp only
  cases habsolute : isAbsolute path with
  | true =>
    rw [if_pos rfl, clean_eq, steps, habsolute]
    rfl
  | false =>
    have horigin := h.origin_eq hdisk false
    have hne : fs.workDir ≠ [] := fun hnil => by
      have := h.absolute hdisk
      rw [hnil] at this
      cases this
    rw [if_neg Bool.false_ne_true, List.append_assoc]
    change clean (fs.workDir ++ .char '/' :: path) = _
    rw [clean_eq, isAbsolute_append hne, steps_append hne, h.absolute hdisk]
    rfl

theorem key_route (path : Text) : ∃ ks, (∀ k ∈ ks, IsElement k) ∧ fs.key path = route true ks := by
  refine ⟨_, fun k hk => ?_, h.key_eq hdisk path⟩
  exact isElement_foldl_move (fun w hw => h.isElement_origin hdisk _ w (List.mem_reverse.mp hw))
    (fun _ => unslashed_of_mem_parts) k (List.mem_reverse.mp hk)

end IsAnchored

/-- The keys of the paths below a directory are the routes with one beginning. -/
theorem IsAnchored.key_below (h : fs.IsAnchored) (directory : Text) :
    ∃ rooted ps, (∀ p ∈ ps, IsPart p) ∧ ∀ xs : List Text, xs ≠ [] → (∀ x ∈ xs, IsElement x) →
      fs.key (join [directory, Text.join "/" xs]) = route rooted (ps ++ xs) := by
  have hsteps : ∀ p ∈ steps directory, IsPart p := fun p => isPart_of_mem_steps
  have hmoved : ∀ rooted done, (∀ p ∈ done, IsPart p) →
      ∀ p ∈ ((steps directory).foldl (move rooted) done).reverse, IsPart p := by
    intro rooted done hdone p hp
    rcases mem_foldl_move (List.mem_reverse.mp hp) with hp | ⟨hp, -⟩
    · exact hdone p hp
    · exact hsteps p hp
  cases hvolume : fs.volume with
  | memory =>
    have hparts := hmoved (isAbsolute directory) [] fun p hp => absurd hp List.not_mem_nil
    refine ⟨isAbsolute directory, _, hparts, fun xs hne hxs => ?_⟩
    have hhere : (route (isAbsolute directory) (_ ++ xs) == here) = false :=
      beq_eq_false_iff_ne.mpr (route_ne hparts hne hxs (by decide) (by decide))
    have hup : (route (isAbsolute directory) (_ ++ xs) == up) = false :=
      beq_eq_false_iff_ne.mpr (route_ne hparts hne hxs (by decide) (by decide))
    simp only [key, hvolume, join_below directory hne hxs, clean_route_below hsteps hne hxs, hhere, hup,
      Bool.or_self, Bool.false_eq_true, ↓reduceIte]
  | disk =>
    have horigin : ∀ p ∈ (steps (fs.origin (isAbsolute directory))).reverse, IsPart p :=
      fun p hp => (h.isElement_origin hvolume _ p (List.mem_reverse.mp hp)).toIsPart
    refine ⟨true, _, hmoved true _ horigin, fun xs hne hxs => ?_⟩
    have hne' : steps directory ++ xs ≠ [] := by simp [hne]
    have happend := isPart_append hsteps hxs
    rw [h.key_eq hvolume, join_below directory hne hxs, isAbsolute_route hne' happend,
      foldl_parts_route hne' happend, List.foldl_append, foldl_move_elements hxs, List.reverse_append,
      List.reverse_reverse]

section Below
variable (h : fs.IsAnchored) {directory : Text} {xs ys : List Text} (hne : xs ≠ []) (hxs : ∀ x ∈ xs, IsElement x)
include h hne hxs

theorem IsAnchored.key_below_inj (hne' : ys ≠ []) (hys : ∀ y ∈ ys, IsElement y)
    (heq : fs.key (join [directory, Text.join "/" xs]) = fs.key (join [directory, Text.join "/" ys])) :
    xs = ys := by
  obtain ⟨rooted, ps, hps, hkey⟩ := h.key_below directory
  rw [hkey xs hne hxs, hkey ys hne' hys] at heq
  exact List.append_cancel_left (route_inj (by simp [hne]) (by simp [hne']) (isPart_append hps hxs)
    (isPart_append hps hys) heq)

theorem IsAnchored.getLast?_key_below :
    (parts (fs.key (join [directory, Text.join "/" xs]))).getLast? = xs.getLast? := by
  obtain ⟨rooted, ps, hps, hkey⟩ := h.key_below directory
  rw [hkey xs hne hxs]
  exact getLast?_parts_route hps hne hxs

end Below

/-! ### Places on a disk -/

section Places
variable {ps qs ks : List Text} {p d : Text}

theorem lies_iff (hd : d ≠ ("/" : Text)) : lies p d = true ↔ ∃ t, p = d ++ .char '/' :: t := by
  have hslash : (d == ("/" : Text)) = false := beq_eq_false_iff_ne.mpr hd
  rw [lies, hslash, if_neg Bool.false_ne_true, Text.startsWith, List.isPrefixOf_iff_prefix]
  constructor
  · rintro ⟨t, rfl⟩
    exact ⟨t, List.append_assoc _ _ _⟩
  · rintro ⟨t, rfl⟩
    exact ⟨t, List.append_assoc _ _ _⟩

theorem IsAnchored.lies_below (h : fs.IsAnchored) {directory x : Text} {xs : List Text} (hx : IsElement x)
    (hne : xs ≠ []) (hxs : ∀ x ∈ xs, IsElement x) :
    lies (fs.key (join [directory, Text.join "/" (x :: xs)])) (fs.key (join [directory, x])) = true := by
  obtain ⟨rooted, ps, hps, hkey⟩ := h.key_below directory
  have hxkey : fs.key (join [directory, x]) = route rooted (ps ++ [x]) :=
    hkey [x] (List.cons_ne_nil x []) (by simpa using hx)
  have hpsx : ∀ p ∈ ps ++ [x], IsPart p := isPart_append hps (by simpa using hx)
  have hroot : route rooted (ps ++ [x]) ≠ ("/" : Text) := fun heq => by
    have hlast : (parts (route rooted (ps ++ [x]))).getLast? = some x :=
      getLast?_parts_route hps (List.cons_ne_nil x []) (by simpa using hx)
    rw [heq] at hlast
    exact hx.nonempty (Option.some.inj hlast).symm
  rw [hxkey, hkey (x :: xs) (List.cons_ne_nil x xs) (List.forall_mem_cons.mpr ⟨hx, hxs⟩), lies_iff hroot]
  refine ⟨Text.join "/" xs, ?_⟩
  rw [← route_append (by simp) hpsx hne, List.append_assoc]
  rfl

theorem route_eq_slash (h : ∀ k ∈ ks, IsPart k) : route true ks = ("/" : Text) ↔ ks = [] := by
  rw [← join_eq_nil fun k hk => (h k hk).nonempty]
  exact ⟨fun h => (List.cons.inj h).2, fun h => congrArg (Glyph.char '/' :: ·) h⟩

theorem lies_route (hqs : ∀ q ∈ qs, IsPart q) (hks : ∀ k ∈ ks, IsPart k) :
    lies (route true qs) (route true ks) = true ↔ ks <+: qs ∧ ks ≠ qs := by
  cases ks with
  | nil =>
    have hroot : lies (route true qs) (route true []) = (route true qs != ("/" : Text)) := rfl
    rw [hroot, bne_iff_ne, Ne, route_eq_slash hqs]
    exact ⟨fun h => ⟨List.nil_prefix, Ne.symm h⟩, fun h => Ne.symm h.2⟩
  | cons k ks =>
    have hne := List.cons_ne_nil k ks
    rw [lies_iff (mt (route_eq_slash hks).mp hne)]
    constructor
    · rintro ⟨t, ht⟩
      have hparts := congrArg parts ht
      have hks' : parts (route true (k :: ks)) = [] :: k :: ks := parts_route hne hks
      rw [parts_append, hks'] at hparts
      cases qs with
      | nil =>
        have hroot : parts (route true []) = [[], []] := rfl
        rw [hroot] at hparts
        exact absurd (List.cons.inj (List.cons.inj hparts).2).1.symm (hks k List.mem_cons_self).nonempty
      | cons q qs =>
        have hqs' : parts (route true (q :: qs)) = [] :: q :: qs :=
          parts_route (List.cons_ne_nil q qs) hqs
        rw [hqs'] at hparts
        have heq : q :: qs = (k :: ks) ++ parts t := (List.cons.inj hparts).2
        refine ⟨⟨parts t, heq.symm⟩, fun hsame => parts_ne_nil t ?_⟩
        rw [← hsame] at heq
        exact List.self_eq_append_right.mp heq
    · rintro ⟨⟨rest, rfl⟩, hother⟩
      have hrest : rest ≠ [] := fun h => hother (by simp [h])
      refine ⟨Text.join "/" rest, ?_⟩
      exact congrArg (Glyph.char '/' :: ·) (join_append hne hrest)

theorem lies_trans (hqs : ∀ q ∈ qs, IsPart q) (hks : ∀ k ∈ ks, IsPart k) (h : lies p (route true qs) = true)
    (h' : lies (route true qs) (route true ks) = true) : lies p (route true ks) = true := by
  obtain ⟨⟨rest, rfl⟩, hother⟩ := (lies_route hqs hks).mp h'
  have hrest : rest ≠ [] := fun h => hother (by simp [h])
  have hne : ks ++ rest ≠ [] := by simp [hrest]
  obtain ⟨t, rfl⟩ := (lies_iff (mt (route_eq_slash hqs).mp hne)).mp h
  cases ks with
  | nil =>
    have hroot : lies (route true rest ++ .char '/' :: t) (route true []) =
        (route true rest ++ .char '/' :: t != ("/" : Text)) := rfl
    rw [List.nil_append, hroot, bne_iff_ne]
    intro heq
    have hlength := congrArg List.length heq
    simp [route, Text.ofString] at hlength
  | cons k ks =>
    have hne := List.cons_ne_nil k ks
    rw [lies_iff (mt (route_eq_slash hks).mp hne)]
    refine ⟨Text.join "/" rest ++ .char '/' :: t, ?_⟩
    have hroute : route true (k :: ks ++ rest) = route true (k :: ks) ++ .char '/' :: Text.join "/" rest :=
      congrArg (Glyph.char '/' :: ·) (join_append hne hrest)
    rw [hroute, List.append_assoc]
    rfl

theorem hasDirectory_iff (hdisk : fs.volume = .disk) (d : Text) :
    fs.hasDirectory d = true ↔ d ∈ fs.directories ∨ d = ("/" : Text) ∨ (∃ f ∈ fs.files, lies f.1 d = true) ∨
      (∃ e ∈ fs.directories, lies e d = true) ∨ fs.workDir = d ∨ lies fs.workDir d = true := by
  unfold hasDirectory
  rw [hdisk]
  simp only [Bool.or_eq_true, List.contains_iff_mem, List.any_eq_true, beq_iff_eq, or_assoc]

theorem hasDirectory_above (hdisk : fs.volume = .disk) (hqs : ∀ q ∈ qs, IsPart q) (hks : ∀ k ∈ ks, IsPart k)
    (hfront : ks <+: qs) (h : fs.hasDirectory (route true qs) = true) : fs.hasDirectory (route true ks) = true := by
  by_cases heq : ks = qs
  · rwa [heq]
  have hlies := (lies_route hqs hks).mpr ⟨hfront, heq⟩
  have hup : ∀ p, lies p (route true qs) = true → lies p (route true ks) = true :=
    fun p hp => lies_trans hqs hks hp hlies
  rw [hasDirectory_iff hdisk] at h ⊢
  rcases h with h | h | ⟨f, hf, h⟩ | ⟨e, he, h⟩ | h | h
  · exact .inr (.inr (.inr (.inl ⟨_, h, hlies⟩)))
  · obtain rfl := (route_eq_slash hqs).mp h
    exact absurd (List.prefix_nil.mp hfront) heq
  · exact .inr (.inr (.inl ⟨f, hf, hup _ h⟩))
  · exact .inr (.inr (.inr (.inl ⟨e, he, hup _ h⟩)))
  · exact .inr (.inr (.inr (.inr (.inr (h ▸ hlies)))))
  · exact .inr (.inr (.inr (.inr (.inr (hup _ h)))))

/-- Following parts leads along a route, and its last step, along the last part, starts from a directory. -/
theorem follow_eq_ok {parts : List Text} (hps : ∀ p ∈ ps, IsElement p) (hparts : ∀ p ∈ parts, Unslashed p)
    (hne : parts ≠ []) (h : fs.follow (route true ps) parts = .ok k) :
    k = route true (parts.foldl (move true) ps.reverse).reverse ∧
      ∃ qs t, (∀ q ∈ qs, IsElement q) ∧ Unslashed t ∧ parts.getLast? = some t ∧
        fs.hasDirectory (route true qs) = true ∧ k = route true (move true qs.reverse t).reverse := by
  induction parts generalizing ps with
  | nil => exact absurd rfl hne
  | cons part rest ih =>
    obtain ⟨hpart, hrest⟩ := List.forall_mem_cons.mp hparts
    rw [follow] at h
    split at h
    · cases h
    · rename_i hdirectory
      split at h
      · cases h
      · have hnext : clean (route true ps ++ ("/" : Text) ++ part) =
            route true (move true ps.reverse part).reverse := by
          rw [List.append_assoc]
          exact clean_step hps hpart
        rw [hnext] at h
        cases rest with
        | nil =>
          obtain rfl := Except.ok.inj h
          exact ⟨rfl, ps, part, hps, hpart, rfl, by simpa using hdirectory, rfl⟩
        | cons next rest =>
          have hmoved : ∀ p ∈ (move true ps.reverse part).reverse, IsElement p := fun p hp =>
            isElement_foldl_move (fun p hp => hps p (List.mem_reverse.mp hp))
              (List.forall_mem_singleton.mpr hpart) p (List.mem_reverse.mp hp)
          obtain ⟨hk, hlast⟩ := ih hmoved hrest (List.cons_ne_nil next rest) h
          rw [List.reverse_reverse] at hk
          exact ⟨hk, hlast⟩

/-- A path on a disk leads to its key, and its last step starts from a directory. -/
theorem place_eq_ok (hfs : fs.IsAnchored) (hdisk : fs.volume = .disk) (h : fs.place path = .ok k) :
    k = fs.key path ∧ ∃ qs t, (∀ q ∈ qs, IsElement q) ∧ Unslashed t ∧ (parts path).getLast? = some t ∧
      fs.hasDirectory (route true qs) = true ∧ k = route true (move true qs.reverse t).reverse := by
  unfold place at h
  split at h
  · cases h
  · split at h
    · cases h
    · split at h
      · cases h
      · have horigin : (if isAbsolute path then ("/" : Text) else fs.workDir) =
            route true (steps (fs.origin (isAbsolute path))) := (hfs.origin_eq hdisk _).symm
        rw [horigin] at h
        rw [hfs.key_eq hdisk]
        exact follow_eq_ok (hfs.isElement_origin hdisk _) (fun _ => unslashed_of_mem_parts)
          (parts_ne_nil path) h

/-- Nothing can be put below what is no directory. -/
theorem lies_place (hfs : fs.IsAnchored) (hdisk : fs.volume = .disk) (h : fs.place path = .ok k)
    (hks : ∀ k ∈ ks, IsElement k) (hplain : fs.hasDirectory (route true ks) = false) :
    lies k (route true ks) = false := by
  obtain ⟨-, qs, t, hqs, ht, -, hdirectory, rfl⟩ := place_eq_ok hfs hdisk h
  -- a directory that the new place lies in is around the place before it
  have hbefore : ¬ ks <+: qs := fun hfront => by
    rw [hasDirectory_above hdisk (fun q hq => (hqs q hq).toIsPart) (fun k hk => (hks k hk).toIsPart) hfront
      hdirectory] at hplain
    cases hplain
  have hmoved : ∀ q ∈ (move true qs.reverse t).reverse, IsElement q := fun q hq =>
    isElement_foldl_move (fun q hq => hqs q (List.mem_reverse.mp hq)) (List.forall_mem_singleton.mpr ht) q
      (List.mem_reverse.mp hq)
  rw [← Bool.not_eq_true, lies_route (fun q hq => (hmoved q hq).toIsPart) fun k hk => (hks k hk).toIsPart]
  rintro ⟨hfront, hother⟩
  rcases move_cases ht fun q hq => (hqs q (List.mem_reverse.mp hq)).not_up with hmove | hmove | ⟨-, hmove⟩
  · rw [hmove, List.reverse_reverse] at hfront
    exact hbefore hfront
  · rw [hmove, List.tail_reverse, List.reverse_reverse] at hfront
    exact hbefore (hfront.trans (List.dropLast_prefix qs))
  · rw [hmove, List.reverse_cons, List.reverse_reverse] at hfront hother
    rcases List.prefix_concat_iff.mp hfront with heq | hfront
    · exact hother heq
    · exact hbefore hfront

/-- A path to what is no directory ends in the last part of its key. -/
theorem getLast?_place (hfs : fs.IsAnchored) (hdisk : fs.volume = .disk) (h : fs.place path = .ok k)
    (hplain : fs.hasDirectory k = false) : (parts k).getLast? = (parts path).getLast? := by
  obtain ⟨-, qs, t, hqs, ht, hlast, hdirectory, rfl⟩ := place_eq_ok hfs hdisk h
  have habove : ∀ ks, ks <+: qs → fs.hasDirectory (route true ks) = true := fun ks hks =>
    hasDirectory_above hdisk (fun q hq => (hqs q hq).toIsPart) (fun q hq => (hqs q (hks.subset hq)).toIsPart) hks
      hdirectory
  -- a last part that leads elsewhere ends at a directory
  rcases move_cases ht fun q hq => (hqs q (List.mem_reverse.mp hq)).not_up with hmove | hmove | ⟨hel, hmove⟩
  · rw [hmove, List.reverse_reverse, hdirectory] at hplain
    cases hplain
  · rw [hmove, List.tail_reverse, List.reverse_reverse, habove _ (List.dropLast_prefix qs)] at hplain
    cases hplain
  · rw [hmove, List.reverse_cons, List.reverse_reverse, hlast]
    exact getLast?_parts_route (fun q hq => (hqs q hq).toIsPart) (List.cons_ne_nil t []) (by simpa using hel)

theorem follow_mono {parts : List Text} (hmono : ∀ d, fs.hasDirectory d = true → fs'.hasDirectory d = true)
    (h : fs.follow p parts = .ok k) : fs'.follow p parts = .ok k := by
  induction parts generalizing p with
  | nil => exact h
  | cons part rest ih =>
    rw [follow] at h ⊢
    cases hdirectory : fs.hasDirectory p with
    | false =>
      rw [hdirectory] at h
      cases h
    | true =>
      simp only [hdirectory, hmono p hdirectory, Bool.not_true, Bool.false_eq_true, ↓reduceIte] at h ⊢
      split at h
      · cases h
      · rw [if_neg ‹_›]
        exact ih h

theorem place_mono (hworkDir : fs'.workDir = fs.workDir)
    (hmono : ∀ d, fs.hasDirectory d = true → fs'.hasDirectory d = true) (h : fs.place path = .ok k) :
    fs'.place path = .ok k := by
  unfold place at h ⊢
  rw [hworkDir]
  split at h
  · cases h
  · split at h
    · cases h
    · split at h
      · cases h
      · rw [if_neg ‹_›, if_neg ‹_›, if_neg ‹_›]
        exact follow_mono hmono h

end Places

/-! ### Texts and directories -/

theorem put_cases (fs : Files) (key text : Text) :
    (∃ old, fs.at? key = some old ∧
      fs.put key text = { fs with files := fs.files.map fun f => (f.1, if f.1 == key then text else f.2) }) ∨
      fs.at? key = none ∧ fs.put key text = { fs with files := fs.files ++ [(key, text)] } := by
  unfold put
  cases hkey : fs.at? key with
  | none => exact .inr ⟨rfl, rfl⟩
  | some old => exact .inl ⟨old, rfl, rfl⟩

theorem key_of_find? {files : List (Text × Text)} {f : Text × Text} (h : files.find? (fun f => f.1 == k) = some f) :
    f.1 = k := by
  simpa using List.find?_some h

theorem at?_put (fs : Files) (key text k : Text) :
    (fs.put key text).at? k = if k = key then some text else fs.at? k := by
  rcases put_cases fs key text with ⟨old, hold, hput⟩ | ⟨hnone, hput⟩
  · have hfind : (fs.put key text).at? k =
        ((fs.files.find? fun f => f.1 == k).map fun f => if f.1 == key then text else f.2) := by
      rw [hput, at?, List.find?_map, Option.map_map]
      rfl
    rw [hfind]
    split
    · rename_i heq
      subst heq
      obtain ⟨f, hf, -⟩ := Option.map_eq_some_iff.mp hold
      rw [hf, Option.map_some, key_of_find? hf, beq_self_eq_true, if_pos rfl]
    · rename_i hne
      refine Option.map_congr fun f hf => if_neg fun hkey => hne ?_
      exact (key_of_find? hf).symm.trans (beq_iff_eq.mp hkey)
  · have hfind : (fs.put key text).at? k = (fs.at? k).or (if key = k then some text else none) := by
      rw [hput, at?, at?, List.find?_append, Option.map_or]
      by_cases hkey : key = k <;> simp [hkey]
    rw [hfind]
    by_cases hkey : k = key
    · rw [if_pos hkey.symm, if_pos hkey, hkey, hnone, Option.none_or]
    · rw [if_neg (Ne.symm hkey), if_neg hkey, Option.or_none]

/-- On a disk, a file makes directories of all that it lies in. -/
theorem hasDirectory_put (hdisk : fs.volume = .disk) (key text d : Text) :
    (fs.put key text).hasDirectory d = true ↔ fs.hasDirectory d = true ∨ lies key d = true := by
  have hfiles : (∃ f ∈ (fs.put key text).files, lies f.1 d = true) ↔
      (∃ f ∈ fs.files, lies f.1 d = true) ∨ lies key d = true := by
    rcases put_cases fs key text with ⟨old, hold, hput⟩ | ⟨-, hput⟩
    · obtain ⟨f, hf, -⟩ := Option.map_eq_some_iff.mp hold
      have hkey : lies key d = true → ∃ f ∈ fs.files, lies f.1 d = true := fun hlies =>
        ⟨f, List.mem_of_find?_eq_some hf, (key_of_find? hf).symm ▸ hlies⟩
      rw [hput, or_iff_left_of_imp hkey]
      simp only [List.mem_map]
      exact ⟨fun ⟨_, ⟨g, hg, rfl⟩, hlies⟩ => ⟨g, hg, hlies⟩, fun ⟨g, hg, hlies⟩ => ⟨_, ⟨g, hg, rfl⟩, hlies⟩⟩
    · rw [hput]
      simp only [List.mem_append, List.mem_singleton, or_and_right, exists_or, exists_eq_left]
  have hsame : (fs.put key text).directories = fs.directories ∧ (fs.put key text).workDir = fs.workDir :=
    ⟨rfl, rfl⟩
  have hnew := hasDirectory_iff (show (fs.put key text).volume = .disk from hdisk) d
  rw [hasDirectory_iff hdisk, hnew, hfiles, hsame.1, hsame.2]
  grind

theorem hasDirectory_addDirectory (hdisk : fs.volume = .disk) (key d : Text) :
    (fs.addDirectory key).hasDirectory d = true ↔ fs.hasDirectory d = true ∨ d = key ∨ lies key d = true := by
  unfold addDirectory
  split
  · rename_i hmem
    rw [List.contains_iff_mem] at hmem
    rw [hasDirectory_iff hdisk]
    grind
  · have hnew := hasDirectory_iff
      (show ({ fs with directories := fs.directories ++ [key] } : Files).volume = .disk from hdisk) d
    rw [hasDirectory_iff hdisk, hnew]
    simp only [List.mem_append, List.mem_singleton, or_and_right, exists_or, exists_eq_left]
    grind

/-! ### Changes -/

/-- A text is stored under a path. On a disk the path can be followed to it, and it is no directory. -/
structure Stores (fs : Files) (path text : Text) : Prop where
  held : fs.at? (fs.key path) = some text
  placed : fs.volume = .disk → fs.place path = .ok (fs.key path)
  plain : fs.volume = .disk → fs.hasDirectory (fs.key path) = false

theorem Stores.read (h : fs.Stores path text) : fs.read path = .ok text := by
  unfold Files.read status entry
  cases hvolume : fs.volume with
  | memory =>
    -- a directory reads as the file that it was
    cases hdirectory : fs.hasDirectory (fs.key path) <;> simp [entryAt?, hdirectory, h.held] <;> rfl
  | disk =>
    have hentry : fs.entryAt? (fs.key path) = some (.file text) := by
      simp [entryAt?, h.plain hvolume, h.held]
    refine bind_eq_ok.mpr ⟨.file text, mapError_eq_ok.mpr (bind_eq_ok.mpr ⟨_, h.placed hvolume, ?_⟩), rfl⟩
    rw [hentry]
    rfl

theorem stores_of_read (hfs : fs.IsAnchored) (hdisk : fs.volume = .disk) (h : fs.read path = .ok text) :
    fs.Stores path text := by
  unfold Files.read status entry at h
  rw [hdisk] at h
  obtain ⟨found, hfound, h⟩ := bind_eq_ok.mp h
  obtain ⟨k, hplace, hentry⟩ := bind_eq_ok.mp (mapError_eq_ok.mp hfound)
  obtain rfl := (place_eq_ok hfs hdisk hplace).1
  cases found with
  | directory => cases h
  | file t =>
    obtain rfl := Except.ok.inj h
    unfold entryAt? at hentry
    cases hdirectory : fs.hasDirectory (fs.key path) with
    | true => simp [hdirectory] at hentry
    | false =>
      refine ⟨?_, fun _ => hplace, fun _ => hdirectory⟩
      cases hheld : fs.at? (fs.key path) <;> simp_all

/-- Volumes that differ only under some keys: all other texts are the same, and what was stored stays stored. -/
structure DifferOnly (changed : Text → Prop) (fs fs' : Files) : Prop where
  volume : fs'.volume = fs.volume
  workDir : fs'.workDir = fs.workDir
  texts : ∀ k, ¬ changed k → fs'.at? k = fs.at? k
  stored : ∀ path text, fs.Stores path text → ¬ changed (fs.key path) → fs'.Stores path text

namespace DifferOnly
variable {changed : Text → Prop}

theorem refl (fs : Files) : DifferOnly changed fs fs := ⟨rfl, rfl, fun _ _ => rfl, fun _ _ h _ => h⟩

theorem key (h : DifferOnly changed fs fs') (path : Text) : fs'.key path = fs.key path :=
  key_congr h.volume h.workDir path

theorem anchored (h : DifferOnly changed fs fs') (hfs : fs.IsAnchored) : fs'.IsAnchored where
  absolute hdisk := h.workDir ▸ hfs.absolute (h.volume ▸ hdisk)
  shortest hdisk := h.workDir ▸ hfs.shortest (h.volume ▸ hdisk)

theorem trans {fs'' : Files} (h : DifferOnly changed fs fs') (h' : DifferOnly changed fs' fs'') :
    DifferOnly changed fs fs'' where
  volume := h'.volume.trans h.volume
  workDir := h'.workDir.trans h.workDir
  texts k hk := (h'.texts k hk).trans (h.texts k hk)
  stored path text hstores hk := h'.stored path text (h.stored path text hstores hk) (h.key path ▸ hk)

theorem imp {changed' : Text → Prop} (h : DifferOnly changed fs fs') (himp : ∀ k, changed k → changed' k) :
    DifferOnly changed' fs fs' where
  volume := h.volume
  workDir := h.workDir
  texts k hk := h.texts k (mt (himp k) hk)
  stored path text hstores hk := h.stored path text hstores (mt (himp _) hk)

/-- In memory only texts matter. -/
theorem of_memory (hmemory : fs.volume = .memory) (hvolume : fs'.volume = fs.volume)
    (hworkDir : fs'.workDir = fs.workDir) (htexts : ∀ k, ¬ changed k → fs'.at? k = fs.at? k) :
    DifferOnly changed fs fs' where
  volume := hvolume
  workDir := hworkDir
  texts := htexts
  stored path text hstores hk := by
    have hkey : fs'.key path = fs.key path := key_congr hvolume hworkDir path
    have hdisk : ¬ fs'.volume = .disk := by
      rw [hvolume, hmemory]
      decide
    exact ⟨by rw [hkey, htexts _ hk, hstores.held], fun h => absurd h hdisk, fun h => absurd h hdisk⟩

/-- On a disk, directories must stay, and what is stored must not become one. -/
theorem of_disk (hdisk : fs.volume = .disk) (hvolume : fs'.volume = fs.volume) (hworkDir : fs'.workDir = fs.workDir)
    (htexts : ∀ k, ¬ changed k → fs'.at? k = fs.at? k)
    (hmono : ∀ d, fs.hasDirectory d = true → fs'.hasDirectory d = true)
    (hplain : ∀ path text, fs.Stores path text → ¬ changed (fs.key path) → fs'.hasDirectory (fs.key path) = false) :
    DifferOnly changed fs fs' where
  volume := hvolume
  workDir := hworkDir
  texts := htexts
  stored path text hstores hk := by
    have hkey : fs'.key path = fs.key path := key_congr hvolume hworkDir path
    refine ⟨by rw [hkey, htexts _ hk, hstores.held], fun _ => ?_, fun _ => ?_⟩
    · rw [hkey]
      exact place_mono hworkDir hmono (hstores.placed hdisk)
    · rw [hkey]
      exact hplain path text hstores hk

end DifferOnly

/-! ### Changes in memory -/

/-- Volumes with the same texts, whatever their directories are. -/
structure SameTexts (fs fs' : Files) : Prop where
  files : fs'.files = fs.files
  volume : fs'.volume = fs.volume
  workDir : fs'.workDir = fs.workDir
  readOnly : fs'.readOnly = fs.readOnly

theorem SameTexts.trans {fs'' : Files} (h : SameTexts fs fs') (h' : SameTexts fs' fs'') : SameTexts fs fs'' :=
  ⟨h'.files.trans h.files, h'.volume.trans h.volume, h'.workDir.trans h.workDir, h'.readOnly.trans h.readOnly⟩

theorem SameTexts.at? (h : SameTexts fs fs') (k : Text) : fs'.at? k = fs.at? k := by
  unfold Files.at?
  rw [h.files]

theorem sameTexts_addDirectory (fs : Files) (d : Text) : SameTexts fs (fs.addDirectory d) := by
  unfold addDirectory
  split <;> exact ⟨rfl, rfl, rfl, rfl⟩

theorem sameTexts_register (fuel : Nat) (key : Text) (fs : Files) : SameTexts fs (register fuel key fs) := by
  induction fuel generalizing key fs with
  | zero => exact ⟨rfl, rfl, rfl, rfl⟩
  | succ fuel ih =>
    rw [register]
    dsimp only
    split
    · exact ⟨rfl, rfl, rfl, rfl⟩
    · have hadd := sameTexts_addDirectory fs (fs.key (dir key))
      have hlist : ∀ fs' : Files, SameTexts fs fs' → SameTexts fs
          (if fs'.listed.contains (fs.key (dir key), key) then fs'
            else { fs' with listed := fs'.listed ++ [(fs.key (dir key), key)] }) := by
        intro fs' h
        split
        · exact h
        · exact h.trans ⟨rfl, rfl, rfl, rfl⟩
      refine hlist _ ?_
      split
      · exact hadd.trans (ih _ _)
      · exact hadd

theorem sameTexts_enlist (fs : Files) (key : Text) : SameTexts fs (fs.enlist key) :=
  sameTexts_register _ _ _

theorem volume_renew (fs : Files) (key : Text) : (fs.renew key).volume = fs.volume := (sameTexts_enlist _ _).volume

theorem workDir_renew (fs : Files) (key : Text) : (fs.renew key).workDir = fs.workDir :=
  (sameTexts_enlist _ _).workDir

theorem at?_renew (fs : Files) (key k : Text) :
    (fs.renew key).at? k = if k = key then some [] else fs.at? k := by
  rw [← at?_put]
  exact (sameTexts_enlist _ _).at? k

/-- Writing a file where nothing is makes an empty one first. -/
theorem write_memory (hmemory : fs.volume = .memory) (h : fs.write path text = .ok fs') :
    fs'.volume = fs.volume ∧ fs'.workDir = fs.workDir ∧
      ∀ k, fs'.at? k = if k = fs.key path then some text else fs.at? k := by
  unfold write at h
  split at h
  · cases h
  · rw [hmemory] at h
    obtain rfl := Except.ok.inj h
    by_cases hentry : (fs.entryAt? (fs.key path)).isSome = true
    · rw [if_pos hentry]
      exact ⟨rfl, rfl, at?_put fs _ _⟩
    · rw [if_neg hentry]
      refine ⟨volume_renew fs _, workDir_renew fs _, fun k => ?_⟩
      rw [at?_put, at?_renew]
      split <;> rfl

theorem write_of_makeDirectory (hmemory : fs.volume = .memory) {directory : Text}
    (h : fs.makeDirectory directory = .ok fs') (path text : Text) : ∃ fs'', fs'.write path text = .ok fs'' := by
  unfold makeDirectory at h
  split at h
  · cases h
  · rename_i hwritable
    rw [hmemory] at h
    have hsame : SameTexts fs fs' := by
      obtain rfl := Except.ok.inj h
      split
      · exact ⟨rfl, rfl, rfl, rfl⟩
      · exact (sameTexts_addDirectory fs _).trans (sameTexts_enlist _ _)
    rw [write, if_neg (hsame.readOnly ▸ hwritable), hsame.volume, hmemory]
    exact ⟨_, rfl⟩

/-! ### Changes of a disk -/

section Disk
variable (hfs : fs.IsAnchored) (hdisk : fs.volume = .disk)
include hfs hdisk

theorem differ_put (hplace : fs.place path = .ok k) (text : Text) : DifferOnly (· = k) fs (fs.put k text) := by
  refine .of_disk hdisk rfl rfl (fun key hkey => ?_) (fun d hd => ?_) fun stored old hstores _ => ?_
  · rw [at?_put, if_neg hkey]
  · exact (hasDirectory_put hdisk k text d).mpr (.inl hd)
  · obtain ⟨ks, hks, hkey⟩ := hfs.key_route hdisk stored
    have hplain := hstores.plain hdisk
    rw [hkey] at hplain ⊢
    rw [← Bool.not_eq_true, hasDirectory_put hdisk, hplain, lies_place hfs hdisk hplace hks hplain]
    decide

theorem differ_addDirectory (hplace : fs.place path = .ok k) (hnone : fs.entryAt? k = none) :
    DifferOnly (fun _ => False) fs (fs.addDirectory k) := by
  have hsame := sameTexts_addDirectory fs k
  refine .of_disk hdisk hsame.volume hsame.workDir (fun key _ => hsame.at? key) (fun d hd => ?_)
    fun stored old hstores _ => ?_
  · exact (hasDirectory_addDirectory hdisk k d).mpr (.inl hd)
  · obtain ⟨ks, hks, hkey⟩ := hfs.key_route hdisk stored
    have hplain := hstores.plain hdisk
    have hother : fs.key stored ≠ k := by
      rintro rfl
      simp [entryAt?, hplain, hstores.held] at hnone
    rw [hkey] at hplain hother ⊢
    rw [← Bool.not_eq_true, hasDirectory_addDirectory hdisk, hplain, lies_place hfs hdisk hplace hks hplain]
    simp [hother]

end Disk

theorem differ_makeEach (hfs : fs.IsAnchored) (hdisk : fs.volume = .disk) {paths : List Text}
    (h : fs.makeEach paths = .ok fs') : DifferOnly (fun _ => False) fs fs' := by
  induction paths generalizing fs with
  | nil =>
    obtain rfl := Except.ok.inj h
    exact .refl fs
  | cons path rest ih =>
    rw [makeEach] at h
    split at h
    · exact ih hfs hdisk h
    · cases h
    · rename_i flaw hentry
      split at h
      · cases h
      · rename_i k hplace
        have hnone : fs.entryAt? k = none := by
          rw [entry, hdisk] at hentry
          simp only [hplace, bind, Except.bind] at hentry
          cases hk : fs.entryAt? k with
          | none => rfl
          | some e =>
            rw [hk] at hentry
            cases hentry
        have hadd := differ_addDirectory hfs hdisk hplace hnone
        exact hadd.trans (ih (hadd.anchored hfs) (hadd.volume.trans hdisk) h)

/-! ### Changes -/

theorem differ_makeDirectory (hfs : fs.IsAnchored) (h : fs.makeDirectory path = .ok fs') :
    DifferOnly (fun _ => False) fs fs' := by
  unfold makeDirectory at h
  split at h
  · cases h
  · cases hvolume : fs.volume with
    | memory =>
      rw [hvolume] at h
      obtain rfl := Except.ok.inj h
      split
      · exact .refl fs
      · have hsame := (sameTexts_addDirectory fs (fs.key path)).trans (sameTexts_enlist _ (fs.key path))
        exact .of_memory hvolume hsame.volume hsame.workDir fun k _ => hsame.at? k
    | disk =>
      rw [hvolume] at h
      exact differ_makeEach hfs hvolume h

theorem withoutSlashes_of_endsInSlash (h : endsInSlash path = false) : withoutSlashes path = path := by
  rw [endsInSlash, List.getLast?_eq_head?_reverse] at h
  have hdrop : path.reverse.dropWhile (·.is '/') = path.reverse := by
    cases hreverse : path.reverse with
    | nil => rfl
    | cons g gs =>
      rw [hreverse] at h
      exact List.dropWhile_cons_of_neg (by simpa using h)
  rw [withoutSlashes, Text.trimEnd, hdrop, List.reverse_reverse]

/-- A file on a disk is written where its path leads, unless that is the null device. -/
theorem write_disk (hdisk : fs.volume = .disk) (h : fs.write path text = .ok fs') :
    ∃ k, fs.place path = .ok k ∧ fs.hasDirectory k = false ∧
      fs' = if k == nullDevice then fs else fs.put k text := by
  unfold write at h
  split at h
  · cases h
  · rw [hdisk] at h
    dsimp only at h
    split at h
    · rename_i k htarget
      obtain ⟨k', hplace, hk⟩ := bind_eq_ok.mp htarget
      split at hk
      · cases hk
      · rename_i hplain
        rw [Bool.or_eq_true, not_or, Bool.not_eq_true, Bool.not_eq_true] at hplain
        obtain rfl := Except.ok.inj hk
        rw [withoutSlashes_of_endsInSlash hplain.1, ite_self] at hplace
        exact ⟨k', hplace, hplain.2, (Except.ok.inj h).symm⟩
    · cases h

theorem differ_write (hfs : fs.IsAnchored) (h : fs.write path text = .ok fs') :
    DifferOnly (· = fs.key path) fs fs' := by
  cases hvolume : fs.volume with
  | memory =>
    obtain ⟨hsame, hworkDir, htexts⟩ := write_memory hvolume h
    exact .of_memory hvolume hsame hworkDir fun k hk => (htexts k).trans (if_neg hk)
  | disk =>
    obtain ⟨k, hplace, -, rfl⟩ := write_disk hvolume h
    split
    · exact .refl fs
    · rw [← (place_eq_ok hfs hvolume hplace).1]
      exact differ_put hfs hvolume hplace text

theorem stores_write (hfs : fs.IsAnchored) (h : fs.write path text = .ok fs') (hnull : fs.key path ≠ nullDevice) :
    fs'.Stores path text := by
  have hkey := (differ_write hfs h).key path
  cases hvolume : fs.volume with
  | memory =>
    obtain ⟨hsame, -, htexts⟩ := write_memory hvolume h
    have hdisk : ¬ fs'.volume = .disk := by
      rw [hsame, hvolume]
      decide
    exact ⟨by rw [hkey, htexts, if_pos rfl], fun h => absurd h hdisk, fun h => absurd h hdisk⟩
  | disk =>
    obtain ⟨k, hplace, hplain, rfl⟩ := write_disk hvolume h
    obtain rfl := (place_eq_ok hfs hvolume hplace).1
    rw [if_neg (by simpa using hnull)] at hkey ⊢
    have hmono : ∀ d, fs.hasDirectory d = true → (fs.put (fs.key path) text).hasDirectory d = true :=
      fun d hd => (hasDirectory_put hvolume _ _ d).mpr (.inl hd)
    refine ⟨?_, fun _ => ?_, fun _ => ?_⟩
    · rw [hkey, at?_put, if_pos rfl]
    · rw [hkey]
      exact place_mono (show (fs.put (fs.key path) text).workDir = fs.workDir from rfl) hmono hplace
    · obtain ⟨ks, hks, hroute⟩ := hfs.key_route hvolume path
      rw [hkey]
      rw [hroute] at hplace hplain ⊢
      rw [← Bool.not_eq_true, hasDirectory_put hvolume, hplain, lies_place hfs hvolume hplace hks hplain]
      decide

/-- What is written over a file under another path for it is stored in the file. -/
theorem Stores.overwrite (hfs : fs.IsAnchored) {old stored : Text} (hstores : fs.Stores stored old)
    (hkey : fs.key stored = fs.key path) (h : fs.write path text = .ok fs') (hnull : fs.key path ≠ nullDevice) :
    fs'.Stores stored text := by
  have hsame := (differ_write hfs h).key
  obtain ⟨hheld, -, hplain⟩ := stores_write hfs h hnull
  have hkey' : fs'.key stored = fs'.key path := by rw [hsame, hsame, hkey]
  rw [← hkey'] at hheld hplain
  refine ⟨hheld, fun hdisk => ?_, hplain⟩
  have hdisk' : fs.volume = .disk := (differ_write hfs h).volume ▸ hdisk
  obtain ⟨k, -, -, rfl⟩ := write_disk hdisk' h
  rw [hsame]
  refine place_mono (by split <;> rfl) (fun d hd => ?_) (hstores.placed hdisk')
  split
  · exact hd
  · exact (hasDirectory_put hdisk' k text d).mpr (.inl hd)

end Anadil.Files
