import Anadil.Config.Load
import Anadil.Proofs.Files

/-! # The search for the settings file

The search goes from a directory to the one that holds it, and ends where that is the same. It always ends: after one
step the directory is a shortest path, and from then on each step takes its last part. From a shortest path of the root
it goes through all directories around it, from the innermost out. -/

namespace Anadil.Config

open Anadil.Path

/-- The settings file is in a directory, and is no directory itself. -/
def Offers (fs : Files) (directory : Text) : Prop :=
  ∃ e, fs.entry? (join [directory, fileName]) = some e ∧ e ≠ .directory

/-- A search comes to an end, with what it has found. -/
inductive Searches (fs : Files) : Text → Option Text → Prop
  | found {d : Text} (h : Offers fs d) : Searches fs d (some (join [d, fileName]))
  | ended {d : Text} (h : ¬ Offers fs d) (hd : dir d = d) : Searches fs d none
  | outwards {d : Text} {r : Option Text} (h : ¬ Offers fs d) (hd : dir d ≠ d)
      (more : Searches fs (dir d) r) : Searches fs d r

/-- A shortest path of the root is another one, or leads to something that lies in it. -/
structure Encloses (a d : Text) : Prop where
  absolute : isAbsolute a = true
  shortest : clean a = a
  around : a = d ∨ Files.lies d a = true

/-- Of the directories with a settings file, the nearest. -/
structure Nearest (fs : Files) (d a : Text) : Prop where
  encloses : Encloses a d
  offers : Offers fs a
  least : ∀ b, Encloses b d → Offers fs b → Encloses b a

variable {fs : Files} {d : Text}

/-! ### The end of the search -/

theorem findWithin_offers (h : Offers fs d) (n : Nat) : findWithin fs (n + 1) d = some (join [d, fileName]) := by
  obtain ⟨e, he, hplain⟩ := h
  cases e with
  | file text => simp only [findWithin, he]
  | directory => exact absurd rfl hplain

theorem findWithin_not_offers (h : ¬ Offers fs d) (n : Nat) :
    findWithin fs (n + 1) d = if dir d = d then none else findWithin fs n (dir d) := by
  rw [findWithin]
  split
  · rename_i text he
    exact absurd ⟨_, he, by simp⟩ h
  · rfl

theorem searches_step {n : Nat} (h : dir d ≠ d → Searches fs (dir d) (findWithin fs n (dir d))) :
    Searches fs d (findWithin fs (n + 1) d) := by
  by_cases hoffers : Offers fs d
  · rw [findWithin_offers hoffers]
    exact .found hoffers
  · rw [findWithin_not_offers hoffers]
    by_cases hd : dir d = d
    · rw [if_pos hd]
      exact .ended hoffers hd
    · rw [if_neg hd]
      exact .outwards hoffers hd (h hd)

theorem dir_root (rooted : Bool) : dir (route rooted []) = route rooted [] := by
  cases rooted <;> decide

/-- From a directory the search goes up step by step. -/
theorem searches_route {rooted : Bool} {done : List Text} {n : Nat} (h : Reduced rooted done)
    (hdone : ∀ p ∈ done, IsPart p) (hn : done.length < n) :
    Searches fs (route rooted done.reverse) (findWithin fs n (route rooted done.reverse)) := by
  induction h generalizing n with
  | nil =>
    obtain ⟨n, rfl⟩ := Nat.exists_eq_add_one_of_ne_zero (Nat.ne_of_gt hn)
    exact searches_step fun hd => absurd (dir_root rooted) hd
  | @cons p done h _ ih =>
    obtain ⟨n, rfl⟩ := Nat.exists_eq_add_one_of_ne_zero (Nat.ne_of_gt (Nat.zero_lt_of_lt hn))
    obtain ⟨hp, hdone⟩ := List.forall_mem_cons.mp hdone
    have hdir : dir (route rooted (done.reverse ++ [p])) = route rooted done.reverse :=
      dir_route (by rwa [List.reverse_reverse]) (fun q hq => hdone q (List.mem_reverse.mp hq)) hp
    rw [List.reverse_cons]
    refine searches_step fun _ => ?_
    rw [hdir]
    exact ih hdone (Nat.lt_of_succ_lt_succ hn)

theorem searches_find? (fs : Files) (d : Text) : Searches fs d (find? fs d) := by
  refine searches_step fun _ => ?_
  have hq : (d.reverse.dropWhile fun g => !g.is '/').reverse.length ≤ d.length := by
    simpa using (List.dropWhile_suffix (l := d.reverse) fun g => !g.is '/').length_le
  have hsteps := length_steps (d.reverse.dropWhile fun g => !g.is '/').reverse
  rw [steps, List.length_reverse] at hsteps
  rw [dir, clean_eq]
  exact searches_route (Reduced.nil.foldl_move _) (fun p hp => isPart_of_mem_steps (List.mem_reverse.mpr hp)) (by omega)

/-! ### The nearest file -/

theorem route_steps (habsolute : isAbsolute d = true) (hclean : clean d = d) :
    route true (steps d) = d := by
  rw [← habsolute, ← clean_eq, hclean]

theorem encloses_route {ps : List Text} (hps : ∀ p ∈ ps, IsElement p) :
    Encloses d (route true ps) ↔ ∃ qs, qs <+: ps ∧ d = route true qs := by
  have hlies : ∀ qs : List Text, (∀ q ∈ qs, IsElement q) →
      (Files.lies (route true ps) (route true qs) = true ↔ qs <+: ps ∧ qs ≠ ps) := fun qs hqs =>
    Files.lies_route (fun p hp => (hps p hp).toIsPart) fun q hq => (hqs q hq).toIsPart
  constructor
  · rintro ⟨habsolute, hclean, rfl | h⟩
    · exact ⟨ps, List.prefix_refl ps, rfl⟩
    · have hd := route_steps habsolute hclean
      rw [← hd, hlies _ fun q => isElement_of_mem_steps habsolute] at h
      exact ⟨_, h.1, hd.symm⟩
  · rintro ⟨qs, hqs, rfl⟩
    have helements : ∀ q ∈ qs, IsElement q := fun q hq => hps q (hqs.subset hq)
    refine ⟨rfl, ?_, ?_⟩
    · rw [clean_eq, steps_route helements]
      rfl
    · by_cases heq : qs = ps
      · exact .inl (congrArg _ heq)
      · exact .inr ((hlies qs helements).mpr ⟨hqs, heq⟩)

/-- One step out leaves one directory behind. -/
theorem encloses_concat {ps : List Text} {t : Text} (hps : ∀ p ∈ ps ++ [t], IsElement p) :
    Encloses d (route true (ps ++ [t])) ↔ d = route true (ps ++ [t]) ∨ Encloses d (route true ps) := by
  rw [encloses_route hps, encloses_route fun p hp => hps p (List.mem_append_left _ hp)]
  simp only [List.prefix_concat_iff, or_and_right, exists_or, exists_eq_left]

/-- What it finds lies in the nearest directory that has it. -/
theorem Searches.nearest {ps : List Text} {r : Option Text} (h : Searches fs (route true ps) r)
    (hps : ∀ p ∈ ps, IsElement p) :
    (∃ a, Nearest fs (route true ps) a ∧ r = some (join [a, fileName])) ∨
      (∀ a, Encloses a (route true ps) → ¬ Offers fs a) ∧ r = none := by
  have hself : Encloses (route true ps) (route true ps) :=
    (encloses_route hps).mpr ⟨ps, List.prefix_refl ps, rfl⟩
  induction ps using List.reverseRecOn with
  | nil =>
    cases h with
    | found h => exact .inl ⟨_, ⟨hself, h, fun _ hb _ => hb⟩, rfl⟩
    | ended h =>
      refine .inr ⟨fun a ha => ?_, rfl⟩
      obtain ⟨qs, hqs, rfl⟩ := (encloses_route hps).mp ha
      rwa [List.prefix_nil.mp hqs]
    | outwards _ hd => exact absurd (dir_root true) hd
  | append_singleton ps t ih =>
    obtain ⟨hfront, hlast⟩ := List.forall_mem_append.mp hps
    have hdir : dir (route true (ps ++ [t])) = route true ps :=
      dir_route (reduced_elements fun p hp => hfront p (List.mem_reverse.mp hp)) (fun p hp => (hfront p hp).toIsPart)
        (hlast t (List.mem_singleton_self t)).toIsPart
    cases h with
    | found h => exact .inl ⟨_, ⟨hself, h, fun _ hb _ => hb⟩, rfl⟩
    | ended _ hd =>
      have hsteps := congrArg steps (hdir.symm.trans hd)
      rw [steps_route hfront, steps_route hps] at hsteps
      exact absurd hsteps (by simp)
    | outwards h _ more =>
      rw [hdir] at more
      rcases ih more hfront ((encloses_route hfront).mpr ⟨ps, List.prefix_refl ps, rfl⟩) with ⟨a, ha, rfl⟩ | ⟨hnone, rfl⟩
      · refine .inl ⟨a, ⟨(encloses_concat hps).mpr (.inr ha.encloses), ha.offers, fun b hb hoffers => ?_⟩, rfl⟩
        rcases (encloses_concat hps).mp hb with rfl | hb
        · exact absurd hoffers h
        · exact ha.least b hb hoffers
      · refine .inr ⟨fun a ha => ?_, rfl⟩
        rcases (encloses_concat hps).mp ha with rfl | ha
        · exact h
        · exact hnone a ha

/-- The search for the settings file ends, wherever it starts. From a shortest path of the root it finds the file of
the nearest directory that has one, and nothing exactly if none has. -/
theorem find?_nearest (fs : Files) (directory : Text) :
    Searches fs directory (find? fs directory) ∧
      (isAbsolute directory = true → clean directory = directory →
        (∀ path, find? fs directory = some path → ∃ a, Nearest fs directory a ∧ path = join [a, fileName]) ∧
          (find? fs directory = none ↔ ∀ a, Encloses a directory → ¬ Offers fs a)) := by
  have hsearch := searches_find? fs directory
  refine ⟨hsearch, fun habsolute hclean => ?_⟩
  have hroute := route_steps habsolute hclean
  rw [← hroute] at hsearch
  have hfound := hsearch.nearest fun p => isElement_of_mem_steps habsolute
  rw [hroute] at hfound
  rcases hfound with ⟨a, ha, hfound⟩ | ⟨hnone, hfound⟩
  · rw [hfound]
    refine ⟨fun path hpath => ⟨a, ha, (Option.some.inj hpath).symm⟩, fun h => (by cases h), fun h => ?_⟩
    exact absurd ha.offers (h a ha.encloses)
  · rw [hfound]
    exact ⟨fun path hpath => (by cases hpath), fun _ => hnone, fun _ => rfl⟩

/-- A directory with the name of the settings file, and the file in the directory around. -/
def shadowed : Files :=
  { Files.disk "/" with files := [("/a/turkpy.toml", [])], directories := ["/a/b/turkpy.toml"] }

theorem find?_nearest_shadowed :
    isAbsolute "/a/b" = true ∧ clean "/a/b" = "/a/b" ∧ find? shadowed "/a/b" = some "/a/turkpy.toml" ∧
      ∃ a, Nearest shadowed "/a/b" a ∧ "/a/turkpy.toml" = join [a, fileName] := by
  have hfound : find? shadowed "/a/b" = some "/a/turkpy.toml" := by decide +kernel
  exact ⟨by decide, by decide, hfound, ((find?_nearest shadowed "/a/b").2 (by decide) (by decide)).1 _ hfound⟩

end Anadil.Config
