import Anadil.Proofs.Pipeline.Release

/-! # Loading seeds

A seed file is loaded as a whole or not at all. Each of its programs uses up one number of the table, also one that is
there already (`addSeeds_of_admits`), so the numbers of the new samples are their places in the file, shifted. -/

namespace Anadil.Store

/-! ### New programs -/

/-- The programs, each with its place from `n` on, that are the first with their digest and have none that is known. -/
def novel (known : Text → Bool) (n : Nat) (seeds : List Seed) : List (Seed × Nat) :=
  (seeds.zipIdx n).filter fun p => !known (digest p.1.code) &&
    (seeds.take (p.2 - n)).all fun earlier => digest earlier.code != digest p.1.code

theorem novel_cons (known : Text → Bool) (n : Nat) (x : Seed) (xs : List Seed) : novel known n (x :: xs) =
    if known (digest x.code) then novel known (n + 1) xs
    else (x, n) :: novel (fun d => known d || d == digest x.code) (n + 1) xs := by
  -- For the programs behind it, the first one counts as known from now on.
  have htail : ((xs.zipIdx (n + 1)).filter fun p => !known (digest p.1.code) &&
      ((x :: xs).take (p.2 - n)).all fun earlier => digest earlier.code != digest p.1.code) =
      novel (fun d => known d || d == digest x.code) (n + 1) xs := by
    refine List.filter_congr fun p hp => ?_
    have hplace := List.le_snd_of_mem_zipIdx hp
    rw [show p.2 - n = p.2 - (n + 1) + 1 by omega, List.take_succ_cons, List.all_cons, Bool.not_or, Bool.and_assoc,
      bne, Bool.beq_comm]
  rw [novel, List.zipIdx_cons, List.filter_cons, htail]
  cases hknown : known (digest x.code) with
  | false => simp
  | true =>
    have hsame : (fun d => known d || d == digest x.code) = known := by
      funext d
      by_cases hd : d = digest x.code
      · rw [hd, hknown, Bool.true_or]
      · rw [beq_false_of_ne hd, Bool.or_false]
    simp [hsame]

theorem novel_eq_nil {known : Text → Bool} {n : Nat} {seeds : List Seed}
    (h : ∀ x ∈ seeds, known (digest x.code) = true) : novel known n seeds = [] := by
  refine List.filter_eq_nil_iff.mpr fun p hp => ?_
  simp [h p.1 (List.fst_mem_of_mem_zipIdx hp)]

theorem known_or_novel (known : Text → Bool) (n : Nat) {x : Seed} {seeds : List Seed} (hx : x ∈ seeds) :
    known (digest x.code) = true ∨ ∃ p ∈ novel known n seeds, digest p.1.code = digest x.code := by
  induction seeds generalizing known n with
  | nil => exact absurd hx List.not_mem_nil
  | cons y ys ih =>
    rw [novel_cons]
    split
    · rename_i hknown
      rcases List.mem_cons.mp hx with rfl | hx
      · exact .inl hknown
      · exact ih known (n + 1) hx
    · rcases List.mem_cons.mp hx with rfl | hx
      · exact .inr ⟨_, List.mem_cons_self, rfl⟩
      · rcases ih (fun d => known d || d == digest y.code) (n + 1) hx with hknown | ⟨p, hp, hdigest⟩
        · rcases Bool.or_eq_true_iff.mp hknown with hknown | hsame
          · exact .inl hknown
          · exact .inr ⟨_, List.mem_cons_self, (beq_iff_eq.mp hsame).symm⟩
        · exact .inr ⟨p, List.mem_cons_of_mem _ hp, hdigest⟩

theorem pairwise_novel (known : Text → Bool) (n : Nat) (seeds : List Seed) (last : Int) :
    ((novel known n seeds).map fun p => last + p.2).Pairwise (· < ·) := by
  rw [List.pairwise_map]
  refine List.Pairwise.sublist List.filter_sublist ?_
  induction seeds generalizing n with
  | nil => exact List.Pairwise.nil
  | cons x xs ih =>
    rw [List.zipIdx_cons, List.pairwise_cons]
    refine ⟨fun p hp => ?_, ih (n + 1)⟩
    have hplace := List.le_snd_of_mem_zipIdx hp
    dsimp only
    omega

/-! ### Adding them -/

/-- The row of a program, where `last` was the last number before the file. -/
def Seed.row (now : Instant) (batch : Option Int) (last : Int) (p : Seed × Nat) : Sample :=
  { p.1.sample now batch p.2 with id := last + p.2 }

/-- A store takes the programs of a file: it is open, no code is blank, and the batch is there if anything is new. -/
structure Admits (s : Store) (ctx : Context) (batch : Option Int) (seeds : List Seed) : Prop where
  opened : s.refusal ctx = none
  table : seeds = [] ∨ s.missing "samples" = none
  codes : ∀ x ∈ seeds, Text.isBlank x.code = false
  batch : novel s.hasDigest 1 seeds = [] ∨ batch.all s.hasBatch = true

section Adding
variable {ctx : Context} {batch : Option Int} {n : Nat} {last : Int} {s s' : Store} {seeds : List Seed} {ids : List Int}

theorem hasDigest_add (row : Sample) (k : Int) : hasDigest { s with samples := ⟨s.samples.rows ++ [row], k⟩ } =
    fun d => s.hasDigest d || d == row.sha256 := by
  funext d
  simp [hasDigest, Bool.beq_comm]

/-- The invariant is that the last number and the place in the file grow together. -/
theorem addSeeds_eq_ok (hcodes : ∀ x ∈ seeds, Text.isBlank x.code = false)
    (htable : seeds = [] ∨ s.missing "samples" = none)
    (hbatch : novel s.hasDigest n seeds = [] ∨ batch.all s.hasBatch = true) (hlast : s.samples.last + 1 = last + n) :
    addSeeds ctx batch n seeds s = .ok ((novel s.hasDigest n seeds).map fun p => last + p.2,
      { s with samples := ⟨s.samples.rows ++ (novel s.hasDigest n seeds).map (Seed.row ctx.now batch last),
        s.samples.last + seeds.length⟩ }) := by
  induction seeds generalizing n s with
  | nil => simp [addSeeds, novel]
  | cons x xs ih =>
    rw [List.forall_mem_cons] at hcodes
    have hmissing : s.missing "samples" = none := htable.resolve_left (List.cons_ne_nil _ _)
    have hlength : s.samples.last + 1 + (xs.length : Int) = s.samples.last + ((x :: xs).length : Int) := by
      rw [List.length_cons]
      omega
    rw [novel_cons] at hbatch ⊢
    rw [addSeeds, hcodes.1, hmissing]
    cases hknown : s.hasDigest (digest x.code) with
    | true =>
      rw [hknown, if_pos rfl] at hbatch
      have hrest := ih (s := { s with samples := s.samples.skip }) (n := n + 1) hcodes.2 (.inr hmissing) hbatch
        (by simp only [Table.skip]; omega)
      refine hrest.trans ?_
      rw [← hlength, if_pos rfl]
      rfl
    | false =>
      rw [hknown, if_neg Bool.false_ne_true] at hbatch
      have hall := hbatch.resolve_left (List.cons_ne_nil _ _)
      have hrow : { x.sample ctx.now batch n with id := s.samples.last + 1 } = Seed.row ctx.now batch last (x, n) := by
        rw [Seed.row, hlast]
      have hrest := ih (s := { s with samples := ⟨s.samples.rows ++ [Seed.row ctx.now batch last (x, n)],
        s.samples.last + 1⟩ }) (n := n + 1) hcodes.2 (.inr hmissing) (.inr hall) (by dsimp only; omega)
      dsimp only at hrest
      rw [hasDigest_add, List.append_assoc] at hrest
      simp only [hall, require, Table.add, hrow]
      rw [hrest, ← hlength, hlast]
      rfl

theorem admits_of_addSeeds (h : addSeeds ctx batch n seeds s = .ok (ids, s')) :
    (∀ x ∈ seeds, Text.isBlank x.code = false) ∧ (seeds = [] ∨ s.missing "samples" = none) ∧
      (novel s.hasDigest n seeds = [] ∨ batch.all s.hasBatch = true) := by
  induction seeds generalizing n s s' ids with
  | nil => exact ⟨fun _ hx => absurd hx List.not_mem_nil, .inl rfl, .inl rfl⟩
  | cons x xs ih =>
    rw [addSeeds] at h
    split at h
    · cases h
    rename_i hcode
    split at h
    · cases h
    rename_i hmissing
    rw [novel_cons, List.forall_mem_cons]
    split at h
    · rename_i hknown
      obtain ⟨hcodes, -, hbatch⟩ := ih h
      rw [if_pos hknown]
      exact ⟨⟨Bool.eq_false_iff.mpr hcode, hcodes⟩, .inr (Option.eq_none_iff_forall_ne_some.mpr hmissing), hbatch⟩
    · simp only [bind_eq_ok, mapError_eq_ok, require_eq_ok] at h
      obtain ⟨_, hall, ⟨_, _⟩, hrest, -⟩ := h
      exact ⟨⟨Bool.eq_false_iff.mpr hcode, (ih hrest).1⟩, .inr (Option.eq_none_iff_forall_ne_some.mpr hmissing),
        .inr hall⟩

theorem loadSeeds_eq_ok {text : Text} (hread : Seed.read text = .ok seeds) (h : s.Admits ctx batch seeds) :
    s.loadSeeds ctx text batch = .ok ((novel s.hasDigest 1 seeds).map fun p => s.samples.last + p.2,
      { s with samples := ⟨s.samples.rows ++ (novel s.hasDigest 1 seeds).map (Seed.row ctx.now batch s.samples.last),
        s.samples.last + seeds.length⟩ }) := by
  rw [loadSeeds, hread]
  dsimp only [bind, Except.bind, Except.mapError]
  rw [h.opened]
  exact addSeeds_eq_ok h.codes h.table h.batch rfl

theorem admits_of_loadSeeds {text : Text} (h : s.loadSeeds ctx text batch = .ok (ids, s')) :
    ∃ seeds, Seed.read text = .ok seeds ∧ s.Admits ctx batch seeds := by
  rw [loadSeeds, bind_eq_ok] at h
  obtain ⟨seeds, hread, h⟩ := h
  split at h
  · cases h
  · obtain ⟨hcodes, htable, hbatch⟩ := admits_of_addSeeds h
    exact ⟨seeds, mapError_eq_ok.mp hread, ‹_›, htable, hcodes, hbatch⟩

end Adding

/-- What a store took it takes again, into any batch, and nothing of it is new. -/
theorem Admits.again {s : Store} {ctx : Context} {batch : Option Int} {seeds : List Seed}
    (h : s.Admits ctx batch seeds) {s' : Store} {last : Int} {ctx' : Context} (hcanceled : ctx'.canceled = false)
    (hs' : s' = { s with samples := ⟨s.samples.rows ++ (novel s.hasDigest 1 seeds).map (Seed.row ctx.now batch last),
      last + seeds.length⟩ }) (batch' : Option Int) :
    s'.Admits ctx' batch' seeds ∧ novel s'.hasDigest 1 seeds = [] := by
  have hknown : novel s'.hasDigest 1 seeds = [] := novel_eq_nil fun x hx => by
    rw [hs', hasDigest, List.any_append, List.any_map, Bool.or_eq_true]
    rcases known_or_novel s.hasDigest 1 hx with hold | ⟨p, hp, hdigest⟩
    · exact .inl hold
    · exact .inr (List.any_eq_true.mpr ⟨p, hp, beq_iff_eq.mpr hdigest⟩)
  refine ⟨⟨?_, ?_, h.codes, .inl hknown⟩, hknown⟩
  · have hopened := h.opened
    rw [refusal] at hopened ⊢
    rw [hcanceled, hs']
    cases hcondition : s.condition <;> cases hctx : ctx.canceled <;> simp [hcondition, hctx] at hopened ⊢
  · subst hs'
    exact h.table

theorem hasDigest_of_insertSample {s s' : Store} {ctx : Context} {sample : Sample} {id : Int}
    (h : s.insertSample ctx sample = .ok (id, s')) : s.hasDigest sample.sha256 = false := by
  rw [insertSample, access_eq_ok] at h
  simp only [bind_eq_ok, require_eq_ok] at h
  obtain ⟨-, _, hdigest, -⟩ := h
  simpa using hdigest

end Anadil.Store

namespace Anadil.Pipeline
open Store

/-! ### Digests -/

/-- No two samples have the same digest. -/
def Unrepeated (s : State) : Prop := (s.store.samples.rows.map Sample.sha256).Nodup

theorem unrepeated_add {rows : List Sample} {row : Sample} (h : (rows.map Sample.sha256).Nodup)
    (hrow : ∀ a ∈ rows, a.sha256 ≠ row.sha256) : ((rows ++ [row]).map Sample.sha256).Nodup := by
  rw [List.map_append, List.nodup_append]
  refine ⟨h, List.nodup_singleton _, fun d hd e he => ?_⟩
  obtain ⟨a, ha, rfl⟩ := List.mem_map.mp hd
  rw [List.mem_singleton.mp he]
  exact hrow a ha

theorem durable_unrepeated : Durable Unrepeated where
  beside _ _ _ h := h
  artifacts _ h := h
  enqueue _ _ _ h := h

theorem unrepeated_spared {α : Type} {w : Work α} (hw : Spares besideJobs w) : Maintains Unrepeated w := fun s hs =>
  (hw s).imp fun _ s' heq => by
    have hsamples : s'.store.samples = s.store.samples := congrArg (·.2.1) heq
    rw [Unrepeated, hsamples]
    exact hs

theorem unrepeated_process (w : Worker) (stage : Text) : Maintains Unrepeated (w.process stage) :=
  durable_unrepeated.inert.composes.process (unrepeated_spared (Worker.spares_claimJob stage w.id))
    (fun _ _ _ _ => unrepeated_spared (Worker.spares_finish _ _ _ _)) (durable_unrepeated.execute w)

theorem unrepeated_run {s : State} (h : Unrepeated s) (ts : List Turn) : Unrepeated (ts.foldl State.turn s) := by
  refine durable_unrepeated.run (fun hs hok => ?_) (fun hs hok => ?_) unrepeated_process (fun hs hok => ?_)
    (fun _ _ hs => hs) h ts
  · have hdigest := hasDigest_of_insertSample hok
    obtain ⟨-, row, _, rfl, rfl⟩ := insertSample_row hok
    exact unrepeated_add hs (hasDigest_eq_false.mp hdigest)
  · exact loadSeeds_preserves (P := fun st => (st.samples.rows.map Sample.sha256).Nodup)
      (fun hs _ _ hdigest => unrepeated_add hs (hasDigest_eq_false.mp hdigest)) (fun hs => hs) hs hok
  · rw [Unrepeated, resetFailed_eq_ok hok]
    exact hs

/-! ### Loading -/

/-- Loading seeds into a batch. -/
def load (text : Text) (batch : Option Int) : Work (List Int) := update fun st ctx => st.loadSeeds ctx text batch

/-- A load that fails changes nothing, and it fails exactly if the text cannot be read or the store does not take its
programs. Otherwise there is one new sample for each program that is the first with its digest and is not there yet,
behind the samples that were there, and the numbers of these are given in the order of the file. The same text is then
loaded again without a new sample; only numbers are used up. Digests stay distinct in every run. -/
theorem load_atomic (s : State) (text : Text) (batch : Option Int) :
    (Ends (load text batch) s fun r s' =>
      (∀ f, r = .error f → s' = s.spend ∧
        ¬ ∃ seeds, Seed.read text = .ok seeds ∧ s.store.Admits s.context batch seeds) ∧
      ∀ ids, r = .ok ids → ∃ seeds, Seed.read text = .ok seeds ∧ s.store.Admits s.context batch seeds ∧
        ids = (novel s.store.hasDigest 1 seeds).map (fun p => s.store.samples.last + p.2) ∧ ids.Pairwise (· < ·) ∧
        s' = { s.spend with store := { s.store with samples := ⟨s.store.samples.rows ++
          (novel s.store.hasDigest 1 seeds).map (Seed.row s.now batch s.store.samples.last),
          s.store.samples.last + seeds.length⟩ } } ∧
        ∀ again : State, again.store = s'.store → again.canceled = false → ∀ batch',
          load text batch' again = .ok [] { again.spend with store := { s'.store with
            samples := ⟨s'.store.samples.rows, s'.store.samples.last + seeds.length⟩ } }) ∧
    (Unrepeated s → ∀ ts : List Turn, Unrepeated (ts.foldl State.turn s)) := by
  refine ⟨?_, unrepeated_run⟩
  refine ends_update (fun ids st hok => ⟨fun f hf => (by cases hf), fun _ hids => ?_⟩)
    fun f herror => ⟨fun _ _ => ⟨rfl, ?_⟩, fun _ hids => (by cases hids)⟩
  · obtain rfl := Except.ok.inj hids
    obtain ⟨seeds, hread, hadmits⟩ := admits_of_loadSeeds hok
    obtain ⟨rfl, rfl⟩ := Prod.mk.inj (Except.ok.inj (hok.symm.trans (loadSeeds_eq_ok hread hadmits)))
    refine ⟨seeds, hread, hadmits, rfl, pairwise_novel _ _ _ _, rfl, fun again hstore hcanceled batch' => ?_⟩
    obtain ⟨hagain, hknown⟩ : again.store.Admits again.context batch' seeds ∧ _ :=
      hadmits.again hcanceled hstore batch'
    have hload := loadSeeds_eq_ok hread hagain
    rw [hknown, List.map_nil, List.map_nil, List.append_nil] at hload
    unfold load update
    dsimp only
    rw [hload, hstore]
  · rintro ⟨seeds, hread, hadmits⟩
    cases herror.symm.trans (loadSeeds_eq_ok hread hadmits)

/-- A seed file that has one program twice. -/
def repeating : Text := "[\x7b\"code\": \"x\"\x7d, \x7b\"code\": \"x\"\x7d, \x7b\"code\": \"y\"\x7d]"

/-- Loaded again, the file needs no batch that is there: nothing is put into it. -/
theorem load_atomic_repeating :
    (∃ s' s'', load repeating none (State.start 5 .memory) = .ok [1, 3] s' ∧ load repeating (some 7) s' = .ok [] s'' ∧
      s''.store.samples.rows = s'.store.samples.rows) ∧
    ∀ ts : List Turn, Unrepeated (ts.foldl State.turn (State.start 5 .memory)) := by
  have hagain : ∀ {text ids s'}, load text none (State.start 5 .memory) = .ok ids s' →
      ∃ s'', load text (some 7) s' = .ok [] s'' ∧ s''.store.samples.rows = s'.store.samples.rows := by
    intro text ids s' hload
    have hends := (load_atomic (State.start 5 .memory) text none).1
    unfold Ends at hends
    rw [hload] at hends
    obtain ⟨seeds, -, -, -, -, hs', hagain⟩ := hends.2 ids rfl
    exact ⟨_, hagain s' rfl (by rw [hs']; rfl) (some 7), rfl⟩
  have hids : (match load repeating none (State.start 5 .memory) with
      | .ok ids _ => ids
      | .error _ _ => []) = [1, 3] := by decide +kernel
  refine ⟨?_, (load_atomic (State.start 5 .memory) [] none).2 List.nodup_nil⟩
  generalize hload : load repeating none (State.start 5 .memory) = result at hids
  rcases result with ⟨ids, s'⟩ | ⟨f, s'⟩
  · obtain rfl : ids = [1, 3] := hids
    obtain ⟨s'', hs'', hrows⟩ := hagain hload
    exact ⟨s', s'', rfl, hs'', hrows⟩
  · cases hids

/-- The numbers that a second load uses up are missing later. -/
theorem load_again_skips :
    let first : Turn := ⟨.load "[\x7b\"code\": \"x\"\x7d]" none, none⟩
    let other : Turn := ⟨.load "[\x7b\"code\": \"y\"\x7d]" none, none⟩
    ([first, other].foldl State.turn (State.start 5 .memory)).store.samples.rows.map Sample.id = [1, 2] ∧
      ([first, first, other].foldl State.turn (State.start 5 .memory)).store.samples.rows.map Sample.id = [1, 3] := by
  decide +kernel

end Anadil.Pipeline
