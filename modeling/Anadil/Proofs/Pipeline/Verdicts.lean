import Anadil.Proofs.Pipeline.Balance

/-! # Verdicts are truthful

Whatever happens at a pipeline, and wherever the work is called off, what an artifact says of itself is so: its
Python is what its sample compiles to, and its verdict is what its sample makes of the output that was recorded.
A verdict goes to the newest artifact of a sample, which need not be the one whose job asked for it; this does
no harm because the sample is the same. So the samples that are listed as verified are those that were run and
printed what was expected. -/

namespace Anadil.Pipeline

open Store (Sample Stage Artifact)

variable {w : Worker} {sample : Sample} {s : State} {ts : List Turn}

/-! ### What processing does to artifacts -/

/-- What processing a job leaves of the store, jobs aside: nothing is changed, or a sample was compiled, or an
artifact was run and its output was judged by its sample. -/
inductive Treated (w : Worker) (st st' : Store) : Prop where
  | spared (h : besideJobs st' = besideJobs st)
  | compiled (sample : Sample) (hsample : sample ∈ st.samples.rows) (python : Text)
      (hcompile : compile w.style sample.source = .ok python)
      (h : besideJobs st' = besideJobs (st.addArtifact sample.id python version.core Time.zero))
  | judged (sample : Sample) (hsample : sample ∈ st.samples.rows) (a : Artifact) (ha : a ∈ st.artifacts.rows)
      (hof : a.sample = sample.id) (actual : Text) (now : Instant)
      (h : besideJobs st' = besideJobs (st.examine a.id (Worker.judge sample actual).1 (some actual) now))

/-- Jobs do not count, neither before nor behind. -/
theorem Treated.congr {st₁ st₂ st st' : Store} (h : Treated w st st')
    (h₁ : besideJobs st₁ = besideJobs st) (h₂ : besideJobs st₂ = besideJobs st') : Treated w st₁ st₂ := by
  have hsamples : st₁.samples = st.samples := congrArg (·.2.1) h₁
  have hartifacts : st₁.artifacts = st.artifacts := congrArg (·.2.2.1) h₁
  have hbatches : st₁.batches = st.batches := congrArg (·.1) h₁
  have hcondition : st₁.condition = st.condition := congrArg (·.2.2.2) h₁
  rcases h with h | ⟨sample, hsample, python, hcompile, h⟩ | ⟨sample, hsample, a, ha, hof, actual, now, h⟩
  · exact .spared (h₂.trans (h.trans h₁.symm))
  · refine .compiled sample (hsamples ▸ hsample) python hcompile (h₂.trans (h.trans ?_))
    simp only [besideJobs, Store.addArtifact, hbatches, hsamples, hartifacts, hcondition]
  · refine .judged sample (hsamples ▸ hsample) a (hartifacts ▸ ha) hof actual now (h₂.trans (h.trans ?_))
    simp only [besideJobs, Store.examine, hbatches, hsamples, hartifacts, hcondition]

namespace Worker

theorem ends_transpile (hsample : sample ∈ s.store.samples.rows) :
    Ends (w.transpile sample) s fun _ s' => Treated w s.store s'.store := by
  refine (ends_outcome (P := fun r s' => s'.store = s.store ∧ compile w.style sample.source = r) ⟨rfl, rfl⟩).bind
    (fun python s₁ hs₁ => ?_) fun e s' hs' => .spared (by rw [hs'.1])
  obtain ⟨hs₁, hcompile⟩ := hs₁
  refine (spares_writeBelow (v := fun st => st) (w.pythonPath sample) python s₁).bind (fun _ s₂ hs₂ => ?_)
    fun e s' hs' => .spared (congrArg besideJobs (hs'.trans hs₁))
  have hstore₂ : s₂.store = s.store := hs₂.trans hs₁
  refine (Ends.explain (P := fun r s' => (∃ e, r = .error e) ∧ s'.store = s.store ∨
    s'.store = s.store.addArtifact sample.id python version.core Time.zero)
    (ends_update (fun id st hok => ?_) fun e _ => .inl ⟨⟨_, rfl⟩, hstore₂⟩)).bind (fun id s₃ hs₃ => ?_)
    fun e s' hs' => ?_
  · simp only [bind_eq_ok, pure_eq_ok] at hok
    obtain ⟨⟨id', verdict, st'⟩, hinsert, hst⟩ := hok
    obtain ⟨-, rfl⟩ := Prod.mk.inj hst
    exact .inr (by rw [Store.insertArtifact_eq_ok hinsert, hstore₂])
  · -- what is queued behind it is jobs
    have hstore₃ : s₃.store = s.store.addArtifact sample.id python version.core Time.zero := by
      rcases hs₃ with ⟨⟨e, he⟩, -⟩ | hs₃
      · cases he
      · exact hs₃
    have hrest : Spares besideJobs (do
        let _ ← queueStage sample.id .verify
        if w.compiler.isSome && !sample.path.isEmpty then
          let _ ← queueStage sample.id .parity) := by
      refine (spares_queueStage _ _).bind fun _ => ?_
      split
      · exact (spares_queueStage _ _).bind fun _ => spares_pure _
      · exact spares_pure _
    refine (hrest s₃).imp fun _ s' hs' => .compiled sample hsample python hcompile ?_
    rw [hs', hstore₃]
  · rcases hs' with ⟨-, hs'⟩ | hs'
    · exact .spared (by rw [hs'])
    · exact .compiled sample hsample python hcompile (by rw [hs'])

/-- A run of the Python judges the newest artifact of the sample or changes nothing. -/
theorem ends_verify (hn : s.store.artifacts.Numbered Artifact.id) (hsample : sample ∈ s.store.samples.rows) :
    Ends (w.verify sample) s fun _ s' => Treated w s.store s'.store := by
  unfold verify
  split
  · rename_i python _
    refine (Ends.explain (P := fun r s' => s'.store = s.store ∧
      ∀ a, r = .ok a → a ∈ s.store.artifacts.rows ∧ a.sample = sample.id) (Ends.bind
        (P := fun r s' => s'.store = s.store ∧ ∀ a, r = .ok (some a) → s.store.newestArtifact? sample.id = some a)
        (ends_ask ⟨rfl, fun a hok => ?_⟩) (fun found s₁ hs₁ => ?_) fun e s' hs' => ⟨hs'.1, nofun⟩)).bind
      (fun a s₁ hs₁ => ?_) fun e s' hs' => .spared (by rw [hs'.1])
    · rw [Store.latestArtifact, Store.access_eq_ok] at hok
      exact Except.ok.inj hok.2
    · rcases found with _ | a
      · exact ends_throw ⟨hs₁.1, nofun⟩
      · refine ends_pure ⟨hs₁.1, fun a' ha' => ?_⟩
        obtain rfl := Except.ok.inj ha'
        obtain ⟨ha, hof, -⟩ := (Store.newestArtifact?_eq_some hn).mp (hs₁.2 _ rfl)
        exact ⟨ha, hof⟩
    · obtain ⟨ha, hof⟩ := hs₁.2 a rfl
      -- the run itself leaves the store alone
      refine ((composes_spares fun st => st).runTool w.traced python ["-"] a.python s₁).bind
        (fun report s₂ hs₂ => ?_) fun e s' hs' => .spared (congrArg besideJobs (hs'.trans hs₁.1))
      refine ((composes_spares fun st => st).need report s₂).bind (fun result s₃ hs₃ => ?_)
        fun e s' hs' => .spared (congrArg besideJobs (hs'.trans (hs₂.trans hs₁.1)))
      have hstore₃ : s₃.store = s.store := hs₃.trans (hs₂.trans hs₁.1)
      have hend : ∀ {s' : State}, s'.store =
          s.store.examine a.id (judge sample (normalizeOutput result.stdout)).1
            (some (normalizeOutput result.stdout)) s₃.context.now → Treated w s.store s'.store :=
        fun hs' => .judged sample hsample a ha hof _ _ (congrArg besideJobs hs')
      refine (Ends.explain (P := fun r s' => (∃ e, r = .error e) ∧ s'.store = s.store ∨ s'.store =
        s.store.examine a.id (judge sample (normalizeOutput result.stdout)).1
          (some (normalizeOutput result.stdout)) s₃.context.now)
        (ends_update (fun u st hok => ?_) fun e _ => .inl ⟨⟨_, rfl⟩, hstore₃⟩)).bind (fun u s₄ hs₄ => ?_)
        fun e s' hs' => ?_
      · simp only [bind_eq_ok, pure_eq_ok] at hok
        obtain ⟨st', hupdate, hst⟩ := hok
        obtain ⟨-, rfl⟩ := Prod.mk.inj hst
        rw [hstore₃] at hupdate
        exact .inr (Store.updateArtifact_named hupdate)
      · have hstore₄ := hs₄.resolve_left fun h => by
          obtain ⟨⟨e, he⟩, -⟩ := h
          cases he
        refine ((composes_spares fun st => st).note _ s₄).bind (fun _ s₅ hs₅ => ?_)
          fun e s' hs' => hend (hs'.trans hstore₄)
        split
        · exact ends_throw (hend (hs₅.trans hstore₄))
        · exact ends_pure (hend (hs₅.trans hstore₄))
      · rcases hs' with ⟨-, hs'⟩ | hs'
        · exact .spared (by rw [hs'])
        · exact hend hs'
  · exact ends_throw (.spared rfl)

theorem ends_execute (hn : s.store.artifacts.Numbered Artifact.id) (hsample : sample ∈ s.store.samples.rows)
    (stage : Stage) : Ends (w.execute stage sample) s fun _ s' => Treated w s.store s'.store := by
  cases stage with
  | transpile => exact ends_transpile hsample
  | verify => exact ends_verify hn hsample
  | parity =>
    have hspares : Spares besideJobs (w.parity sample) := (composes_spares besideJobs).parity
    exact (hspares s).imp fun _ _ h => .spared h

theorem ends_process (hn : s.store.artifacts.Numbered Artifact.id) (stage : Text) :
    Ends (w.process stage) s fun _ s' => Treated w s.store s'.store := by
  refine ends_process_of (P := fun s' => besideJobs s'.store = besideJobs s.store) (spares_claim stage w.id s)
    (fun h => h) (fun h => .spared h) (fun {s₁ stage sample} h hsample => ?_) fun job finding s₁ h => ?_
  · have hartifacts : s₁.store.artifacts = s.store.artifacts := congrArg (·.2.2.1) h
    exact (ends_execute (hartifacts ▸ hn) hsample stage).imp fun _ _ ht => ht.congr h.symm rfl
  · exact ((composes_spares besideJobs).close spares_finish job finding s₁).imp fun _ _ heq => h.congr rfl heq

end Worker

/-! ### What artifacts say -/

/-- The verdict on an artifact is what its sample makes of the output that was recorded. -/
structure Truthful (sample : Sample) (a : Artifact) : Prop where
  transpiled : a.verdict = .transpiled → a.actual = none
  verified : a.verdict = .verified → sample.expected ≠ [] ∧ a.actual = some (normalizeOutput sample.expected)
  mismatch : a.verdict = .mismatch →
    sample.expected ≠ [] ∧ ∃ t, a.actual = some t ∧ t ≠ normalizeOutput sample.expected
  unchecked : a.verdict = .unchecked → sample.expected = []

/-- A verdict is truthful when it is given. -/
theorem truthful_judged (sample : Sample) (a : Artifact) (actual : Text) (now : Instant) :
    Truthful sample { a with verdict := (Worker.judge sample actual).1, actual := some actual, verifiedAt := some now } := by
  have hempty : sample.hasExpected = false ↔ sample.expected = [] := by simp [Sample.hasExpected]
  rcases hexpected : sample.hasExpected with _ | _
  · have hjudge : (Worker.judge sample actual).1 = .unchecked := by simp [Worker.judge, hexpected]
    rw [hjudge]
    exact ⟨nofun, nofun, nofun, fun _ => hempty.mp hexpected⟩
  · have hne : sample.expected ≠ [] := fun h => by
      rw [hempty.mpr h] at hexpected
      cases hexpected
    by_cases heq : actual = normalizeOutput sample.expected
    · have hjudge : (Worker.judge sample actual).1 = .verified := by simp [Worker.judge, hexpected, heq]
      rw [hjudge]
      exact ⟨nofun, fun _ => ⟨hne, congrArg some heq⟩, nofun, nofun⟩
    · have hjudge : (Worker.judge sample actual).1 = .mismatch := by simp [Worker.judge, hexpected, heq]
      rw [hjudge]
      exact ⟨nofun, nofun, fun _ => ⟨hne, actual, rfl, heq⟩, nofun⟩

theorem Truthful.verified_iff {a : Artifact} (h : Truthful sample a) :
    a.verdict = .verified ↔ sample.expected ≠ [] ∧ a.actual = some (normalizeOutput sample.expected) := by
  refine ⟨h.verified, fun ⟨hne, hactual⟩ => ?_⟩
  cases hverdict : a.verdict with
  | verified => rfl
  | transpiled =>
    rw [h.transpiled hverdict] at hactual
    cases hactual
  | mismatch =>
    obtain ⟨-, t, ht, hdiffers⟩ := h.mismatch hverdict
    exact absurd (Option.some.inj (ht.symm.trans hactual)) hdiffers
  | unchecked => exact absurd (h.unchecked hverdict) hne

/-- What every step keeps; `made` says which worker made which artifact. -/
structure Attested (st : Store) (made : Worker → Int → Prop) : Prop where
  ready : st.condition = .ready
  samples : st.samples.Numbered Sample.id
  artifacts : st.artifacts.Numbered Artifact.id
  told : ∀ a ∈ st.artifacts.rows, ∃ sample ∈ st.samples.rows, sample.id = a.sample ∧ Truthful sample a ∧
    ∃ w, made w a.id ∧ compile w.style sample.source = .ok a.python

namespace Attested
variable {st st' : Store} {made made' : Worker → Int → Prop} (h : Attested st made)
include h

theorem mono (himp : ∀ w id, made w id → made' w id) : Attested st made' where
  ready := h.ready
  samples := h.samples
  artifacts := h.artifacts
  told a ha := by
    obtain ⟨sample, hsample, hid, htruthful, w, hmade, hcompile⟩ := h.told a ha
    exact ⟨sample, hsample, hid, htruthful, w, himp w a.id hmade, hcompile⟩

theorem congr (heq : besideJobs st' = besideJobs st) : Attested st' made := by
  have hsamples : st'.samples = st.samples := congrArg (·.2.1) heq
  have hartifacts : st'.artifacts = st.artifacts := congrArg (·.2.2.1) heq
  have hcondition : st'.condition = st.condition := congrArg (·.2.2.2) heq
  refine ⟨hcondition.trans h.ready, hsamples ▸ h.samples, hartifacts ▸ h.artifacts, ?_⟩
  rw [hsamples, hartifacts]
  exact h.told

theorem withSamples {samples : Store.Table Sample} (hn : samples.Numbered Sample.id)
    (hsub : st.samples.rows ⊆ samples.rows) : Attested { st with samples } made where
  ready := h.ready
  samples := hn
  artifacts := h.artifacts
  told a ha := by
    obtain ⟨sample, hsample, htold⟩ := h.told a ha
    exact ⟨sample, hsub hsample, htold⟩

theorem addSample {row : Sample} (hrow : row.id = st.samples.last + 1) :
    Attested { st with samples := ⟨st.samples.rows ++ [row], st.samples.last + 1⟩ } made :=
  h.withSamples (h.samples.add hrow) (List.subset_append_left _ _)

theorem skipSample : Attested { st with samples := st.samples.skip } made :=
  h.withSamples ⟨h.samples.ascending, fun s hs => by
    have hle := h.samples.bounded s hs
    simp only [Store.Table.skip]
    omega⟩ fun _ hs => hs

theorem addArtifact (hsample : sample ∈ st.samples.rows) {python : Text}
    (hcompile : compile w.style sample.source = .ok python) (hmade : made w (st.artifacts.last + 1))
    (version : Text) (createdAt : Instant) :
    Attested (st.addArtifact sample.id python version createdAt) made where
  ready := h.ready
  samples := h.samples
  artifacts := h.artifacts.add rfl
  told a ha := by
    rcases List.mem_append.mp ha with hold | hnew
    · exact h.told a hold
    · obtain rfl := List.mem_singleton.mp hnew
      exact ⟨sample, hsample, rfl, ⟨fun _ => rfl, nofun, nofun, nofun⟩, w, hmade, hcompile⟩

/-- A judged artifact is attested because its own sample judged it. -/
theorem examine (hsample : sample ∈ st.samples.rows) {a : Artifact} (ha : a ∈ st.artifacts.rows)
    (hof : a.sample = sample.id) (actual : Text) (now : Instant) :
    Attested (st.examine a.id (Worker.judge sample actual).1 (some actual) now) made where
  ready := h.ready
  samples := h.samples
  artifacts := h.artifacts.map fun b _ => by split <;> rfl
  told b' hb' := by
    obtain ⟨b, hb, rfl⟩ := List.mem_map.mp hb'
    by_cases hid : b.id = a.id
    · -- the artifact with the number is `a`, and its sample is the one that judges
      obtain rfl := h.artifacts.eq_of_number hb ha hid
      obtain ⟨own, hown, hownId, -, w, hmade, hcompile⟩ := h.told b hb
      obtain rfl := h.samples.eq_of_number hown hsample (hownId.trans hof)
      rw [if_pos (beq_self_eq_true _)]
      exact ⟨own, hown, hownId, truthful_judged own b actual now, w, hmade, hcompile⟩
    · rw [if_neg fun heq => hid (beq_iff_eq.mp heq)]
      exact h.told b hb

theorem treated (ht : Treated w st st')
    (hnew : ∀ a ∈ st'.artifacts.rows, (∀ b ∈ st.artifacts.rows, b.id ≠ a.id) → made w a.id) : Attested st' made := by
  rcases ht with heq | ⟨sample, hsample, python, hcompile, heq⟩ | ⟨sample, hsample, a, ha, hof, actual, now, heq⟩
  · exact h.congr heq
  · have hartifacts : st'.artifacts.rows = _ := congrArg (·.2.2.1.rows) heq
    have hrow : ∃ a ∈ st'.artifacts.rows, a.id = st.artifacts.last + 1 := by
      rw [hartifacts]
      exact ⟨_, List.mem_append_right _ (List.mem_singleton_self _), rfl⟩
    obtain ⟨a, ha, hid⟩ := hrow
    have hmade : made w (st.artifacts.last + 1) := hid ▸ hnew a ha fun b hb heq => by
      have hle := h.artifacts.bounded b hb
      omega
    exact (h.addArtifact hsample hcompile hmade _ _).congr heq
  · exact (h.examine hsample ha hof actual now).congr heq

/-! ### Verified samples -/

theorem listSamples (now : Instant) (batch : Option Int) :
    st.listSamples ⟨now, false⟩ ⟨batch, true⟩ = .ok (st.samples.rows.filter (Store.Filter.admits st ⟨batch, true⟩)) := by
  have husable : st.Usable ⟨now, false⟩ := ⟨h.ready, rfl⟩
  rw [Store.listSamples, husable.access]
  rfl

/-- Samples are listed as verified by what their newest artifact printed. -/
theorem admits_iff (hsample : sample ∈ st.samples.rows) {batch : Option Int} :
    Store.Filter.admits st ⟨batch, true⟩ sample = true ↔ (∀ b ∈ batch, sample.batch = some b) ∧
      sample.expected ≠ [] ∧ ∃ a ∈ st.artifacts.rows, a.sample = sample.id ∧
        (∀ b ∈ st.artifacts.rows, b.sample = sample.id → b.id ≤ a.id) ∧
        a.actual = some (normalizeOutput sample.expected) := by
  have hverified : (st.newestArtifact? sample.id).any (·.verdict == .verified) = true ↔
      sample.expected ≠ [] ∧ ∃ a ∈ st.artifacts.rows, a.sample = sample.id ∧
        (∀ b ∈ st.artifacts.rows, b.sample = sample.id → b.id ≤ a.id) ∧
        a.actual = some (normalizeOutput sample.expected) := by
    -- an artifact of this sample was judged by this sample
    have htruthful : ∀ a ∈ st.artifacts.rows, a.sample = sample.id → Truthful sample a := by
      intro a ha hof
      obtain ⟨own, hown, hownId, htruthful, -⟩ := h.told a ha
      rwa [h.samples.eq_of_number hown hsample (hownId.trans hof)] at htruthful
    simp only [Option.any_eq_true, beq_iff_eq, Store.newestArtifact?_eq_some h.artifacts]
    constructor
    · rintro ⟨a, ⟨ha, hof, hnewest⟩, hverdict⟩
      obtain ⟨hne, hactual⟩ := (htruthful a ha hof).verified hverdict
      exact ⟨hne, a, ha, hof, hnewest, hactual⟩
    · rintro ⟨hne, a, ha, hof, hnewest, hactual⟩
      exact ⟨a, ⟨ha, hof, hnewest⟩, (htruthful a ha hof).verified_iff.mpr ⟨hne, hactual⟩⟩
  rw [Store.Filter.admits, Bool.and_eq_true, Bool.not_true, Bool.false_or, hverified]
  refine and_congr_left fun _ => ?_
  rcases batch with _ | b <;> simp

end Attested

/-! ### Steps and runs -/

section Steps
variable {made : Worker → Int → Prop} (h : Attested s.store made)
include h

theorem ends_spared {α : Type} {w : Work α} (hw : Spares besideJobs w) :
    Ends w s fun _ s' => Attested s'.store made := (hw s).imp fun _ _ heq => h.congr heq

theorem ends_ingest (dataDir : Text) (batch : Int) (submission : Submission) :
    Ends (ingest dataDir batch submission) s fun _ s' => Attested s'.store made := by
  have hinert := inert_store (Attested · made)
  refine hinert.composes.ingest hinert.writeBelow (fun _ => hinert.update fun s id st h hok => ?_)
    (fun sample s h => ends_spared h (spares_queueStage sample _)) dataDir batch submission s h
  obtain ⟨hid, row, hrow, -, rfl⟩ := Store.insertSample_eq_ok hok
  exact h.addSample (hrow.trans hid)

theorem ends_load (text : Text) (batch : Option Int) :
    Ends (update fun st ctx => st.loadSeeds ctx text batch) s fun _ s' => Attested s'.store made :=
  ends_update (fun _ _ hok => Store.loadSeeds_keeps (P := fun st => Attested st made)
    (fun h hrow => h.addSample hrow) (fun h => h.skipSample) h hok) fun _ _ => h

end Steps

/-- A step, and after how many uses of the store and of tools it is called off, if it is. -/
structure Turn where
  step : Step
  lease : Option Nat

/-- The state after a turn. -/
def State.turn (s : State) (t : Turn) : State := (Line.after ⟨{ s with lease := t.lease }, []⟩ t.step).state

/-- A worker made the artifact with a number: it was not there before one of the worker's turns, and it was there
behind it. -/
def MadeBy (s : State) (ts : List Turn) (w : Worker) (id : Int) : Prop :=
  ∃ before stage lease later, ts = before ++ ⟨.process w stage, lease⟩ :: later ∧
    (∀ a ∈ (before.foldl State.turn s).store.artifacts.rows, a.id ≠ id) ∧
    ∃ a ∈ ((before.foldl State.turn s).turn ⟨.process w stage, lease⟩).store.artifacts.rows, a.id = id

theorem MadeBy.append {id : Int} (h : MadeBy s ts w id) (t : Turn) : MadeBy s (ts ++ [t]) w id := by
  obtain ⟨before, stage, lease, later, rfl, habsent, hpresent⟩ := h
  exact ⟨before, stage, lease, later ++ [t], by simp, habsent, hpresent⟩

/-- A turn of a worker: an artifact that is new was made by the worker. -/
theorem attested_process (h : Attested (ts.foldl State.turn s).store (MadeBy s ts))
    (w : Worker) (stage : Text) (lease : Option Nat) :
    Attested ((ts.foldl State.turn s).turn ⟨.process w stage, lease⟩).store
      (MadeBy s (ts ++ [⟨.process w stage, lease⟩])) := by
  have htreated : Treated w (ts.foldl State.turn s).store
      ((ts.foldl State.turn s).turn ⟨.process w stage, lease⟩).store :=
    (Worker.ends_process (s := { ts.foldl State.turn s with lease }) h.artifacts stage).settled
  exact (h.mono fun w id hmade => hmade.append _).treated htreated fun a ha habsent =>
    ⟨ts, stage, lease, [], rfl, habsent, a, ha, rfl⟩

/-- Every turn keeps what is attested. -/
theorem attested_turn (h : Attested (ts.foldl State.turn s).store (MadeBy s ts))
    (t : Turn) : Attested ((ts.foldl State.turn s).turn t).store (MadeBy s (ts ++ [t])) := by
  have hkept := h.mono fun w id hmade => hmade.append t
  obtain ⟨step, lease⟩ := t
  cases step with
  | ingest dataDir batch submission =>
    exact (ends_ingest (s := { ts.foldl State.turn s with lease }) hkept dataDir batch submission).settled
  | load text batch => exact (ends_load (s := { ts.foldl State.turn s with lease }) hkept text batch).settled
  | queue samples =>
    exact (ends_spared (s := { ts.foldl State.turn s with lease }) hkept (spares_queueExisting samples)).settled
  | process w stage => exact attested_process h w stage lease
  | reset stage =>
    exact (ends_spared (s := { ts.foldl State.turn s with lease }) hkept (spares_reset stage)).settled
  | elsewhere now files log batches => exact ⟨hkept.ready, hkept.samples, hkept.artifacts, hkept.told⟩

theorem attested_run (h : s.Fresh) (ts : List Turn) :
    Attested (ts.foldl State.turn s).store (MadeBy s ts) := by
  induction ts using List.reverseRecOn with
  | nil => exact ⟨h.ready, .of_nil h.samples, .of_nil h.artifacts, by simp [h.artifacts]⟩
  | append_singleton ts t ih =>
    rw [List.foldl_append]
    exact attested_turn ih t

/-- After any run, wherever its steps were called off, every artifact belongs to a sample, its verdict is truthful,
and its Python is what the worker that made it compiles the sample to. The samples listed as verified are, in the
order of their numbers, those with an expected output that their newest artifact is recorded to have printed. -/
theorem verdicts_truthful {s : State} (h : s.Fresh) (ts : List Turn) :
    let st := (ts.foldl State.turn s).store
    (∀ a ∈ st.artifacts.rows, ∃ sample ∈ st.samples.rows, sample.id = a.sample ∧ Truthful sample a ∧
      ∃ w, MadeBy s ts w a.id ∧ compile w.style sample.source = .ok a.python) ∧
    ∀ now batch, ∃ listed, st.listSamples ⟨now, false⟩ ⟨batch, true⟩ = .ok listed ∧
      (listed.map Sample.id).Pairwise (· < ·) ∧
      ∀ sample, sample ∈ listed ↔ sample ∈ st.samples.rows ∧ (∀ b ∈ batch, sample.batch = some b) ∧
        sample.expected ≠ [] ∧ ∃ a ∈ st.artifacts.rows, a.sample = sample.id ∧
          (∀ b ∈ st.artifacts.rows, b.sample = sample.id → b.id ≤ a.id) ∧
          a.actual = some (normalizeOutput sample.expected) := by
  intro st
  have hattested : Attested st (MadeBy s ts) := attested_run h ts
  refine ⟨hattested.told, fun now batch => ⟨_, hattested.listSamples now batch, ?_, fun sample => ?_⟩⟩
  · exact hattested.samples.ascending.sublist (List.filter_sublist.map _)
  · rw [List.mem_filter]
    refine and_congr_right fun hsample => ?_
    rw [hattested.admits_iff hsample]

/-- A worker whose interpreter prints a one, whatever it is given. -/
def stubborn : Worker := ⟨"d", "w", .default, some ⟨"p", fun _ _ => .exited 0 "1\r\n" []⟩, none, false⟩

/-- What happens to two programs, one of which should print a one. Both are compiled and run, the first run of the
first being called off. Then the first is compiled again. -/
def errands : List Turn :=
  let batches : Store.Table Store.Batch := ⟨[⟨1, "b", [], 0⟩], 1⟩
  [⟨.elsewhere 5 .memory [] batches, none⟩, ⟨.ingest "d" 1 ⟨"a", [], "yaz(1)", "1\n"⟩, none⟩,
    ⟨.ingest "d" 1 ⟨"b", [], "yaz(2)", "2"⟩, none⟩, ⟨.process stubborn "transpile", none⟩,
    ⟨.process stubborn "transpile", none⟩, ⟨.process stubborn "verify", some 3⟩, ⟨.process stubborn "verify", none⟩,
    ⟨.queue [1], none⟩, ⟨.process stubborn "transpile", none⟩, ⟨.process stubborn "verify", none⟩]

theorem verdicts_truthful_errands :
    let st := (errands.foldl State.turn (.start 0 .memory)).store
    st.artifacts.rows.map (fun a => (a.sample, a.verdict, a.actual)) =
        ([(1, .transpiled, none), (2, .mismatch, some ("1" : Text)), (1, .verified, some ("1" : Text))] :
          List (Int × Store.Verdict × Option Text)) ∧
      (∀ a ∈ st.artifacts.rows, ∃ sample ∈ st.samples.rows, sample.id = a.sample ∧ Truthful sample a ∧
        ∃ w, MadeBy (.start 0 .memory) errands w a.id ∧ compile w.style sample.source = .ok a.python) :=
  ⟨by decide +kernel, (verdicts_truthful ⟨rfl, rfl, rfl, rfl, rfl⟩ errands).1⟩

end Anadil.Pipeline
