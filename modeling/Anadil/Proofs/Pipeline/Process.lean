import Anadil.Proofs.Pipeline.Endings

/-! # Processed jobs

What processing a job does to the store when nothing is called off and the store is ready. The job that was
claimed ends well or badly and its row is replaced. Compiling a sample, if it ends well, adds an artifact and
queues the jobs that check it; nothing else adds or removes rows. -/

namespace Anadil.Pipeline

open Store (Job Sample Stage Status Artifact)

/-! ### Work that is not called off -/

/-- From one state to another nothing is called off, and no time passes. -/
structure Onward (s s' : State) : Prop where
  lease : s'.lease = none
  now : s'.now = s.now

section Onward
variable {s : State}

theorem Onward.trans {s₁ s₂ : State} (h : Onward s s₁) (h' : Onward s₁ s₂) : Onward s s₂ :=
  ⟨h'.lease, h'.now.trans h.now⟩

theorem context_eq (hs : s.lease = none) : s.context = ⟨s.now, false⟩ := by
  simp [State.context, State.canceled, hs]

theorem spend_eq (hs : s.lease = none) : s.spend = s := by
  cases s
  simp_all [State.spend]

theorem usable (hs : s.lease = none) (hready : s.store.condition = .ready) : s.store.Usable s.context :=
  ⟨hready, congrArg Store.Context.canceled (context_eq hs)⟩

theorem onward_update (hs : s.lease = none) (st : Store) : Onward s { s.spend with store := st } :=
  ⟨congrArg State.lease (spend_eq hs) |>.trans hs, rfl⟩

theorem inert_onward (s : State) (P : Store → Prop) : Inert fun s' => Onward s s' ∧ P s'.store where
  spend h := by
    rw [spend_eq h.1.lease]
    exact h
  files _ h := ⟨⟨h.1.lease, h.1.now⟩, h.2⟩
  log _ h := ⟨⟨h.1.lease, h.1.now⟩, h.2⟩

theorem gives_queueStage {sample : Int} {stage : Stage} (hs : s.lease = none) (hready : s.store.condition = .ready)
    (hsample : s.store.hasSample sample = true) :
    Gives (queueStage sample stage) s fun _ s' => Onward s s' ∧ s'.store = s.store.enqueue sample stage s.now := by
  obtain ⟨j, hinsert⟩ : ∃ j, s.store.insertJob s.context ⟨sample, stage.name, Status.queued.name, 0, s.now⟩ =
      .ok (j, s.store.enqueue sample stage s.now) := by
    rw [context_eq hs]
    exact Store.insertJob_queued hready hsample stage
  refine Gives.explain ((gives_update hinsert).bind fun _ s' h => ?_)
  obtain ⟨-, rfl⟩ := h
  exact gives_pure ⟨onward_update hs _, rfl⟩

end Onward

/-! ### Stages -/

/-- A store with one more artifact, the translation of a sample. -/
def translate (st : Store) (sample : Int) (python : Text) : Store :=
  { st with
    artifacts := ⟨st.artifacts.rows ++ [⟨st.artifacts.last + 1, sample, python, version.core, .transpiled, none,
      Time.reread Time.zero, none⟩], st.artifacts.last + 1⟩ }

/-- The store after a sample was compiled: its artifact, and the jobs that check it. -/
def compiled (w : Worker) (st : Store) (sample : Sample) (python : Text) (now : Instant) : Store :=
  let checked := (translate st sample.id python).enqueue sample.id .verify now
  if w.compiler.isSome && !sample.path.isEmpty then checked.enqueue sample.id .parity now else checked

namespace Worker
variable {w : Worker} {s : State} {sample : Sample}

theorem gives_translate (hs : s.lease = none) (hready : s.store.condition = .ready) {sample : Int}
    (hsample : s.store.hasSample sample = true) (python : Text) :
    Gives (update fun store ctx => do
      let (id, _, store) ← store.insertArtifact ctx sample python version.core Store.Verdict.transpiled.name Time.zero
      return (id, store)) s fun _ s' => Onward s s' ∧ s'.store = translate s.store sample python := by
  have hinsert := Store.insertArtifact_usable (usable hs hready) hsample python version.core Time.zero
  refine Ends.imp (gives_update (a := s.store.artifacts.last + 1) (t := translate s.store sample python) ?_)
    fun r s' h => ?_
  · simp only [hinsert]
    rfl
  · obtain ⟨a, hr, -, rfl⟩ := h
    exact ⟨a, hr, onward_update hs _, rfl⟩

theorem onward_transpile (hs : s.lease = none) (hready : s.store.condition = .ready)
    (hsample : s.store.hasSample sample.id = true) :
    Ends (w.transpile sample) s fun r s' => Onward s s' ∧ ((∃ e, r = .error e) ∧ s'.store = s.store ∨
      r = .ok () ∧ ∃ python, s'.store = compiled w s.store sample python s.now) := by
  refine (ends_outcome (P := fun _ s' => s' = s) rfl).bind (fun python s' h => ?_) fun e s' h => ?_
  · rw [h]
    refine ((inert_onward s (· = s.store)).writeBelow (w.pythonPath sample) python s ⟨⟨hs, rfl⟩, rfl⟩).bind
      (fun _ s₁ h₁ => ?_) fun e s' h' => ⟨h'.1, .inl ⟨⟨e, rfl⟩, h'.2⟩⟩
    obtain ⟨h₁, hstore₁⟩ := h₁
    -- from here on nothing fails
    refine (gives_translate h₁.lease (hstore₁ ▸ hready) (hstore₁ ▸ hsample) python).explain.bind fun _ s₂ h₂ => ?_
    have hstore₂ : s₂.store = translate s.store sample.id python := by rw [h₂.2, hstore₁]
    have h₂ := h₁.trans h₂.1
    refine (gives_queueStage h₂.lease (by rw [hstore₂]; exact hready) (by rw [hstore₂]; exact hsample)).bind
      fun _ s₃ h₃ => ?_
    have hstore₃ : s₃.store = (translate s.store sample.id python).enqueue sample.id .verify s.now := by
      rw [h₃.2, hstore₂, h₂.now]
    have h₃ := h₂.trans h₃.1
    unfold compiled
    split
    · refine (gives_queueStage h₃.lease (by rw [hstore₃]; exact hready) (by rw [hstore₃]; exact hsample)).bind
        fun _ s₄ h₄ => ends_pure ⟨h₃.trans h₄.1, .inr ⟨rfl, python, ?_⟩⟩
      rw [h₄.2, hstore₃, h₃.now]
    · exact ends_pure ⟨h₃, .inr ⟨rfl, python, hstore₃⟩⟩
  · rw [h]
    exact ⟨⟨hs, rfl⟩, .inl ⟨⟨e, rfl⟩, rfl⟩⟩

/-- What all stages but the first keep: the samples, the jobs, and of each artifact its sample. -/
def outline (st : Store) : Store.Table Sample × Store.Table Job × Store.Condition × List Int :=
  (st.samples, st.jobs, st.condition, st.artifacts.rows.map Artifact.sample)

/-- What doing a job comes to, before it is finished: a sample is compiled, or the outline stays. -/
def Executed (w : Worker) (stage : Stage) (sample : Sample) (now : Instant) (st : Store) (r : Except Fault Unit)
    (st' : Store) : Prop :=
  outline st' = outline st ∧ (r = .ok () → stage ≠ .transpile) ∨
    stage = .transpile ∧ r = .ok () ∧ ∃ python, st' = compiled w st sample python now

theorem onward_execute (hs : s.lease = none) (hready : s.store.condition = .ready) (stage : Stage)
    (hsample : s.store.hasSample sample.id = true) :
    Ends (w.execute stage sample) s fun r s' => Onward s s' ∧ Executed w stage sample s.now s.store r s'.store := by
  have hinert := inert_onward s (outline · = outline s.store)
  have hkept : ∀ {stage : Stage}, stage ≠ .transpile →
      Maintains (fun s' => Onward s s' ∧ outline s'.store = outline s.store) (w.execute stage sample) →
      Ends (w.execute stage sample) s fun r s' => Onward s s' ∧ Executed w stage sample s.now s.store r s'.store :=
    fun hne h => (h s ⟨⟨hs, rfl⟩, rfl⟩).imp fun r s' h => ⟨h.1, .inl ⟨h.2, fun _ => hne⟩⟩
  cases stage with
  | transpile =>
    refine (onward_transpile hs hready hsample).imp fun r s' h => ⟨h.1, ?_⟩
    rcases h.2 with ⟨⟨e, rfl⟩, hstore⟩ | ⟨rfl, hpython⟩
    · exact .inl ⟨congrArg outline hstore, nofun⟩
    · exact .inr ⟨rfl, rfl, hpython⟩
  | verify =>
    refine hkept nofun (hinert.composes.verify fun _ _ _ => hinert.update fun s' u st h hok => ?_)
    refine ⟨⟨h.1.lease, h.1.now⟩, Eq.trans ?_ h.2⟩
    simp only [bind_eq_ok, pure_eq_ok] at hok
    obtain ⟨_, hok, hst⟩ := hok
    obtain ⟨-, rfl⟩ := Prod.mk.inj hst
    obtain ⟨rows, rfl, hrows⟩ := Store.updateArtifact_eq_ok hok
    simp only [outline, hrows]
  | parity => exact hkept nofun hinert.composes.parity

/-- What a look at a job comes to: its sample is not to be had, or the job was done on it. -/
inductive Looked (w : Worker) (job : Job) (now : Instant) (st : Store) : Finding → Store → Prop where
  | lost (message : Text) (f : Fault) : Looked w job now st (.lost message f) st
  | done {sample : Sample} {result : Except Fault Unit} {st' : Store} (hsample : sample ∈ st.samples.rows)
      (hid : sample.id = job.sample) (h : Executed w job.stage sample now st result st') :
      Looked w job now st (.done sample result) st'

theorem Executed.mid {stage : Stage} {now : Instant} {st st' : Store} {r : Except Fault Unit}
    (h : Executed w stage sample now st r st') (hready : st.condition = .ready) :
    st'.condition = .ready ∧ ∀ j ∈ st.jobs.rows, j ∈ st'.jobs.rows := by
  rcases h with ⟨houtline, -⟩ | ⟨-, -, python, rfl⟩
  · simp only [outline, Prod.mk.injEq] at houtline
    obtain ⟨-, hjobs, hcondition, -⟩ := houtline
    exact ⟨hcondition.trans hready, fun j hj => hjobs ▸ hj⟩
  · unfold compiled
    split
    · exact ⟨hready, fun j hj => List.mem_append_left _ (List.mem_append_left _ hj)⟩
    · exact ⟨hready, fun j hj => List.mem_append_left _ hj⟩

/-- A look at a job leaves the store ready, and the job in it. -/
theorem Looked.mid {job : Job} {now : Instant} {st st' : Store} {finding : Finding}
    (h : Looked w job now st finding st') (hready : st.condition = .ready) :
    st'.condition = .ready ∧ ∀ j ∈ st.jobs.rows, j ∈ st'.jobs.rows := by
  cases h with
  | lost => exact ⟨hready, fun _ hj => hj⟩
  | done _ _ h => exact h.mid hready

theorem onward_look (hs : s.lease = none) (hready : s.store.condition = .ready) (job : Job) :
    Gives (w.look job) s fun finding s' => Onward s s' ∧ Looked w job s.now s.store finding s'.store := by
  refine (ends_getSample job.sample s).attempt.bind fun found s' h => ?_
  rw [spend_eq hs] at h
  obtain ⟨rfl, hfound⟩ := h
  rcases found with f | _ | sample
  · exact gives_pure ⟨⟨hs, rfl⟩, .lost _ _⟩
  · exact gives_pure ⟨⟨hs, rfl⟩, .lost _ _⟩
  · obtain ⟨hsample, hid⟩ := hfound sample rfl
    refine (onward_execute hs hready job.stage (Store.hasSample_iff.mpr ⟨sample, hsample, rfl⟩)).attempt.bind
      fun result s₁ h₁ => ?_
    exact gives_pure ⟨h₁.1, .done hsample hid h₁.2⟩

/-! ### Closing -/

/-- What becomes of the row of a job by what was found out about it. -/
def Finding.closing (now : Instant) : Finding → Job → Job
  | lost message _ => Job.finished now .failed Fault.Code.database.name message
  | done _ (.error f) => Job.finished now .failed f.code.name f.message
  | done _ (.ok ()) => Job.finished now .ok [] []

/-- A job ends badly if something is wrong with it, and well if not. -/
theorem Finding.closing_eq (finding : Finding) (now : Instant) : ∃ code message,
    finding.closing now = Job.finished now (if finding.fault.isNone then .ok else .failed) code message := by
  rcases finding with ⟨message, f⟩ | ⟨sample, f | ⟨⟨⟩⟩⟩ <;> exact ⟨_, _, rfl⟩

section Closing
variable {job : Job} (hs : s.canceled = false) (hready : s.store.condition = .ready)
  (hid : ∃ j ∈ s.store.jobs.rows, j.id = job.id)
include hs hready hid

theorem gives_finish (status : Status) (code message : Text) :
    Gives (finish job.id status.name code message) s fun _ s' =>
      s'.store = s.store.changeJobs (·.id == job.id) (Job.finished s.now status code message) := by
  have husable : s.store.Usable s.context := ⟨hready, hs⟩
  have hfinish := Store.finishJob_usable husable hid status code message
  refine Ends.imp (gives_update (a := ())
    (t := s.store.changeJobs (·.id == job.id) (Job.finished s.now status code message)) ?_) fun r s' h => ?_
  · simp only [hfinish]
    rfl
  · obtain ⟨a, hr, -, rfl⟩ := h
    exact ⟨a, hr, rfl⟩

theorem gives_fail (code : Fault.Code) (message : Text) : Gives (fail job code message) s fun _ s' =>
    s'.store = s.store.changeJobs (·.id == job.id) (Job.finished s.now .failed code.name message) :=
  (gives_finish hs hready hid .failed _ _).ends.attempt.bind fun _ _ h => gives_pure h

/-- When the work was not called off a job is closed as the finding says. -/
theorem gives_close (finding : Finding) : Gives (close job finding) s fun f s' =>
    f = finding.fault ∧ s'.store = s.store.changeJobs (·.id == job.id) (finding.closing s.now) := by
  rcases finding with ⟨message, f⟩ | ⟨sample, f | ⟨⟨⟩⟩⟩
  · exact (gives_fail hs hready hid _ _).bind fun _ _ h => gives_pure ⟨rfl, h⟩
  · refine (gives_note _).bind fun _ s₁ h₁ => ?_
    obtain ⟨log, rfl⟩ := h₁
    exact (gives_fail (s := { s with log }) hs hready hid _ _).bind fun _ _ h => gives_pure ⟨rfl, h⟩
  · refine (Ends.attempt (gives_finish hs hready hid .ok [] []).explain).bind fun r s₁ h₁ => ?_
    obtain ⟨_, rfl, hstore⟩ := h₁
    refine (gives_note _).bind fun _ s₂ h₂ => ?_
    obtain ⟨log, rfl⟩ := h₂
    exact gives_pure ⟨rfl, hstore⟩

end Closing

/-! ### Claiming -/

/-- A store in which the worker has claimed a job. -/
def handOut (w : Worker) (now : Instant) (st : Store) (j : Job) : Store :=
  st.changeJobs (·.id == j.id) fun _ => j.claimed now w.id

section Claiming
variable {stage : Text} {j : Job}

theorem read_claimed (h : j.attempt + 1 < Store.mostAttempts) (now : Instant) (id : Text) :
    (j.claimed now id).read = .ok { j.claimed now id with availableAt := Time.reread j.availableAt } :=
  if_pos (by simp only [Job.claimed]; omega)

theorem read_claimed_error (h : Store.mostAttempts ≤ j.attempt + 1) (now : Instant) (id : Text) :
    ∃ e, (j.claimed now id).read = .error e := ⟨_, if_neg (by simp only [Job.claimed]; omega)⟩

theorem ends_claim (husable : s.store.Usable s.context) (hj : s.store.next? s.now stage = some j) :
    Ends (claim stage w.id) s fun r s' => s' = { s.spend with store := w.handOut s.now s.store j } ∧
      r = (some <$> (j.claimed s.now w.id).read.mapError (Fault.behind "claim work")) := by
  have hclaim : s.store.claimJob s.context stage w.id =
      .ok (some (j.claimed s.now w.id), w.handOut s.now s.store j) := by
    have hnext : Store.foremost? (s.store.jobs.rows.filter (Job.awaits s.context.now stage)) = some j := hj
    rw [Store.claimJob_eq, husable.access, hnext]
    rfl
  refine (gives_update hclaim).bind fun _ s' h => ?_
  obtain ⟨rfl, rfl⟩ := h
  dsimp only
  cases (j.claimed s.now w.id).read.mapError (Fault.behind "claim work") <;> exact ⟨rfl, rfl⟩

/-- Where no job is next, nothing is done. -/
theorem gives_idle (husable : s.store.Usable s.context) (hnext : s.store.next? s.now stage = none) :
    Gives (w.process stage) s fun p s' => p = .idle none ∧ s' = s.spend := by
  have hclaim : s.store.claimJob s.context stage w.id = .ok (none, s.store) := by
    have hforemost : Store.foremost? (s.store.jobs.rows.filter (Job.awaits s.context.now stage)) = none := hnext
    rw [Store.claimJob_eq, husable.access, hforemost]
    rfl
  rw [process_eq]
  refine (Ends.attempt (P := fun r s' => r = .ok none ∧ s' = s.spend)
    ((gives_update hclaim).bind fun _ s' h => ?_)).bind fun r s' h => ?_
  · obtain ⟨rfl, rfl⟩ := h
    exact ends_pure ⟨rfl, rfl⟩
  · obtain ⟨rfl, rfl⟩ := h
    exact gives_pure ⟨rfl, rfl⟩

end Claiming

/-! ### Jobs -/

/-- What became of a claimed job: it was done and ended well, or it ended badly with an error. -/
def Performed (w : Worker) (job : Job) (sample : Sample) (now : Instant) (st : Store) (f : Option Fault)
    (st' : Store) : Prop :=
  ∃ result mid, Executed w job.stage sample now st result mid ∧
    (f = none ∧ result = .ok () ∧ st' = mid.changeJobs (·.id == job.id) (Job.finished now .ok [] []) ∨
      f.isSome = true ∧ (∃ e, result = .error e) ∧
        ∃ code message, st' = mid.changeJobs (·.id == job.id) (Job.finished now .failed code message))

/-- What became of a job that was queued: its sample was not there, or it was done. -/
def Handled (w : Worker) (j : Job) (now : Instant) (st : Store) (f : Option Fault) (st' : Store) : Prop :=
  f.isSome = true ∧ (∃ code message,
      st' = (w.handOut now st j).changeJobs (·.id == j.id) (Job.finished now .failed code message)) ∨
    ∃ sample ∈ st.samples.rows, sample.id = j.sample ∧ Performed w j sample now (w.handOut now st j) f st'

/-- A job that was claimed is handled once it was looked at and closed. -/
theorem Looked.handled {j job : Job} {now : Instant} {st st' : Store} {finding : Finding}
    (h : Looked w job now (w.handOut now st j) finding st') (hid : job.id = j.id) (hstage : job.stage = j.stage)
    (hsample : job.sample = j.sample) :
    Handled w j now st finding.fault (st'.changeJobs (·.id == job.id) (finding.closing now)) := by
  rw [hid]
  cases h with
  | lost message f => exact .inl ⟨rfl, _, _, rfl⟩
  | @done sample result _ hmem hof h =>
    refine .inr ⟨sample, hmem, hof.trans hsample, result, st', hstage ▸ h, ?_⟩
    rcases result with f | ⟨⟨⟩⟩
    · exact .inr ⟨rfl, ⟨f, rfl⟩, _, _, rfl⟩
    · exact .inl ⟨rfl, rfl, rfl⟩

/-- The job that is next is handled, or it was handed out too often to be read. -/
theorem onward_process {stage : Text} {j : Job} (hs : s.lease = none) (hready : s.store.condition = .ready)
    (hn : s.store.jobs.Numbered Job.id) (hnext : s.store.next? s.now stage = some j) :
    Gives (w.process stage) s fun p s' => Onward s s' ∧
      ((∃ f, p = .idle (some f)) ∧ Store.mostAttempts ≤ j.attempt + 1 ∨
        ∃ f, p = .worked f ∧ Handled w j s.now s.store f s'.store) := by
  rw [process_eq]
  refine (ends_claim (usable hs hready) hnext).attempt.bind fun r s₁ h₁ => ?_
  rw [spend_eq hs] at h₁
  obtain ⟨rfl, rfl⟩ := h₁
  -- a job that was handed out too often is claimed, but cannot be read back
  rcases Int.lt_or_le (j.attempt + 1) Store.mostAttempts with hread | hread
  · rw [read_claimed hread]
    refine (onward_look (s := { s with store := w.handOut s.now s.store j }) hs hready _).bind fun finding s₂ h₂ => ?_
    obtain ⟨h₂, hlooked⟩ := h₂
    obtain ⟨hready₂, hrows⟩ := hlooked.mid hready
    have hmem : ∃ k ∈ s₂.store.jobs.rows, k.id = j.id :=
      ⟨_, hrows _ (Store.mem_changeJobs.mpr ⟨j, (Store.mem_of_next? hn hnext).1, if_pos (beq_self_eq_true _)⟩), rfl⟩
    have hcanceled : s₂.canceled = false := (usable h₂.lease hready₂).2
    have hinert := inert_onward s fun _ => True
    have hkept : ∀ job, Maintains (fun s' => Onward s s' ∧ True) (close job finding) := fun job =>
      hinert.composes.close (fun _ _ _ _ => hinert.update fun _ _ _ h _ => ⟨⟨h.1.lease, h.1.now⟩, trivial⟩) job finding
    refine ((gives_close hcanceled hready₂ hmem finding).and (hkept _ s₂ ⟨⟨h₂.lease, h₂.now⟩, trivial⟩)).bind
      fun f s₃ h₃ => ?_
    obtain ⟨⟨rfl, hstore⟩, honward, -⟩ := h₃
    refine gives_pure ⟨honward, .inr ⟨_, rfl, ?_⟩⟩
    rw [hstore, h₂.now]
    exact hlooked.handled rfl rfl rfl
  · obtain ⟨e, he⟩ := read_claimed_error hread s.now w.id
    rw [he]
    exact gives_pure ⟨⟨hs, rfl⟩, .inl ⟨⟨_, rfl⟩, hread⟩⟩

end Worker

end Anadil.Pipeline
