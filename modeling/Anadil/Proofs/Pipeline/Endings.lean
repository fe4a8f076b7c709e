import Anadil.Pipeline.Ingest
import Anadil.Pipeline.Worker
import Anadil.Proofs.Store.Rows

/-! # How actions end

Rules for actions that may be called off at any point. `Ends` says what holds of the result of an action and of
the state behind it, whether it gave a value or a fault. What holds before an action and behind it `Maintains` says,
and of most actions one needs to know no more than the parts they are made of (`Composes`). -/

namespace Anadil.Pipeline

/-- What holds of the result of an action and of the state behind it. -/
def Ends {α : Type} (w : Work α) (s : State) (Q : Except Fault α → State → Prop) : Prop :=
  match w s with
  | .ok a s' => Q (.ok a) s'
  | .error e s' => Q (.error e) s'

/-- The action gives a value. What holds of it and of the state behind it. -/
def Gives {α : Type} (w : Work α) (s : State) (Q : α → State → Prop) : Prop :=
  Ends w s fun r s' => ∃ a, r = .ok a ∧ Q a s'

section Rules
variable {α β : Type} {w : Work α} {k : α → Work β} {s : State} {P : Except Fault α → State → Prop}
  {Q : Except Fault β → State → Prop} {R : α → State → Prop}

theorem Ends.cases (h : Ends w s P) :
    (∃ a s', w s = .ok a s' ∧ P (.ok a) s') ∨ ∃ e s', w s = .error e s' ∧ P (.error e) s' := by
  unfold Ends at h
  cases hw : w s with
  | ok a s' =>
    rw [hw] at h
    exact .inl ⟨a, s', rfl, h⟩
  | error e s' =>
    rw [hw] at h
    exact .inr ⟨e, s', rfl, h⟩

theorem ends_true (w : Work α) (s : State) : Ends w s fun _ _ => True := by
  unfold Ends
  cases w s <;> trivial

theorem Ends.imp {P' : Except Fault α → State → Prop} (h : Ends w s P) (himp : ∀ r s', P r s' → P' r s') :
    Ends w s P' := by
  rcases h.cases with ⟨a, s', hw, h⟩ | ⟨e, s', hw, h⟩ <;> simpa only [Ends, hw] using himp _ _ h

theorem Ends.and {P' : Except Fault α → State → Prop} (h : Ends w s P) (h' : Ends w s P') :
    Ends w s fun r s' => P r s' ∧ P' r s' := by
  rcases h.cases with ⟨a, s', hw, h⟩ | ⟨e, s', hw, h⟩ <;> simp only [Ends, hw] at h' ⊢ <;> exact ⟨h, h'⟩

/-- One action behind another: the second starts where the first gave a value, and a fault ends both. -/
theorem Ends.bind (h : Ends w s P) (hok : ∀ a s', P (.ok a) s' → Ends (k a) s' Q)
    (herror : ∀ e s', P (.error e) s' → Q (.error e) s') : Ends (w >>= k) s Q := by
  rcases h.cases with ⟨a, s', hw, h⟩ | ⟨e, s', hw, h⟩
  · simpa only [Ends, Bind.bind, EStateM.bind, hw] using hok a s' h
  · simpa only [Ends, Bind.bind, EStateM.bind, hw] using herror e s' h

/-- Behind an action that gives a value there are no faults to look after. -/
theorem Gives.bind (h : Gives w s R) (hk : ∀ a s', R a s' → Ends (k a) s' Q) : Ends (w >>= k) s Q := by
  refine Ends.bind h (fun a s' ha => ?_) fun e s' he => ?_
  · obtain ⟨_, ha, hR⟩ := ha
    exact hk a s' (Except.ok.inj ha ▸ hR)
  · obtain ⟨_, he, -⟩ := he
    cases he

theorem Gives.and (h : Gives w s R) (h' : Ends w s P) : Gives w s fun a s' => R a s' ∧ P (.ok a) s' :=
  (Ends.and h h').imp fun _ _ ⟨⟨a, ha, hR⟩, hP⟩ => ⟨a, ha, hR, ha ▸ hP⟩

theorem Gives.run (h : Gives w s R) : ∃ a s', w s = .ok a s' ∧ R a s' := by
  rcases h.cases with ⟨_, s', hw, a, ha, hR⟩ | ⟨_, _, _, _, he, _⟩
  · exact ⟨a, s', Except.ok.inj ha ▸ hw, hR⟩
  · cases he

theorem Gives.ends {P : State → Prop} (h : Gives w s fun _ => P) : Ends w s fun _ => P :=
  Ends.imp h fun _ _ ⟨_, _, h⟩ => h

/-- An attempt gives what came of the action. -/
theorem Ends.attempt (h : Ends w s P) : Gives (attempt w) s P := by
  rcases h.cases with ⟨a, s', hw, h⟩ | ⟨e, s', hw, h⟩ <;> simpa [Gives, Ends, Pipeline.attempt, hw] using h

theorem Ends.explain {f : Fault → Fault} (h : Ends w s fun r => P (r.mapError f)) : Ends (explain f w) s P := by
  rcases h.cases with ⟨a, s', hw, h⟩ | ⟨e, s', hw, h⟩ <;> simp only [Ends, Pipeline.explain, hw] <;> exact h

theorem Gives.explain {f : Fault → Fault} (h : Gives w s R) : Gives (explain f w) s R :=
  Ends.explain (Ends.imp h fun _ _ ⟨a, ha, hR⟩ => ⟨a, by rw [ha]; rfl, hR⟩)

theorem ends_pure {a : α} (h : P (.ok a) s) : Ends (pure a) s P := h

theorem gives_pure {a : α} (h : R a s) : Gives (pure a) s R := ⟨a, rfl, h⟩

theorem ends_throw {e : Fault} (h : P (.error e) s) : Ends (throw e) s P := h

theorem ends_outcome {r : Except Fault α} (h : P r s) : Ends (outcome r) s P := by
  cases r <;> exact h

theorem ends_ask {f : Store → Store.Context → Except Fault α} (h : P (f s.store s.context) s.spend) :
    Ends (ask f) s P := by
  unfold Ends ask
  cases hf : f s.store s.context <;> rwa [hf] at h

theorem ends_update {f : Store → Store.Context → Except Fault (α × Store)}
    (hok : ∀ a st, f s.store s.context = .ok (a, st) → P (.ok a) { s.spend with store := st })
    (herror : ∀ e, f s.store s.context = .error e → P (.error e) s.spend) : Ends (update f) s P := by
  unfold Ends update
  cases hf : f s.store s.context with
  | ok r => exact hok r.1 r.2 hf
  | error e => exact herror e hf

theorem gives_update {f : Store → Store.Context → Except Fault (α × Store)} {a : α} {t : Store}
    (hf : f s.store s.context = .ok (a, t)) :
    Gives (update f) s fun a' s' => a' = a ∧ s' = { s.spend with store := t } := by
  unfold Gives Ends update
  rw [hf]
  exact ⟨a, rfl, rfl, rfl⟩

theorem ends_updateFiles {f : Files → Except Fault Files} {P : Except Fault Unit → State → Prop}
    (hok : ∀ fs, f s.files = .ok fs → P (.ok ()) { s with files := fs })
    (herror : ∀ e, f s.files = .error e → P (.error e) s) : Ends (updateFiles f) s P := by
  unfold Ends updateFiles
  cases hf : f s.files with
  | ok fs => exact hok fs hf
  | error e => exact herror e hf

theorem gives_note (r : Log.Record) : Gives (note r) s fun _ s' => ∃ log, s' = { s with log } := ⟨(), rfl, _, rfl⟩

/-- Running a tool is a use, and at most the log tells of it. -/
theorem runTool_eq (traced : Bool) (t : Tool) (args : List Text) (input : Text) (s : State) :
    runTool traced t args input s = .ok (t.run s.canceled args input) { s.spend with
      log := if traced then s.log ++ [(t.run s.canceled args input).record t.command args] else s.log } := by
  cases traced <;> rfl

theorem gives_runTool {R : Tool.Report → State → Prop} {traced : Bool} {t : Tool} {args : List Text} {input : Text}
    (h : ∀ log, R (t.run s.canceled args input) { s.spend with log }) : Gives (runTool traced t args input) s R := by
  unfold Gives Ends
  rw [runTool_eq]
  exact ⟨_, rfl, h _⟩

theorem Ends.of_ok {a : α} {s' : State} (h : Ends w s P) (hw : w s = .ok a s') : P (.ok a) s' := by
  unfold Ends at h
  rwa [hw] at h

end Rules

/-! ### What a worker does with a job -/

namespace Worker
open Store (Job Sample)

/-- Puts an end to a job. -/
def finish (id : Int) (status code message : Text) : Work Unit :=
  update fun store ctx => do return ((), ← store.finishJob ctx id status code message)

/-- What there is to say of a claimed job before it is finished. -/
inductive Finding where
  /-- Its sample could not be had. -/
  | lost (message : Text) (fault : Fault)
  /-- It was done on its sample. -/
  | done (sample : Sample) (result : Except Fault Unit)

/-- What goes wrong with the job. -/
def Finding.fault : Finding → Option Fault
  | lost _ f => some f
  | done _ (.error f) => some f
  | done _ (.ok ()) => none

/-- Finds the sample of a job and does what its stage asks. -/
def look (w : Worker) (job : Job) : Work Finding := do
  match ← attempt (ask fun store ctx => store.getSample ctx job.sample) with
  | .error f => return .lost ("get sample: " ++ f.inline) (f.behind "get sample")
  | .ok none => return .lost "sample not found" (.plain ("sample " ++ Text.integer job.sample ++ " not found"))
  | .ok (some sample) => return .done sample (← attempt (w.execute job.stage sample))

/-- What a worker does with a job once it has found something out. -/
def close (job : Job) : Finding → Work (Option Fault)
  | .lost message f => do
    fail job .database message
    return some f
  | .done s result => do
    let about : List (Text × Text) :=
      [("job", Text.integer job.id), ("stage", job.stage.name), ("sample", s.name)]
    match result with
    | .error f =>
      note (Log.info "job failed" (about ++ [(("error" : Text), f.inline)]))
      fail job f.code f.message
      return some f
    | .ok () =>
      match ← attempt (succeed job) with
      | .error f => return some f
      | .ok () =>
        note (Log.debug "job done" about)
        return none

/-- What is done behind a claim. -/
def attend (w : Worker) : Except Fault (Option Job) → Work Progress
  | .error f => return .idle (some (f.behind "claim job"))
  | .ok none => return .idle none
  | .ok (some job) => return .worked (← close job (← w.look job))

/-- A job is claimed, looked at and closed. -/
theorem process_eq (w : Worker) (stage : Text) : w.process stage = attempt (claim stage w.id) >>= w.attend := by
  unfold process
  congr 1
  funext r
  rcases r with f | _ | job
  · rfl
  · rfl
  · simp only [attend, look, bind_assoc]
    congr 1
    funext found
    rcases found with f | _ | sample
    · simp [close]
    · simp [close]
    · simp only [perform, bind_assoc, pure_bind]
      rfl

end Worker

/-! ### Properties that go along with how actions are put together -/

/-- A property of actions that an action has if its parts have it, and that looking at the store, running
tools and writing to the log do not disturb. -/
structure Composes (C : {α : Type} → Work α → Prop) : Prop where
  pure : ∀ {α : Type} (a : α), C (Pure.pure a)
  throw : ∀ {α : Type} (e : Fault), C (throw e : Work α)
  bind : ∀ {α β : Type} {w : Work α} {k : α → Work β}, C w → (∀ a, C (k a)) → C (w >>= k)
  attempt : ∀ {α : Type} {w : Work α}, C w → C (attempt w)
  explain : ∀ {α : Type} {w : Work α}, C w → ∀ f, C (explain f w)
  note : ∀ r, C (note r)
  ask : ∀ {α : Type} (f : Store → Store.Context → Except Fault α), C (ask f)
  runTool : ∀ traced t args input, C (runTool traced t args input)

namespace Composes
variable {C : {α : Type} → Work α → Prop} (h : Composes C) {α β : Type}
include h

theorem outcome (r : Except Fault α) : C (outcome r) := by
  cases r with
  | ok a => exact h.pure a
  | error e => exact h.throw e

theorem need (r : Tool.Report) : C (need r) := by
  unfold Pipeline.need
  split
  · exact h.throw _
  · exact h.pure _
  · exact h.pure _

theorem orThrow {w : Work α} (hw : C w) (c : Prop) [Decidable c] (e : Fault) :
    C (if c then (MonadExcept.throw e : Work β) >>= fun _ => w else w) := by
  split
  · exact h.bind (h.throw e) fun _ => hw
  · exact hw

theorem writeBelow (hfiles : ∀ f, C (updateFiles f)) (path text : Text) : C (writeBelow path text) :=
  h.bind (h.explain (hfiles _) _) fun _ => h.explain (hfiles _) _

/-- Taking a source in looks it up, writes it, enters it and queues it. -/
theorem ingest (hwrite : ∀ path text, C (Pipeline.writeBelow path text))
    (hinsert : ∀ sample : Store.Context → Store.Sample, C (update fun st ctx => st.insertSample ctx (sample ctx)))
    (hqueue : ∀ sample, C (queueStage sample .transpile)) (dataDir : Text) (batch : Int) (submission : Submission) :
    C (ingest dataDir batch submission) := by
  unfold Pipeline.ingest
  refine h.orThrow (h.bind (h.explain (h.ask _) _) fun known => ?_) _ _
  rcases known with _ | sample
  · exact h.bind (hwrite _ _) fun _ => h.bind (h.explain (hinsert _) _) fun _ => h.bind (hqueue _) fun _ => h.pure _
  · exact h.pure _

theorem queueExisting (hqueue : ∀ sample, C (queueStage sample .transpile)) (samples : List Int) :
    C (queueExisting samples) := by
  unfold Pipeline.queueExisting
  induction samples with
  | nil => exact h.pure _
  | cons sample samples ih =>
    refine h.bind (h.attempt (h.bind (hqueue sample) fun _ => h.pure _)) fun r => ?_
    rcases r with e | receipt
    · exact h.pure _
    · exact h.bind ih fun _ => h.pure _

theorem claim {stage worker : Text} (hclaim : C (update fun store ctx => store.claimJob ctx stage worker)) :
    C (Worker.claim stage worker) := by
  refine h.bind hclaim fun r => ?_
  rcases r with _ | row
  · exact h.pure _
  · dsimp only
    rw [map_eq_pure_bind]
    exact h.bind (h.outcome _) fun _ => h.pure _

variable {w : Worker} {sample : Store.Sample}

/-- Compiling writes the Python, enters an artifact and queues what checks it. -/
theorem transpile (hwrite : ∀ python, C (Pipeline.writeBelow (w.pythonPath sample) python))
    (hinsert : ∀ python, C (update fun store ctx => do
      let (id, _, store) ←
        store.insertArtifact ctx sample.id python version.core Store.Verdict.transpiled.name Time.zero
      return (id, store)))
    (hqueue : ∀ stage, C (queueStage sample.id stage)) : C (w.transpile sample) := by
  refine h.bind (h.outcome _) fun python => h.bind (hwrite python) fun _ => ?_
  refine h.bind (h.explain (hinsert python) _) fun _ => h.bind (hqueue .verify) fun _ => ?_
  split
  · exact h.bind (hqueue .parity) fun _ => h.pure _
  · exact h.pure _

theorem verify (hupdate : ∀ id verdict actual, C (update fun store ctx => do
      return ((), ← store.updateArtifact ctx id verdict actual))) : C (w.verify sample) := by
  unfold Worker.verify
  split
  · refine h.bind (h.explain (h.bind (h.ask _) fun found => ?_) _) fun artifact => ?_
    · split
      · exact h.pure _
      · exact h.throw _
    · refine h.bind (h.runTool _ _ _ _) fun report => h.bind (h.need report) fun result => ?_
      refine h.bind (h.explain (hupdate _ _ _) _) fun _ => h.bind (h.note _) fun _ => ?_
      split
      · exact h.throw _
      · exact h.pure _
  · exact h.throw _

theorem parity : C (w.parity sample) := by
  unfold Worker.parity
  split
  · refine h.orThrow ?_ _ _
    refine h.bind (h.outcome _) fun own => h.bind (h.runTool _ _ _ _) fun report => ?_
    refine h.bind (h.outcome _) fun difference => ?_
    split
    · exact h.throw _
    · exact h.pure _
  · exact h.throw _

theorem look {job : Store.Job} (hexecute : ∀ sample, C (w.execute job.stage sample)) : C (w.look job) := by
  refine h.bind (h.attempt (h.ask _)) fun found => ?_
  rcases found with f | _ | sample
  · exact h.pure _
  · exact h.pure _
  · exact h.bind (h.attempt (hexecute sample)) fun _ => h.pure _

theorem close (hfinish : ∀ id status code message, C (Worker.finish id status code message)) (job : Store.Job)
    (finding : Worker.Finding) : C (Worker.close job finding) := by
  have hfail : ∀ code message, C (Worker.fail job code message) := fun _ _ =>
    h.bind (h.attempt (hfinish _ _ _ _)) fun _ => h.pure _
  rcases finding with ⟨message, f⟩ | ⟨sample, f | ⟨⟨⟩⟩⟩
  · exact h.bind (hfail _ _) fun _ => h.pure _
  · exact h.bind (h.note _) fun _ => h.bind (hfail _ _) fun _ => h.pure _
  · refine h.bind (h.attempt (h.explain (hfinish _ _ _ _) _)) fun r => ?_
    rcases r with f | ⟨⟨⟩⟩
    · exact h.pure _
    · exact h.bind (h.note _) fun _ => h.pure _

/-- Processing claims a job, executes it and finishes it. -/
theorem process {stage : Text} (hclaim : C (update fun store ctx => store.claimJob ctx stage w.id))
    (hfinish : ∀ id status code message, C (Worker.finish id status code message))
    (hexecute : ∀ stage sample, C (w.execute stage sample)) : C (w.process stage) := by
  rw [Worker.process_eq]
  refine h.bind (h.attempt (h.claim hclaim)) fun r => ?_
  rcases r with f | _ | job
  · exact h.pure _
  · exact h.pure _
  · exact h.bind (h.look (hexecute _)) fun _ => h.bind (h.close hfinish job _) fun _ => h.pure _

end Composes

/-! ### What actions maintain -/

/-- Whatever comes of the action, what held before it holds behind it. -/
def Maintains {α : Type} (P : State → Prop) (w : Work α) : Prop := ∀ s, P s → Ends w s fun _ s' => P s'

/-- What is not disturbed by uses of the store and of tools, by files and by the log. -/
structure Inert (P : State → Prop) : Prop where
  spend : ∀ {s : State}, P s → P s.spend
  files : ∀ {s : State} files, P s → P { s with files }
  log : ∀ {s : State} log, P s → P { s with log }

section Maintaining
variable {α β : Type} {P : State → Prop} {w : Work α} {k : α → Work β}

theorem Maintains.bind (hw : Maintains P w) (hk : ∀ a, Maintains P (k a)) : Maintains P (w >>= k) := fun s hs =>
  (hw s hs).bind (fun a s' hs' => hk a s' hs') fun _ _ hs' => hs'

theorem Maintains.attempt (hw : Maintains P w) : Maintains P (attempt w) := fun s hs => (hw s hs).attempt.ends

theorem Maintains.explain (hw : Maintains P w) (f : Fault → Fault) : Maintains P (explain f w) :=
  fun s hs => (hw s hs).explain

/-- What is said of the store alone. -/
theorem inert_store (P : Store → Prop) : Inert fun s => P s.store := ⟨fun h => h, fun _ h => h, fun _ h => h⟩

namespace Inert
variable (h : Inert P)
include h

theorem composes : Composes (Maintains P) where
  pure _ := fun _ hs => hs
  throw _ := fun _ hs => hs
  bind := Maintains.bind
  attempt := Maintains.attempt
  explain := Maintains.explain
  note _ := fun _ hs => h.log _ hs
  ask _ := fun _ hs => ends_ask (h.spend hs)
  runTool _ _ _ _ := fun _ hs => (gives_runTool fun log => h.log log (h.spend hs)).ends

theorem update {f : Store → Store.Context → Except Fault (α × Store)}
    (hf : ∀ (s : State) a st, P s → f s.store s.context = .ok (a, st) → P { s with store := st }) :
    Maintains P (update f) := fun s hs =>
  ends_update (fun a st hok => h.spend (hf s a st hs hok)) fun _ _ => h.spend hs

theorem writeBelow (path text : Text) : Maintains P (writeBelow path text) :=
  h.composes.writeBelow (fun _ _ hs => ends_updateFiles (fun fs _ => h.files fs hs) fun _ _ => hs) path text

/-- A job is queued only for a sample that is there. -/
theorem queueStage {sample : Int} {stage : Store.Stage} (henqueue : ∀ s : State, P s →
      s.store.hasSample sample = true → P { s with store := s.store.enqueue sample stage s.now }) :
    Maintains P (queueStage sample stage) := by
  refine Maintains.explain (Maintains.bind (h.update fun s j st hs hok => ?_) fun _ _ hs => ends_pure hs) _
  obtain ⟨_, _, -, -, hin, -⟩ := Store.insertJob_eq_ok hok
  rw [Store.insertJob_enqueue hok]
  exact henqueue s hs hin

end Inert

end Maintaining

/-! ### Actions that save a part of the state -/

/-- Whatever comes of the action, the part of the state that is viewed stays as it is. -/
def Saves {α γ : Type} (view : State → γ) (w : Work α) : Prop :=
  ∀ s : State, Ends w s fun _ s' => view s' = view s

section Saving
variable {α β γ : Type} {v : State → γ} {w : Work α} {k : α → Work β}

theorem Saves.maintains (hw : Saves v w) (a : γ) : Maintains (fun s => v s = a) w :=
  fun s hs => (hw s).imp fun _ _ h => h.trans hs

theorem Saves.bind (hw : Saves v w) (hk : ∀ a, Saves v (k a)) : Saves v (w >>= k) := fun s =>
  (hw s).bind (fun a s' hview => (hk a s').imp fun _ _ h => h.trans hview) fun _ _ hview => hview

theorem Saves.attempt (hw : Saves v w) : Saves v (attempt w) := fun s => (hw s).attempt.ends

theorem Saves.explain (hw : Saves v w) (f : Fault → Fault) : Saves v (explain f w) := fun s => (hw s).explain

theorem saves_pure (a : α) : Saves v (pure a) := fun _ => ends_pure rfl

theorem saves_throw (e : Fault) : Saves v (throw e : Work α) := fun _ => ends_throw rfl

theorem composes_saves (hspend : ∀ s, v s.spend = v s) (hlog : ∀ s log, v { s with log } = v s) :
    Composes (Saves v) where
  pure := saves_pure
  throw := saves_throw
  bind := Saves.bind
  attempt := Saves.attempt
  explain := Saves.explain
  note _ s := hlog s _
  ask _ s := ends_ask (hspend s)
  runTool _ _ _ _ s := (gives_runTool fun log => (hlog _ log).trans (hspend s)).ends

end Saving

/-! ### Actions that spare a part of the store -/

/-- Whatever comes of the action, the part of the store that is viewed stays as it is. -/
def Spares {α γ : Type} (view : Store → γ) (w : Work α) : Prop :=
  ∀ s : State, Ends w s fun _ s' => view s'.store = view s.store

section Sparing
variable {α β γ : Type} {v : Store → γ} {w : Work α} {k : α → Work β}

theorem composes_spares (v : Store → γ) : Composes (Spares v) :=
  composes_saves (v := fun s => v s.store) (fun _ => rfl) fun _ _ => rfl

theorem spares_pure (a : α) : Spares v (pure a) := saves_pure a

theorem Spares.bind (hw : Spares v w) (hk : ∀ a, Spares v (k a)) : Spares v (w >>= k) := Saves.bind hw hk

theorem spares_update {f : Store → Store.Context → Except Fault (α × Store)}
    (h : ∀ st ctx a st', f st ctx = .ok (a, st') → v st' = v st) : Spares v (update f) :=
  fun s => ends_update (fun a st hf => h s.store _ a st hf) fun _ _ => rfl

theorem spares_writeBelow (path text : Text) : Spares v (writeBelow path text) :=
  (composes_spares v).writeBelow (fun _ _ => ends_updateFiles (fun _ _ => rfl) fun _ _ => rfl) path text

end Sparing

/-! ### Actions that change jobs only -/

/-- All of a store but its jobs. -/
def besideJobs (st : Store) :
    Store.Table Store.Batch × Store.Table Store.Sample × Store.Table Store.Artifact × Store.Condition :=
  (st.batches, st.samples, st.artifacts, st.condition)

theorem spares_queueStage (sample : Int) (stage : Store.Stage) : Spares besideJobs (queueStage sample stage) := by
  refine (composes_spares _).explain ((spares_update fun st ctx j st' h => ?_).bind fun _ => spares_pure _) _
  obtain ⟨_, _, -, -, -, -, rfl⟩ := Store.insertJob_eq_ok h
  rfl

theorem spares_queueExisting (samples : List Int) : Spares besideJobs (queueExisting samples) :=
  (composes_spares besideJobs).queueExisting (fun sample => spares_queueStage sample .transpile) samples

theorem spares_reset (stage : Text) : Spares besideJobs (update fun st ctx => st.resetFailed ctx stage) :=
  spares_update fun st ctx n st' h => by
    rw [Store.resetFailed_eq_ok h]
    rfl

namespace Worker

theorem spares_claimJob (stage worker : Text) :
    Spares besideJobs (update fun store ctx => store.claimJob ctx stage worker) := by
  refine spares_update fun st ctx r st' h => ?_
  rw [Store.claimJob_eq, Store.access_eq_ok, Except.ok.injEq] at h
  obtain ⟨-, h⟩ := h
  split at h
  · obtain ⟨-, rfl⟩ := Prod.mk.inj h
    rfl
  · obtain ⟨-, rfl⟩ := Prod.mk.inj h
    rfl

theorem spares_claim (stage worker : Text) : Spares besideJobs (claim stage worker) :=
  (composes_spares besideJobs).claim (spares_claimJob stage worker)

theorem spares_finish (id : Int) (status code message : Text) :
    Spares besideJobs (finish id status code message) := by
  refine spares_update fun st ctx u st' h => ?_
  simp only [bind_eq_ok, pure_eq_ok] at h
  obtain ⟨_, h, hst'⟩ := h
  obtain ⟨-, rfl⟩ := Prod.mk.inj hst'
  rw [Store.finishJob, Store.access_eq_ok] at h
  obtain ⟨-, h⟩ := h
  split at h
  · simp only [bind_eq_ok, pure_eq_ok] at h
    obtain ⟨_, -, rfl⟩ := h
    rfl
  · rw [pure_eq_ok.mp h]

/-! ### Processing by its parts -/

/-- Asking for a sample is a use, and what is found is there. -/
theorem ends_getSample (id : Int) (s : State) : Ends (ask fun store ctx => store.getSample ctx id) s fun r s' =>
    s' = s.spend ∧ ∀ sample, r = .ok (some sample) → sample ∈ s.store.samples.rows ∧ sample.id = id := by
  refine ends_ask ⟨rfl, fun sample hok => ?_⟩
  rw [Store.getSample, Store.access_eq_ok, Except.ok.injEq] at hok
  exact ⟨List.mem_of_find?_eq_some hok.2, by simpa using List.find?_some hok.2⟩

variable {w : Worker} {stage : Text} {s : State} {P Q : State → Prop}

/-- What holds behind a claim and turns into another thing when the job is done on a sample that is there. -/
theorem ends_process_of (hclaim : Ends (claim stage w.id) s fun _ s' => P s') (hspend : ∀ {s}, P s → P s.spend)
    (hkeep : ∀ {s}, P s → Q s) (hexecute : ∀ {s stage sample}, P s → sample ∈ s.store.samples.rows →
      Ends (w.execute stage sample) s fun _ s' => Q s')
    (hclose : ∀ job finding, Maintains Q (close job finding)) : Ends (w.process stage) s fun _ s' => Q s' := by
  rw [process_eq]
  refine hclaim.attempt.bind fun r s₁ h₁ => ?_
  rcases r with f | _ | job
  · exact ends_pure (hkeep h₁)
  · exact ends_pure (hkeep h₁)
  · have hlook : Ends (w.look job) s₁ fun _ s' => Q s' := by
      refine (ends_getSample job.sample s₁).attempt.bind fun found s₂ h₂ => ?_
      obtain ⟨rfl, hfound⟩ := h₂
      rcases found with f | _ | sample
      · exact ends_pure (hkeep (hspend h₁))
      · exact ends_pure (hkeep (hspend h₁))
      · exact (hexecute (hspend h₁) (hfound sample rfl).1).attempt.bind fun _ _ h => ends_pure h
    exact hlook.bind (fun finding s₂ h₂ => (hclose job finding s₂ h₂).bind (fun _ _ h => ends_pure h) fun _ _ h => h)
      fun _ _ h => h

end Worker

end Anadil.Pipeline
