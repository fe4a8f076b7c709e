import Anadil.Proofs.Files
import Anadil.Proofs.Pipeline.Endings

/-! # What actions write

Most actions write no file. A worker writes the Python of a sample; whatever comes of it, all other files stay as they
are. -/

namespace Anadil.Pipeline

open Store (Sample)
open Files (DifferOnly)

/-! ### Actions that write no file -/

section Saving
variable {α : Type}

theorem composes_files : Composes (Saves State.files) := composes_saves (fun _ => rfl) fun _ _ => rfl

theorem saves_files_update (f : Store → Store.Context → Except Fault (α × Store)) :
    Saves State.files (update f) := fun _ => ends_update (fun _ _ _ => rfl) fun _ _ => rfl

theorem saves_files_queueStage (sample : Int) (stage : Store.Stage) : Saves State.files (queueStage sample stage) :=
  ((saves_files_update _).bind fun _ => saves_pure _).explain _

theorem saves_files_queueExisting (samples : List Int) : Saves State.files (queueExisting samples) :=
  composes_files.queueExisting (fun sample => saves_files_queueStage sample .transpile) samples

end Saving

/-! ### Actions that write files -/

section Writing
variable {α : Type} {s : State} {fs : Files} {changed : Text → Prop}

theorem Saves.differ {w : Work α} (hw : Saves State.files w) (h : DifferOnly changed fs s.files) :
    Ends w s fun _ s' => DifferOnly changed fs s'.files := (hw s).imp fun _ _ heq => heq ▸ h

/-- A text that was written is stored, and no other file is changed, whatever comes of it. -/
theorem ends_writeBelow (hfs : fs.IsAnchored) (h : DifferOnly changed fs s.files) {path : Text}
    (hpath : changed (fs.key path)) (text : Text) :
    Ends (writeBelow path text) s fun r s' => DifferOnly changed fs s'.files ∧
      ((∃ u, r = .ok u) → fs.key path ≠ Files.nullDevice → s'.files.Stores path text) := by
  refine (Ends.explain (P := fun _ s' => DifferOnly changed fs s'.files) (ends_updateFiles (fun fs' hok => ?_)
    fun e _ => h)).bind (fun _ s₁ h₁ => Ends.explain (ends_updateFiles (fun fs' hok => ?_) fun e _ => ?_))
    fun e s' hs' => ⟨hs', fun ⟨u, hu⟩ => by cases hu⟩
  · exact h.trans ((Files.differ_makeDirectory (h.anchored hfs) hok).imp fun _ hk => hk.elim)
  · have hanchored := h₁.anchored hfs
    refine ⟨h₁.trans ((Files.differ_write hanchored hok).imp ?_), fun _ hnull => ?_⟩
    · rintro k rfl
      rwa [h₁.key]
    · exact Files.stores_write hanchored hok (by rwa [h₁.key])
  · exact ⟨h₁, fun ⟨u, hu⟩ => by cases hu⟩

namespace Worker
variable {w : Worker}

theorem differ_transpile (hfs : fs.IsAnchored) (h : DifferOnly changed fs s.files) {sample : Sample}
    (hpath : changed (fs.key (w.pythonPath sample))) :
    Ends (w.transpile sample) s fun _ s' => DifferOnly changed fs s'.files := by
  refine ((composes_files.outcome _).differ h).bind (fun python s₁ h₁ => ?_) fun _ _ h' => h'
  refine (ends_writeBelow hfs h₁ hpath python).bind (fun _ s₂ h₂ => Saves.differ ?_ h₂.1) fun _ _ h' => h'.1
  refine ((saves_files_update _).explain _).bind fun _ => (saves_files_queueStage _ _).bind fun _ => ?_
  split
  · exact (saves_files_queueStage _ _).bind fun _ => saves_pure _
  · exact saves_pure _

theorem differ_execute (hfs : fs.IsAnchored) (h : DifferOnly changed fs s.files) {sample : Sample}
    (hpath : changed (fs.key (w.pythonPath sample))) (stage : Store.Stage) :
    Ends (w.execute stage sample) s fun _ s' => DifferOnly changed fs s'.files := by
  cases stage with
  | transpile => exact differ_transpile hfs h hpath
  | verify => exact Saves.differ (composes_files.verify fun _ _ _ => saves_files_update _) h
  | parity => exact Saves.differ composes_files.parity h

/-- A worker writes at most the Python of samples that are there. -/
theorem differ_process (hfs : s.files.IsAnchored) (stage : Text) :
    Ends (w.process stage) s fun _ s' =>
      DifferOnly (fun k => ∃ a ∈ s.store.samples.rows, k = s.files.key (w.pythonPath a)) s.files s'.files := by
  have hclaim := (composes_files.claim (saves_files_update _) s).and (spares_claim stage w.id s)
  refine ends_process_of (P := fun s' => s'.files = s.files ∧ besideJobs s'.store = besideJobs s.store) hclaim
    (fun h => h) (fun h => h.1 ▸ .refl _) (fun {s₁ stage sample} h hsample => ?_) fun job finding s₁ h => ?_
  · have hsamples : s₁.store.samples = s.store.samples := congrArg (·.2.1) h.2
    exact differ_execute hfs (h.1 ▸ .refl _) ⟨sample, hsamples ▸ hsample, rfl⟩ stage
  · exact Saves.differ (composes_files.close (fun _ _ _ _ => saves_files_update _) job finding) h

end Worker

/-- Where a source that is taken into a batch is stored, seen from the data directory. -/
def Submission.path (x : Submission) (batch : Int) : Text :=
  samplePath batch (standardFilename x.filename (Store.digest x.source))

end Writing

end Anadil.Pipeline
