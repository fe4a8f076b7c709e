import Anadil.Proofs.Pipeline.Balance
import Anadil.Proofs.Pipeline.Pace
import Anadil.Proofs.Pipeline.Writing

/-! # What is left of an ingest that fails

A source is looked up, written to a file, entered as a sample and queued, one after the other, and nothing is undone
when one of these fails. So what is left depends on how far an ingest came: a file without a sample if the batch is
unknown, and a sample without a job if the work is called off before the last use of the store. -/

namespace Anadil

/-- The files with a text written into a directory that is made if need be. -/
def Files.filed (fs : Files) (path text : Text) : Except Fault Files := do
  (← fs.makeDirectory (Path.dir path)).write path text

namespace Store

/-- A store with one more sample. -/
def enter (st : Store) (row : Sample) : Store :=
  { st with samples := ⟨st.samples.rows ++ [row], st.samples.last + 1⟩ }

theorem hasBatch_of_insertSample {st st' : Store} {ctx : Context} {sample : Sample} {id : Int}
    (h : st.insertSample ctx sample = .ok (id, st')) : st.Usable ctx ∧ sample.batch.all st.hasBatch = true := by
  rw [insertSample, access_eq_ok, usable_iff] at h
  simp only [bind_eq_ok, require_eq_ok] at h
  obtain ⟨husable, _, -, _, hbatch, -⟩ := h
  exact ⟨husable, hbatch⟩

theorem insertSample_usable {st : Store} {ctx : Context} (husable : st.Usable ctx) (sample : Sample)
    (hdigest : st.hasDigest sample.sha256 = false) (hbatch : sample.batch.all st.hasBatch = true) :
    st.insertSample ctx sample = .ok (st.samples.last + 1,
      st.enter { sample with id := st.samples.last + 1, createdAt := Time.reread sample.createdAt }) := by
  rw [insertSample, husable.access, hdigest, hbatch]
  rfl

end Store

namespace Pipeline

open Store (Sample Stage)
open Files (DifferOnly)

/-! ### What each part does -/

section Parts
variable {s : State}

theorem ends_lookUp (f : Fault → Fault) (digest : Text) :
    Ends (explain f (ask fun st ctx => st.getSampleByDigest ctx digest)) s fun r s' => s' = s.spend ∧
      ((∃ e, r = .error e) ∧ ¬s.store.Usable s.context ∨
        s.store.Usable s.context ∧ r = .ok (s.store.samples.rows.find? (·.sha256 == digest))) := by
  refine Ends.explain (ends_ask ⟨rfl, ?_⟩)
  by_cases husable : s.store.Usable s.context
  · rw [Store.getSampleByDigest, husable.access]
    exact .inr ⟨husable, rfl⟩
  · refine .inl ⟨?_, husable⟩
    cases hask : s.store.getSampleByDigest s.context digest with
    | error e => exact ⟨_, rfl⟩
    | ok found =>
      rw [Store.getSampleByDigest, Store.access_eq_ok, Store.usable_iff] at hask
      exact absurd hask.1 husable

theorem ends_filed (hfs : s.files.IsAnchored) (path text : Text) :
    Ends (writeBelow path text) s fun r s' => s' = { s with files := s'.files } ∧
      ((∃ e, r = .error e) ∧ (∃ e, s.files.filed path text = .error e) ∧
          DifferOnly (fun _ => False) s.files s'.files ∧ (s.files.volume = .memory → s'.files = s.files) ∨
        r = .ok () ∧ s.files.filed path text = .ok s'.files) := by
  refine (Ends.explain (P := fun r s' => s' = { s with files := s'.files } ∧ ((∃ e, r = .error e) ∧
    (∃ e, s.files.makeDirectory (Path.dir path) = .error e) ∧ s'.files = s.files ∨
      r = .ok () ∧ s.files.makeDirectory (Path.dir path) = .ok s'.files)) (ends_updateFiles
      (fun fs hok => ⟨rfl, .inr ⟨rfl, hok⟩⟩) fun e herror => ⟨rfl, .inl ⟨⟨_, rfl⟩, ⟨e, herror⟩, rfl⟩⟩)).bind
    (fun _ s₁ h₁ => ?_) fun e s' hs' => ?_
  · obtain ⟨hs₁, ⟨⟨e, he⟩, -⟩ | ⟨-, hmake⟩⟩ := h₁
    · cases he
    have hfiled : s.files.filed path text = s₁.files.write path text := by
      rw [Files.filed, hmake]
      rfl
    refine Ends.explain (ends_updateFiles (fun fs hok => ?_) fun e herror => ?_)
    · exact ⟨by rw [hs₁], .inr ⟨rfl, hfiled.trans hok⟩⟩
    · refine ⟨hs₁, .inl ⟨⟨_, rfl⟩, ⟨e, hfiled.trans herror⟩, Files.differ_makeDirectory hfs hmake, fun hmemory => ?_⟩⟩
      obtain ⟨fs, hok⟩ := Files.write_of_makeDirectory hmemory hmake path text
      cases herror.symm.trans hok
  · obtain ⟨hs', ⟨-, ⟨e', hmake⟩, hfiles⟩ | ⟨he, -⟩⟩ := hs'
    · refine ⟨hs', .inl ⟨⟨_, rfl⟩, ⟨e', ?_⟩, hfiles ▸ .refl _, fun _ => hfiles⟩⟩
      rw [Files.filed, hmake]
      rfl
    · cases he

/-- The sample that is made of a source, before it has a number. -/
def Submission.entry (x : Submission) (batch : Int) (now : Instant) : Sample :=
  ⟨0, some batch, standardFilename x.filename (Store.digest x.source), Store.digest x.source, x.request, x.source,
    x.expected, x.path batch, now⟩

/-- The store with the sample that is made of a source. -/
def Submission.entered (x : Submission) (batch : Int) (s : State) : Store :=
  s.store.enter { x.entry batch s.now with id := s.store.samples.last + 1, createdAt := Time.reread s.now }

theorem ends_enterRow (f : Fault → Fault) (batch : Int) (x : Submission) (hready : s.store.condition = .ready)
    (hnew : s.store.hasDigest (Store.digest x.source) = false) :
    Ends (explain f (update fun st ctx => st.insertSample ctx (x.entry batch ctx.now))) s fun r s' =>
      s' = { s.spend with store := s'.store } ∧
      ((∃ e, r = .error e) ∧ (s.canceled = true ∨ s.store.hasBatch batch = false) ∧ s'.store = s.store ∨
        r = .ok (s.store.samples.last + 1) ∧ s.canceled = false ∧ s.store.hasBatch batch = true ∧
          s'.store = x.entered batch s) := by
  refine Ends.explain (ends_update (fun id st hok => ⟨rfl, .inr ?_⟩) fun e herror => ⟨rfl, .inl ⟨⟨_, rfl⟩, ?_, rfl⟩⟩)
  · obtain ⟨husable, hbatch⟩ := Store.hasBatch_of_insertSample hok
    rw [Store.insertSample_usable husable _ hnew hbatch] at hok
    obtain ⟨rfl, rfl⟩ := Prod.mk.inj (Except.ok.inj hok)
    exact ⟨rfl, husable.2, hbatch, rfl⟩
  · by_contra hneither
    rw [not_or, Bool.not_eq_true, Bool.not_eq_false] at hneither
    have husable : s.store.Usable s.context := ⟨hready, hneither.1⟩
    cases herror.symm.trans (Store.insertSample_usable husable (x.entry batch s.now) hnew hneither.2)

theorem ends_queueRow (sample : Int) (stage : Stage) (hready : s.store.condition = .ready)
    (hsample : s.store.hasSample sample = true) :
    Ends (queueStage sample stage) s fun r s' => s'.files = s.files ∧
      ((∃ e, r = .error e) ∧ s.canceled = true ∧ s'.store = s.store ∨
        r = .ok (s.store.jobs.last + 1) ∧ s.canceled = false ∧ s'.store = s.store.enqueue sample stage s.now) := by
  refine Ends.explain (Ends.bind (P := fun r s' => s'.files = s.files ∧
    ((∃ e, r = .error e) ∧ s.canceled = true ∧ s'.store = s.store ∨ ∃ j : Store.Job, r = .ok j ∧
      j.id = s.store.jobs.last + 1 ∧ s.canceled = false ∧ s'.store = s.store.enqueue sample stage s.now))
    (ends_update (fun j st hok => ⟨rfl, .inr ⟨j, rfl, ?_⟩⟩) fun e herror => ⟨rfl, .inl ⟨⟨e, rfl⟩, ?_, rfl⟩⟩)
    (fun j s' hs' => ?_) fun e s' hs' => ?_)
  · refine ⟨?_, ?_, Store.insertJob_enqueue hok⟩
    · obtain ⟨_, _, -, -, -, rfl, -⟩ := Store.insertJob_eq_ok hok
      rfl
    · rw [Store.insertJob, Store.access_eq_ok, Store.usable_iff] at hok
      exact hok.1.2
  · by_contra hcanceled
    rw [Bool.not_eq_true] at hcanceled
    have hcontext : s.context = ⟨s.now, false⟩ := by rw [State.context, hcanceled]
    obtain ⟨j, hok⟩ := Store.insertJob_queued hready hsample stage
    rw [hcontext] at herror
    cases herror.symm.trans hok
  · obtain ⟨hfiles, ⟨⟨e, he⟩, -⟩ | ⟨j', hj, hid, hrest⟩⟩ := hs'
    · cases he
    · obtain rfl := Except.ok.inj hj
      exact ends_pure ⟨hfiles, .inr ⟨by rw [hid]; rfl, hrest⟩⟩
  · obtain ⟨hfiles, ⟨-, hrest⟩ | ⟨j', hj, -⟩⟩ := hs'
    · exact ⟨hfiles, .inl ⟨⟨_, rfl⟩, hrest⟩⟩
    · cases hj

end Parts

/-! ### Residues -/

namespace Submission
variable (x : Submission) (dataDir : Text) (batch : Int) (s : State)

/-- A source can be taken in: it is not blank, and no sample has its digest. -/
structure IsNew : Prop where
  source : Text.isBlank x.source = false
  usable : s.store.Usable s.context
  digest : s.store.hasDigest (Store.digest x.source) = false

/-- Where a source is written. -/
def file : Text := Path.join [dataDir, x.path batch]

/-- The file of a source was written, and no other file was changed. -/
structure Written (fs fs' : Files) : Prop where
  filed : fs.filed (x.file dataDir batch) x.source = .ok fs'
  others : DifferOnly (· = fs.key (x.file dataDir batch)) fs fs'
  stored : fs.key (x.file dataDir batch) ≠ Files.nullDevice → fs'.Stores (x.file dataDir batch) x.source

/-- What is left of an ingest, and why. -/
inductive Residue : Except Fault Receipt → State → Prop where
  | refused {e : Fault} {s' : State} (hwhy : Text.isBlank x.source = true ∨ ¬s.store.Usable s.context)
      (hstore : s'.store = s.store) (hfiles : s'.files = s.files) : Residue (.error e) s'
  | duplicate {known : Sample} {s' : State} (hsource : Text.isBlank x.source = false)
      (husable : s.store.Usable s.context) (hknown : known ∈ s.store.samples.rows)
      (hdigest : known.sha256 = Store.digest x.source) (hstore : s'.store = s.store) (hfiles : s'.files = s.files) :
      Residue (.ok ⟨known.id, 0, true⟩) s'
  /-- At most directories were made, and none in memory. -/
  | unwritten {e : Fault} {s' : State} (hnew : x.IsNew s)
      (hwhy : ∃ e, s.files.filed (x.file dataDir batch) x.source = .error e) (hstore : s'.store = s.store)
      (hfiles : DifferOnly (fun _ => False) s.files s'.files)
      (hmemory : s.files.volume = .memory → s'.files = s.files) : Residue (.error e) s'
  /-- A file without a sample. -/
  | stray {e : Fault} {s' : State} (hnew : x.IsNew s) (hfiles : x.Written dataDir batch s.files s'.files)
      (hwhy : s.lease = some 1 ∨ s.store.hasBatch batch = false) (hstore : s'.store = s.store) : Residue (.error e) s'
  /-- A sample without a job. -/
  | orphan {e : Fault} {s' : State} (hnew : x.IsNew s) (hfiles : x.Written dataDir batch s.files s'.files)
      (hbatch : s.store.hasBatch batch = true) (hwhy : s.lease = some 2) (hstore : s'.store = x.entered batch s) :
      Residue (.error e) s'
  | complete {s' : State} (hnew : x.IsNew s) (hfiles : x.Written dataDir batch s.files s'.files)
      (hbatch : s.store.hasBatch batch = true) (hlease : ∀ n ∈ s.lease, 2 < n)
      (hstore : s'.store = (x.entered batch s).enqueue (s.store.samples.last + 1) .transpile s.now) :
      Residue (.ok ⟨s.store.samples.last + 1, s.store.jobs.last + 1, false⟩) s'

end Submission

section Residues
variable {s : State}

theorem canceled_iff : s.canceled = true ↔ s.lease = some 0 := by
  simp [State.canceled]

/-- Work whose lease outlived a number of uses is canceled by them if there were no more. -/
theorem canceled_of_spent {s' : State} {k : Nat} (hlease : s'.lease = s.lease.map (· - k))
    (hlived : ∀ n < k, s.lease ≠ some n) : s'.canceled = true ↔ s.lease = some k := by
  rw [canceled_iff, hlease]
  cases hl : s.lease with
  | none => simp
  | some n =>
    have hn : ¬n < k := fun h => hlived n h hl
    simp only [Option.map_some, Option.some.injEq]
    omega

section New
variable {dataDir : Text} {batch : Int} {x : Submission} (hnew : x.IsNew s)
include hnew

theorem Submission.IsNew.lease_ne : s.lease ≠ some 0 := fun h =>
  absurd (canceled_iff.mpr h) (Bool.eq_false_iff.mp hnew.usable.2)

/-- What is left once the sample is entered: it is queued, or it stays without a job. -/
theorem ends_residue_entered {s₂ : State} (hwritten : x.Written dataDir batch s.files s₂.files)
    (hbatch : s.store.hasBatch batch = true) (hone : s.lease ≠ some 1) (hstore : s₂.store = x.entered batch s)
    (hnow : s₂.now = s.now) (hlease : s₂.lease = s.lease.map (· - 2)) :
    Ends (do
      let job ← queueStage (s.store.samples.last + 1) .transpile
      return ⟨s.store.samples.last + 1, job, false⟩) s₂ (x.Residue dataDir batch s) := by
  have hready : s₂.store.condition = .ready := by rw [hstore]; exact hnew.usable.1
  have hsample : s₂.store.hasSample (s.store.samples.last + 1) = true := by
    rw [hstore]
    exact Store.hasSample_iff.mpr ⟨_, List.mem_append_right _ (List.mem_singleton_self _), rfl⟩
  have hlived : ∀ n < 2, s.lease ≠ some n := fun n hn => by
    rcases Nat.lt_succ_iff_lt_or_eq.mp hn with hn | rfl
    · exact Nat.lt_one_iff.mp hn ▸ hnew.lease_ne
    · exact hone
  have hspent := canceled_of_spent hlease hlived
  refine (ends_queueRow _ .transpile hready hsample).bind (fun job s₃ h₃ => ?_) fun e s' hs' => ?_
  · obtain ⟨hfiles, ⟨⟨e, he⟩, -⟩ | ⟨hjob, hcanceled, hstore₃⟩⟩ := h₃
    · cases he
    obtain rfl := Except.ok.inj hjob
    have hjobs : s₂.store.jobs = s.store.jobs := by rw [hstore]; rfl
    rw [hjobs]
    refine ends_pure (.complete hnew (hfiles ▸ hwritten) hbatch (fun n hn => ?_) (by rw [hstore₃, hstore, hnow]))
    have htwo : n ≠ 2 := fun h => Bool.eq_false_iff.mp hcanceled (hspent.mpr (h ▸ hn))
    have hle : ¬n < 2 := fun h => hlived n h hn
    omega
  · obtain ⟨hfiles, ⟨-, hcanceled, hstore'⟩ | ⟨he, -⟩⟩ := hs'
    · exact .orphan hnew (hfiles ▸ hwritten) hbatch (hspent.mp hcanceled) (hstore'.trans hstore)
    · cases he

/-- What is left once the file is written: it has a sample, or it stays without one. -/
theorem ends_residue_written {s₁ : State} (hs₁ : s₁ = { s.spend with files := s₁.files })
    (hwritten : x.Written dataDir batch s.files s₁.files) :
    Ends (do
      let sample ← explain (fun f => .database "insert sample" (some f))
        (update fun st ctx => st.insertSample ctx (x.entry batch ctx.now))
      let job ← queueStage sample .transpile
      return ⟨sample, job, false⟩) s₁ (x.Residue dataDir batch s) := by
  have hstore₁ : s₁.store = s.store := by rw [hs₁]; rfl
  have hlease₁ : s₁.lease = s.lease.map (· - 1) := by rw [hs₁]; rfl
  have hentered : x.entered batch s₁ = x.entered batch s := by rw [hs₁]; rfl
  have hspent := canceled_of_spent hlease₁ fun n hn => Nat.lt_one_iff.mp hn ▸ hnew.lease_ne
  refine (ends_enterRow (s := s₁) _ batch x (hstore₁ ▸ hnew.usable.1) (hstore₁ ▸ hnew.digest)).bind (fun id s₂ h₂ => ?_)
    fun e s' hs' => ?_
  · obtain ⟨hs₂, ⟨⟨e, he⟩, -⟩ | ⟨hid, hcanceled, hbatch, hstore₂⟩⟩ := h₂
    · cases he
    obtain rfl := Except.ok.inj hid
    have hfiles₂ : s₂.files = s₁.files := by rw [hs₂]; rfl
    have hlease₂ : s₂.lease = s.lease.map (· - 2) := by
      have hspend : s₂.lease = s₁.lease.map (· - 1) := by rw [hs₂]; rfl
      rw [hspend, hlease₁, Option.map_map]
      rfl
    have hone := mt hspent.mpr (Bool.eq_false_iff.mp hcanceled)
    rw [hstore₁] at hbatch ⊢
    exact ends_residue_entered hnew (hfiles₂ ▸ hwritten) hbatch hone (hstore₂.trans hentered) (by rw [hs₂, hs₁]; rfl) hlease₂
  · obtain ⟨hs', ⟨-, hwhy, hstore'⟩ | ⟨he, -⟩⟩ := hs'
    · have hfiles' : s'.files = s₁.files := by rw [hs']; rfl
      exact .stray hnew (hfiles' ▸ hwritten) (hwhy.imp hspent.mp fun h => hstore₁ ▸ h) (hstore'.trans hstore₁)
    · cases he

theorem ends_residue_new (hfs : s.files.IsAnchored) (dataDir : Text) (batch : Int) :
    Ends (do
      writeBelow (x.file dataDir batch) x.source
      let sample ← explain (fun f => .database "insert sample" (some f))
        (update fun st ctx => st.insertSample ctx (x.entry batch ctx.now))
      let job ← queueStage sample .transpile
      return ⟨sample, job, false⟩) s.spend (x.Residue dataDir batch s) := by
  have hbefore : DifferOnly (· = s.files.key (x.file dataDir batch)) s.files s.spend.files := .refl _
  refine ((ends_filed (s := s.spend) hfs _ _).and (ends_writeBelow hfs hbefore rfl x.source)).bind (fun _ s₁ h₁ => ?_)
    fun e s' hs' => ?_
  · obtain ⟨⟨hs₁, ⟨⟨e, he⟩, -⟩ | ⟨-, hfiled⟩⟩, hdiffer, hstored⟩ := h₁
    · cases he
    exact ends_residue_written hnew hs₁ ⟨hfiled, hdiffer, hstored ⟨_, rfl⟩⟩
  · obtain ⟨⟨hs', ⟨-, hwhy, hfiles, hmemory⟩ | ⟨he, -⟩⟩, -⟩ := hs'
    · have hstore' : s'.store = s.store := by rw [hs']; rfl
      exact .unwritten hnew hwhy hstore' hfiles hmemory
    · cases he

end New

theorem ends_residue (hfs : s.files.IsAnchored) (dataDir : Text) (batch : Int) (x : Submission) :
    Ends (ingest dataDir batch x) s (x.Residue dataDir batch s) := by
  unfold ingest
  split
  · exact ends_throw (.refused (.inl ‹_›) rfl rfl)
  · rename_i hsource
    rw [Bool.not_eq_true] at hsource
    refine (ends_lookUp _ _).bind (fun known s₁ h₁ => ?_) fun e s' hs' => ?_
    · obtain ⟨rfl, ⟨⟨e, he⟩, -⟩ | ⟨husable, hknown⟩⟩ := h₁
      · cases he
      rcases known with _ | known
      · have hnew : x.IsNew s := ⟨hsource, husable, Store.hasDigest_eq_false.mpr (by simpa using hknown.symm)⟩
        exact ends_residue_new hnew hfs dataDir batch
      · have hfound := (Except.ok.inj hknown).symm
        have hdigest : known.sha256 = Store.digest x.source := by simpa using List.find?_some hfound
        exact ends_pure (.duplicate hsource husable (List.mem_of_find?_eq_some hfound) hdigest rfl rfl)
    · obtain ⟨rfl, ⟨-, hwhy⟩ | ⟨-, he⟩⟩ := hs'
      · exact .refused (.inr hwhy) rfl rfl
      · cases he

theorem ends_known_source (hfs : s.files.IsAnchored) (dataDir : Text) (batch : Int) {x : Submission}
    (hknown : s.store.hasDigest (Store.digest x.source) = true) :
    Ends (ingest dataDir batch x) s fun r s' => s'.store = s.store ∧ s'.files = s.files ∧
      ∀ receipt, r = .ok receipt → receipt.duplicate = true := by
  have hold : ¬x.IsNew s := fun hnew => by
    have hdigest := hnew.digest
    rw [hknown] at hdigest
    cases hdigest
  refine (ends_residue hfs dataDir batch x).imp fun r s' hr => ?_
  cases hr with
  | refused _ hstore hfiles => exact ⟨hstore, hfiles, fun receipt h => by cases h⟩
  | duplicate _ _ _ _ hstore hfiles => exact ⟨hstore, hfiles, fun receipt h => Except.ok.inj h ▸ rfl⟩
  | unwritten hnew => exact absurd hnew hold
  | stray hnew => exact absurd hnew hold
  | orphan hnew => exact absurd hnew hold
  | complete hnew => exact absurd hnew hold

/-- Of an ingest that fails, nothing is left if the batch is there and the work is not called off. -/
theorem ends_nothing_left (hfs : s.files.IsAnchored) (dataDir : Text) {batch : Int} (x : Submission)
    (hbatch : s.store.hasBatch batch = true) (hlease : s.lease = none) :
    Ends (ingest dataDir batch x) s fun r s' => (∃ e, r = .error e) →
      s'.store = s.store ∧ DifferOnly (fun _ => False) s.files s'.files := by
  refine (ends_residue hfs dataDir batch x).imp fun r s' hr => ?_
  rintro ⟨e, rfl⟩
  cases hr with
  | refused _ hstore hfiles => exact ⟨hstore, hfiles ▸ .refl _⟩
  | unwritten _ _ hstore hfiles => exact ⟨hstore, hfiles⟩
  | stray _ _ hwhy =>
    rw [hlease, hbatch] at hwhy
    rcases hwhy with h | h <;> cases h
  | orphan _ _ _ hwhy =>
    rw [hlease] at hwhy
    cases hwhy

end Residues

/-! ### What it does to samples and files -/

/-- A sample was made of a source that was taken into a batch. -/
structure FiledAs (b : Int) (x : Submission) (a : Sample) : Prop where
  batch : a.batch = some b
  name : a.name = standardFilename x.filename (Store.digest x.source)
  sha256 : a.sha256 = Store.digest x.source
  source : a.source = x.source
  path : a.path = x.path b

/-- What taking a source in does. A file is written only if no sample has the digest. A sample is added only behind
its file, and only then can the receipt be other than that of a duplicate. -/
structure Taken (dataDir : Text) (batch : Int) (x : Submission) (s : State) (r : Except Fault Receipt) (s' : State) :
    Prop where
  files : DifferOnly (fun k => s.store.hasDigest (Store.digest x.source) = false ∧
    k = s.files.key (Path.join [dataDir, x.path batch])) s.files s'.files
  samples : s'.store.samples = s.store.samples ∧ (∀ receipt, r = .ok receipt → receipt.duplicate = true) ∨
    ∃ row : Sample, FiledAs batch x row ∧ s.store.hasDigest (Store.digest x.source) = false ∧
      s'.store.samples.rows = s.store.samples.rows ++ [row] ∧
      (s.files.key (Path.join [dataDir, x.path batch]) ≠ Files.nullDevice →
        s'.files.Stores (Path.join [dataDir, x.path batch]) x.source) ∧
      ∀ receipt, r = .ok receipt → receipt.sample = row.id

theorem Submission.samples_entered (x : Submission) (batch : Int) (s : State) : ∃ row : Sample, FiledAs batch x row ∧
    (x.entered batch s).samples.rows = s.store.samples.rows ++ [row] ∧ row.id = s.store.samples.last + 1 :=
  ⟨{ x.entry batch s.now with id := s.store.samples.last + 1, createdAt := Time.reread s.now },
    ⟨rfl, rfl, rfl, rfl, rfl⟩, rfl, rfl⟩

theorem Submission.Residue.taken {dataDir : Text} {batch : Int} {x : Submission} {s s' : State}
    {r : Except Fault Receipt} (h : x.Residue dataDir batch s r s') : Taken dataDir batch x s r s' := by
  have hothers : ∀ {fs : Files}, x.IsNew s → x.Written dataDir batch s.files fs →
      DifferOnly (fun k => s.store.hasDigest (Store.digest x.source) = false ∧
        k = s.files.key (Path.join [dataDir, x.path batch])) s.files fs :=
    fun hnew hfiles => hfiles.others.imp fun _ hk => ⟨hnew.digest, hk⟩
  obtain ⟨row, hfiled, hrows, hid⟩ := x.samples_entered batch s
  cases h with
  | refused _ hstore hfiles => exact ⟨hfiles ▸ .refl _, .inl ⟨congrArg Store.samples hstore, nofun⟩⟩
  | duplicate _ _ _ _ hstore hfiles =>
    exact ⟨hfiles ▸ .refl _, .inl ⟨congrArg Store.samples hstore, fun receipt h => Except.ok.inj h ▸ rfl⟩⟩
  | unwritten _ _ hstore hfiles => exact ⟨hfiles.imp fun _ => False.elim, .inl ⟨congrArg Store.samples hstore, nofun⟩⟩
  | stray hnew hfiles _ hstore => exact ⟨hothers hnew hfiles, .inl ⟨congrArg Store.samples hstore, nofun⟩⟩
  | orphan hnew hfiles _ _ hstore =>
    exact ⟨hothers hnew hfiles, .inr ⟨row, hfiled, hnew.digest, hstore ▸ hrows, hfiles.stored, nofun⟩⟩
  | complete hnew hfiles _ _ hstore =>
    have hstored : s'.store.samples.rows = s.store.samples.rows ++ [row] := by rw [hstore]; exact hrows
    exact ⟨hothers hnew hfiles, .inr ⟨row, hfiled, hnew.digest, hstored, hfiles.stored, fun receipt h => by
      rw [← Except.ok.inj h, hid]⟩⟩

theorem taken_ingest {s : State} (hfs : s.files.IsAnchored) (dataDir : Text) (batch : Int) (x : Submission) :
    Ends (ingest dataDir batch x) s (Taken dataDir batch x s) :=
  (ends_residue hfs dataDir batch x).imp fun _ _ h => h.taken

/-- What is left of an ingest is as `Submission.Residue` says. If the batch is there and the work is not called off,
one that fails leaves the store and all texts as they were. A source whose sample is there is never queued by a later
ingest. -/
theorem ingest_residue {s : State} (hfs : s.files.IsAnchored) (dataDir : Text) (batch : Int) (x : Submission) :
    Ends (ingest dataDir batch x) s (x.Residue dataDir batch s) ∧
    (s.store.hasBatch batch = true → s.lease = none → Ends (ingest dataDir batch x) s fun r s' => (∃ e, r = .error e) →
      s'.store = s.store ∧ DifferOnly (fun _ => False) s.files s'.files) ∧
    (s.store.hasDigest (Store.digest x.source) = true → Ends (ingest dataDir batch x) s fun r s' =>
      s'.store = s.store ∧ s'.files = s.files ∧ ∀ receipt, r = .ok receipt → receipt.duplicate = true) :=
  ⟨ends_residue hfs dataDir batch x, fun hbatch hlease => ends_nothing_left hfs dataDir x hbatch hlease,
    fun hknown => ends_known_source hfs dataDir batch hknown⟩

/-- A store with one batch, and work that is called off after so many uses. -/
def enrolled (lease : Option Nat) : State :=
  { State.start 5 .memory with
    lease
    store := { Store.empty with batches := ⟨[⟨1, "b", [], 0⟩], 1⟩ } }

/-- A submission of one letter. -/
def scrap : Submission := ⟨"a.tr", [], "x", []⟩

/-- What there is when an ingest was called off before its last use of the store. -/
def orphaned : State := (settled (ingest "" 1 scrap) (enrolled (some 2))).leased none

theorem ingest_residue_orphaned :
    Ends (ingest "" 1 scrap) (enrolled (some 2)) (scrap.Residue "" 1 (enrolled (some 2))) ∧
      orphaned.store.hasDigest (Store.digest scrap.source) = true ∧
      Ends (ingest "" 1 scrap) orphaned fun r s' => s'.store = orphaned.store ∧ s'.files = orphaned.files ∧
        ∀ receipt, r = .ok receipt → receipt.duplicate = true := by
  have hfs : orphaned.files.IsAnchored := ⟨by decide +kernel, by decide +kernel⟩
  have hknown : orphaned.store.hasDigest (Store.digest scrap.source) = true := by decide +kernel
  have hbefore : (enrolled (some 2)).files.IsAnchored := ⟨by decide, by decide⟩
  -- the states are not to be evaluated from here on
  generalize orphaned = later at hfs hknown ⊢
  generalize enrolled (some 2) = s at hbefore ⊢
  exact ⟨(ingest_residue hbefore "" 1 scrap).1, hknown, (ingest_residue hfs "" 1 scrap).2.2 hknown⟩

/-- Whether a submission is taken in. -/
def isTaken (x : Submission) (s : State) : Bool :=
  match ingest "" 1 x s with
  | .ok _ _ => true
  | .error _ _ => false

/-- An ingest into a batch that is not there fails and leaves a file, and one that is called off before its last use
of the store fails and leaves a sample without a job. -/
theorem ingest_leaves_residue :
    let unknown := State.start 5 .memory
    let short := enrolled (some 2)
    isTaken scrap unknown = false ∧ unknown.files.files = [] ∧
      (settled (ingest "" 1 scrap) unknown).files.files.map (·.2) = ["x"] ∧
      isTaken scrap short = false ∧ short.store.samples.rows = [] ∧
      (settled (ingest "" 1 scrap) short).store.samples.rows.length = 1 ∧
      (settled (ingest "" 1 scrap) short).store.jobs.rows = [] := by
  decide +kernel

end Pipeline

end Anadil
