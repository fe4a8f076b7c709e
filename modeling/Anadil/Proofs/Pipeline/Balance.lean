import Anadil.Proofs.Pipeline.Process

/-! # No work is lost or done twice

Samples are taken in, loaded and queued, jobs are processed and queued again, in any order and as often as one
likes. Between these steps no job is running, and for every sample the artifacts, the compilations that ended
well and the jobs that check them are the same in number: `Balanced` is what every step keeps. -/

namespace Anadil.Pipeline

open Store (Job Sample Stage Status Artifact)

/-! ### What happens at a pipeline -/

/-- A step of the pipeline. -/
inductive Step where
  | ingest (dataDir : Text) (batch : Int) (s : Submission)
  | load (text : Text) (batch : Option Int)
  | queue (samples : List Int)
  | process (w : Worker) (stage : Text)
  | reset (stage : Text)
  /-- Time passes, batches are made, and files and the log change. -/
  | elsewhere (now : Instant) (files : Files) (log : List Log.Record) (batches : Store.Table Store.Batch)

/-- The state behind an action, whatever came of it. -/
def settled {α : Type} (w : Work α) (s : State) : State :=
  match w s with
  | .ok _ s' => s'
  | .error _ s' => s'

/-- The numbers of the compilations that ended well between two states of the store. -/
def newlyCompiled (before after : Store) : List Int :=
  (after.jobs.rows.filter fun j => j.stage == .transpile && j.status == .ok &&
    !before.jobs.rows.any fun k => k.id == j.id && k.status == .ok).map Job.id

/-- A state, and the numbers of the compilations that ended well with a compiler to compare with. -/
structure Line where
  state : State
  equipped : List Int

/-- The line after a step. -/
def Line.after (l : Line) : Step → Line
  | .ingest dataDir batch s => { l with state := settled (ingest dataDir batch s) l.state }
  | .load text batch => { l with state := settled (update fun st ctx => st.loadSeeds ctx text batch) l.state }
  | .queue samples => { l with state := settled (queueExisting samples) l.state }
  | .process w stage =>
    let state := settled (w.process stage) l.state
    { state
      equipped :=
        if w.compiler.isSome then newlyCompiled l.state.store state.store ++ l.equipped else l.equipped }
  | .reset stage => { l with state := settled (update fun st ctx => st.resetFailed ctx stage) l.state }
  | .elsewhere now files log batches =>
    { l with state := { l.state with now, files, log, store := { l.state.store with batches } } }

/-- Whether no claim of a job fails. -/
def Step.isSmooth (s : State) : Step → Bool
  | .process w stage =>
    match w.process stage s with
    | .ok (.idle (some _)) _ => false
    | _ => true
  | _ => true

/-- Whether no claim of a job fails in a run. -/
def Line.isSmooth (l : Line) : List Step → Bool
  | [] => true
  | t :: ts => t.isSmooth l.state && (l.after t).isSmooth ts

/-- A state from which runs start: the store is ready and has no samples, and the work is not called off. -/
structure State.Fresh (s : State) : Prop where
  lease : s.lease = none
  ready : s.store.condition = .ready
  samples : s.store.samples.rows = []
  artifacts : s.store.artifacts.rows = []
  jobs : s.store.jobs.rows = []

/-! ### Counts -/

/-- How many artifacts a sample has. -/
def artifactsOf (st : Store) (sample : Int) : Nat := (st.artifacts.rows.map Artifact.sample).count sample

/-- Whether a job is for a sample, at a stage. -/
def isFor (stage : Stage) (sample : Int) (j : Job) : Bool := j.stage == stage && j.sample == sample

/-- How many jobs of a stage a sample has. -/
def jobsOf (st : Store) (stage : Stage) (sample : Int) : Nat := st.jobs.rows.countP (isFor stage sample)

/-- Whether a job has compiled a sample. -/
def isCompilation (sample : Int) (j : Job) : Bool := isFor .transpile sample j && j.status == .ok

theorem isCompilation_iff {sample : Int} {j : Job} :
    isCompilation sample j = true ↔ j.stage = .transpile ∧ j.sample = sample ∧ j.status = .ok := by
  simp [isCompilation, isFor, and_assoc]

theorem isCompilation_of_ne {j : Job} (h : j.status ≠ .ok) (sample : Int) : isCompilation sample j = false :=
  Bool.eq_false_iff.mpr fun hj => h (isCompilation_iff.mp hj).2.2

/-- How often a sample was compiled. -/
def compilations (st : Store) (sample : Int) : Nat := st.jobs.rows.countP (isCompilation sample)

/-- How many jobs of a list of numbers compiled a sample well. -/
def compilationsAmong (ids : List Int) (st : Store) (sample : Int) : Nat :=
  st.jobs.rows.countP fun j => isCompilation sample j && ids.contains j.id

/-- Whether a sample has a file. -/
def isStored (st : Store) (sample : Int) : Bool :=
  st.samples.rows.any fun s => s.id == sample && !s.path.isEmpty

/-- What every step keeps. -/
structure Balanced (st : Store) (equipped : List Int) : Prop where
  ready : st.condition = .ready
  jobs : st.jobs.Numbered Job.id
  samples : st.samples.Numbered Sample.id
  known : ∀ j ∈ st.jobs.rows, st.hasSample j.sample = true
  idle : ∀ j ∈ st.jobs.rows, j.status ≠ .running
  ended : ∀ id ∈ equipped, ∃ j ∈ st.jobs.rows, j.id = id ∧ j.status = .ok
  artifacts : ∀ n, artifactsOf st n = compilations st n
  verifications : ∀ n, jobsOf st .verify n = compilations st n
  comparisons : ∀ n, jobsOf st .parity n = if isStored st n then compilationsAmong equipped st n else 0

theorem State.Fresh.balanced {s : State} (h : s.Fresh) : Balanced s.store [] where
  ready := h.ready
  jobs := .of_nil h.jobs
  samples := .of_nil h.samples
  known := by simp [h.jobs]
  idle := by simp [h.jobs]
  ended := by simp
  artifacts n := by simp [artifactsOf, compilations, h.artifacts, h.jobs]
  verifications n := by simp [jobsOf, compilations, h.jobs]
  comparisons n := by simp [jobsOf, compilationsAmong, h.jobs]

namespace Balanced
variable {st : Store} {equipped : List Int} (h : Balanced st equipped)
include h

/-! ### Samples and new jobs -/

theorem no_jobs {n : Int} (hn : st.samples.last < n) (p : Job → Bool) :
    st.jobs.rows.countP (fun j => j.sample == n && p j) = 0 := by
  rw [List.countP_eq_zero]
  intro j hj hp
  simp only [Bool.and_eq_true, beq_iff_eq] at hp
  obtain ⟨sample, hsample, hid⟩ := Store.hasSample_iff.mp (h.known j hj)
  have hle := h.samples.bounded sample hsample
  rw [hid, hp.1] at hle
  omega

theorem addSample {row : Sample} (hrow : row.id = st.samples.last + 1) :
    Balanced { st with samples := ⟨st.samples.rows ++ [row], st.samples.last + 1⟩ } equipped where
  ready := h.ready
  jobs := h.jobs
  samples := h.samples.add hrow
  known j hj := by
    obtain ⟨sample, hsample, hid⟩ := Store.hasSample_iff.mp (h.known j hj)
    exact Store.hasSample_iff.mpr ⟨sample, List.mem_append_left _ hsample, hid⟩
  idle := h.idle
  ended := h.ended
  artifacts := h.artifacts
  verifications := h.verifications
  comparisons n := by
    have hcomparisons := h.comparisons n
    by_cases hn : n = st.samples.last + 1
    · -- the new sample has no jobs of any kind yet
      have hnone := h.no_jobs (show st.samples.last < n by omega)
      have hparity : jobsOf st .parity n = 0 := by
        rw [← hnone fun j => j.stage == .parity]
        exact List.countP_congr fun j _ => by rw [isFor, Bool.and_comm]
      have hcompiled : compilationsAmong equipped st n = 0 := by
        rw [← hnone fun j => j.stage == .transpile && j.status == .ok && equipped.contains j.id]
        refine List.countP_congr fun j _ => ?_
        simp only [isCompilation, isFor, Bool.and_eq_true]
        tauto
      show jobsOf st .parity n = if _ then compilationsAmong equipped st n else 0
      rw [hparity, hcompiled, ite_self]
    · have hstored : isStored { st with samples := ⟨st.samples.rows ++ [row], st.samples.last + 1⟩ } n =
          isStored st n := by
        simp [isStored, hrow, Ne.symm hn]
      rw [hstored]
      exact hcomparisons

theorem skipSample : Balanced { st with samples := st.samples.skip } equipped :=
  { h with
    samples := ⟨h.samples.ascending, fun s hs => by
      have hle := h.samples.bounded s hs
      simp only [Store.Table.skip]
      omega⟩ }

theorem enqueue {n : Int} (hsample : st.hasSample n = true) (now : Instant) :
    Balanced (st.enqueue n .transpile now) equipped where
  ready := h.ready
  jobs := h.jobs.add rfl
  samples := h.samples
  known j hj := by
    rcases List.mem_append.mp hj with hold | hnew
    · exact h.known j hold
    · rw [List.mem_singleton.mp hnew]
      exact hsample
  idle j hj := by
    rcases List.mem_append.mp hj with hold | hnew
    · exact h.idle j hold
    · rw [List.mem_singleton.mp hnew]
      nofun
  ended id hid := by
    obtain ⟨j, hj, hjid⟩ := h.ended id hid
    exact ⟨j, List.mem_append_left _ hj, hjid⟩
  artifacts m := by
    simpa [Store.enqueue, artifactsOf, compilations, isCompilation] using h.artifacts m
  verifications m := by
    simpa [Store.enqueue, jobsOf, compilations, isCompilation, isFor] using h.verifications m
  comparisons m := by
    simpa [Store.enqueue, jobsOf, compilationsAmong, isCompilation, isFor, isStored] using h.comparisons m

/-- The sample of a number is one, so whether it is stored is seen at it. -/
theorem isStored_eq {sample : Sample} (hsample : sample ∈ st.samples.rows) :
    isStored st sample.id = !sample.path.isEmpty := by
  rw [Bool.eq_iff_iff]
  simp only [isStored, List.any_eq_true, Bool.and_eq_true, beq_iff_eq]
  constructor
  · rintro ⟨k, hk, hid, hpath⟩
    rwa [h.samples.eq_of_number hk hsample hid] at hpath
  · exact fun hpath => ⟨sample, hsample, rfl, hpath⟩

/-- Jobs that failed are queued again: none of them was counted as a compilation. -/
theorem requeue (stage : Text) (now : Instant) :
    Balanced (st.changeJobs (Job.isFailed stage) (Job.requeued now)) equipped := by
  -- what a job counts for, but for its number, is the same before and after
  have hcount : ∀ p : Job → Bool, (∀ j, Job.isFailed stage j = true → p (j.requeued now) = p j) →
      (st.changeJobs (Job.isFailed stage) (Job.requeued now)).jobs.rows.countP p = st.jobs.rows.countP p := by
    intro p hp
    simp only [Store.changeJobs, List.countP_map]
    refine List.countP_congr fun j _ => ?_
    simp only [Function.comp_apply]
    split
    · rw [hp j ‹_›]
    · rfl
  have hfailed : ∀ j, Job.isFailed stage j = true → j.status = .failed := by
    intro j hj
    simp only [Job.isFailed, Bool.and_eq_true, beq_iff_eq] at hj
    exact hj.2
  have hnot : ∀ n j, Job.isFailed stage j = true → isCompilation n j = false := by
    intro n j hj
    exact isCompilation_of_ne (by rw [hfailed j hj]; decide) n
  have hrequeued : ∀ n j, isCompilation n (Job.requeued now j) = false :=
    fun n j => isCompilation_of_ne (show Status.queued ≠ .ok by decide) n
  have hjobs : ∀ kind n, jobsOf (st.changeJobs (Job.isFailed stage) (Job.requeued now)) kind n = jobsOf st kind n :=
    fun kind n => hcount _ fun _ _ => rfl
  have hcompiled : ∀ n, compilations (st.changeJobs (Job.isFailed stage) (Job.requeued now)) n =
      compilations st n := by
    intro n
    exact hcount _ fun j hj => by rw [hrequeued n j, hnot n j hj]
  refine ⟨h.ready, Store.numbered_changeJobs h.jobs fun _ _ _ => rfl, h.samples, ?_, ?_, ?_, ?_, ?_, ?_⟩
  · intro j hj
    obtain ⟨k, hk, rfl⟩ := Store.mem_changeJobs.mp hj
    have hknown := h.known k hk
    split
    · exact hknown
    · exact hknown
  · intro j hj
    obtain ⟨k, hk, rfl⟩ := Store.mem_changeJobs.mp hj
    split
    · exact (show Status.queued ≠ .running by decide)
    · exact h.idle k hk
  · intro id hid
    obtain ⟨j, hj, hjid, hok⟩ := h.ended id hid
    refine ⟨j, Store.mem_changeJobs.mpr ⟨j, hj, if_neg fun hf => ?_⟩, hjid, hok⟩
    rw [hfailed j hf] at hok
    cases hok
  · intro n
    rw [hcompiled]
    exact h.artifacts n
  · intro n
    rw [hjobs, hcompiled]
    exact h.verifications n
  · intro n
    have hamong : compilationsAmong equipped (st.changeJobs (Job.isFailed stage) (Job.requeued now)) n =
        compilationsAmong equipped st n := by
      exact hcount _ fun j hj => by rw [hrequeued n j, hnot n j hj, Bool.false_and, Bool.false_and]
    rw [hjobs, hamong]
    exact h.comparisons n

end Balanced

/-! ### Processed jobs -/

/-- Replacing one row of a table changes a count by what the old and the new row count for. -/
theorem countP_replace {rows : List Job} (hn : (rows.map Job.id).Nodup) {j : Job} (hj : j ∈ rows) (j' : Job)
    {p q : Job → Bool} (hsame : ∀ k ∈ rows, k.id ≠ j.id → q k = p k) :
    (rows.map fun k => if k.id == j.id then j' else k).countP q + (if p j then 1 else 0) =
      rows.countP p + (if q j' then 1 else 0) := by
  -- on the rows: the one with this number is met once, and behind it nothing is replaced
  induction rows with
  | nil => cases hj
  | cons r rows ih =>
    rw [List.map_cons, List.nodup_cons] at hn
    obtain ⟨hr, hn⟩ := hn
    rw [List.map_cons, List.countP_cons, List.countP_cons]
    rcases List.mem_cons.mp hj with rfl | hj
    · have hrest : ∀ k ∈ rows, k.id ≠ j.id := fun k hk heq => hr (heq ▸ List.mem_map_of_mem hk)
      have hmap : (rows.map fun k => if k.id == j.id then j' else k) = rows := by
        refine (List.map_congr_left fun k hk => ?_).trans (List.map_id rows)
        simp [hrest k hk]
      have hcount : rows.countP q = rows.countP p := by
        refine List.countP_congr fun k hk => ?_
        rw [hsame k (List.mem_cons_of_mem _ hk) (hrest k hk)]
      rw [hmap, hcount]
      simp only [beq_self_eq_true, if_true]
      omega
    · have hne : r.id ≠ j.id := fun heq => hr (heq ▸ List.mem_map_of_mem hj)
      have hrest := ih hn hj fun k hk => hsame k (List.mem_cons_of_mem _ hk)
      have hhead : q r = p r := hsame r List.mem_cons_self hne
      simp only [beq_iff_eq, hne, if_false, hhead] at hrest ⊢
      omega

/-- What processing one job comes to. The row of the job is replaced, and for each compilation that ended well
there are one more artifact, one more job that runs it and, with a compiler and a file, one that compares it. -/
structure Worked (equip : Bool) (st st' : Store) (j j' : Job) (fresh : List Job) : Prop where
  row : j ∈ st.jobs.rows
  queued : j.status = .queued
  same : j'.id = j.id ∧ j'.stage = j.stage ∧ j'.sample = j.sample
  stopped : j'.status ≠ .running
  ready : st'.condition = .ready
  samples : st'.samples = st.samples
  numbered : st'.jobs.Numbered Job.id
  jobs : st'.jobs.rows = (st.jobs.rows.map fun k => if k.id == j.id then j' else k) ++ fresh
  added : ∀ k ∈ fresh, k.status = .queued ∧ k.stage ≠ .transpile ∧ k.sample = j.sample
  artifacts : ∀ n, artifactsOf st' n = artifactsOf st n + if isCompilation n j' then 1 else 0
  verifications : ∀ n, fresh.countP (isFor .verify n) = if isCompilation n j' then 1 else 0
  comparisons : ∀ n, fresh.countP (isFor .parity n) =
    if isStored st n && equip && isCompilation n j' then 1 else 0

namespace Worked
variable {equip : Bool} {st st' : Store} {j j' : Job} {fresh : List Job} (h : Worked equip st st' j j' fresh)
include h

theorem mem_jobs {k : Job} (hk : k ∈ st'.jobs.rows) :
    k = j' ∨ k ∈ st.jobs.rows ∧ k.id ≠ j.id ∨ k ∈ fresh := by
  rw [h.jobs] at hk
  rcases List.mem_append.mp hk with hold | hnew
  · obtain ⟨i, hi, rfl⟩ := List.mem_map.mp hold
    by_cases hid : i.id = j.id
    · exact .inl (if_pos (beq_iff_eq.mpr hid))
    · rw [if_neg (fun heq => hid (beq_iff_eq.mp heq))]
      exact .inr (.inl ⟨hi, hid⟩)
  · exact .inr (.inr hnew)

theorem mem_replaced : j' ∈ st'.jobs.rows := by
  rw [h.jobs]
  exact List.mem_append_left _ (List.mem_map.mpr ⟨j, h.row, if_pos (beq_self_eq_true _)⟩)

theorem mem_other {k : Job} (hk : k ∈ st.jobs.rows) (hne : k.id ≠ j.id) : k ∈ st'.jobs.rows := by
  rw [h.jobs]
  refine List.mem_append_left _ (List.mem_map.mpr ⟨k, hk, if_neg fun heq => ?_⟩)
  exact hne (beq_iff_eq.mp heq)

theorem mem_newlyCompiled (hn : st.jobs.Numbered Job.id) {id : Int} :
    id ∈ newlyCompiled st st' ↔ id = j.id ∧ j'.stage = .transpile ∧ j'.status = .ok := by
  simp only [newlyCompiled, List.mem_map, List.mem_filter, Bool.and_eq_true, beq_iff_eq, Bool.not_eq_true',
    List.any_eq_false, not_and]
  constructor
  · rintro ⟨k, ⟨hk, ⟨hstage, hok⟩, hbefore⟩, rfl⟩
    rcases h.mem_jobs hk with rfl | ⟨hold, -⟩ | hnew
    · exact ⟨h.same.1, hstage, hok⟩
    · exact absurd hok (hbefore k hold rfl)
    · exact absurd hstage (h.added k hnew).2.1
  · rintro ⟨rfl, hstage, hok⟩
    refine ⟨j', ⟨h.mem_replaced, ⟨hstage, hok⟩, fun k hk hid hstatus => ?_⟩, h.same.1⟩
    rw [hn.eq_of_number hk h.row (hid.trans h.same.1), h.queued] at hstatus
    cases hstatus

theorem jobsOf_eq (hn : st.jobs.Numbered Job.id) (stage : Stage) (n : Int) :
    jobsOf st' stage n = jobsOf st stage n + fresh.countP (isFor stage n) := by
  have hcount := countP_replace hn.nodup h.row j' (p := isFor stage n) (q := isFor stage n) fun _ _ _ => rfl
  have hfor : isFor stage n j' = isFor stage n j := by simp only [isFor, h.same.2.1, h.same.2.2]
  rw [hfor] at hcount
  rw [jobsOf, jobsOf, h.jobs, List.countP_append]
  omega

theorem countP_compilations (hn : st.jobs.Numbered Job.id) {n : Int} (p q : Job → Bool)
    (hsame : ∀ k ∈ st.jobs.rows, k.id ≠ j.id → q k = p k) :
    st'.jobs.rows.countP (fun k => isCompilation n k && q k) =
      st.jobs.rows.countP (fun k => isCompilation n k && p k) + if isCompilation n j' && q j' then 1 else 0 := by
  have hcount := countP_replace hn.nodup h.row j' (p := fun k => isCompilation n k && p k)
    (q := fun k => isCompilation n k && q k) fun k hk hne => by rw [hsame k hk hne]
  have hbefore : isCompilation n j = false := isCompilation_of_ne (by rw [h.queued]; nofun) n
  have hnews : fresh.countP (fun k => isCompilation n k && q k) = 0 := by
    refine List.countP_eq_zero.mpr fun k hk hp => ?_
    rw [Bool.and_eq_true] at hp
    exact (h.added k hk).2.1 (isCompilation_iff.mp hp.1).1
  rw [hbefore, Bool.false_and] at hcount
  rw [h.jobs, List.countP_append, hnews]
  simpa using hcount

theorem compilations_eq (hn : st.jobs.Numbered Job.id) (n : Int) :
    compilations st' n = compilations st n + if isCompilation n j' then 1 else 0 := by
  simpa [compilations] using h.countP_compilations hn (n := n) (fun _ => true) (fun _ => true) fun _ _ _ => rfl

theorem balanced {equipped : List Int} (hbalanced : Balanced st equipped) :
    Balanced st' (if equip then newlyCompiled st st' ++ equipped else equipped) where
  ready := h.ready
  jobs := h.numbered
  samples := h.samples ▸ hbalanced.samples
  known k hk := by
    have hsample : st'.hasSample k.sample = st.hasSample k.sample := by rw [Store.hasSample, h.samples]; rfl
    rw [hsample]
    rcases h.mem_jobs hk with rfl | ⟨hold, -⟩ | hnew
    · rw [h.same.2.2]
      exact hbalanced.known j h.row
    · exact hbalanced.known k hold
    · rw [(h.added k hnew).2.2]
      exact hbalanced.known j h.row
  idle k hk := by
    rcases h.mem_jobs hk with rfl | ⟨hold, -⟩ | hnew
    · exact h.stopped
    · exact hbalanced.idle k hold
    · rw [(h.added k hnew).1]
      decide
  ended id hid := by
    have hcases : id ∈ newlyCompiled st st' ∨ id ∈ equipped := by
      cases equip with
      | true => exact List.mem_append.mp hid
      | false => exact .inr hid
    rcases hcases with hnew | hold
    · obtain ⟨rfl, -, hok⟩ := (h.mem_newlyCompiled hbalanced.jobs).mp hnew
      exact ⟨j', h.mem_replaced, h.same.1, hok⟩
    · obtain ⟨k, hk, rfl, hok⟩ := hbalanced.ended id hold
      refine ⟨k, h.mem_other hk fun hid => ?_, rfl, hok⟩
      rw [hbalanced.jobs.eq_of_number hk h.row hid, h.queued] at hok
      cases hok
  artifacts n := by
    rw [h.artifacts, hbalanced.artifacts, h.compilations_eq hbalanced.jobs]
  verifications n := by
    rw [h.jobsOf_eq hbalanced.jobs, hbalanced.verifications, h.verifications, h.compilations_eq hbalanced.jobs]
  comparisons n := by
    have hstored : isStored st' n = isStored st n := by simp only [isStored, h.samples]
    have hamong := h.countP_compilations hbalanced.jobs (n := n) (fun k => equipped.contains k.id)
      (fun k => (if equip then newlyCompiled st st' ++ equipped else equipped).contains k.id) fun k hk hne => by
        cases equip with
        | true => simp [h.mem_newlyCompiled hbalanced.jobs, hne]
        | false => rfl
    rw [h.jobsOf_eq hbalanced.jobs, hbalanced.comparisons, h.comparisons, hstored]
    cases hst : isStored st n with
    | false => simp
    | true =>
      have hlast : (isCompilation n j' &&
          (if equip then newlyCompiled st st' ++ equipped else equipped).contains j'.id) =
          (equip && isCompilation n j') := by
        -- the job was queued, so its number is in the list only if it was put there now
        have hqueued : j.id ∉ equipped := by
          intro hmem
          obtain ⟨k, hk, hid, hok⟩ := hbalanced.ended _ hmem
          rw [hbalanced.jobs.eq_of_number hk h.row hid, h.queued] at hok
          cases hok
        cases equip with
        | false => simp [h.same.1, hqueued]
        | true =>
          rw [Bool.eq_iff_iff]
          simp only [Bool.and_eq_true, isCompilation_iff, if_true, List.contains_iff_mem, List.mem_append,
            h.mem_newlyCompiled hbalanced.jobs, h.same.1, Bool.true_and]
          tauto
      rw [compilationsAmong, compilationsAmong, hamong, hlast]
      simp

end Worked

namespace Worker
variable {w : Worker} {j : Job} {now : Instant} {st st' mid : Store} {status : Status} {code message : Text}
  {equipped : List Int}

theorem numbered_handOut (hn : st.jobs.Numbered Job.id) : (w.handOut now st j).jobs.Numbered Job.id :=
  Store.numbered_changeJobs hn fun _ _ hid => (beq_iff_eq.mp hid).symm

/-- A finished job is where the claimed one was, and new jobs stand behind. -/
theorem rows_finished {fresh : List Job} (hrows : mid.jobs.rows = (w.handOut now st j).jobs.rows ++ fresh)
    (hfresh : ∀ k ∈ fresh, k.id ≠ j.id) :
    (mid.changeJobs (·.id == j.id) (Job.finished now status code message)).jobs.rows =
      (st.jobs.rows.map fun k =>
        if k.id == j.id then (j.claimed now w.id).finished now status code message else k) ++ fresh := by
  have hkept : (fresh.map fun k => if k.id == j.id then k.finished now status code message else k) = fresh := by
    refine (List.map_congr_left fun k hk => ?_).trans (List.map_id fresh)
    simp [hfresh k hk]
  simp only [Store.changeJobs, hrows, List.map_append, hkept, handOut, List.map_map]
  congr 1
  refine List.map_congr_left fun k _ => ?_
  by_cases hid : k.id = j.id
  · simp [hid, Job.claimed]
  · simp [hid]

/-- A job that compiled nothing replaces its own row only. -/
theorem worked_outline (hbalanced : Balanced st equipped) (hj : j ∈ st.jobs.rows) (hqueued : j.status = .queued)
    (houtline : outline mid = outline (w.handOut now st j)) (hrunning : status ≠ .running)
    (hcompiled : j.stage = .transpile → status ≠ .ok) :
    Worked w.compiler.isSome st (mid.changeJobs (·.id == j.id) (Job.finished now status code message)) j
      ((j.claimed now w.id).finished now status code message) [] := by
  simp only [outline, Prod.mk.injEq] at houtline
  obtain ⟨hsamples, hjobs, hcondition, hartifacts⟩ := houtline
  have hnot : ∀ n, isCompilation n ((j.claimed now w.id).finished now status code message) = false := by
    intro n
    refine Bool.eq_false_iff.mpr fun h => ?_
    obtain ⟨hstage, -, hok⟩ := isCompilation_iff.mp h
    exact hcompiled hstage hok
  refine ⟨hj, hqueued, ⟨rfl, rfl, rfl⟩, hrunning, hcondition.trans hbalanced.ready, hsamples, ?_,
    rows_finished (by rw [hjobs, List.append_nil]) (by simp), by simp, fun n => ?_, fun n => ?_, fun n => ?_⟩
  · exact Store.numbered_changeJobs (hjobs ▸ numbered_handOut hbalanced.jobs) fun _ _ _ => rfl
  · rw [hnot]
    exact congrArg (List.count n) hartifacts
  · rw [hnot]
    rfl
  · rw [hnot, Bool.and_false]
    rfl

/-- A compilation that ended well brings the jobs that check it. -/
theorem worked_compiled (hbalanced : Balanced st equipped) (hj : j ∈ st.jobs.rows) (hqueued : j.status = .queued)
    (hstage : j.stage = .transpile) {sample : Sample} (hsample : sample ∈ st.samples.rows)
    (hid : sample.id = j.sample) (python : Text) :
    ∃ fresh, Worked w.compiler.isSome st
      ((compiled w (w.handOut now st j) sample python now).changeJobs (·.id == j.id)
        (Job.finished now .ok code message)) j
      ((j.claimed now w.id).finished now .ok code message) fresh := by
  have hdone : ∀ n, isCompilation n ((j.claimed now w.id).finished now .ok code message) = (sample.id == n) := by
    intro n
    rw [Bool.eq_iff_iff, isCompilation_iff, beq_iff_eq, hid]
    exact ⟨fun h => h.2.1, fun h => ⟨hstage, h, rfl⟩⟩
  have hstored := hbalanced.isStored_eq hsample
  have hbound := hbalanced.jobs.bounded j hj
  have hnumbered : (w.handOut now st j).jobs.Numbered Job.id := numbered_handOut hbalanced.jobs
  unfold compiled
  split
  next hchecks =>
    rw [Bool.and_eq_true] at hchecks
    refine ⟨[_, _], hj, hqueued, ⟨rfl, rfl, rfl⟩, nofun, hbalanced.ready, rfl, ?_,
      rows_finished (List.append_assoc _ _ _) ?_, ?_, fun n => ?_, fun n => ?_, fun n => ?_⟩
    · exact Store.numbered_changeJobs ((hnumbered.add rfl).add rfl) fun _ _ _ => rfl
    · simp only [List.forall_mem_cons, List.not_mem_nil, false_implies, implies_true, and_true, Store.enqueue,
        translate, handOut, Store.changeJobs]
      omega
    · simp [hid]
    · simp [hdone, artifactsOf, Store.changeJobs, Store.enqueue, translate, handOut, List.count_singleton]
    · simp [hdone, isFor, List.countP_cons]
    · by_cases hn : sample.id = n
      · subst hn
        simp [hdone, isFor, hstored, hchecks]
      · simp [hdone, isFor, hn]
  next hchecks =>
    refine ⟨[_], hj, hqueued, ⟨rfl, rfl, rfl⟩, nofun, hbalanced.ready, rfl, ?_,
      rows_finished rfl ?_, ?_, fun n => ?_, fun n => ?_, fun n => ?_⟩
    · exact Store.numbered_changeJobs (hnumbered.add rfl) fun _ _ _ => rfl
    · simp only [List.forall_mem_cons, List.not_mem_nil, false_implies, implies_true, and_true, translate, handOut,
        Store.changeJobs]
      omega
    · simp [hid]
    · simp [hdone, artifactsOf, Store.changeJobs, Store.enqueue, translate, handOut, List.count_singleton]
    · simp [hdone, isFor, List.countP_cons]
    · by_cases hn : sample.id = n
      · subst hn
        rw [hdone, hstored, Bool.and_comm (!_), Bool.eq_false_iff.mpr hchecks, Bool.false_and]
        rfl
      · simp [hdone, isFor, hn]

/-- However a job was handled, it has replaced its row and queued its checks. -/
theorem Handled.worked {f : Option Fault} (h : Handled w j now st f st') (hbalanced : Balanced st equipped)
    (hj : j ∈ st.jobs.rows) (hqueued : j.status = .queued) :
    ∃ j' fresh, Worked w.compiler.isSome st st' j j' fresh := by
  rcases h with ⟨-, code, message, rfl⟩ | ⟨sample, hsample, hid, result, mid, hexecuted, hend⟩
  · exact ⟨_, _, worked_outline hbalanced hj hqueued rfl nofun fun _ => nofun⟩
  · rcases hexecuted with ⟨houtline, hstage⟩ | ⟨hstage, rfl, python, rfl⟩
    · rcases hend with ⟨-, rfl, rfl⟩ | ⟨-, -, code, message, rfl⟩
      · exact ⟨_, _, worked_outline hbalanced hj hqueued houtline nofun fun htranspile => absurd htranspile (hstage rfl)⟩
      · exact ⟨_, _, worked_outline hbalanced hj hqueued houtline nofun fun _ => nofun⟩
    · rcases hend with ⟨-, -, rfl⟩ | ⟨-, ⟨e, he⟩, -⟩
      · exact ⟨_, worked_compiled hbalanced hj hqueued hstage hsample hid python⟩
      · cases he

end Worker

/-! ### Steps and runs -/

theorem Ends.settled {α : Type} {w : Work α} {s : State} {P : State → Prop} (h : Ends w s fun _ => P) :
    P (settled w s) := by
  rcases h.cases with ⟨a, s', hw, h⟩ | ⟨e, s', hw, h⟩ <;> simpa only [Pipeline.settled, hw] using h

theorem settled_eq {α : Type} {w : Work α} {s s' : State} {a : α} (h : w s = .ok a s') : settled w s = s' := by
  rw [settled, h]

/-- Processing a job keeps the balance. -/
theorem settled_process_balanced {s : State} {equipped : List Int} (hs : s.lease = none)
    (h : Balanced s.store equipped) {w : Worker} {stage : Text} (hsmooth : (Step.process w stage).isSmooth s = true) :
    (settled (w.process stage) s).lease = none ∧ Balanced (settled (w.process stage) s).store
      (if w.compiler.isSome then newlyCompiled s.store (settled (w.process stage) s).store ++ equipped
        else equipped) := by
  cases hnext : s.store.next? s.now stage with
  | none =>
    have hnone : newlyCompiled s.store s.store = [] := by
      simp only [newlyCompiled, List.map_eq_nil_iff, List.filter_eq_nil_iff, Bool.and_eq_true, beq_iff_eq,
        Bool.not_eq_true', not_and, Bool.not_eq_false, List.any_eq_true]
      exact fun j hj hok => ⟨j, hj, rfl, hok.2⟩
    obtain ⟨_, _, hprocess, -, rfl⟩ := (Worker.gives_idle (w := w) (usable hs h.ready) hnext).run
    rw [settled_eq hprocess, spend_eq hs, hnone, List.nil_append, ite_self]
    exact ⟨hs, h⟩
  | some j =>
    obtain ⟨_, s', hprocess, honward, hp⟩ := (Worker.onward_process (w := w) hs h.ready h.jobs hnext).run
    rw [settled_eq hprocess]
    refine ⟨honward.lease, ?_⟩
    rcases hp with ⟨⟨f, rfl⟩, -⟩ | ⟨f, rfl, hhandled⟩
    · rw [Step.isSmooth, hprocess] at hsmooth
      cases hsmooth
    · obtain ⟨hj, hqueued, -⟩ := Store.mem_of_next? h.jobs hnext
      obtain ⟨j', fresh, hworked⟩ := hhandled.worked h hj hqueued
      exact hworked.balanced h

namespace Line
variable {l : Line}

/-- Every step keeps the balance. -/
theorem balanced_after (hlease : l.state.lease = none) (hbalanced : Balanced l.state.store l.equipped) {t : Step}
    (hsmooth : t.isSmooth l.state = true) :
    (l.after t).state.lease = none ∧ Balanced (l.after t).state.store (l.after t).equipped := by
  have hinert := inert_onward l.state (Balanced · l.equipped)
  have hsettled : ∀ {α : Type} {w : Work α}, Maintains (fun s => Onward l.state s ∧ Balanced s.store l.equipped) w →
      (settled w l.state).lease = none ∧ Balanced (settled w l.state).store l.equipped := fun hw => by
    obtain ⟨honward, hkept⟩ := (hw l.state ⟨⟨hlease, rfl⟩, hbalanced⟩).settled
    exact ⟨honward.lease, hkept⟩
  have hqueue : ∀ sample, Maintains (fun s => Onward l.state s ∧ Balanced s.store l.equipped)
      (queueStage sample .transpile) := fun sample =>
    hinert.queueStage fun s h hsample => ⟨⟨h.1.lease, h.1.now⟩, h.2.enqueue hsample s.now⟩
  cases t with
  | ingest dataDir batch submission =>
    refine hsettled (hinert.composes.ingest hinert.writeBelow (fun _ => hinert.update fun s id st h hok => ?_) hqueue
      dataDir batch submission)
    obtain ⟨hid, row, hrow, -, rfl⟩ := Store.insertSample_eq_ok hok
    exact ⟨⟨h.1.lease, h.1.now⟩, h.2.addSample (hrow.trans hid)⟩
  | load text batch =>
    refine hsettled (hinert.update fun s ids st h hok => ⟨⟨h.1.lease, h.1.now⟩, ?_⟩)
    exact Store.loadSeeds_keeps (P := fun st => Balanced st l.equipped) (fun h hrow => h.addSample hrow)
      (fun h => h.skipSample) h.2 hok
  | queue samples => exact hsettled (hinert.composes.queueExisting hqueue samples)
  | process w stage => exact settled_process_balanced hlease hbalanced hsmooth
  | reset stage =>
    refine hsettled (hinert.update fun s n st h hok => ⟨⟨h.1.lease, h.1.now⟩, ?_⟩)
    rw [Store.resetFailed_eq_ok hok]
    exact h.2.requeue stage _
  | elsewhere now files log batches => exact ⟨hlease, { hbalanced with }⟩

theorem balanced_run (hlease : l.state.lease = none) (hbalanced : Balanced l.state.store l.equipped)
    {ts : List Step} (hsmooth : l.isSmooth ts = true) :
    Balanced (ts.foldl Line.after l).state.store (ts.foldl Line.after l).equipped := by
  induction ts generalizing l with
  | nil => exact hbalanced
  | cons t ts ih =>
    rw [isSmooth, Bool.and_eq_true] at hsmooth
    obtain ⟨hlease', hbalanced'⟩ := balanced_after hlease hbalanced hsmooth.1
    exact ih hlease' hbalanced' hsmooth.2

end Line

/-- After any run no job is running. For every sample its artifacts, its compilations that ended well and the
jobs that run them are the same in number, and so are the compilations that ended well with a compiler at hand
and the jobs that compare them, if the sample is stored in a file; if it is not, there are no such jobs. -/
theorem pipeline_balanced {s : State} (h : s.Fresh) {ts : List Step} (hsmooth : Line.isSmooth ⟨s, []⟩ ts = true) :
    let l := ts.foldl Line.after ⟨s, []⟩
    (∀ j ∈ l.state.store.jobs.rows, j.status ≠ .running) ∧
      ∀ sample ∈ l.state.store.samples.rows,
        artifactsOf l.state.store sample.id = compilations l.state.store sample.id ∧
        jobsOf l.state.store .verify sample.id = compilations l.state.store sample.id ∧
        jobsOf l.state.store .parity sample.id =
          if sample.path = [] then 0 else compilationsAmong l.equipped l.state.store sample.id := by
  intro l
  have hbalanced : Balanced l.state.store l.equipped := Line.balanced_run h.lease h.balanced hsmooth
  refine ⟨hbalanced.idle, fun sample hsample => ⟨hbalanced.artifacts _, hbalanced.verifications _, ?_⟩⟩
  rw [hbalanced.comparisons, hbalanced.isStored_eq hsample]
  cases sample.path with
  | nil => simp
  | cons c path => simp

/-- A worker whose compiler is not there. -/
def stranded : Worker := ⟨"d", "w", .default, none, some ⟨"c", fun _ _ => .notFound⟩, false⟩

/-- What happens to a program that is taken in. Its compilation fails when its Python cannot be written, and is
queued again and done. Its comparison fails. -/
def mishaps : List Step :=
  let batches : Store.Table Store.Batch := ⟨[⟨1, "b", [], 0⟩], 1⟩
  [.elsewhere 5 .memory [] batches, .ingest "d" 1 ⟨"a", [], "yaz(1)", []⟩,
    .elsewhere 6 { Files.memory with readOnly := true } [] batches, .process stranded "transpile",
    .reset "transpile", .elsewhere 7 .memory [] batches, .process stranded "transpile", .process stranded "parity"]

theorem pipeline_balanced_mishaps :
    let l : Line := mishaps.foldl Line.after ⟨.start 0 .memory, []⟩
    l.state.store.jobs.rows.map (fun j => (j.stage, j.status, j.attempt)) =
        [(.transpile, .ok, 2), (.verify, .queued, 0), (.parity, .failed, 1)] ∧
      ∀ sample ∈ l.state.store.samples.rows,
        artifactsOf l.state.store sample.id = compilations l.state.store sample.id ∧
        jobsOf l.state.store .verify sample.id = compilations l.state.store sample.id ∧
        jobsOf l.state.store .parity sample.id =
          if sample.path = [] then 0 else compilationsAmong l.equipped l.state.store sample.id := by
  have hsmooth : Line.isSmooth ⟨.start 0 .memory, []⟩ mishaps = true := by decide +kernel
  refine ⟨by decide +kernel, ?_⟩
  exact (pipeline_balanced ⟨rfl, rfl, rfl, rfl, rfl⟩ hsmooth).2

end Anadil.Pipeline
