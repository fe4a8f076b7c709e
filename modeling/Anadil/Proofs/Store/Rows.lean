import Anadil.Proofs.Outcome
import Anadil.Proofs.Time
import Anadil.Store.Job
import Anadil.Store.Sample
import Anadil.Store.Seed

/-! # Rows

What each use of a table does to its rows when it succeeds, and when it does succeed. A use that fails gives no
store, so the old one stays. -/

namespace Anadil.Store

variable {t stage : Text} {p : Job → Bool} {f : Job → Job} {id sample : Int} {s s' : Store} {ctx : Context}
  {j : Job} {now : Instant} {jobs : List Job} {verdict : Verdict}

/-! ### Uses of a store -/

section Uses
variable {α : Type} {table : String} {doing : Text} {use : Except Fault α} {a : α}

/-- The store is open and the call is not canceled. -/
def Usable (s : Store) (ctx : Context) : Prop := s.condition = .ready ∧ ctx.canceled = false

theorem access_eq_ok : s.access ctx table doing use = .ok a ↔
    (s.refusal ctx).or (s.missing table) = none ∧ use = .ok a := by
  rw [access, mapError_eq_ok]
  cases (s.refusal ctx).or (s.missing table) with
  | none => simp
  | some f => simp

theorem Usable.access (h : s.Usable ctx) : s.access ctx table doing use = use.mapError (Fault.behind doing) := by
  obtain ⟨hready, hcanceled⟩ := h
  simp [Store.access, refusal, missing, hready, hcanceled]

theorem usable_iff : (s.refusal ctx).or (s.missing table) = none ↔ s.Usable ctx := by
  rw [refusal, missing, Usable]
  cases s.condition <;> cases ctx.canceled <;> simp

theorem access_canceled (h : ctx.canceled = true) : s.access ctx table doing use ≠ .ok a := by
  rw [ne_eq, access_eq_ok, refusal, h]
  split <;> simp

theorem need_eq_ok {v : Violation} {o : Option α} : need v o = .ok a ↔ o = some a := by
  cases o <;> simp [need]

theorem require_eq_ok {v : Violation} {holds : Bool} {u : Unit} : require v holds = .ok u ↔ holds = true := by
  cases holds <;> simp [require]

end Uses

/-! ### Names -/

theorem Stage.ofName?_eq_some {stage : Stage} : Stage.ofName? t = some stage ↔ (stage.name : Text) = t := by
  constructor
  · intro h
    simpa using List.find?_some h
  · rintro rfl
    cases stage <;> decide

theorem Status.ofName?_eq_some {status : Status} :
    Status.ofName? t = some status ↔ (status.name : Text) = t := by
  constructor
  · intro h
    simpa using List.find?_some h
  · rintro rfl
    cases status <;> decide

/-! ### Numbers -/

/-- The rows of a table stand in the order of their numbers, none of which is above the last one given. -/
structure Table.Numbered {α : Type} (t : Table α) (number : α → Int) : Prop where
  ascending : (t.rows.map number).Pairwise (· < ·)
  bounded : ∀ a ∈ t.rows, number a ≤ t.last

section Numbered
variable {α : Type} {t : Table α} {number : α → Int}

theorem Table.Numbered.nodup (h : t.Numbered number) : (t.rows.map number).Nodup :=
  h.ascending.imp fun hlt heq => by omega

theorem Table.Numbered.eq_of_number {a b : α} (h : t.Numbered number) (ha : a ∈ t.rows) (hb : b ∈ t.rows)
    (heq : number a = number b) : a = b :=
  List.inj_on_of_nodup_map h.nodup ha hb heq

theorem Table.Numbered.of_nil (h : t.rows = []) : t.Numbered number := by
  constructor
  · simp [h]
  · simp [h]

theorem Table.Numbered.add (h : t.Numbered number) {row : α} (hrow : number row = t.last + 1) :
    (⟨t.rows ++ [row], t.last + 1⟩ : Table α).Numbered number where
  ascending := by
    rw [List.map_append, List.pairwise_append]
    refine ⟨h.ascending, List.pairwise_singleton _ _, ?_⟩
    intro n hn m hm
    obtain ⟨a, ha, rfl⟩ := List.mem_map.mp hn
    have hle := h.bounded a ha
    rw [List.mem_singleton.mp hm, hrow]
    omega
  bounded a ha := by
    rcases List.mem_append.mp ha with hold | hnew
    · have hle := h.bounded a hold
      dsimp only
      omega
    · rw [List.mem_singleton.mp hnew, hrow]

theorem Table.Numbered.map (h : t.Numbered number) {f : α → α} (hf : ∀ a ∈ t.rows, number (f a) = number a) :
    ({ t with rows := t.rows.map f } : Table α).Numbered number where
  ascending := by
    have heq : (t.rows.map f).map number = t.rows.map number := by
      rw [List.map_map]
      exact List.map_congr_left hf
    rw [heq]
    exact h.ascending
  bounded a ha := by
    obtain ⟨b, hb, rfl⟩ := List.mem_map.mp ha
    rw [hf b hb]
    exact h.bounded b hb

end Numbered

/-! ### Single jobs -/

/-- The job of a number, if there is one. -/
def job? (s : Store) (id : Int) : Option Job := s.jobs.rows.find? (·.id == id)

section Jobs

theorem job?_id (h : s.job? id = some j) : j.id = id := by
  simpa using List.find?_some h

theorem mem_of_job? (h : s.job? id = some j) : j ∈ s.jobs.rows := List.mem_of_find?_eq_some h

theorem job?_eq_none : s.job? id = none ↔ ∀ j ∈ s.jobs.rows, j.id ≠ id := by
  simp [job?]

theorem job?_of_mem (hn : s.jobs.Numbered Job.id) (hj : j ∈ s.jobs.rows) : s.job? j.id = some j := by
  cases h : s.job? j.id with
  | none => exact absurd rfl (job?_eq_none.mp h j hj)
  | some k => rw [hn.eq_of_number (mem_of_job? h) hj (job?_id h)]

theorem job?_changeJobs (hf : ∀ j, p j = true → (f j).id = j.id) :
    (s.changeJobs p f).job? id = (s.job? id).map fun j => if p j then f j else j := by
  have hid : ∀ j : Job, (if p j then f j else j).id = j.id := by
    intro j
    split
    · exact hf j ‹_›
    · rfl
  rw [job?, changeJobs, List.find?_map]
  congr 2
  funext j
  simp only [Function.comp_apply, hid]

theorem job?_changeJobs_of_ne {n : Int} (hf : ∀ j, (j.id == n) = true → (f j).id = j.id)
    (hne : n ≠ id) : (s.changeJobs (·.id == n) f).job? id = s.job? id := by
  rw [job?_changeJobs hf]
  cases hjob : s.job? id with
  | none => rfl
  | some k =>
    have hk := job?_id hjob
    rw [Option.map_some, if_neg (by rw [hk]; simpa using Ne.symm hne)]

theorem mem_changeJobs :
    j ∈ (s.changeJobs p f).jobs.rows ↔ ∃ k ∈ s.jobs.rows, (if p k then f k else k) = j := by
  simp [changeJobs]

theorem mem_changeJobs_of_ne (hf : ∀ k : Job, k.id = id → (f k).id = id) (hne : j.id ≠ id) :
    j ∈ (s.changeJobs (·.id == id) f).jobs.rows ↔ j ∈ s.jobs.rows := by
  rw [mem_changeJobs]
  constructor
  · rintro ⟨k, hk, heq⟩
    split at heq
    · rename_i hid
      exact absurd (heq ▸ hf k (beq_iff_eq.mp hid)) hne
    · exact heq ▸ hk
  · exact fun hj => ⟨j, hj, if_neg fun hid => hne (beq_iff_eq.mp hid)⟩

theorem numbered_changeJobs (hn : s.jobs.Numbered Job.id)
    (hf : ∀ j ∈ s.jobs.rows, p j = true → (f j).id = j.id) : (s.changeJobs p f).jobs.Numbered Job.id := by
  refine hn.map fun j hj => ?_
  split
  · exact hf j hj ‹_›
  · rfl

/-- The jobs that are running. -/
def running (s : Store) : List Job := s.jobs.rows.filter (·.status == .running)

theorem mem_running : j ∈ s.running ↔ j ∈ s.jobs.rows ∧ j.status = .running := by
  simp [running]

end Jobs

/-! ### Queueing -/

/-- The job that a draft makes. -/
def Draft.job (d : Draft) (now : Instant) (stage : Stage) (status : Status) (id : Int) : Job :=
  ⟨id, d.sample, stage, status, d.attempt, if d.availableAt = Time.zero then now else d.availableAt, none, none,
    none, none, none, none⟩

/-- A job that was inserted has a stage, a status and a sample that are there, and the next number. -/
theorem insertJob_eq_ok {d : Draft} (h : s.insertJob ctx d = .ok (j, s')) :
    ∃ stage status, (stage.name : Text) = d.stage ∧ statusOf d.status = some status ∧
      s.hasSample d.sample = true ∧ j = d.job ctx.now stage status (s.jobs.last + 1) ∧
      s' = { s with jobs := ⟨s.jobs.rows ++ [j], s.jobs.last + 1⟩ } := by
  rw [insertJob, access_eq_ok] at h
  obtain ⟨-, h⟩ := h
  simp only [bind_eq_ok, need_eq_ok, require_eq_ok, pure_eq_ok] at h
  obtain ⟨stage, hstage, status, hstatus, _, hsample, h⟩ := h
  obtain ⟨rfl, rfl⟩ := Prod.mk.inj h
  exact ⟨stage, status, Stage.ofName?_eq_some.mp hstage, hstatus, hsample, rfl, rfl⟩

/-- A store with one more job, which is queued now. -/
def enqueue (s : Store) (sample : Int) (stage : Stage) (now : Instant) : Store :=
  { s with
    jobs := ⟨s.jobs.rows ++ [⟨s.jobs.last + 1, sample, stage, .queued, 0, now, none, none, none, none, none, none⟩],
      s.jobs.last + 1⟩ }

/-- In a ready store a job for a sample that is there can be queued. -/
theorem insertJob_queued (hready : s.condition = .ready)
    (hsample : s.hasSample sample = true) (stage : Stage) :
    ∃ j, s.insertJob ⟨now, false⟩ ⟨sample, stage.name, Status.queued.name, 0, now⟩ =
      .ok (j, s.enqueue sample stage now) := by
  have husable : s.Usable ⟨now, false⟩ := ⟨hready, rfl⟩
  have hstage : Stage.ofName? stage.name = some stage := Stage.ofName?_eq_some.mpr rfl
  have hstatus : statusOf Status.queued.name = some .queued := by decide
  rw [insertJob, husable.access, hstage, hstatus, hsample, ite_self]
  exact ⟨_, rfl⟩

theorem insertJob_enqueue {stage : Stage}
    (h : s.insertJob ctx ⟨sample, stage.name, Status.queued.name, 0, ctx.now⟩ = .ok (j, s')) :
    s' = s.enqueue sample stage ctx.now := by
  obtain ⟨stage', status, hstage, hstatus, -, rfl, rfl⟩ := insertJob_eq_ok h
  have hqueued : statusOf Status.queued.name = some .queued := by decide
  obtain rfl : stage = stage' :=
    Option.some.inj ((Stage.ofName?_eq_some.mpr rfl).symm.trans (Stage.ofName?_eq_some.mpr hstage))
  obtain rfl : .queued = status := Option.some.inj (hqueued.symm.trans hstatus)
  rw [enqueue, Draft.job, ite_self]

/-! ### Handing out -/

/-- Whether a job waits for a stage and is due. -/
def Job.awaits (now : Instant) (stage : Text) (j : Job) : Bool :=
  (j.stage.name : Text) == stage && j.status == .queued && !Time.before now j.availableAt

/-- A claim takes the foremost of the jobs that may be handed out. -/
theorem claimJob_eq (s : Store) (ctx : Context) (stage worker : Text) :
    s.claimJob ctx stage worker = s.access ctx "work" "claim work" (.ok
      (match foremost? (s.jobs.rows.filter (Job.awaits ctx.now stage)) with
      | none => (none, s)
      | some j => (some (j.claimed ctx.now worker),
          s.changeJobs (·.id == j.id) fun _ => j.claimed ctx.now worker))) := by
  rw [claimJob]
  congr 1
  cases hstage : Stage.ofName? stage with
  | none =>
    have hnone : s.jobs.rows.filter (Job.awaits ctx.now stage) = [] := by
      rw [List.filter_eq_nil_iff]
      intro j _ hj
      simp only [Job.awaits, Bool.and_eq_true, beq_iff_eq] at hj
      rw [Stage.ofName?_eq_some.mpr hj.1.1] at hstage
      cases hstage
    rw [hnone]
    rfl
  | some st =>
    have hfilter : s.jobs.rows.filter (Job.awaits ctx.now stage) =
        s.jobs.rows.filter (Job.isReady ctx.now st) := by
      refine List.filter_congr fun j _ => ?_
      have hname : ((j.stage.name : Text) == stage) = (j.stage == st) := by
        rw [Bool.eq_iff_iff, beq_iff_eq, beq_iff_eq, ← Stage.ofName?_eq_some, hstage, Option.some.injEq]
        exact eq_comm
      rw [Job.awaits, Job.isReady, hname]
    rw [hfilter]
    dsimp only
    cases foremost? (s.jobs.rows.filter (Job.isReady ctx.now st)) <;> rfl

section Precedence
variable {a b c : Job}

theorem precedes_iff : a.precedes b = true ↔ Time.before a.availableAt b.availableAt = true ∨
    a.availableAt = b.availableAt ∧ a.id < b.id := by
  simp [Job.precedes]

/-- Jobs come in the order of their times and then of their numbers, if the times can be written. -/
theorem precedes_iff_lt (ha : Time.IsWritten a.availableAt) (hb : Time.IsWritten b.availableAt) :
    a.precedes b = true ↔ a.availableAt < b.availableAt ∨ a.availableAt = b.availableAt ∧ a.id < b.id := by
  rw [precedes_iff, Time.before_iff_lt ha hb]

/-- A job may be handed out if it is queued and its time has come, if the times can be written. -/
theorem awaits_iff (ha : Time.IsWritten a.availableAt) (hnow : Time.IsWritten now) :
    a.awaits now stage = true ↔ (a.stage.name : Text) = stage ∧ a.status = .queued ∧ a.availableAt ≤ now := by
  have hbefore := Time.before_iff_lt hnow ha
  simp only [Job.awaits, Bool.and_eq_true, beq_iff_eq, Bool.not_eq_true', and_assoc, ← Bool.not_eq_true, hbefore,
    Int.not_lt]

theorem precedes_irrefl (a : Job) : a.precedes a = false := by
  simp [Job.precedes, Time.before_irrefl]

theorem precedes_trans (hab : a.precedes b = true) (hbc : b.precedes c = true) : a.precedes c = true := by
  rw [precedes_iff] at *
  rcases hab with hab | ⟨hab, hid⟩
  · rcases hbc with hbc | ⟨hbc, -⟩
    · exact .inl (Time.before_trans hab hbc)
    · exact .inl (hbc ▸ hab)
  · rcases hbc with hbc | ⟨hbc, hid'⟩
    · exact .inl (hab ▸ hbc)
    · exact .inr ⟨hab.trans hbc, Int.lt_trans hid hid'⟩

theorem precedes_total (h : a.id ≠ b.id) : a.precedes b = true ∨ b.precedes a = true := by
  rw [precedes_iff, precedes_iff]
  rcases Time.before_trichotomy a.availableAt b.availableAt with hbefore | heq | hafter
  · exact .inl (.inl hbefore)
  · rcases Int.lt_or_gt_of_ne h with hlt | hgt
    · exact .inl (.inr ⟨heq, hlt⟩)
    · exact .inr (.inr ⟨heq.symm, hgt⟩)
  · exact .inr (.inl hafter)

theorem foremost?_cons_cons (jobs : List Job) :
    foremost? (a :: b :: jobs) = foremost? ((if b.precedes a then b else a) :: jobs) := by
  simp only [foremost?, List.foldl_cons]
  split <;> rfl

/-- The search keeps the foremost of the jobs seen so far. -/
theorem foremost?_cons {best : Job} (h : ((best :: jobs).map Job.id).Nodup) :
    ∃ j, foremost? (best :: jobs) = some j ∧ j ∈ best :: jobs ∧
      ∀ k ∈ best :: jobs, k ≠ j → j.precedes k = true := by
  induction jobs generalizing best with
  | nil =>
    refine ⟨best, rfl, List.mem_singleton.mpr rfl, fun k hk hne => ?_⟩
    exact absurd (List.mem_singleton.mp hk) hne
  | cons next jobs ih =>
    rw [List.map_cons, List.map_cons, List.nodup_cons, List.nodup_cons] at h
    obtain ⟨hbest, hnext, hjobs⟩ := h
    have hne : next.id ≠ best.id := fun heq => hbest (by rw [← heq]; exact List.mem_cons_self)
    rw [foremost?_cons_cons]
    split
    · rename_i hprecedes
      have hrest : ((next :: jobs).map Job.id).Nodup := List.nodup_cons.mpr ⟨hnext, hjobs⟩
      obtain ⟨j, hj, hmem, hleast⟩ := ih hrest
      refine ⟨j, hj, List.mem_cons_of_mem _ hmem, fun k hk hkj => ?_⟩
      rcases List.mem_cons.mp hk with rfl | hk
      · by_cases hnj : next = j
        · exact hnj ▸ hprecedes
        · exact precedes_trans (hleast next List.mem_cons_self hnj) hprecedes
      · exact hleast k hk hkj
    · rename_i hprecedes
      have hprecedes : best.precedes next = true := (precedes_total hne).resolve_left hprecedes
      have hrest : ((best :: jobs).map Job.id).Nodup :=
        List.nodup_cons.mpr ⟨fun hin => hbest (List.mem_cons_of_mem _ hin), hjobs⟩
      obtain ⟨j, hj, hmem, hleast⟩ := ih hrest
      refine ⟨j, hj, ?_, fun k hk hkj => ?_⟩
      · rcases List.mem_cons.mp hmem with rfl | hmem
        · exact List.mem_cons_self
        · exact List.mem_cons_of_mem _ (List.mem_cons_of_mem _ hmem)
      · rcases List.mem_cons.mp hk with rfl | hk
        · exact hleast k List.mem_cons_self hkj
        · rcases List.mem_cons.mp hk with rfl | hk
          · by_cases hbj : best = j
            · exact hbj ▸ hprecedes
            · exact precedes_trans (hleast best List.mem_cons_self hbj) hprecedes
          · exact hleast k (List.mem_cons_of_mem _ hk) hkj

theorem foremost?_eq_none (h : (jobs.map Job.id).Nodup) : foremost? jobs = none ↔ jobs = [] := by
  cases jobs with
  | nil => exact ⟨fun _ => rfl, fun _ => rfl⟩
  | cons best jobs =>
    obtain ⟨j, hj, -⟩ := foremost?_cons h
    rw [hj]
    exact ⟨nofun, nofun⟩

theorem foremost?_eq_some (h : (jobs.map Job.id).Nodup) (hj : foremost? jobs = some j) :
    j ∈ jobs ∧ ∀ k ∈ jobs, k ≠ j → j.precedes k = true := by
  cases jobs with
  | nil => cases hj
  | cons best jobs =>
    obtain ⟨i, hi, hmem, hleast⟩ := foremost?_cons h
    obtain rfl : i = j := Option.some.inj (hi.symm.trans hj)
    exact ⟨hmem, hleast⟩

end Precedence

/-- A claim gives the job that goes before all others that wait, or none if none waits. -/
theorem claimJob_eq_ok (hn : s.jobs.Numbered Job.id) {worker : Text}
    {r : Option Job} (h : s.claimJob ctx stage worker = .ok (r, s')) :
    (r = none ∧ s' = s ∧ ∀ j ∈ s.jobs.rows, j.awaits ctx.now stage = false) ∨
      ∃ j ∈ s.jobs.rows, j.awaits ctx.now stage = true ∧
        (∀ k ∈ s.jobs.rows, k.awaits ctx.now stage = true → k ≠ j → j.precedes k = true) ∧
        r = some (j.claimed ctx.now worker) ∧
        s' = s.changeJobs (·.id == j.id) fun _ => j.claimed ctx.now worker := by
  have hnodup : ((s.jobs.rows.filter (Job.awaits ctx.now stage)).map Job.id).Nodup :=
    hn.nodup.sublist (List.filter_sublist.map _)
  rw [claimJob_eq, access_eq_ok, Except.ok.injEq] at h
  obtain ⟨-, h⟩ := h
  cases hforemost : foremost? (s.jobs.rows.filter (Job.awaits ctx.now stage)) with
  | none =>
    rw [hforemost] at h
    obtain ⟨rfl, rfl⟩ := Prod.mk.inj h
    have hnil := (foremost?_eq_none hnodup).mp hforemost
    refine .inl ⟨rfl, rfl, fun j hj => ?_⟩
    simpa using List.filter_eq_nil_iff.mp hnil j hj
  | some j =>
    rw [hforemost] at h
    obtain ⟨rfl, rfl⟩ := Prod.mk.inj h
    obtain ⟨hmem, hleast⟩ := foremost?_eq_some hnodup hforemost
    obtain ⟨hrow, hawaits⟩ := List.mem_filter.mp hmem
    refine .inr ⟨j, hrow, hawaits, fun k hk hkawaits hne => ?_, rfl, rfl⟩
    exact hleast k (List.mem_filter.mpr ⟨hk, hkawaits⟩) hne

theorem awaits_queued (h : j.awaits now stage = true) :
    j.status = .queued ∧ (j.stage.name : Text) = stage := by
  simp only [Job.awaits, Bool.and_eq_true, beq_iff_eq] at h
  exact ⟨h.1.2, h.1.1⟩

/-- The job that is claimed next. -/
def next? (s : Store) (now : Instant) (stage : Text) : Option Job :=
  foremost? (s.jobs.rows.filter (Job.awaits now stage))

theorem mem_of_next? (hn : s.jobs.Numbered Job.id)
    (h : s.next? now stage = some j) : j ∈ s.jobs.rows ∧ j.status = .queued ∧ j.awaits now stage = true := by
  have hmem := (foremost?_eq_some (hn.nodup.sublist (List.filter_sublist.map _)) h).1
  obtain ⟨hrow, hawaits⟩ := List.mem_filter.mp hmem
  exact ⟨hrow, (awaits_queued hawaits).1, hawaits⟩

/-! ### Finishing and queueing again -/

theorem finishJob_eq_ok {status code message : Text}
    (h : s.finishJob ctx id status code message = .ok s') (hid : ∃ j ∈ s.jobs.rows, j.id = id) :
    ∃ st, (Status.name st : Text) = status ∧
      s' = s.changeJobs (·.id == id) (Job.finished ctx.now st code message) := by
  have hany : s.jobs.rows.any (·.id == id) = true := by simpa using hid
  rw [finishJob, access_eq_ok, if_pos hany] at h
  obtain ⟨-, h⟩ := h
  simp only [bind_eq_ok, need_eq_ok, pure_eq_ok] at h
  obtain ⟨st, hst, rfl⟩ := h
  exact ⟨st, Status.ofName?_eq_some.mp hst, rfl⟩

/-- A job that is there can be finished. -/
theorem finishJob_usable (husable : s.Usable ctx)
    (hid : ∃ j ∈ s.jobs.rows, j.id = id) (status : Status) (code message : Text) :
    s.finishJob ctx id status.name code message =
      .ok (s.changeJobs (·.id == id) (Job.finished ctx.now status code message)) := by
  have hany : s.jobs.rows.any (·.id == id) = true := by simpa using hid
  have hstatus : Status.ofName? status.name = some status := Status.ofName?_eq_some.mpr rfl
  rw [finishJob, husable.access, if_pos hany, hstatus]
  rfl

theorem resetFailed_eq_ok {n : Nat}
    (h : s.resetFailed ctx stage = .ok (n, s')) : s' = s.changeJobs (Job.isFailed stage) (Job.requeued ctx.now) := by
  rw [resetFailed, access_eq_ok] at h
  exact (Prod.mk.inj (Except.ok.inj h.2)).2.symm

/-! ### Samples and artifacts -/

theorem hasSample_iff : s.hasSample id = true ↔ ∃ sample ∈ s.samples.rows, sample.id = id := by
  simp [hasSample]

theorem hasDigest_eq_false {sha256 : Text} :
    s.hasDigest sha256 = false ↔ ∀ sample ∈ s.samples.rows, sample.sha256 ≠ sha256 := by
  simp [hasDigest]

/-- A sample that was inserted is the last row and has the next number. -/
theorem insertSample_row {sample : Sample}
    (h : s.insertSample ctx sample = .ok (id, s')) : id = s.samples.last + 1 ∧
      ∃ row createdAt, row = { sample with id, createdAt } ∧
        s' = { s with samples := ⟨s.samples.rows ++ [row], s.samples.last + 1⟩ } := by
  rw [insertSample, access_eq_ok] at h
  simp only [bind_eq_ok, require_eq_ok, pure_eq_ok] at h
  obtain ⟨-, _, -, _, -, h⟩ := h
  obtain ⟨rfl, rfl⟩ := Prod.mk.inj h
  exact ⟨rfl, _, Time.reread sample.createdAt, rfl, rfl⟩

theorem insertSample_eq_ok {sample : Sample}
    (h : s.insertSample ctx sample = .ok (id, s')) : id = s.samples.last + 1 ∧ ∃ row : Sample, row.id = id ∧
      row.path = sample.path ∧ s' = { s with samples := ⟨s.samples.rows ++ [row], s.samples.last + 1⟩ } := by
  obtain ⟨hid, row, _, hrow, hs'⟩ := insertSample_row h
  exact ⟨hid, row, by rw [hrow], by rw [hrow], hs'⟩

theorem insertArtifact_usable (husable : s.Usable ctx)
    (hsample : s.hasSample sample = true) (python version : Text) (createdAt : Instant) :
    s.insertArtifact ctx sample python version Verdict.transpiled.name createdAt =
      .ok (s.artifacts.last + 1, .transpiled, { s with artifacts := ⟨s.artifacts.rows ++
        [⟨s.artifacts.last + 1, sample, python, version, .transpiled, none, Time.reread createdAt, none⟩],
        s.artifacts.last + 1⟩ }) := by
  have hverdict : verdictOf Verdict.transpiled.name = some .transpiled := by decide
  rw [insertArtifact, husable.access, hverdict, hsample]
  rfl

theorem updateArtifact_eq_ok {verdict : Text} {actual : Option Text}
    (h : s.updateArtifact ctx id verdict actual = .ok s') :
    ∃ rows, s' = { s with artifacts := { s.artifacts with rows } } ∧
      rows.map Artifact.sample = s.artifacts.rows.map Artifact.sample := by
  unfold updateArtifact at h
  split at h
  · rw [access_eq_ok] at h
    simp only [bind_eq_ok, need_eq_ok, pure_eq_ok] at h
    obtain ⟨-, v, -, rfl⟩ := h
    refine ⟨_, rfl, ?_⟩
    rw [List.map_map]
    refine List.map_congr_left fun a _ => ?_
    dsimp only [Function.comp_apply]
    split <;> rfl
  · split at h <;> cases h

theorem Verdict.ofName?_eq_some : Verdict.ofName? t = some verdict ↔ (verdict.name : Text) = t := by
  constructor
  · intro h
    simpa using List.find?_some h
  · rintro rfl
    cases verdict <;> decide

/-- A store in which an artifact has a verdict. -/
def examine (s : Store) (id : Int) (verdict : Verdict) (actual : Option Text) (now : Instant) : Store :=
  { s with
    artifacts := { s.artifacts with
      rows := s.artifacts.rows.map fun a =>
        if a.id == id then { a with verdict, actual, verifiedAt := some now } else a } }

theorem updateArtifact_named {actual : Option Text}
    (h : s.updateArtifact ctx id verdict.name actual = .ok s') : s' = s.examine id verdict actual ctx.now := by
  unfold updateArtifact at h
  split at h
  · rw [access_eq_ok] at h
    simp only [bind_eq_ok, need_eq_ok, pure_eq_ok, Verdict.ofName?_eq_some.mpr rfl] at h
    obtain ⟨-, _, hverdict, rfl⟩ := h
    obtain rfl := Option.some.inj hverdict
    rfl
  · split at h <;> cases h

/-- A store with one more artifact of a sample, which was not run. -/
def addArtifact (s : Store) (sample : Int) (python version : Text) (createdAt : Instant) : Store :=
  { s with
    artifacts := ⟨s.artifacts.rows ++
      [⟨s.artifacts.last + 1, sample, python, version, .transpiled, none, Time.reread createdAt, none⟩],
      s.artifacts.last + 1⟩ }

theorem insertArtifact_eq_ok {python version : Text} {createdAt : Instant}
    (h : s.insertArtifact ctx sample python version Verdict.transpiled.name createdAt = .ok (id, verdict, s')) :
    s' = s.addArtifact sample python version createdAt := by
  have htranspiled : verdictOf Verdict.transpiled.name = some .transpiled := by decide
  rw [insertArtifact, access_eq_ok, htranspiled] at h
  simp only [bind_eq_ok, need_eq_ok, require_eq_ok, pure_eq_ok] at h
  obtain ⟨-, _, hverdict, _, -, h⟩ := h
  obtain rfl := Option.some.inj hverdict
  simp only [Prod.mk.injEq] at h
  exact h.2.2.symm

theorem getLast?_eq_some_iff {α : Type} {number : α → Int} {rows : List α}
    (h : (rows.map number).Pairwise (· < ·)) {a : α} :
    rows.getLast? = some a ↔ a ∈ rows ∧ ∀ b ∈ rows, number b ≤ number a := by
  rcases List.eq_nil_or_concat rows with rfl | ⟨front, last, rfl⟩
  · simp
  · rw [List.concat_eq_append, List.map_append, List.pairwise_append] at h
    have hbelow : ∀ b ∈ front, number b < number last := fun b hb =>
      h.2.2 _ (List.mem_map_of_mem hb) _ (List.mem_singleton_self _)
    rw [List.concat_eq_append, List.getLast?_concat, Option.some.injEq]
    constructor
    · rintro rfl
      refine ⟨List.mem_append_right _ (List.mem_singleton_self _), fun b hb => ?_⟩
      rcases List.mem_append.mp hb with hfront | hlast
      · exact (hbelow b hfront).le
      · rw [List.mem_singleton.mp hlast]
    · rintro ⟨ha, hgreatest⟩
      rcases List.mem_append.mp ha with hfront | hlast
      · have hle := hgreatest last (List.mem_append_right _ (List.mem_singleton_self _))
        exact absurd hle (not_le.mpr (hbelow a hfront))
      · exact (List.mem_singleton.mp hlast).symm

/-- The newest artifact of a sample is the one with the largest number. -/
theorem newestArtifact?_eq_some (hn : s.artifacts.Numbered Artifact.id) {a : Artifact} :
    s.newestArtifact? sample = some a ↔
      a ∈ s.artifacts.rows ∧ a.sample = sample ∧ ∀ b ∈ s.artifacts.rows, b.sample = sample → b.id ≤ a.id := by
  have hascending : ((s.artifacts.rows.filter (·.sample == sample)).map Artifact.id).Pairwise (· < ·) :=
    hn.ascending.sublist (List.filter_sublist.map _)
  rw [newestArtifact?, getLast?_eq_some_iff hascending]
  simp only [List.mem_filter, beq_iff_eq, and_imp, and_assoc]

/-! ### Seeds -/

section Seeds
variable {P : Store → Prop} {batch : Option Int} {ids : List Int}

/-- What is kept when a sample is added that has no file and whose digest is new, and when a number is used up, is
kept when seeds are added. -/
theorem addSeeds_preserves
    (hadd : ∀ {s : Store} {row : Sample}, P s → row.id = s.samples.last + 1 → row.path = [] →
      s.hasDigest row.sha256 = false → P { s with samples := ⟨s.samples.rows ++ [row], s.samples.last + 1⟩ })
    (hskip : ∀ {s : Store}, P s → P { s with samples := s.samples.skip }) {seeds : List Seed} {n : Nat} (hs : P s)
    (h : addSeeds ctx batch n seeds s = .ok (ids, s')) : P s' := by
  induction seeds generalizing n s ids with
  | nil =>
    obtain ⟨-, rfl⟩ := Prod.mk.inj (Except.ok.inj h)
    exact hs
  | cons seed seeds ih =>
    rw [addSeeds] at h
    split at h
    · cases h
    · split at h
      · cases h
      · split at h
        · exact ih (hskip hs) h
        · rename_i hdigest
          simp only [bind_eq_ok, pure_eq_ok] at h
          obtain ⟨-, -, ⟨ids', s''⟩, hrest, hs''⟩ := h
          obtain ⟨-, rfl⟩ := Prod.mk.inj hs''
          exact ih (hadd hs rfl rfl (Bool.eq_false_iff.mpr hdigest)) hrest

theorem loadSeeds_preserves
    (hadd : ∀ {s : Store} {row : Sample}, P s → row.id = s.samples.last + 1 → row.path = [] →
      s.hasDigest row.sha256 = false → P { s with samples := ⟨s.samples.rows ++ [row], s.samples.last + 1⟩ })
    (hskip : ∀ {s : Store}, P s → P { s with samples := s.samples.skip }) {text : Text} (hs : P s)
    (h : s.loadSeeds ctx text batch = .ok (ids, s')) : P s' := by
  rw [loadSeeds, bind_eq_ok] at h
  obtain ⟨seeds, -, h⟩ := h
  split at h
  · cases h
  · exact addSeeds_preserves hadd hskip hs h

theorem loadSeeds_keeps
    (hadd : ∀ {s : Store} {row : Sample}, P s → row.id = s.samples.last + 1 →
      P { s with samples := ⟨s.samples.rows ++ [row], s.samples.last + 1⟩ })
    (hskip : ∀ {s : Store}, P s → P { s with samples := s.samples.skip }) {text : Text} (hs : P s)
    (h : s.loadSeeds ctx text batch = .ok (ids, s')) : P s' :=
  loadSeeds_preserves (fun hs hid _ _ => hadd hs hid) hskip hs h

end Seeds

end Anadil.Store
