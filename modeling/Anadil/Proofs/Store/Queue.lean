import Anadil.Proofs.Store.Rows

/-! # The work queue as a state machine

Any number of workers insert, claim, finish and reset jobs in any order. `Floor` is a store together with what
is known of the workers: who holds which jobs and which jobs were handed out. Every row of every floor that is
reached agrees with that (`Floor.Keeps`), and every job takes one turn at a time (`Turn`). -/

namespace Anadil.Store

variable {muddled : List Int} {id : Int} {status code message worker : Text} {ctx : Context} {s' : Store}

/-! ### What happens at a queue -/

/-- An operation on the queue. -/
inductive Act where
  | insert (ctx : Context) (d : Draft)
  | claim (ctx : Context) (stage worker : Text)
  | finish (ctx : Context) (worker : Text) (id : Int) (status code message : Text)
  | reset (ctx : Context) (stage : Text)
  /-- Whatever is done to the other tables, and to the store as a whole. -/
  | elsewhere (s : Store)

/-- A store, who holds which jobs, the jobs handed out so far, and the jobs whose workers reported success and
an error at once. -/
structure Floor where
  store : Store
  held : List (Text × Int)
  given : List Int
  muddled : List Int

/-- The jobs reported as successes with an error, after one more report. -/
def afterReport (muddled : List Int) (id : Int) (status code message : Text) : List Int :=
  if status = (Status.ok.name : Text) ∧ (code ≠ [] ∨ message ≠ []) then id :: muddled else muddled

theorem mem_afterReport {n : Int} (h : n ∈ muddled) : n ∈ afterReport muddled id status code message := by
  unfold afterReport
  split
  · exact List.mem_cons_of_mem _ h
  · exact h

theorem not_mem_afterReport
    (h : id ∉ afterReport muddled id Status.ok.name code message) : code = [] ∧ message = [] := by
  unfold afterReport at h
  split at h
  · exact absurd List.mem_cons_self h
  · rename_i hnone
    tauto

namespace Floor

/-- The floor after an operation; one that fails changes nothing. -/
def after (f : Floor) : Act → Floor
  | .insert ctx d =>
    match f.store.insertJob ctx d with
    | .ok (_, store) => { f with store }
    | .error _ => f
  | .claim ctx stage worker =>
    match f.store.claimJob ctx stage worker with
    | .ok (some j, store) => { f with store, held := (worker, j.id) :: f.held, given := j.id :: f.given }
    | .ok (none, store) => { f with store }
    | .error _ => f
  | .finish ctx _ id status code message =>
    match f.store.finishJob ctx id status code message with
    | .ok store =>
      { f with
        store
        held := f.held.filter (·.2 != id)
        muddled := afterReport f.muddled id status code message }
    | .error _ => f
  | .reset ctx stage =>
    match f.store.resetFailed ctx stage with
    | .ok (_, store) => { f with store }
    | .error _ => f
  | .elsewhere s => { f with store := { s with jobs := f.store.jobs } }

end Floor

/-- New jobs are queued and have not been tried, and only the worker who holds a job finishes it. -/
def Act.Fair (f : Floor) : Act → Prop
  | .insert _ d => statusOf d.status = some .queued ∧ d.attempt = 0
  | .finish _ worker id status _ _ => (worker, id) ∈ f.held ∧
      (status = (Status.ok.name : Text) ∨ status = (Status.failed.name : Text))
  | _ => True

/-- The floors that are reached from one without jobs. -/
inductive Floor.Reached : Floor → Prop
  | start {s : Store} (h : s.jobs.rows = []) : Reached ⟨s, [], [], []⟩
  | step {f : Floor} {act : Act} (h : f.Reached) (hfair : act.Fair f) : Reached (f.after act)

/-! ### What the rows say -/

/-- A row says who holds its job, whether it is finished and why it failed, and how often it was handed out. Beside
failures, only what was reported as a success with an error has an error. -/
structure Floor.Keeps (f : Floor) (j : Job) : Prop where
  locked : j.lockedBy.isSome ↔ j.status = .running
  holder : ∀ worker, j.lockedBy = some worker ↔ (worker, j.id) ∈ f.held
  finished : j.finishedAt.isSome ↔ j.status = .ok ∨ j.status = .failed
  blameless : j.status ≠ .failed → j.id ∉ f.muddled → j.code = none ∧ j.message = none
  attempt : j.attempt = min (f.given.count j.id : Int) mostAttempts
  started : j.startedAt.isSome ↔ 0 < j.attempt

/-- The rows of a floor, taken together. -/
structure Floor.Lawful (f : Floor) : Prop where
  numbered : f.store.jobs.Numbered Job.id
  distinct : (f.held.map Prod.snd).Nodup
  rows : ∀ j ∈ f.store.jobs.rows, f.Keeps j
  heldRows : ∀ p ∈ f.held, ∃ j ∈ f.store.jobs.rows, j.id = p.2
  givenRows : ∀ id ∈ f.given, id ≤ f.store.jobs.last

namespace Floor
variable {f : Floor} {j : Job}

theorem Lawful.start {s : Store} (h : s.jobs.rows = []) : Lawful ⟨s, [], [], []⟩ where
  numbered := .of_nil h
  distinct := List.nodup_nil
  rows j hj := by simp [h] at hj
  heldRows p hp := nomatch hp
  givenRows id hid := nomatch hid

theorem Keeps.not_held (h : f.Keeps j) (hstatus : j.status ≠ .running) (worker : Text) :
    (worker, j.id) ∉ f.held := by
  intro hmem
  have hlocked := (h.holder worker).mpr hmem
  exact hstatus (h.locked.mp (by rw [hlocked]; rfl))

theorem Keeps.running (h : f.Keeps j) (hmem : (worker, j.id) ∈ f.held) : j.status = .running := by
  have hlocked := (h.holder worker).mpr hmem
  exact h.locked.mp (by rw [hlocked]; rfl)

theorem Keeps.attempt_nonneg (h : f.Keeps j) : 0 ≤ j.attempt := by
  rw [h.attempt, mostAttempts]
  omega

/-- What is known of other jobs does not matter to a row. -/
theorem Keeps.of_agree {g : Floor} (h : f.Keeps j) (hheld : ∀ worker, (worker, j.id) ∈ g.held ↔ (worker, j.id) ∈ f.held)
    (hgiven : g.given.count j.id = f.given.count j.id) (hmuddled : j.id ∈ f.muddled → j.id ∈ g.muddled) :
    g.Keeps j where
  locked := h.locked
  holder worker := by rw [h.holder, hheld]
  finished := h.finished
  blameless hstatus hnot := h.blameless hstatus fun hmem => hnot (hmuddled hmem)
  attempt := by rw [h.attempt, hgiven]
  started := h.started

/-! ### Queueing -/

theorem Lawful.insert (h : f.Lawful) {d : Draft} (hfair : (Act.insert ctx d).Fair f) :
    (f.after (.insert ctx d)).Lawful := by
  simp only [after]
  split
  · rename_i j s' hinsert
    obtain ⟨stage, status, -, hstatus, -, rfl, rfl⟩ := insertJob_eq_ok hinsert
    obtain rfl : status = .queued := Option.some.inj (hstatus.symm.trans hfair.1)
    have hlast : ∀ p ∈ f.held, p.2 ≤ f.store.jobs.last := by
      intro p hp
      obtain ⟨k, hk, hid⟩ := h.heldRows p hp
      exact hid ▸ h.numbered.bounded k hk
    refine ⟨h.numbered.add rfl, h.distinct, ?_, ?_, ?_⟩
    · intro k hk
      rcases List.mem_append.mp hk with hold | hnew
      · exact (h.rows k hold).of_agree (fun _ => Iff.rfl) rfl id
      · -- the new number is above all that were given
        obtain rfl := List.mem_singleton.mp hnew
        have hcount : f.given.count (f.store.jobs.last + 1) = 0 := by
          rw [List.count_eq_zero]
          intro hmem
          have := h.givenRows _ hmem
          omega
        refine ⟨by simp [Draft.job], ?_, by simp [Draft.job], by simp [Draft.job], ?_, ?_⟩
        · intro worker
          refine ⟨fun hlocked => (by cases hlocked), fun hmem => ?_⟩
          have : f.store.jobs.last + 1 ≤ f.store.jobs.last := hlast _ hmem
          omega
        · simp only [Draft.job, hcount, hfair.2]
          decide
        · simp [Draft.job, hfair.2]
    · intro p hp
      obtain ⟨k, hk, hid⟩ := h.heldRows p hp
      exact ⟨k, List.mem_append_left _ hk, hid⟩
    · intro id hid
      have := h.givenRows id hid
      dsimp only
      omega
  · exact h

/-! ### Handing out -/

/-- A claim keeps what a job says of itself. -/
theorem Keeps.claimed (h : f.Keeps j) (hstatus : j.status = .queued) (now : Instant) (worker : Text) :
    Keeps { f with store := s', held := (worker, j.id) :: f.held, given := j.id :: f.given }
      (j.claimed now worker) := by
  have hnot := h.not_held (by rw [hstatus]; decide)
  have hnonneg := h.attempt_nonneg
  refine ⟨by simp [Job.claimed], ?_, ?_, ?_, ?_, ?_⟩
  · intro w
    have hfree : (w, j.id) ∉ f.held := hnot w
    simp [Job.claimed, hfree, eq_comm]
  · have hfinished := h.finished
    simp only [hstatus] at hfinished
    simpa [Job.claimed] using hfinished
  · intro _ hmuddled
    exact h.blameless (by rw [hstatus]; decide) hmuddled
  · simp only [Job.claimed, List.count_cons_self, h.attempt, mostAttempts]
    omega
  · have hpos : 0 < min (j.attempt + 1) mostAttempts := by
      unfold mostAttempts
      omega
    cases hstarted : j.startedAt <;> simp [Job.claimed, hstarted, hpos]

theorem Lawful.claim (h : f.Lawful) (ctx : Context) (stage worker : Text) :
    (f.after (.claim ctx stage worker)).Lawful := by
  simp only [after]
  split
  · rename_i j' s' hclaim
    rcases claimJob_eq_ok h.numbered hclaim with ⟨hnone, -⟩ | ⟨j, hj, hawaits, -, hsome, rfl⟩
    · cases hnone
    · obtain rfl := Option.some.inj hsome
      have hqueued := (awaits_queued hawaits).1
      have hkeeps := h.rows j hj
      have hnot := hkeeps.not_held (by rw [hqueued]; decide)
      refine ⟨numbered_changeJobs h.numbered fun k _ hk => ?_, ?_, ?_, ?_, ?_⟩
      · exact (by simpa using hk : k.id = j.id).symm
      · refine List.nodup_cons.mpr ⟨fun hmem => ?_, h.distinct⟩
        obtain ⟨⟨w, id⟩, hp, rfl⟩ := List.mem_map.mp hmem
        exact hnot w hp
      · intro k hk
        obtain ⟨i, hi, rfl⟩ := mem_changeJobs.mp hk
        by_cases hid : i.id = j.id
        · rw [if_pos (by simpa using hid)]
          exact hkeeps.claimed hqueued ctx.now worker
        · rw [if_neg (by simpa using hid)]
          refine (h.rows i hi).of_agree (fun w => ?_) ?_ (fun hmem => hmem)
          · simp [Job.claimed, hid]
          · simp [Job.claimed, Ne.symm hid]
      · intro p hp
        rcases List.mem_cons.mp hp with rfl | hp
        · exact ⟨j.claimed ctx.now worker, mem_changeJobs.mpr ⟨j, hj, by simp⟩, rfl⟩
        · obtain ⟨k, hk, hid⟩ := h.heldRows p hp
          refine ⟨_, mem_changeJobs.mpr ⟨k, hk, rfl⟩, ?_⟩
          split
          · rename_i hkj
            exact (by simpa using hkj : k.id = j.id).symm.trans hid
          · exact hid
      · intro id hid
        rcases List.mem_cons.mp hid with rfl | hid
        · exact h.numbered.bounded j hj
        · exact h.givenRows id hid
  · rename_i s' hclaim
    rcases claimJob_eq_ok h.numbered hclaim with ⟨-, rfl, -⟩ | ⟨j, -, -, -, hsome, -⟩
    · exact h
    · cases hsome
  · exact h

/-! ### Finishing -/

theorem Keeps.finish (h : f.Keeps j) (now : Instant)
    {status : Status} (hstatus : status = .ok ∨ status = .failed) (code message : Text)
    (hmuddled : status = .ok → j.id ∉ muddled → code = [] ∧ message = []) :
    Keeps { f with store := s', held := f.held.filter (·.2 != j.id), muddled }
      (j.finished now status code message) := by
  have hrunning : status ≠ .running := by
    rintro rfl
    rcases hstatus with h | h <;> cases h
  refine ⟨by simp [Job.finished, hrunning], ?_, by simp [Job.finished, hstatus], ?_, h.attempt, h.started⟩
  · intro w
    simp [Job.finished]
  · intro hnot hmem
    have hok : status = .ok := hstatus.resolve_right hnot
    obtain ⟨rfl, rfl⟩ := hmuddled hok hmem
    exact ⟨rfl, rfl⟩

/-- A worker that finishes the job it holds keeps the books lawful. -/
theorem Lawful.finish (h : f.Lawful) (hfair : (Act.finish ctx worker id status code message).Fair f) :
    (f.after (.finish ctx worker id status code message)).Lawful := by
  obtain ⟨hheld, houtcome⟩ := hfair
  simp only [after]
  split
  · rename_i s' hfinish
    obtain ⟨j, hj, hid⟩ := h.heldRows _ hheld
    obtain rfl : j.id = id := hid
    obtain ⟨st, rfl, rfl⟩ := finishJob_eq_ok hfinish ⟨j, hj, rfl⟩
    have hst : st = .ok ∨ st = .failed := by
      revert houtcome
      cases st <;> decide
    refine ⟨numbered_changeJobs h.numbered fun _ _ _ => rfl, ?_, ?_, ?_, h.givenRows⟩
    · exact h.distinct.sublist (List.filter_sublist.map _)
    · intro k hk
      obtain ⟨i, hi, rfl⟩ := mem_changeJobs.mp hk
      by_cases hij : i.id = j.id
      · obtain rfl := h.numbered.eq_of_number hi hj hij
        rw [if_pos (by simp)]
        refine (h.rows i hi).finish ctx.now hst code message fun hok hnot => ?_
        rw [hok] at hnot
        exact not_mem_afterReport hnot
      · rw [if_neg (by simpa using hij)]
        refine (h.rows i hi).of_agree (fun w => ?_) rfl mem_afterReport
        simp [hij]
    · intro p hp
      obtain ⟨hp, -⟩ := List.mem_filter.mp hp
      obtain ⟨k, hk, hkid⟩ := h.heldRows p hp
      refine ⟨_, mem_changeJobs.mpr ⟨k, hk, rfl⟩, ?_⟩
      split <;> exact hkid
  · exact h

/-! ### Queueing again -/

theorem Keeps.requeued (h : f.Keeps j) (hstatus : j.status = .failed) (now : Instant) :
    Keeps { f with store := s' } (j.requeued now) := by
  have hnot := h.not_held (by rw [hstatus]; decide)
  refine ⟨by simp [Job.requeued], ?_, by simp [Job.requeued], fun _ _ => ⟨rfl, rfl⟩, h.attempt, h.started⟩
  intro w
  exact ⟨nofun, fun hmem => absurd hmem (hnot w)⟩

theorem Lawful.reset (h : f.Lawful) (ctx : Context) (stage : Text) : (f.after (.reset ctx stage)).Lawful := by
  simp only [after]
  split
  · rename_i n s' hreset
    obtain rfl := resetFailed_eq_ok hreset
    refine ⟨numbered_changeJobs h.numbered fun _ _ _ => rfl, h.distinct, ?_, ?_, h.givenRows⟩
    · intro k hk
      obtain ⟨i, hi, rfl⟩ := mem_changeJobs.mp hk
      split
      · rename_i hfailed
        simp only [Job.isFailed, Bool.and_eq_true, beq_iff_eq] at hfailed
        exact (h.rows i hi).requeued hfailed.2 ctx.now
      · exact (h.rows i hi).of_agree (fun _ => Iff.rfl) rfl id
    · intro p hp
      obtain ⟨k, hk, hid⟩ := h.heldRows p hp
      refine ⟨_, mem_changeJobs.mpr ⟨k, hk, rfl⟩, ?_⟩
      split <;> exact hid
  · exact h

theorem Lawful.after (h : f.Lawful) {act : Act} (hfair : act.Fair f) : (f.after act).Lawful := by
  cases act with
  | insert ctx d => exact h.insert hfair
  | claim ctx stage worker => exact h.claim ctx stage worker
  | finish ctx worker id status code message => exact h.finish hfair
  | reset ctx stage => exact h.reset ctx stage
  | elsewhere s =>
    exact ⟨h.numbered, h.distinct, fun j hj => (h.rows j hj).of_agree (fun _ => Iff.rfl) rfl id, h.heldRows,
      h.givenRows⟩

theorem Reached.lawful (h : f.Reached) : f.Lawful := by
  induction h with
  | start hnil => exact .start hnil
  | step _ hfair ih => exact ih.after hfair

end Floor

/-! ### Turns -/

/-- The operation fails, or it is about other jobs. -/
def Act.PassesOver (f : Floor) (id : Int) : Act → Prop
  | .insert ctx d => ∀ j s', f.store.insertJob ctx d = .ok (j, s') → j.id ≠ id
  | .claim ctx stage worker => ∀ j s', f.store.claimJob ctx stage worker = .ok (some j, s') → j.id ≠ id
  | .finish ctx _ n status code message => ∀ s', f.store.finishJob ctx n status code message = .ok s' → n ≠ id
  | .reset ctx stage => ∀ n s', f.store.resetFailed ctx stage = .ok (n, s') →
      ∀ j, f.store.job? id = some j → j.status = .failed → (j.stage.name : Text) ≠ stage
  | .elsewhere _ => True

/-- What an operation does to the job with a number: nothing, or one step from queued over running to ok or
failed, and from failed back to queued. -/
inductive Turn (f : Floor) : Act → Int → Option Job → Option Job → Prop
  | same {act : Act} {id : Int} {job : Option Job} (h : act.PassesOver f id) : Turn f act id job job
  | queued {ctx : Context} {d : Draft} {j : Job} {s' : Store} (h : f.store.insertJob ctx d = .ok (j, s'))
      (hstatus : j.status = .queued) : Turn f (.insert ctx d) j.id none (some j)
  | handedOut {ctx : Context} {stage worker : Text} {j : Job} {s' : Store}
      (h : f.store.claimJob ctx stage worker = .ok (some (j.claimed ctx.now worker), s'))
      (hstatus : j.status = .queued) :
      Turn f (.claim ctx stage worker) j.id (some j) (some (j.claimed ctx.now worker))
  | released {ctx : Context} {worker code message : Text} {j : Job} {status : Status}
      (hstatus : j.status = .running) (hlocked : j.lockedBy = some worker)
      (houtcome : status = .ok ∨ status = .failed) :
      Turn f (.finish ctx worker j.id status.name code message) j.id (some j)
        (some (j.finished ctx.now status code message))
  | again {ctx : Context} {j : Job} (hstatus : j.status = .failed) :
      Turn f (.reset ctx j.stage.name) j.id (some j) (some (j.requeued ctx.now))

namespace Floor
variable {f : Floor}

theorem Lawful.turn_insert (h : f.Lawful) {d : Draft} (hfair : (Act.insert ctx d).Fair f) (id : Int) :
    Turn f (.insert ctx d) id (f.store.job? id) ((f.after (.insert ctx d)).store.job? id) := by
  cases hinsert : f.store.insertJob ctx d with
  | error e =>
    simp only [Floor.after, hinsert]
    exact .same fun j s' hok => nomatch hinsert.symm.trans hok
  | ok r =>
    obtain ⟨j, s'⟩ := r
    obtain ⟨stage, status, -, hstatus, -, hj, hs'⟩ := insertJob_eq_ok hinsert
    have hqueued : j.status = .queued := by
      rw [hj]
      exact Option.some.inj (hstatus.symm.trans hfair.1)
    have hnew : (f.after (.insert ctx d)).store.job? id =
        (f.store.job? id).or (if j.id = id then some j else none) := by
      simp only [Floor.after, hinsert, hs', job?, List.find?_append]
      by_cases hid : j.id = id <;> simp [hid]
    by_cases hid : j.id = id
    · subst hid
      -- the number is above all that were given, so no job had it
      have hnone : f.store.job? j.id = none := by
        refine job?_eq_none.mpr fun k hk heq => ?_
        have hle := h.numbered.bounded k hk
        rw [heq, hj] at hle
        simp only [Draft.job] at hle
        omega
      rw [hnew, hnone, if_pos rfl]
      exact .queued hinsert hqueued
    · rw [hnew, if_neg hid, Option.or_none]
      refine .same fun k s'' hok => ?_
      obtain ⟨rfl, -⟩ := Prod.mk.inj (Except.ok.inj (hinsert.symm.trans hok))
      exact hid

theorem Lawful.turn_claim (h : f.Lawful) (ctx : Context) (stage worker : Text) (id : Int) :
    Turn f (.claim ctx stage worker) id (f.store.job? id) ((f.after (.claim ctx stage worker)).store.job? id) := by
  cases hclaim : f.store.claimJob ctx stage worker with
  | error e =>
    simp only [Floor.after, hclaim]
    exact .same fun j s' hok => nomatch hclaim.symm.trans hok
  | ok r =>
    obtain ⟨r, s'⟩ := r
    rcases claimJob_eq_ok h.numbered hclaim with ⟨rfl, rfl, -⟩ | ⟨j, hj, hawaits, -, rfl, rfl⟩
    · simp only [Floor.after, hclaim]
      exact .same fun j s' hok => nomatch hclaim.symm.trans hok
    · simp only [Floor.after, hclaim]
      have hkept : ∀ k : Job, (k.id == j.id) = true → (j.claimed ctx.now worker).id = k.id := by
        intro k hk
        exact (by simpa using hk : k.id = j.id).symm
      by_cases hid : j.id = id
      · subst hid
        rw [job?_changeJobs hkept, job?_of_mem h.numbered hj, Option.map_some, if_pos (by simp)]
        exact .handedOut hclaim (awaits_queued hawaits).1
      · rw [job?_changeJobs_of_ne hkept hid]
        refine .same fun k s'' hok => ?_
        have hk := (Prod.mk.inj (Except.ok.inj (hclaim.symm.trans hok))).1
        obtain rfl := Option.some.inj hk
        exact hid

theorem Lawful.turn_finish (h : f.Lawful) {n : Int}
    (hfair : (Act.finish ctx worker n status code message).Fair f) (id : Int) :
    Turn f (.finish ctx worker n status code message) id (f.store.job? id)
      ((f.after (.finish ctx worker n status code message)).store.job? id) := by
  obtain ⟨hheld, houtcome⟩ := hfair
  cases hfinish : f.store.finishJob ctx n status code message with
  | error e =>
    simp only [Floor.after, hfinish]
    exact .same fun s' hok => nomatch hfinish.symm.trans hok
  | ok s' =>
    obtain ⟨j, hj, hid⟩ := h.heldRows _ hheld
    obtain rfl : j.id = n := hid
    obtain ⟨st, rfl, rfl⟩ := finishJob_eq_ok hfinish ⟨j, hj, rfl⟩
    have hst : st = .ok ∨ st = .failed := by
      revert houtcome
      cases st <;> decide
    simp only [Floor.after, hfinish]
    have hkept : ∀ k : Job, (k.id == j.id) = true → (k.finished ctx.now st code message).id = k.id :=
      fun _ _ => rfl
    by_cases hid : j.id = id
    · subst hid
      rw [job?_changeJobs hkept, job?_of_mem h.numbered hj, Option.map_some, if_pos (by simp)]
      have hkeeps := h.rows j hj
      exact .released (hkeeps.running hheld) ((hkeeps.holder worker).mpr hheld) hst
    · rw [job?_changeJobs_of_ne hkept hid]
      exact .same fun _ _ => hid

theorem turn_reset (f : Floor) (ctx : Context) (stage : Text) (id : Int) :
    Turn f (.reset ctx stage) id (f.store.job? id) ((f.after (.reset ctx stage)).store.job? id) := by
  cases hreset : f.store.resetFailed ctx stage with
  | error e =>
    simp only [Floor.after, hreset]
    exact .same fun n s' hok => nomatch hreset.symm.trans hok
  | ok r =>
    obtain ⟨n, s'⟩ := r
    obtain rfl := resetFailed_eq_ok hreset
    simp only [Floor.after, hreset]
    rw [job?_changeJobs (f := Job.requeued ctx.now) fun _ _ => rfl]
    cases hjob : f.store.job? id with
    | none => exact .same fun _ _ _ j hj => nomatch hjob.symm.trans hj
    | some j =>
      obtain rfl := job?_id hjob
      rw [Option.map_some]
      split
      · rename_i hfailed
        simp only [Job.isFailed, Bool.and_eq_true, beq_iff_eq] at hfailed
        obtain ⟨rfl, hstatus⟩ := hfailed
        exact .again hstatus
      · rename_i hfailed
        refine .same fun _ _ _ k hk hstatus hstage => hfailed ?_
        obtain rfl := Option.some.inj (hjob.symm.trans hk)
        simp [Job.isFailed, hstatus, hstage]

theorem Lawful.turn (h : f.Lawful) {act : Act} (hfair : act.Fair f) (id : Int) :
    Turn f act id (f.store.job? id) ((f.after act).store.job? id) := by
  cases act with
  | insert ctx d => exact h.turn_insert hfair id
  | claim ctx stage worker => exact h.turn_claim ctx stage worker id
  | finish ctx worker n status code message => exact h.turn_finish hfair id
  | reset ctx stage => exact turn_reset f ctx stage id
  | elsewhere s => exact .same trivial

/-! ### Whose turn it is -/

/-- A claim gives the job that waits longest of those that may be handed out, or none if there is none. Where
all years have four digits, waiting is counted in time. -/
structure HandsOut (f : Floor) (ctx : Context) (stage worker : Text) : Prop where
  answers : f.store.Usable ctx → ∃ r s', f.store.claimJob ctx stage worker = .ok (r, s')
  none : ∀ s', f.store.claimJob ctx stage worker = .ok (none, s') →
    ∀ j ∈ f.store.jobs.rows, j.awaits ctx.now stage = false
  foremost : ∀ j' s', f.store.claimJob ctx stage worker = .ok (some j', s') →
    ∃ j ∈ f.store.jobs.rows, j.awaits ctx.now stage = true ∧ j' = j.claimed ctx.now worker ∧
      ∀ k ∈ f.store.jobs.rows, k.awaits ctx.now stage = true → k ≠ j → j.precedes k = true
  due : ∀ j : Job, Time.IsWritten j.availableAt → Time.IsWritten ctx.now →
    (j.awaits ctx.now stage = true ↔
      (j.stage.name : Text) = stage ∧ j.status = .queued ∧ j.availableAt ≤ ctx.now)
  sooner : ∀ j k : Job, Time.IsWritten j.availableAt → Time.IsWritten k.availableAt →
    (j.precedes k = true ↔ j.availableAt < k.availableAt ∨ j.availableAt = k.availableAt ∧ j.id < k.id)

theorem Lawful.handsOut (h : f.Lawful) (ctx : Context) (stage worker : Text) : f.HandsOut ctx stage worker where
  answers husable := by
    rw [claimJob_eq, husable.access]
    exact ⟨_, _, rfl⟩
  none s' hclaim := by
    rcases claimJob_eq_ok h.numbered hclaim with ⟨-, -, hnone⟩ | ⟨j, -, -, -, hsome, -⟩
    · exact hnone
    · cases hsome
  foremost j' s' hclaim := by
    rcases claimJob_eq_ok h.numbered hclaim with ⟨hnone, -⟩ | ⟨j, hj, hawaits, hleast, hsome, -⟩
    · cases hnone
    · exact ⟨j, hj, hawaits, Option.some.inj hsome, hleast⟩
  due _ hj hnow := awaits_iff hj hnow
  sooner _ _ hj hk := precedes_iff_lt hj hk

end Floor

/-- Whatever workers do in whatever order, every row says what became of its job, every job takes one turn at a
time and is held by one worker at most, and every claim hands out the job that waits longest. -/
theorem queue_orderly {f : Floor} (h : f.Reached) :
    (∀ j ∈ f.store.jobs.rows, f.Keeps j) ∧ (f.store.jobs.rows.map Job.id).Nodup ∧
      (f.held.map Prod.snd).Nodup ∧
      (∀ act, act.Fair f → ∀ id, Turn f act id (f.store.job? id) ((f.after act).store.job? id)) ∧
      ∀ ctx stage worker, f.HandsOut ctx stage worker := by
  have hlawful := h.lawful
  exact ⟨hlawful.rows, hlawful.numbered.nodup, hlawful.distinct, fun _ hfair id => hlawful.turn hfair id,
    hlawful.handsOut⟩

/-- A job that failed in the hands of one worker and is in the hands of another. -/
def retried : Floor :=
  let sample : Sample := ⟨1, none, "a", "d", [], "x", [], [], 0⟩
  let shop : Store := { Store.empty with samples := ⟨[sample], 1⟩ }
  let ctx (now : Instant) : Context := ⟨now, false⟩
  ((((Floor.after ⟨shop, [], [], []⟩ (.insert (ctx 5) ⟨1, "verify", [], 0, 3⟩)).after
    (.claim (ctx 6) "verify" "w")).after (.finish (ctx 7) "w" 1 "failed" "E" "no")).after
    (.reset (ctx 8) "verify")).after (.claim (ctx 9) "verify" "v")

theorem queue_orderly_retried :
    retried.held = [(("v" : Text), 1)] ∧ retried.given = [1, 1] ∧
      (∀ j ∈ retried.store.jobs.rows, retried.Keeps j) ∧ (retried.store.job? 1).map Job.attempt = some 2 := by
  refine ⟨by decide, by decide, (queue_orderly ?_).1, by decide⟩
  unfold retried
  refine .step ?_ trivial
  refine .step ?_ trivial
  refine .step ?_ ⟨by decide, .inr rfl⟩
  refine .step ?_ trivial
  exact .step (.start rfl) ⟨rfl, rfl⟩

/-- A job that was reported as a success with an error, and one that is to wait for the year 10000. -/
def unruly : Floor :=
  let sample : Sample := ⟨1, none, "a", "d", [], "x", [], [], 0⟩
  let shop : Store := { Store.empty with samples := ⟨[sample], 1⟩ }
  let ctx (now : Instant) : Context := ⟨now, false⟩
  (((Floor.after ⟨shop, [], [], []⟩ (.insert (ctx 5) ⟨1, "verify", [], 0, 3⟩)).after
    (.claim (ctx 6) "verify" "w")).after (.finish (ctx 7) "w" 1 "ok" "E" "no")).after
    (.insert (ctx 8) ⟨1, "verify", [], 0, 253402315200⟩)

/-- A job that is ok may have an error, and one may be handed out thousands of years before its time, since a year
of five digits is written before all others. -/
theorem unruly_reached :
    unruly.Reached ∧
      (unruly.store.job? 1).map (fun j => (j.status, j.code, j.message)) =
        some (Status.ok, some ("E" : Text), some ("no" : Text)) ∧
      (unruly.store.job? 2).map (fun j => (j.status, j.availableAt)) = some (Status.queued, 253402315200) ∧
      (unruly.store.claimJob ⟨9, false⟩ "verify" "v").toOption.map (fun r => r.1.map Job.id) = some (some 2) := by
  refine ⟨?_, by decide, by decide, by decide +kernel⟩
  unfold unruly
  refine .step ?_ ⟨rfl, rfl⟩
  refine .step ?_ ⟨by decide, .inl rfl⟩
  refine .step ?_ trivial
  exact .step (.start rfl) ⟨rfl, rfl⟩

end Anadil.Store
