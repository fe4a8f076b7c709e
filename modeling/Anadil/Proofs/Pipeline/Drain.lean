import Anadil.Proofs.Pipeline.Release

/-! # Draining a stage

A worker that drains a stage takes the jobs that may be handed out one by one, the one that waits longest first. Every
job that it takes ends, and no stage queues jobs for itself, so what may be handed out at the start is all there is to
take. -/

namespace Anadil.Store

variable {now : Instant} {st st' : Store}

/-! ### Jobs that are due -/

/-- All jobs of a stage that may be handed out now, the one that waits longest first. -/
structure Due (s : Store) (now : Instant) (stage : Text) (line : List Job) : Prop where
  mem : ∀ j, j ∈ line ↔ j ∈ s.jobs.rows ∧ j.awaits now stage = true
  order : line.Pairwise fun a b => a.precedes b = true

theorem stage_eq {a b : Job} {stage : Text} (ha : (a.stage.name : Text) = stage)
    (hb : b.awaits now stage = true) : a.stage = b.stage :=
  Option.some.inj ((Stage.ofName?_eq_some.mpr ha).symm.trans (Stage.ofName?_eq_some.mpr (awaits_queued hb).2))

namespace Due
variable {s : Store} {stage : Text} {line : List Job} {j : Job}

theorem ids_nodup (h : s.Due now stage line) (hn : s.jobs.Numbered Job.id) : (line.map Job.id).Nodup := by
  refine List.pairwise_map.mpr (h.order.imp_of_mem fun {a b} ha hb hab heq => ?_)
  rw [hn.eq_of_number ((h.mem a).mp ha).1 ((h.mem b).mp hb).1 heq, precedes_irrefl] at hab
  cases hab

theorem length (h : s.Due now stage line) (hn : s.jobs.Numbered Job.id) :
    line.length = s.jobs.rows.countP (Job.awaits now stage) := by
  have hline : line.Nodup := List.Nodup.of_map _ (h.ids_nodup hn)
  have hrows : (s.jobs.rows.filter (Job.awaits now stage)).Nodup := (List.Nodup.of_map _ hn.nodup).filter _
  rw [List.countP_eq_length_filter]
  exact ((List.perm_ext_iff_of_nodup hline hrows).mpr fun j => (h.mem j).trans List.mem_filter.symm).length_eq

end Due

end Anadil.Store

namespace Anadil.Pipeline
open Store (Job Sample Stage Status)

namespace Worker
variable {w : Worker} {stage : Text} {s s' : State} {j : Job} {f : Option Fault}

/-! ### One job -/

/-- A store after a job: other jobs stay, and new ones are of other stages. -/
structure Beside (j : Job) (st st' : Store) : Prop where
  kept : ∀ k ∈ st.jobs.rows, k.id ≠ j.id → k ∈ st'.jobs.rows
  added : ∀ k ∈ st'.jobs.rows, k.id ≠ j.id → k ∈ st.jobs.rows ∨ k.stage ≠ j.stage

/-- Only a compilation queues jobs, and none of them is a compilation. -/
theorem Executed.added {stage : Stage} {sample : Sample} {r : Except Fault Unit}
    (h : Executed w stage sample now st r st') : ∀ k ∈ st'.jobs.rows, k ∈ st.jobs.rows ∨ k.stage ≠ stage := by
  intro k hk
  rcases h with ⟨houtline, -⟩ | ⟨rfl, -, python, rfl⟩
  · have hjobs : st'.jobs = st.jobs := congrArg (·.2.1) houtline
    exact .inl (hjobs ▸ hk)
  · have hqueued : ∀ {st₁ : Store} {stage}, stage ≠ Stage.transpile → k ∈ (st₁.enqueue sample.id stage now).jobs.rows →
        k ∈ st₁.jobs.rows ∨ k.stage ≠ .transpile := by
      intro st₁ stage hstage hk
      rcases List.mem_append.mp hk with hk | hk
      · exact .inl hk
      · rw [List.mem_singleton.mp hk]
        exact .inr hstage
    unfold compiled at hk
    split at hk
    · rcases hqueued (by decide) hk with hk | hk
      · exact hqueued (by decide) hk
      · exact .inr hk
    · exact hqueued (by decide) hk

theorem Beside.finish (h : Beside j st st') (now : Instant) (status : Status) (code message : Text) :
    Beside j st (st'.changeJobs (·.id == j.id) (Job.finished now status code message)) := by
  have hrows : ∀ {k : Job}, k.id ≠ j.id → (k ∈ (st'.changeJobs (·.id == j.id)
      (Job.finished now status code message)).jobs.rows ↔ k ∈ st'.jobs.rows) :=
    fun hne => Store.mem_changeJobs_of_ne (fun _ hid => hid) hne
  exact ⟨fun k hk hne => (hrows hne).mpr (h.kept k hk hne), fun k hk hne => h.added k ((hrows hne).mp hk) hne⟩

/-- Handling a job leaves the other jobs alone, and adds none of its stage. -/
theorem Handled.beside (h : Handled w j now st f st')
    (hready : st.condition = .ready) : Beside j st st' ∧ st'.condition = .ready := by
  have hclaimed : ∀ {k : Job}, k.id ≠ j.id → (k ∈ (w.handOut now st j).jobs.rows ↔ k ∈ st.jobs.rows) :=
    fun hne => Store.mem_changeJobs_of_ne (fun _ _ => rfl) hne
  rcases h with ⟨-, code, message, rfl⟩ | ⟨sample, -, -, result, mid, hexecuted, hend⟩
  · have hout : Beside j st (w.handOut now st j) :=
      ⟨fun k hk hne => (hclaimed hne).mpr hk, fun k hk hne => .inl ((hclaimed hne).mp hk)⟩
    exact ⟨hout.finish _ _ _ _, hready⟩
  · obtain ⟨hcondition, hrows⟩ := hexecuted.mid hready
    have hmid : Beside j st mid := ⟨fun k hk hne => hrows k ((hclaimed hne).mpr hk),
      fun k hk hne => (hexecuted.added k hk).imp_left (hclaimed hne).mp⟩
    rcases hend with ⟨-, -, rfl⟩ | ⟨-, -, code, message, rfl⟩
    · exact ⟨hmid.finish _ _ _ _, hcondition⟩
    · exact ⟨hmid.finish _ _ _ _, hcondition⟩

/-- What the worker needs to do its jobs, and has behind each of them. -/
structure Fit (s : State) : Prop where
  lease : s.lease = none
  ready : s.store.condition = .ready
  numbered : s.store.jobs.Numbered Job.id

/-- A job came to its end, well if nothing went wrong. -/
structure Ended (w : Worker) (j : Job) (f : Option Fault) (s s' : State) : Prop where
  now : s'.now = s.now
  row : ∃ code message, s'.store.job? j.id =
    some ((j.claimed s.now w.id).finished s.now (if f.isNone then .ok else .failed) code message)
  beside : Beside j s.store s'.store
  fit : Fit s'

/-- A worker does jobs of a stage one after another, each time the one that is next. -/
inductive Serves (w : Worker) (stage : Text) : State → List (Job × Option Fault) → State → Prop where
  | stop (s : State) : Serves w stage s [] s
  | step {s s₁ s' : State} {j : Job} {f : Option Fault} {served : List (Job × Option Fault)}
    (hnext : s.store.next? s.now stage = some j) (hprocess : w.process stage s = .ok (.worked f) s₁)
    (hended : Ended w j f s s₁) (hrest : Serves w stage s₁ served s') : Serves w stage s ((j, f) :: served) s'

/-- A job that ended is not due any more, and it made no other job due. -/
theorem Ended.due {rest : List Job} (h : Ended w j f s s') (hdue : s.store.Due s.now stage (j :: rest))
    (hn : s.store.jobs.Numbered Job.id) : s'.store.Due s'.now stage rest where
  mem k := by
    obtain ⟨code, message, hrow⟩ := h.row
    obtain ⟨hj, hawaits⟩ := (hdue.mem j).mp List.mem_cons_self
    rw [h.now]
    constructor
    · intro hk
      obtain ⟨hrows, hkawaits⟩ := (hdue.mem k).mp (List.mem_cons_of_mem _ hk)
      refine ⟨h.beside.kept k hrows fun hid => ?_, hkawaits⟩
      have hprecedes := (List.pairwise_cons.mp hdue.order).1 k hk
      rw [hn.eq_of_number hrows hj hid, Store.precedes_irrefl] at hprecedes
      cases hprecedes
    · rintro ⟨hrows, hkawaits⟩
      obtain ⟨hqueued, hstage⟩ := Store.awaits_queued hkawaits
      have hne : k.id ≠ j.id := by
        intro hid
        have hfinal := Store.job?_of_mem h.fit.numbered hrows
        rw [hid, hrow] at hfinal
        rw [← Option.some.inj hfinal] at hqueued
        cases f <;> cases hqueued
      have hold := (h.beside.added k hrows hne).resolve_right (not_not_intro (Store.stage_eq hstage hawaits))
      rcases List.mem_cons.mp ((hdue.mem k).mpr ⟨hold, hkawaits⟩) with rfl | hk
      · exact absurd rfl hne
      · exact hk
  order := (List.pairwise_cons.mp hdue.order).2

theorem process_idle (h : Fit s) (hnext : s.store.next? s.now stage = none) :
    w.process stage s = .ok (.idle none) s := by
  obtain ⟨_, _, hprocess, rfl, rfl⟩ := (gives_idle (w := w) (usable h.lease h.ready) hnext).run
  rw [hprocess, spend_eq h.lease]

/-- A tally after more jobs, with what went wrong with each. -/
def tally (t : Tally) (served : List (Job × Option Fault)) : Tally :=
  ⟨t.processed + served.length, t.failed + served.countP (·.2.isSome)⟩

theorem tally_cons (t : Tally) (j : Job) (f : Option Fault) (served : List (Job × Option Fault)) :
    tally t ((j, f) :: served) = tally (t.add f.isSome) served := by
  cases f <;> simp [tally, Tally.add] <;> omega

theorem drainWithin_round {limit : Int} {t : Tally} (hlimit : ¬(0 < limit ∧ limit ≤ t.processed))
    (hlease : s.lease = none) {p : Progress} (hprocess : w.process stage s = .ok p s') (fuel : Nat) :
    w.drainWithin stage limit (fuel + 1) t s = match p with
      | .idle f => .ok (t, f) s'
      | .worked f => w.drainWithin stage limit fuel (t.add f.isSome) s' := by
  have hcanceled : s.canceled = false := by rw [State.canceled, hlease]; rfl
  have hget : (get : Work State) s = .ok s s := rfl
  rw [Worker.drainWithin, if_neg hlimit]
  simp only [bind, EStateM.bind, hget, hcanceled, Bool.false_eq_true, if_false, hprocess]
  cases p <;> rfl

/-- A drain does what serving does, if its fuel is enough. -/
theorem Serves.drainWithin {served : List (Job × Option Fault)} (h : w.Serves stage s served s') (hfit : Fit s)
    {limit : Int} {t : Tally} (hbelow : 0 < limit → t.processed + served.length ≤ limit)
    (hstop : 0 < limit ∧ limit ≤ t.processed + served.length ∨ s'.store.next? s'.now stage = none)
    {fuel : Nat} (hfuel : served.length < fuel) :
    w.drainWithin stage limit fuel t s = .ok (tally t served, none) s' := by
  obtain ⟨fuel, rfl⟩ := Nat.exists_eq_add_one.mpr (Nat.zero_lt_of_lt hfuel)
  -- on what is served: one round of the drain for each job, and a last one that finds none
  induction h generalizing t fuel with
  | stop s =>
    by_cases hlimit : 0 < limit ∧ limit ≤ t.processed
    · rw [Worker.drainWithin, if_pos hlimit]
      rfl
    · have hnext := hstop.resolve_left (by simpa using hlimit)
      rw [drainWithin_round hlimit hfit.lease (process_idle hfit hnext)]
      rfl
  | step hnext hprocess hended hrest ih =>
    rw [List.length_cons] at hbelow hstop hfuel
    rw [drainWithin_round (by omega) hfit.lease hprocess, tally_cons]
    obtain ⟨fuel, rfl⟩ := Nat.exists_eq_add_one.mpr (Nat.zero_lt_of_lt (Nat.lt_of_succ_lt_succ hfuel))
    have hadd : ∀ failed, ((t.add failed).processed : Int) = t.processed + 1 := fun _ => rfl
    refine ih hended.fit (fun hlimit => ?_) (hstop.imp_left fun hlimit => ⟨hlimit.1, ?_⟩) fuel (by omega)
    · have hle := hbelow hlimit
      rw [hadd]
      omega
    · have hle := hlimit.2
      rw [hadd]
      omega

/-! ### What a round leaves -/

namespace Serves
variable {served : List (Job × Option Fault)}

theorem fit (h : w.Serves stage s served s') (hfit : Fit s) : Fit s' ∧ s'.now = s.now := by
  induction h with
  | stop s => exact ⟨hfit, rfl⟩
  | step hnext hprocess hended hrest ih =>
    obtain ⟨hfit', hnow⟩ := ih hended.fit
    exact ⟨hfit', hnow.trans hended.now⟩

theorem kept (h : w.Serves stage s served s') {k : Job} (hk : k ∈ s.store.jobs.rows)
    (hother : ∀ p ∈ served, k.id ≠ p.1.id) : k ∈ s'.store.jobs.rows := by
  induction h with
  | stop s => exact hk
  | step hnext hprocess hended hrest ih =>
    rw [List.forall_mem_cons] at hother
    exact ih (hended.beside.kept k hk hother.1) hother.2

theorem row (h : w.Serves stage s served s') (hfit : Fit s) (hids : (served.map fun p => p.1.id).Nodup) :
    ∀ p ∈ served, ∃ code message, s'.store.job? p.1.id =
      some ((p.1.claimed s.now w.id).finished s.now (if p.2.isNone then .ok else .failed) code message) := by
  induction h with
  | stop s => exact fun p hp => absurd hp List.not_mem_nil
  | @step s s₁ s' j f served hnext hprocess hended hrest ih =>
    rw [List.map_cons, List.nodup_cons] at hids
    rw [List.forall_mem_cons]
    constructor
    · obtain ⟨code, message, hrow⟩ := hended.row
      refine ⟨code, message, ?_⟩
      have hmem := hrest.kept (Store.mem_of_job? hrow) fun p hp heq => hids.1 (List.mem_map.mpr ⟨p, hp, ?_⟩)
      · exact Store.job?_of_mem (hrest.fit hended.fit).1.numbered hmem
      · exact heq.symm
    · rw [← hended.now]
      exact ih hended.fit hids.2

theorem old (h : w.Serves stage s served s') (hfit : Fit s) {k : Job} (hk : k ∈ s'.store.jobs.rows)
    (hstage : (k.stage.name : Text) = stage) : ∃ i ∈ s.store.jobs.rows, i.id = k.id ∧ i.stage = k.stage := by
  induction h with
  | stop s => exact ⟨k, hk, rfl, rfl⟩
  | @step s s₁ s' j f served hnext hprocess hended hrest ih =>
    obtain ⟨i, hi, hid, hsame⟩ := ih hended.fit hk
    obtain ⟨hj, -, hawaits⟩ := Store.mem_of_next? hfit.numbered hnext
    have hjstage : i.stage = j.stage := Store.stage_eq (hsame ▸ hstage) hawaits
    -- no job adds one to its own stage
    by_cases hij : i.id = j.id
    · exact ⟨j, hj, hij.symm.trans hid, hjstage.symm.trans hsame⟩
    · exact ⟨i, (hended.beside.added i hi hij).resolve_right (not_not_intro hjstage), hid, hsame⟩

end Serves

end Worker

end Anadil.Pipeline
