import Anadil.Proofs.Pipeline.Pace
import Anadil.Proofs.Pipeline.Verdicts

/-! # The release of claimed jobs

A job is marked as running when it is claimed, and this mark is taken away when the job is closed. Closing it is a use
of the store like any other. So the job is released if the work is not called off before that, and if it is, the job
stays claimed and nothing that happens later brings it back. The same becomes of a job that was handed out so often
that it cannot be read: it is claimed, and nobody does it. -/

namespace Anadil.Pipeline

open Store (Job Sample Stage Status)

/-! ### What becomes of the rows -/

/-- One job was given another row, and no other job began to run or ceased to. -/
structure Handed (j j' : Job) (st st' : Store) : Prop where
  numbered : st'.jobs.Numbered Job.id
  row : st'.job? j.id = some j'
  others : ∀ k : Job, k.status = .running → k.id ≠ j.id → (k ∈ st'.jobs.rows ↔ k ∈ st.jobs.rows)

namespace Handed
variable {j j' : Job} {st st' : Store}

theorem enqueue (h : Handed j j' st st') (sample : Int) (stage : Stage) (now : Instant) :
    Handed j j' st (st'.enqueue sample stage now) where
  numbered := h.numbered.add rfl
  row := by
    have hrow := h.row
    rw [Store.job?] at hrow ⊢
    rw [Store.enqueue, List.find?_append, hrow]
    rfl
  others k hk hne := by
    rw [← h.others k hk hne, Store.enqueue, List.mem_append, List.mem_singleton, or_iff_left]
    rintro rfl
    cases hk

theorem change (h : Handed j j' st st') {f : Job → Job} (hf : ∀ k, k.id = j.id → (f k).id = j.id) :
    Handed j (f j') st (st'.changeJobs (·.id == j.id) f) where
  numbered := Store.numbered_changeJobs h.numbered fun k _ hk => (hf k (beq_iff_eq.mp hk)).trans (beq_iff_eq.mp hk).symm
  row := by
    rw [Store.job?_changeJobs fun k hk => (hf k (beq_iff_eq.mp hk)).trans (beq_iff_eq.mp hk).symm, h.row,
      Option.map_some, if_pos (beq_iff_eq.mpr (Store.job?_id h.row))]
  others k hk hne := by rw [← h.others k hk hne, Store.mem_changeJobs_of_ne hf hne]

/-- If a queued job was handed on, the jobs that run are those from before and it, if it runs. -/
theorem mem_running (h : Handed j j' st st') (hn : st.jobs.Numbered Job.id) (hj : j ∈ st.jobs.rows)
    (hqueued : j.status = .queued) {k : Job} :
    k ∈ st'.running ↔ k ∈ st.running ∨ k = j' ∧ j'.status = .running := by
  rw [Store.mem_running, Store.mem_running]
  -- under its number there was the queued job before and there is the row it became now
  by_cases hid : k.id = j.id
  · have hbefore : ¬(k ∈ st.jobs.rows ∧ k.status = .running) := by
      rintro ⟨hk, hrunning⟩
      rw [hn.eq_of_number hk hj hid, hqueued] at hrunning
      cases hrunning
    rw [or_iff_right hbefore]
    constructor
    · rintro ⟨hk, hrunning⟩
      have hrow := Store.job?_of_mem h.numbered hk
      rw [hid, h.row] at hrow
      obtain rfl := Option.some.inj hrow
      exact ⟨rfl, hrunning⟩
    · rintro ⟨rfl, hrunning⟩
      exact ⟨Store.mem_of_job? h.row, hrunning⟩
  · have hne : k ≠ j' := fun heq => hid (heq ▸ Store.job?_id h.row)
    rw [or_iff_left fun hk => hne hk.1]
    exact and_congr_left fun hrunning => h.others k hrunning hid

end Handed

theorem handed_handOut {st : Store} (hn : st.jobs.Numbered Job.id) {j : Job} (hj : j ∈ st.jobs.rows) (w : Worker)
    (now : Instant) : Handed j (j.claimed now w.id) st (w.handOut now st j) := by
  have hself : Handed j j st st := ⟨hn, Store.job?_of_mem hn hj, fun _ _ _ => Iff.rfl⟩
  exact hself.change (f := fun _ => j.claimed now w.id) fun _ _ => rfl

/-! ### Looking at a claimed job and closing it -/

namespace Worker

section Looking
variable (w : Worker) (job : Job)

theorem paced_look : Paced (w.look job) := composes_paced.look fun sample => w.paced_execute sample job.stage

theorem maintains_look {P : State → Prop} (h : Durable P) : Maintains P (w.look job) :=
  h.inert.composes.look (h.execute w job.stage)

/-- Whatever becomes of the job, it is found out. -/
theorem gives_look (s : State) : Gives (w.look job) s fun _ _ => True := by
  refine (ends_getSample job.sample s).attempt.bind fun found s' _ => ?_
  rcases found with f | _ | sample
  · exact gives_pure trivial
  · exact gives_pure trivial
  · exact (ends_true _ s').attempt.bind fun _ _ _ => gives_pure trivial

end Looking

section Closing
variable {s : State} {job : Job}

theorem paced_close (finding : Finding) : Paced (close job finding) :=
  composes_paced.close (fun _ _ _ _ => paced_update _) job finding

variable (hs : s.canceled = true)
include hs

theorem ends_finish_canceled (id : Int) (status code message : Text) :
    Ends (finish id status code message) s fun r s' => (∃ e, r = .error e) ∧ s'.store = s.store := by
  refine ends_update (fun u st hok => ?_) fun e _ => ⟨⟨e, rfl⟩, rfl⟩
  simp only [bind_eq_ok] at hok
  obtain ⟨st', hfinish, -⟩ := hok
  exact absurd hfinish (Store.access_canceled hs)

theorem gives_fail_canceled (code : Fault.Code) (message : Text) :
    Gives (fail job code message) s fun _ s' => s'.store = s.store :=
  (ends_finish_canceled hs _ _ _ _).attempt.bind fun _ _ h => gives_pure h.2

/-- When the work was called off a job cannot be closed, and this is told. -/
theorem gives_close_canceled (finding : Finding) :
    Gives (close job finding) s fun f s' => (∃ f', f = some f') ∧ s'.store = s.store := by
  rcases finding with ⟨message, f⟩ | ⟨sample, f | ⟨⟨⟩⟩⟩
  · exact (gives_fail_canceled hs _ _).bind fun _ _ h => gives_pure ⟨⟨f, rfl⟩, h⟩
  · refine (gives_note _).bind fun _ s₁ h₁ => ?_
    obtain ⟨log, rfl⟩ := h₁
    exact (gives_fail_canceled (s := { s with log }) hs _ _).bind fun _ _ h => gives_pure ⟨⟨f, rfl⟩, h⟩
  · have hsucceed : Ends (succeed job) s fun r s' => (∃ e, r = .error e) ∧ s'.store = s.store := by
      refine Ends.explain ((ends_finish_canceled hs _ _ _ _).imp fun r s' h => ?_)
      obtain ⟨⟨e, rfl⟩, hstore⟩ := h
      exact ⟨⟨_, rfl⟩, hstore⟩
    refine hsucceed.attempt.bind fun r s₁ h => ?_
    obtain ⟨⟨e, rfl⟩, hstore⟩ := h
    exact gives_pure ⟨⟨e, rfl⟩, hstore⟩

end Closing

theorem ends_claim_idle {w : Worker} {stage : Text} {s : State}
    (h : ¬s.store.Usable s.context ∨ s.store.next? s.now stage = none) :
    Ends (claim stage w.id) s fun r s' => (r = .ok none ∨ ∃ e, r = .error e) ∧ s'.store = s.store := by
  refine Ends.bind (P := fun r s' => (r = .ok none ∨ ∃ e, r = .error e) ∧ s'.store = s.store)
    (ends_update (fun r st hok => ?_) fun e _ => ⟨.inr ⟨e, rfl⟩, rfl⟩) (fun r s' hs' => ?_) fun e s' hs' => ?_
  · rw [Store.claimJob_eq, Store.access_eq_ok, Store.usable_iff] at hok
    have hnext : Store.foremost? (s.store.jobs.rows.filter (Job.awaits s.context.now stage)) = none :=
      h.resolve_left fun hnot => hnot hok.1
    rw [hnext] at hok
    obtain ⟨rfl, rfl⟩ := Prod.mk.inj (Except.ok.inj hok.2)
    exact ⟨.inl rfl, rfl⟩
  · rcases hs' with ⟨hr | ⟨e, he⟩, hstore⟩
    · obtain rfl := Except.ok.inj hr
      exact ends_pure ⟨.inl rfl, hstore⟩
    · cases he
  · exact ⟨.inr ⟨e, rfl⟩, hs'.2⟩

/-! ### Attempts -/

/-- Nothing was claimed and nothing was changed. -/
def Untouched (w : Worker) (stage : Text) (s : State) : Prop :=
  Ends (w.process stage) s fun r s' => (∃ f, r = .ok (.idle f)) ∧ s'.store = s.store

/-- What becomes of the job that is next, by when the work is called off. -/
inductive Attempted (w : Worker) (stage : Text) (s : State) : Prop where
  /-- There is none. -/
  | idle (hnext : s.store.condition ≠ .ready ∨ s.store.next? s.now stage = none)
      (h : ∀ l, Untouched w stage (s.leased l))
  /-- It was handed out too often to be read. It is marked as running, and nobody does it. -/
  | unreadable (j : Job) (hnext : s.store.next? s.now stage = some j) (hattempt : Store.mostAttempts ≤ j.attempt + 1)
      (hnone : Untouched w stage (s.leased (some 0)))
      (h : ∀ l, l ≠ some 0 → Ends (w.process stage) (s.leased l) fun r s' =>
        (∃ f, r = .ok (.idle (some f))) ∧ Handed j (j.claimed s.now w.id) s.store s'.store)
  /-- It takes `n` uses, of which the first claims and the last releases it. Called off in between, it stays claimed. -/
  | held (j : Job) (hnext : s.store.next? s.now stage = some j) (n : Nat) (hn : 1 < n)
      (hnone : Untouched w stage (s.leased (some 0)))
      (hshort : ∀ k, 0 < k → k < n → Ends (w.process stage) (s.leased (some k)) fun r s' =>
        (∃ f, r = .ok (.worked (some f))) ∧ s'.lease = some 0 ∧
          Handed j (j.claimed s.now w.id) s.store s'.store)
      (henough : ∀ l : Option Nat, (∀ k ∈ l, n ≤ k) → Ends (w.process stage) (s.leased l) fun r s' =>
        ∃ f code message, r = .ok (.worked f) ∧ Handed j ((j.claimed s.now w.id).finished s.now
          (if f.isNone then .ok else .failed) code message) s.store s'.store)

section Attempts
variable {w : Worker} {stage : Text} {s : State} {j : Job}

theorem untouched (h : ¬s.store.Usable s.context ∨ s.store.next? s.now stage = none) : Untouched w stage s := by
  unfold Untouched
  rw [process_eq]
  refine (ends_claim_idle h).attempt.bind fun r s' hr => ?_
  obtain ⟨rfl | ⟨e, rfl⟩, hstore⟩ := hr
  · exact ends_pure ⟨⟨_, rfl⟩, hstore⟩
  · exact ends_pure ⟨⟨_, rfl⟩, hstore⟩

/-- The state in which a worker has claimed a job. -/
def claimed (w : Worker) (j : Job) (s : State) : State :=
  { s with lease := none, store := w.handOut s.now s.store j }

/-- One state follows another by a claim of a job, up to what the claim wrote. -/
def Claimed (w : Worker) (j : Job) (s s' : State) : Prop :=
  s'.now = s.now ∧ s'.store.condition = .ready ∧ Handed j (j.claimed s.now w.id) s.store s'.store

theorem durable_claimed (w : Worker) (j : Job) (s : State) : Durable (Claimed w j s) where
  beside _ _ _ h := h
  artifacts _ h := ⟨h.1, h.2.1, ⟨h.2.2.numbered, h.2.2.row, h.2.2.others⟩⟩
  enqueue _ _ _ h := ⟨h.1, h.2.1, h.2.2.enqueue _ _ _⟩

/-- Called off before it is closed, a claimed job stays claimed. -/
theorem ends_attend_canceled {job : Job} {s' : State} (hs' : Claimed w j s s')
    (hlook : Ends (w.look job) s' fun _ s'' => s''.lease = some 0) :
    Ends (w.attend (.ok (some job))) s' fun r s'' => (∃ f, r = .ok (.worked (some f))) ∧ s''.lease = some 0 ∧
      Handed j (j.claimed s.now w.id) s.store s''.store := by
  have hclaimed := w.maintains_look job (durable_claimed w j s) s' hs'
  refine ((w.gives_look job s').and (hclaimed.and hlook)).bind fun finding s₁ h₁ => ?_
  obtain ⟨-, ⟨-, -, hhanded⟩, hlease⟩ := h₁
  have hcanceled : s₁.canceled = true := by rw [State.canceled, hlease]; rfl
  refine ((gives_close_canceled hcanceled finding).and ((paced_close finding).spent s₁ hlease)).bind fun f s₂ h₂ => ?_
  obtain ⟨⟨⟨f', rfl⟩, hstore⟩, hlease'⟩ := h₂
  exact ends_pure ⟨⟨f', rfl⟩, hlease', hstore ▸ hhanded⟩

/-- Not called off, it is closed. -/
theorem ends_attend {job : Job} (hid : job.id = j.id) {s' : State} (hs' : Claimed w j s s')
    (hlook : Ends (w.look job) s' fun _ s'' => s''.canceled = false) :
    Ends (w.attend (.ok (some job))) s' fun r s'' => ∃ f code message, r = .ok (.worked f) ∧
      Handed j ((j.claimed s.now w.id).finished s.now (if f.isNone then .ok else .failed) code message)
        s.store s''.store := by
  have hclaimed := w.maintains_look job (durable_claimed w j s) s' hs'
  refine ((w.gives_look job s').and (hclaimed.and hlook)).bind fun finding s₁ h₁ => ?_
  obtain ⟨-, ⟨hnow, hready, hhanded⟩, hcanceled⟩ := h₁
  have hrow : ∃ k ∈ s₁.store.jobs.rows, k.id = job.id :=
    ⟨_, Store.mem_of_job? hhanded.row, (Store.job?_id hhanded.row).trans hid.symm⟩
  obtain ⟨code, message, hclosing⟩ := finding.closing_eq s.now
  refine (gives_close hcanceled hready hrow finding).bind fun f s₂ h₂ => ?_
  obtain ⟨rfl, hstore⟩ := h₂
  refine ends_pure ⟨_, code, message, rfl, ?_⟩
  rw [hstore, hid, hnow, hclosing]
  exact hhanded.change (f := Job.finished s.now _ code message) fun _ hk => hk

/-- Processing goes on behind the claim. -/
theorem ends_process_claimed {l : Option Nat} (hready : s.store.condition = .ready) (hl : l ≠ some 0)
    (hnext : s.store.next? s.now stage = some j) {r : Except Fault Job} (hread : (j.claimed s.now w.id).read = r)
    {Q : Except Fault Progress → State → Prop}
    (h : Ends (w.attend (some <$> r.mapError (Fault.behind "claim work"))) ((claimed w j s).leased (l.map (· - 1))) Q) :
    Ends (w.process stage) (s.leased l) Q := by
  have husable : (s.leased l).store.Usable (s.leased l).context :=
    ⟨hready, by simpa [State.context, State.canceled, State.leased] using hl⟩
  rw [process_eq]
  refine (ends_claim husable hnext).attempt.bind fun r' s' h' => ?_
  obtain ⟨rfl, rfl⟩ := h'
  subst hread
  exact h

theorem attempted (w : Worker) (stage : Text) (hn : s.store.jobs.Numbered Job.id) : Attempted w stage s := by
  by_cases hready : s.store.condition = .ready
  · cases hnext : s.store.next? s.now stage with
    | none => exact .idle (.inr hnext) fun l => untouched (.inr hnext)
    | some j =>
      have hnone : Untouched w stage (s.leased (some 0)) := untouched (.inl fun h => Bool.noConfusion h.2)
      have hj := (Store.mem_of_next? hn hnext).1
      have hclaimed : ∀ l, Claimed w j s ((claimed w j s).leased l) := fun l =>
        ⟨rfl, hready, handed_handOut hn hj w s.now⟩
      rcases Int.lt_or_le (j.attempt + 1) Store.mostAttempts with hattempt | hattempt
      · have hread := read_claimed hattempt s.now w.id
        have hpaced := w.paced_look { j.claimed s.now w.id with availableAt := Time.reread j.availableAt }
        obtain ⟨m, huses⟩ := hpaced.uses (claimed w j s) rfl
        refine .held j hnext (m + 2) (by omega) hnone (fun k hk hkm => ?_) fun l hl => ?_
        · refine ends_process_claimed hready (by simp; omega) hnext hread (ends_attend_canceled (hclaimed _) ?_)
          exact huses.spent (show k - 1 ≤ m by omega)
        · have hl' : l ≠ some 0 := fun h => absurd (hl 0 h) (by omega)
          refine ends_process_claimed hready hl' hnext hread (ends_attend rfl (hclaimed _) ?_)
          refine hpaced.spare rfl huses fun i hi => ?_
          obtain ⟨k, hk, rfl⟩ := Option.mem_map.mp hi
          have hle := hl k hk
          omega
      · refine .unreadable j hnext hattempt hnone fun l hl => ?_
        obtain ⟨e, hread⟩ := read_claimed_error hattempt s.now w.id
        exact ends_process_claimed hready hl hnext hread ⟨⟨_, rfl⟩, (hclaimed none).2.2⟩
  · exact .idle (.inl hready) fun l => untouched (.inl fun h => hready h.1)

end Attempts

/-! ### Rounds -/

/-- What an attempt or a drain leaves: at most one more job runs, and this because the work was called off or the job
cannot be read. -/
structure Left (w : Worker) (s s' : State) (left : Option Job) : Prop where
  free : s.lease = none → s'.lease = none
  numbered : s'.store.jobs.Numbered Job.id
  running : ∀ k, k ∈ s'.store.running ↔ k ∈ s.store.running ∨ k ∈ left
  reason : ∀ k ∈ left, k.lockedBy = some w.id ∧
    (s.lease ≠ none ∧ s'.lease = some 0 ∨ k.attempt = Store.mostAttempts)

section Rounds
variable {w : Worker} {stage : Text} {s s' : State} {j : Job}

theorem paced_process (w : Worker) (stage : Text) : Paced (w.process stage) :=
  composes_paced.process (paced_update _) (fun _ _ _ _ => paced_update _)
    fun stage sample => w.paced_execute sample stage

theorem left_none (hfree : s.lease = none → s'.lease = none) (hn : s'.store.jobs.Numbered Job.id)
    (h : ∀ k, k ∈ s'.store.running ↔ k ∈ s.store.running) : Left w s s' none where
  free := hfree
  numbered := hn
  running k := by rw [h]; simp
  reason k hk := by cases hk

theorem left_self (hn : s.store.jobs.Numbered Job.id) : Left w s s none := left_none (fun h => h) hn fun _ => Iff.rfl

theorem left_claimed (hfree : s.lease = none → s'.lease = none) (hn : s.store.jobs.Numbered Job.id)
    (hnext : s.store.next? s.now stage = some j) (h : Handed j (j.claimed s.now w.id) s.store s'.store)
    (hreason : s.lease ≠ none ∧ s'.lease = some 0 ∨ Store.mostAttempts ≤ j.attempt + 1) :
    Left w s s' (some (j.claimed s.now w.id)) where
  free := hfree
  numbered := h.numbered
  running k := by
    obtain ⟨hj, hqueued, -⟩ := Store.mem_of_next? hn hnext
    rw [h.mem_running hn hj hqueued]
    simp [Job.claimed, eq_comm]
  reason k hk := by
    obtain rfl := Option.some.inj hk
    refine ⟨rfl, hreason.imp_right fun hle => ?_⟩
    simp only [Job.claimed]
    omega

/-- What one attempt leaves. If it leaves a job, the drain that it belongs to ends. -/
theorem gives_process_left (w : Worker) (stage : Text) (hn : s.store.jobs.Numbered Job.id) :
    Gives (w.process stage) s fun p s' => ∃ left, Left w s s' left ∧
      (left.isSome → p.claimed = true → s'.lease = some 0) := by
  have hfree : Ends (w.process stage) s fun _ s' => s.lease = none → s'.lease = none := by
    by_cases hs : s.lease = none
    · exact ((paced_process w stage).free s hs).imp fun _ _ h _ => h
    · exact (ends_true _ s).imp fun _ _ _ h => absurd h hs
  have huntouched : Untouched w stage s → Gives (w.process stage) s fun p s' => ∃ left,
      Left w s s' left ∧ (left.isSome → p.claimed = true → s'.lease = some 0) := by
    intro h
    refine (hfree.and h).imp fun r s' hr => ?_
    obtain ⟨hlease, ⟨f, rfl⟩, hstore⟩ := hr
    exact ⟨_, rfl, none, left_none hlease (hstore ▸ hn) fun k => by rw [hstore], fun h => by cases h⟩
  rcases attempted w stage hn with ⟨-, h⟩ | ⟨j, hnext, hattempt, hnone, h⟩ | ⟨j, hnext, n, -, hnone, hshort, henough⟩
  · exact huntouched (h s.lease)
  · by_cases hl : s.lease = some 0
    · exact huntouched (leased_self hl ▸ hnone)
    · refine (hfree.and (h s.lease hl)).imp fun r s' hr => ?_
      obtain ⟨hlease, ⟨f, rfl⟩, hhanded⟩ := hr
      exact ⟨_, rfl, _, left_claimed hlease hn hnext hhanded (.inr hattempt), fun _ h => by cases h⟩
  · by_cases hl : ∀ k ∈ s.lease, n ≤ k
    · refine (hfree.and (henough s.lease hl)).imp fun r s' hr => ?_
      obtain ⟨hlease, f, code, message, rfl, hhanded⟩ := hr
      refine ⟨_, rfl, none, left_none hlease hhanded.numbered fun k => ?_, fun h => by cases h⟩
      obtain ⟨hj, hqueued, -⟩ := Store.mem_of_next? hn hnext
      rw [hhanded.mem_running hn hj hqueued]
      cases f <;> simp [Job.finished]
    · simp only [not_forall, not_le] at hl
      obtain ⟨k, hk, hkn⟩ := hl
      by_cases hzero : k = 0
      · exact huntouched (leased_self (hzero ▸ hk) ▸ hnone)
      · have hkept := hshort k (Nat.pos_of_ne_zero hzero) hkn
        rw [leased_self hk] at hkept
        refine (hfree.and hkept).imp fun r s' hr => ?_
        obtain ⟨hlease, ⟨f, rfl⟩, hspent, hhanded⟩ := hr
        exact ⟨_, rfl, _, left_claimed hlease hn hnext hhanded (.inl ⟨by rw [hk]; exact Option.some_ne_none k, hspent⟩),
          fun _ _ => hspent⟩

theorem Left.trans {s₁ : State} {left : Option Job} (h : Left w s s₁ none) (h' : Left w s₁ s' left) :
    Left w s s' left where
  free hs := h'.free (h.free hs)
  numbered := h'.numbered
  running k := by rw [h'.running, h.running]; simp
  reason k hk := by
    obtain ⟨hlocked, hreason⟩ := h'.reason k hk
    exact ⟨hlocked, hreason.imp_left fun hr => ⟨fun hs => hr.1 (h.free hs), hr.2⟩⟩

theorem ends_drain_canceled (limit : Int) (fuel : Nat) (t : Tally) (hs : s.lease = some 0) :
    Ends (w.drainWithin stage limit fuel t) s fun r s' => (∃ t f, r = .ok (t, f)) ∧ s' = s := by
  cases fuel with
  | zero => exact ends_pure ⟨⟨_, _, rfl⟩, rfl⟩
  | succ fuel =>
    rw [drainWithin]
    split
    · exact ends_pure ⟨⟨_, _, rfl⟩, rfl⟩
    · refine Gives.bind (R := fun s₁ s' => s₁ = s ∧ s' = s) ⟨s, rfl, rfl, rfl⟩ fun s₁ s' h => ?_
      obtain ⟨rfl, rfl⟩ := h
      rw [if_pos (by rw [State.canceled, hs]; rfl)]
      exact ends_pure ⟨⟨_, _, rfl⟩, rfl⟩

/-- A drain leaves at most one job, by induction on its rounds. -/
theorem ends_drainWithin (limit : Int) (fuel : Nat) (t : Tally) (hn : s.store.jobs.Numbered Job.id) :
    Ends (w.drainWithin stage limit fuel t) s fun r s' =>
      (∃ t f, r = .ok (t, f)) ∧ ∃ left, Left w s s' left := by
  induction fuel generalizing s t with
  | zero => exact ends_pure ⟨⟨_, _, rfl⟩, none, left_self hn⟩
  | succ fuel ih =>
    rw [drainWithin]
    split
    · exact ends_pure ⟨⟨_, _, rfl⟩, none, left_self hn⟩
    · refine Gives.bind (R := fun s₁ s' => s₁ = s ∧ s' = s) ⟨s, rfl, rfl, rfl⟩ fun s₁ s' h => ?_
      obtain ⟨rfl, rfl⟩ := h
      split
      · exact ends_pure ⟨⟨_, _, rfl⟩, none, left_self hn⟩
      · refine (gives_process_left w stage hn).bind fun p s₂ h₂ => ?_
        obtain ⟨left, hleft, hover⟩ := h₂
        rcases p with f | f
        · exact ends_pure ⟨⟨_, _, rfl⟩, left, hleft⟩
        · -- a job is left only if the work was called off, and then no further one is claimed
          rcases left with _ | j
          · have hrest := ih (t.add f.isSome) hleft.numbered
            refine hrest.imp fun r s' h => ⟨h.1, ?_⟩
            obtain ⟨left, hleft'⟩ := h.2
            exact ⟨left, hleft.trans hleft'⟩
          · refine (ends_drain_canceled limit fuel _ (hover rfl rfl)).imp fun r s' h => ⟨h.1, some j, ?_⟩
            rw [h.2]
            exact hleft

theorem ends_drain (limit : Int) (hn : s.store.jobs.Numbered Job.id) :
    Ends (w.drain stage limit) s fun r s' => (∃ t f, r = .ok (t, f)) ∧ ∃ left, Left w s s' left :=
  ends_drainWithin limit _ ⟨0, 0⟩ hn

end Rounds

end Worker

/-! ### What a run cannot disturb -/

namespace Durable
variable {P : State → Prop} (h : Durable P)
include h

theorem ingest (hinsert : ∀ {s : State} {sample id st}, P s → s.store.insertSample s.context sample = .ok (id, st) →
    P { s with store := st }) (dataDir : Text) (batch : Int) (submission : Submission) :
    Maintains P (ingest dataDir batch submission) :=
  h.inert.composes.ingest h.inert.writeBelow (fun _ => h.inert.update fun _ _ _ hs hok => hinsert hs hok)
    (fun sample => h.queueStage sample .transpile) dataDir batch submission

theorem queueExisting (samples : List Int) : Maintains P (queueExisting samples) :=
  h.inert.composes.queueExisting (fun sample => h.queueStage sample .transpile) samples

/-- What samples, seeds, workers, resets and time leave as it is holds after every run. -/
theorem run (hinsert : ∀ {s : State} {sample id st}, P s → s.store.insertSample s.context sample = .ok (id, st) →
      P { s with store := st })
    (hload : ∀ {s : State} {text batch ids st}, P s → s.store.loadSeeds s.context text batch = .ok (ids, st) →
      P { s with store := st })
    (hprocess : ∀ w stage, Maintains P (Worker.process w stage))
    (hreset : ∀ {s : State} {stage n st}, P s → s.store.resetFailed s.context stage = .ok (n, st) →
      P { s with store := st })
    (htime : ∀ {s : State} now batches, P s → P { s with now, store := { s.store with batches } }) {s : State}
    (hs : P s) (ts : List Turn) : P (ts.foldl State.turn s) := by
  induction ts generalizing s with
  | nil => exact hs
  | cons t ts ih =>
    refine ih ?_
    obtain ⟨step, lease⟩ := t
    have hleased : P (s.leased lease) := h.beside lease s.files s.log hs
    cases step with
    | ingest dataDir batch submission => exact (h.ingest hinsert dataDir batch submission _ hleased).settled
    | load text batch => exact (h.inert.update (fun _ _ _ hs hok => hload hs hok) _ hleased).settled
    | queue samples => exact (h.queueExisting samples _ hleased).settled
    | process w stage => exact (hprocess w stage _ hleased).settled
    | reset stage => exact (h.inert.update (fun _ _ _ hs hok => hreset hs hok) _ hleased).settled
    | elsewhere now files log batches => exact h.beside lease files log (htime now batches hleased)

end Durable

/-! ### Jobs that run go on running -/

/-- A job is running in a store whose jobs are numbered. -/
def Runs (j : Job) (s : State) : Prop := s.store.jobs.Numbered Job.id ∧ j ∈ s.store.running

section Running
variable {j : Job} {s : State}

theorem durable_runs (j : Job) : Durable (Runs j) where
  beside _ _ _ h := h
  artifacts _ h := ⟨⟨h.1.ascending, h.1.bounded⟩, h.2⟩
  enqueue _ _ _ h := ⟨h.1.add rfl, by
    obtain ⟨hj, hrunning⟩ := Store.mem_running.mp h.2
    exact Store.mem_running.mpr ⟨List.mem_append_left _ hj, hrunning⟩⟩

theorem runs_run (h : Runs j s) (ts : List Turn) : Runs j (ts.foldl State.turn s) := by
  refine (durable_runs j).run (fun hs hok => ?_) (fun hs hok => ?_) (fun w stage s hs => ?_) (fun hs hok => ?_)
    (fun _ _ hs => hs) h ts
  · obtain ⟨-, row, -, -, rfl⟩ := Store.insertSample_eq_ok hok
    exact hs
  · exact Store.loadSeeds_keeps (P := fun st => st.jobs.Numbered Job.id ∧ j ∈ st.running) (fun h _ => h) (fun h => h)
      hs hok
  · refine Ends.imp (Worker.gives_process_left w stage hs.1) fun r s' h => ?_
    obtain ⟨p, -, left, hleft, -⟩ := h
    exact ⟨hleft.numbered, (hleft.running j).mpr (.inl hs.2)⟩
  · obtain ⟨hj, hrunning⟩ := Store.mem_running.mp hs.2
    rw [Store.resetFailed_eq_ok hok]
    refine ⟨Store.numbered_changeJobs hs.1 fun _ _ _ => rfl, Store.mem_running.mpr ⟨?_, hrunning⟩⟩
    refine Store.mem_changeJobs.mpr ⟨j, hj, if_neg ?_⟩
    simp [Job.isFailed, hrunning]

end Running

/-- A worker that claims a job releases it if it has the uses left that this takes, and otherwise the job stays
claimed. A drain, wherever it is called off, leaves at most one job running, and none if it is not called off and all
jobs can be read. A job that runs is brought back by nothing that happens at a pipeline. -/
theorem claimed_job_fate (w : Worker) (stage : Text) {s : State} (hn : s.store.jobs.Numbered Job.id) :
    w.Attempted stage s ∧
    (∀ limit, Ends (w.drain stage limit) s fun r s' => (∃ t f, r = .ok (t, f)) ∧ ∃ left, w.Left s s' left) ∧
    ∀ j ∈ s.store.running, ∀ ts : List Turn, (ts.foldl State.turn s).store.job? j.id = some j := by
  refine ⟨Worker.attempted w stage hn, fun limit => Worker.ends_drain limit hn, fun j hj ts => ?_⟩
  obtain ⟨hnumbered, hrunning⟩ := runs_run ⟨hn, hj⟩ ts
  exact Store.job?_of_mem hnumbered (Store.mem_running.mp hrunning).1

/-- A sample whose compilation is queued, and was handed out so many times. -/
def pending (attempt : Int) : State :=
  { State.start 5 .memory with
    store := { Store.empty with
      samples := ⟨[⟨1, none, "a", [], [], "yaz(1)", [], [], 0⟩], 1⟩
      jobs := ⟨[⟨1, 1, .transpile, .queued, attempt, 0, none, none, none, none, none, none⟩], 1⟩ } }

theorem claimed_job_fate_pending :
    stubborn.Attempted "transpile" (pending 0) ∧ (pending 0).store.next? 5 "transpile" = (pending 0).store.job? 1 ∧
      let s := (pending 0).turn ⟨.process stubborn "transpile", some 2⟩
      s.store.running.map Job.id = [1] ∧
        ∀ j ∈ s.store.running, ∀ ts : List Turn, (ts.foldl State.turn s).store.job? j.id = some j :=
  ⟨(claimed_job_fate stubborn "transpile" ⟨by decide, by decide⟩).1, by decide +kernel, by decide +kernel,
    (claimed_job_fate stubborn "transpile" ⟨by decide +kernel, by decide +kernel⟩).2.2⟩

/-- Whether processing a stage reports that a job was claimed. -/
def saysClaimed (w : Worker) (stage : Text) (s : State) : Bool :=
  match w.process stage s with
  | .ok p _ => p.claimed
  | .error _ _ => false

/-- A worker that is called off while it compiles says that it claimed the job, which goes on running. A drain that is
not called off leaves a job running that was handed out too often. -/
theorem claimed_job_stranded :
    saysClaimed stubborn "transpile" ((pending 0).leased (some 2)) = true ∧
      (settled (stubborn.process "transpile") ((pending 0).leased (some 2))).store.running.map Job.id = [1] ∧
      (settled (stubborn.drain "transpile" 0) (pending (Store.mostAttempts - 1))).store.running.map Job.id = [1] := by
  decide +kernel

end Anadil.Pipeline
