import Anadil.Proofs.Pipeline.Endings

/-! # Work that is called off

How often an action uses the store and tools (`Uses`) says what happens when it is called off: with enough uses left
it does not notice, and with fewer it ends when the work was called off. All actions of a worker are so (`Paced`). -/

namespace Anadil.Pipeline

open Store (Job Sample Stage)

/-- A state in which the work will be called off after so many uses, or not at all. -/
def State.leased (s : State) (lease : Option Nat) : State := { s with lease }

theorem leased_self {s : State} {lease : Option Nat} (h : s.lease = lease) : s.leased lease = s := by
  rw [State.leased, ← h]

/-- A result whose state has the lease. -/
def releasing {α : Type} (lease : Option Nat) : EStateM.Result Fault State α → EStateM.Result Fault State α
  | .ok a s => .ok a (s.leased lease)
  | .error e s => .error e (s.leased lease)

/-! ### Pace -/

/-- From a state, an action uses the store and tools so many times. With as many uses left it does what it does if it
is not called off, and with fewer it ends when it was called off. -/
structure Uses {α : Type} (n : Nat) (w : Work α) (s : State) : Prop where
  enough : ∀ k, w (s.leased (some (n + k))) = releasing (some k) (w s)
  short : ∀ k < n, Ends w (s.leased (some k)) fun _ s' => s'.lease = some 0

/-- An action that does not notice when it will be called off, and stops then. -/
structure Paced {α : Type} (w : Work α) : Prop where
  free : Maintains (·.lease = none) w
  spent : Maintains (·.lease = some 0) w
  uses : ∀ s, s.lease = none → ∃ n, Uses n w s

section Rules
variable {α β : Type} {w : Work α} {k : α → Work β}

/-- An action that does not look at the lease uses nothing. -/
theorem Paced.of_none (hlease : Saves State.lease w) (h : ∀ s l, w (s.leased l) = releasing l (w s)) : Paced w where
  free := hlease.maintains none
  spent := hlease.maintains (some 0)
  uses s hs := ⟨0, fun k => by rw [Nat.zero_add, h], fun k hk => absurd hk (Nat.not_lt_zero k)⟩

/-- An action that spends one use does not notice how many are left if there is one. -/
theorem Paced.of_once (hlease : ∀ s, Ends w s fun _ s' => s'.lease = s.spend.lease)
    (h : ∀ s k, s.lease = none → w (s.leased (some (1 + k))) = releasing (some k) (w s)) : Paced w where
  free s hs := (hlease s).imp fun _ s' h' => h'.trans (by rw [State.spend, hs]; rfl)
  spent s hs := (hlease s).imp fun _ s' h' => h'.trans (by rw [State.spend, hs]; rfl)
  uses s hs := by
    refine ⟨1, fun k => h s k hs, fun k hk => (hlease _).imp fun _ s' h' => ?_⟩
    obtain rfl : k = 0 := by omega
    exact h'

theorem Uses.spent {n i : Nat} {s : State} (h : Uses n w s) (hi : i ≤ n) :
    Ends w (s.leased (some i)) fun _ s' => s'.lease = some 0 := by
  rcases Nat.lt_or_eq_of_le hi with hlt | rfl
  · exact h.short i hlt
  · have henough := h.enough 0
    unfold Ends
    rw [Nat.add_zero] at henough
    rw [henough]
    cases w s <;> rfl

/-- With uses to spare the work is not called off behind the action. -/
theorem Paced.spare (hw : Paced w) {s : State} (hs : s.lease = none) {n : Nat} (h : Uses n w s) {l : Option Nat}
    (hl : ∀ i ∈ l, n < i) : Ends w (s.leased l) fun _ s' => s'.canceled = false := by
  rcases l with _ | i
  · rw [leased_self hs]
    exact (hw.free s hs).imp fun _ s' hs' => by rw [State.canceled, hs']; rfl
  · obtain ⟨k, rfl⟩ := Nat.exists_eq_add_of_lt (hl i rfl)
    have henough := h.enough (k + 1)
    unfold Ends
    rw [← Nat.add_assoc] at henough
    rw [henough]
    cases w s <;> rfl

theorem paced_pure (a : α) : Paced (pure a : Work α) := .of_none (saves_pure a) fun _ _ => rfl

theorem paced_throw (e : Fault) : Paced (throw e : Work α) := .of_none (saves_throw e) fun _ _ => rfl

theorem paced_note (r : Log.Record) : Paced (note r) := .of_none (fun _ => rfl) fun _ _ => rfl

theorem paced_updateFiles (f : Files → Except Fault Files) : Paced (updateFiles f) := by
  refine .of_none (fun s => ends_updateFiles (fun _ _ => rfl) fun _ _ => rfl) fun s l => ?_
  have hfiles : (s.leased l).files = s.files := rfl
  unfold updateFiles
  rw [hfiles]
  cases f s.files <;> rfl

section Once
variable {s : State} (hs : s.lease = none) (k : Nat)
include hs

theorem context_leased : (s.leased (some (1 + k))).context = s.context := by
  simp [State.context, State.canceled, State.leased, hs]

theorem spend_leased : (s.leased (some (1 + k))).spend = s.spend.leased (some k) := by
  simp [State.spend, State.leased, hs]

end Once

theorem paced_ask (f : Store → Store.Context → Except Fault α) : Paced (ask f) := by
  refine .of_once (fun s => ends_ask rfl) fun s k hs => ?_
  have hstore : (s.leased (some (1 + k))).store = s.store := rfl
  unfold ask
  rw [hstore, context_leased hs, spend_leased hs]
  cases f s.store s.context <;> rfl

theorem paced_update (f : Store → Store.Context → Except Fault (α × Store)) : Paced (update f) := by
  refine .of_once (fun s => ends_update (fun _ _ _ => rfl) fun _ _ => rfl) fun s k hs => ?_
  have hstore : (s.leased (some (1 + k))).store = s.store := rfl
  unfold update
  rw [hstore, context_leased hs, spend_leased hs]
  cases f s.store s.context <;> rfl

theorem paced_runTool (traced : Bool) (t : Tool) (args : List Text) (input : Text) :
    Paced (runTool traced t args input) := by
  refine .of_once (fun s => (gives_runTool fun _ => rfl).ends) fun s k hs => ?_
  have hcanceled : (s.leased (some (1 + k))).canceled = s.canceled :=
    congrArg Store.Context.canceled (context_leased hs k)
  rw [runTool_eq, runTool_eq, hcanceled, spend_leased hs]
  rfl

theorem Paced.attempt (hw : Paced w) : Paced (attempt w) where
  free := hw.free.attempt
  spent := hw.spent.attempt
  uses s hs := by
    obtain ⟨n, henough, hshort⟩ := hw.uses s hs
    refine ⟨n, fun k => ?_, fun k hk => (hshort k hk).attempt.ends⟩
    unfold Pipeline.attempt
    rw [henough]
    cases w s <;> rfl

theorem Paced.explain (hw : Paced w) (f : Fault → Fault) : Paced (explain f w) where
  free := hw.free.explain f
  spent := hw.spent.explain f
  uses s hs := by
    obtain ⟨n, henough, hshort⟩ := hw.uses s hs
    refine ⟨n, fun k => ?_, fun k hk => (hshort k hk).explain⟩
    unfold Pipeline.explain
    rw [henough]
    cases w s <;> rfl

/-- One action behind another uses what both use, and called off in the first the second stops at once. -/
theorem Paced.bind (hw : Paced w) (hk : ∀ a, Paced (k a)) : Paced (w >>= k) where
  free := hw.free.bind fun a => (hk a).free
  spent := hw.spent.bind fun a => (hk a).spent
  uses s hs := by
    obtain ⟨n, henough, hshort⟩ := hw.uses s hs
    -- called off in the first action, the second finds the work called off
    have hfirst : ∀ j < n, Ends (w >>= k) (s.leased (some j)) fun _ s' => s'.lease = some 0 := fun j hj =>
      (hshort j hj).bind (fun a s' hs' => (hk a).spent s' hs') fun _ _ hs' => hs'
    cases hws : w s with
    | error e s' =>
      refine ⟨n, fun j => ?_, hfirst⟩
      simp only [Bind.bind, EStateM.bind]
      rw [henough, hws]
      rfl
    | ok a s' =>
      have hs' : s'.lease = none := (hw.free s hs).of_ok hws
      obtain ⟨m, henough', hshort'⟩ := (hk a).uses s' hs'
      have hgo : ∀ j, (w >>= k) (s.leased (some (n + j))) = k a (s'.leased (some j)) := by
        intro j
        simp only [Bind.bind, EStateM.bind]
        rw [henough, hws]
        rfl
      refine ⟨n + m, fun j => ?_, fun j hj => ?_⟩
      · rw [Nat.add_assoc, hgo, henough']
        simp only [Bind.bind, EStateM.bind, hws]
      · by_cases hjn : j < n
        · exact hfirst j hjn
        · obtain ⟨i, rfl⟩ := Nat.exists_eq_add_of_le (Nat.le_of_not_lt hjn)
          unfold Ends
          rw [hgo]
          exact hshort' i (by omega)

theorem composes_paced : Composes Paced :=
  ⟨paced_pure, paced_throw, Paced.bind, Paced.attempt, Paced.explain, paced_note, paced_ask, paced_runTool⟩

theorem paced_writeBelow (path text : Text) : Paced (writeBelow path text) :=
  composes_paced.writeBelow paced_updateFiles path text

theorem paced_queueStage (sample : Int) (stage : Stage) : Paced (queueStage sample stage) :=
  ((paced_update _).bind fun _ => paced_pure _).explain _

end Rules

/-! ### Stages -/

namespace Worker
variable (w : Worker) (sample : Sample)

theorem paced_execute (stage : Stage) : Paced (w.execute stage sample) := by
  cases stage with
  | transpile =>
    exact composes_paced.transpile (fun _ => paced_writeBelow _ _) (fun _ => paced_update _) (paced_queueStage _)
  | verify => exact composes_paced.verify fun _ _ _ => paced_update _
  | parity => exact composes_paced.parity

end Worker

/-! ### What a stage cannot disturb -/

/-- What is not disturbed by new artifacts and queued jobs, nor by what is beside the store. -/
structure Durable (P : State → Prop) : Prop where
  beside : ∀ {s : State} lease files log, P s → P { s with lease, files, log }
  artifacts : ∀ {s : State} artifacts, P s → P { s with store := { s.store with artifacts } }
  enqueue : ∀ {s : State} sample stage now, P s → P { s with store := s.store.enqueue sample stage now }

namespace Durable
variable {P : State → Prop} (h : Durable P)
include h

theorem inert : Inert P where
  spend hs := h.beside _ _ _ hs
  files _ hs := h.beside _ _ _ hs
  log _ hs := h.beside _ _ _ hs

theorem queueStage (sample : Int) (stage : Stage) : Maintains P (queueStage sample stage) :=
  h.inert.queueStage fun _ hs _ => h.enqueue _ _ _ hs

theorem execute (w : Worker) (stage : Stage) (sample : Sample) : Maintains P (w.execute stage sample) := by
  cases stage with
  | transpile =>
    refine h.inert.composes.transpile (fun _ => h.inert.writeBelow _ _)
      (fun _ => h.inert.update fun s id st hs hok => ?_) (h.queueStage _)
    simp only [bind_eq_ok, pure_eq_ok] at hok
    obtain ⟨⟨id', verdict, st'⟩, hinsert, hst⟩ := hok
    obtain ⟨-, rfl⟩ := Prod.mk.inj hst
    rw [Store.insertArtifact_eq_ok hinsert]
    exact h.artifacts _ hs
  | verify =>
    refine h.inert.composes.verify fun _ _ _ => h.inert.update fun s u st hs hok => ?_
    simp only [bind_eq_ok, pure_eq_ok] at hok
    obtain ⟨st', hupdate, hst⟩ := hok
    obtain ⟨-, rfl⟩ := Prod.mk.inj hst
    obtain ⟨rows, rfl, -⟩ := Store.updateArtifact_eq_ok hupdate
    exact h.artifacts _ hs
  | parity => exact h.inert.composes.parity

end Durable

end Anadil.Pipeline
