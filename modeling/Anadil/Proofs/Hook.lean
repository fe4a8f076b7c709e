import Anadil.Hook
import Anadil.Proofs.Json.Difference

/-! # Callbacks that change the callbacks

A registry is compared with the history of what was added and taken away. The callbacks that stand are
those whose latest change is an addition, in the order of these additions; a run of requests unfolds over
such histories and what is remembered, and a firing tells those that stand when it begins. -/

namespace Anadil

namespace Text

variable {event name : Text}

theorem mem_insert {t u : Text} {us : List Text} : u ∈ insert t us ↔ u = t ∨ u ∈ us := by
  induction us with
  | nil => simp [insert]
  | cons v us ih =>
    simp only [insert]
    split
    · rename_i heq
      subst heq
      simp
    · split
      · simp
      · simp only [List.mem_cons, ih]
        tauto

theorem pairwise_insert {t : Text} {us : List Text} (h : us.Pairwise (before · · = true))
    (hbytes : ∀ u ∈ us, t.bytes = u.bytes → t = u) : (insert t us).Pairwise (before · · = true) := by
  induction us with
  | nil => exact List.pairwise_singleton _ _
  | cons u us ih =>
    rw [List.forall_mem_cons] at hbytes
    obtain ⟨hfirst, hrest⟩ := List.pairwise_cons.mp h
    simp only [insert]
    split
    · exact h
    · rename_i hne
      split
      · rename_i hbefore
        refine List.pairwise_cons.mpr ⟨List.forall_mem_cons.mpr ⟨hbefore, ?_⟩, h⟩
        exact fun v hv => before_trans hbefore (hfirst v hv)
      · rename_i hbefore
        have hafter : before u t = true :=
          (before_or_before_of_bytes fun heq => hne (hbytes.1 heq)).resolve_left hbefore
        refine List.pairwise_cons.mpr ⟨fun v hv => ?_, ih hrest hbytes.2⟩
        rcases mem_insert.mp hv with rfl | hv
        · exact hafter
        · exact hfirst v hv

end Text

namespace Hook
variable {σ : Type}

/-! ### Histories -/

/-- A callback was added or taken away. -/
inductive Change (σ : Type) where
  | added (e : Entry σ)
  | removed (event name : Text)

/-- The event and the name of a callback. -/
def Entry.key (e : Entry σ) : Text × Text := (e.event, e.name)

/-- The event and the name that a change is about. -/
def Change.about : Change σ → Text × Text
  | added e => e.key
  | removed event name => (event, name)

/-- The callbacks after some changes: those that were added with no later change under their names, in the order of
the additions. -/
def standing : List (Change σ) → Registry σ
  | [] => []
  | .added e :: later => if ∀ c ∈ later, c.about ≠ e.key then e :: standing later else standing later
  | .removed _ _ :: later => standing later

theorem about_of_mem_standing {e : Entry σ} {past : List (Change σ)} (h : e ∈ standing past) :
    ∃ c ∈ past, c.about = e.key := by
  induction past with
  | nil => cases h
  | cons c past ih =>
    have hlater (h : e ∈ standing past) : ∃ d ∈ c :: past, d.about = e.key := by
      obtain ⟨d, hd, habout⟩ := ih h
      exact ⟨d, List.mem_cons_of_mem c hd, habout⟩
    cases c with
    | removed on name => exact hlater h
    | added d =>
      rw [standing] at h
      split at h
      · rcases List.mem_cons.mp h with rfl | h
        · exact ⟨_, List.mem_cons_self, rfl⟩
        · exact hlater h
      · exact hlater h

theorem nodup_keys (past : List (Change σ)) : ((standing past).map Entry.key).Nodup := by
  induction past with
  | nil => exact List.nodup_nil
  | cons c past ih =>
    cases c with
    | removed on name => exact ih
    | added e =>
      rw [standing]
      split
      · rename_i hstands
        refine List.nodup_cons.mpr ⟨fun hkey => ?_, ih⟩
        obtain ⟨d, hd, hkey⟩ := List.mem_map.mp hkey
        obtain ⟨c, hc, habout⟩ := about_of_mem_standing hd
        exact hstands c hc (habout.trans hkey)
      · exact ih

/-- A change takes the name that it is about away, wherever it stood. -/
theorem standing_append (past : List (Change σ)) (c : Change σ) :
    standing (past ++ [c]) = (standing past).filter (fun e => c.about ≠ e.key) ++ standing [c] := by
  induction past with
  | nil => rfl
  | cons d past ih =>
    cases d with
    | removed on name => exact ih
    | added e =>
      simp only [List.cons_append, standing, List.forall_mem_append, List.forall_mem_singleton, ih]
      by_cases hstands : ∀ d ∈ past, d.about ≠ e.key
      · rw [if_pos hstands]
        by_cases hc : c.about = e.key
        · rw [if_neg fun h => h.2 hc, List.filter_cons_of_neg (by simp [hc])]
        · rw [if_pos ⟨hstands, hc⟩, List.filter_cons_of_pos (by simp [hc]), List.cons_append]
      · rw [if_neg hstands, if_neg fun h => hstands h.1]

/-! ### Runs over histories -/

/-- What is done unfolds, from a memory and a history, into calls, a memory and a longer history. A request that is
refused leaves the history as it is. A firing tells the callbacks that stand when it begins, one after another,
whatever they add to the history meanwhile. -/
inductive Unfolds : σ → List (Change σ) → Turn σ → List Call → σ → List (Change σ) → Prop
  | done {m past} : Unfolds m past (.ask .done) [] m past
  | recalled {m past next calls m' last} (hnext : Unfolds m past (.ask (next m)) calls m' last) :
      Unfolds m past (.ask (.fetch next)) calls m' last
  | kept {m past kept next calls m' last} (hnext : Unfolds kept past (.ask next) calls m' last) :
      Unfolds m past (.ask (.keep kept next)) calls m' last
  | unregistered {m past event name next calls m' last} (hthere : name ∈ (standing past).names event)
      (hnext : Unfolds m (past ++ [.removed event name]) (.ask (next true)) calls m' last) :
      Unfolds m past (.ask (.unregister event name next)) calls m' last
  | absent {m past event name next calls m' last} (hthere : name ∉ (standing past).names event)
      (hnext : Unfolds m past (.ask (next false)) calls m' last) :
      Unfolds m past (.ask (.unregister event name next)) calls m' last
  | registered {m past event name callback next calls m' last} (hnew : name ∉ (standing past).names event)
      (hnext : Unfolds m (past ++ [.added ⟨event, name, callback⟩]) (.ask (next none)) calls m' last) :
      Unfolds m past (.ask (.register event name (some callback) next)) calls m' last
  | taken {m past event name callback next calls m' last} (hthere : name ∈ (standing past).names event)
      (hnext : Unfolds m past (.ask (next (some (.hookTaken event name)))) calls m' last) :
      Unfolds m past (.ask (.register event name (some callback) next)) calls m' last
  | missing {m past event name fault next calls m' last}
      (hfault : fault = .plain
        ("hooks: " ++ Fault.guarded event ++ ": " ++ Fault.guarded name ++ ": nil callback"))
      (hnext : Unfolds m past (.ask (next (some fault))) calls m' last) :
      Unfolds m past (.ask (.register event name none next)) calls m' last
  | fired {m past ev next inner m₁ mid more m₂ last}
      (htell : Unfolds m past (.tell ev ((standing past).listening ev.name)) inner m₁ mid)
      (hnext : Unfolds m₁ mid (.ask next) more m₂ last) :
      Unfolds m past (.ask (.fire ev next)) (inner ++ more) m₂ last
  | named {m past event next calls m' last}
      (hnext : Unfolds m past (.ask (next ((standing past).names event))) calls m' last) :
      Unfolds m past (.ask (.names event next)) calls m' last
  | listed {m past next calls m' last} (hnext : Unfolds m past (.ask (next (standing past).events)) calls m' last) :
      Unfolds m past (.ask (.events next)) calls m' last
  | told {m past ev} : Unfolds m past (.tell ev []) [] m past
  | called {m past ev e es inner m₁ mid more m₂ last} (hcall : Unfolds m past (.ask (e.callback ev)) inner m₁ mid)
      (hrest : Unfolds m₁ mid (.tell ev es) more m₂ last) :
      Unfolds m past (.tell ev (e :: es)) (⟨e.name, ev⟩ :: inner ++ more) m₂ last

/-! ### Registries -/

namespace Registry

theorem has_eq_true_iff {r : Registry σ} : r.has event name = true ↔ name ∈ r.names event := by
  simp [has, Entry.under, names, listening, and_assoc]

theorem mem_names_iff {r : Registry σ} : name ∈ r.names event ↔ (event, name) ∈ r.map Entry.key := by
  simp [names, listening, Entry.key, and_assoc]

theorem mem_events_iff {r : Registry σ} : event ∈ r.events ↔ r.names event ≠ [] := by
  have hfold (es : List Text) : event ∈ r.foldl (fun es e => Text.insert e.event es) es ↔
      event ∈ es ∨ ∃ e ∈ r, e.event = event := by
    induction r generalizing es with
    | nil => simp
    | cons e r ih =>
      rw [List.foldl_cons, ih, Text.mem_insert, List.exists_mem_cons_iff]
      tauto
  rw [events, hfold]
  simp [names, listening]

theorem sorted_events {r : Registry σ} (h : ∀ e ∈ r, Text.ofBytes e.event.bytes = e.event) :
    r.events.Pairwise (Text.before · · = true) := by
  have hfold (es : List Text) (hes : ∀ e ∈ es, Text.ofBytes e.bytes = e)
      (horder : es.Pairwise (Text.before · · = true)) :
      (r.foldl (fun es e => Text.insert e.event es) es).Pairwise (Text.before · · = true) := by
    induction r generalizing es with
    | nil => exact horder
    | cons e r ih =>
      rw [List.forall_mem_cons] at h
      refine ih h.2 _ (fun u hu => ?_) (Text.pairwise_insert horder fun u hu heq => ?_)
      · rcases Text.mem_insert.mp hu with rfl | hu
        · exact h.1
        · exact hes u hu
      · rw [← h.1, heq, hes u hu]
  exact hfold [] (fun _ he => nomatch he) .nil

/-- With no name twice, taking the first callback of a name away takes them all. -/
theorem eraseP_under {r : Registry σ} (h : (r.map Entry.key).Nodup) :
    r.eraseP (Entry.under event name) = r.filter fun e => (event, name) ≠ e.key := by
  have hunder (e : Entry σ) : e.under event name = true ↔ (event, name) = e.key := by
    simp only [Entry.under, Entry.key, Bool.and_eq_true, beq_iff_eq, Prod.mk.injEq]
    exact and_congr eq_comm eq_comm
  induction r with
  | nil => rfl
  | cons e r ih =>
    obtain ⟨hnot, hrest⟩ := List.nodup_cons.mp h
    by_cases he : e.under event name = true
    · have hothers : r.filter (fun d => (event, name) ≠ d.key) = r := by
        refine List.filter_eq_self.mpr fun d hd => decide_eq_true fun hkey => hnot ?_
        rw [← (hunder e).mp he, hkey]
        exact List.mem_map_of_mem hd
      rw [List.eraseP_cons_of_pos he, List.filter_cons_of_neg (by simp [(hunder e).mp he]), hothers]
    · have hne : (event, name) ≠ e.key := fun heq => he ((hunder e).mpr heq)
      rw [List.eraseP_cons_of_neg he, List.filter_cons_of_pos (by simp [hne]), ih hrest]

end Registry

section
variable {past : List (Change σ)}

theorem nodup_names (past : List (Change σ)) (event : Text) : ((standing past).names event).Nodup := by
  have hkeys : (((standing past).listening event).map Entry.key).Nodup :=
    (nodup_keys past).sublist (List.filter_sublist.map _)
  rw [List.Nodup, List.pairwise_map] at hkeys
  rw [Registry.names, List.Nodup, List.pairwise_map]
  refine hkeys.imp_of_mem fun {d e} hd he hne heq => hne ?_
  have hevent {e : Entry σ} (he : e ∈ (standing past).listening event) : e.event = event :=
    beq_iff_eq.mp (List.mem_filter.mp he).2
  rw [Entry.key, Entry.key, hevent hd, hevent he, heq]

theorem standing_added {e : Entry σ} (hnew : e.name ∉ (standing past).names e.event) :
    standing (past ++ [.added e]) = standing past ++ [e] := by
  rw [standing_append, List.filter_eq_self.mpr]
  · simp [standing]
  · intro d hd
    refine decide_eq_true fun heq : e.key = d.key => hnew (Registry.mem_names_iff.mpr ?_)
    rw [← Entry.key, heq]
    exact List.mem_map_of_mem hd

theorem standing_removed (event name : Text) :
    standing (past ++ [.removed event name]) = (standing past).eraseP (Entry.under event name) := by
  rw [Registry.eraseP_under (nodup_keys past), standing_append, standing, standing, List.append_nil]
  rfl

theorem unregister_standing (h : name ∈ (standing past).names event) :
    (standing past).unregister event name = (true, standing (past ++ [.removed event name])) := by
  rw [Registry.unregister, if_pos (Registry.has_eq_true_iff.mpr h), standing_removed]

theorem unregister_absent (h : name ∉ (standing past).names event) :
    (standing past).unregister event name = (false, standing past) :=
  if_neg fun hthere => h (Registry.has_eq_true_iff.mp hthere)

/-- What registering does to the registry that stands after some changes. -/
theorem register_standing {callback : Callback σ} (h : name ∉ (standing past).names event) :
    (standing past).register event name (some callback) = .ok (standing (past ++ [.added ⟨event, name, callback⟩])) := by
  rw [standing_added (e := ⟨event, name, callback⟩) h]
  exact if_neg fun hthere => h (Registry.has_eq_true_iff.mp hthere)

/-- A name is given once for each event. -/
theorem register_taken {callback : Callback σ} (h : name ∈ (standing past).names event) :
    (standing past).register event name (some callback) = .error (.hookTaken event name) :=
  if_pos (Registry.has_eq_true_iff.mpr h)

end

/-! ### From histories to registries -/

/-- With enough steps, what is to be done ends so. -/
def Settles (m : σ) (r : Registry σ) (turn : Turn σ) (out : σ × Registry σ × List Call) : Prop :=
  ∃ n, ∀ k, n ≤ k → r.carryOut k m turn = some out

section Settling
variable {m m₁ : σ} {r r₁ : Registry σ} {turn first second : Turn σ} {out out' : σ × Registry σ × List Call}

theorem settles_of_succ (h : ∃ n, ∀ k, n ≤ k → r.carryOut (k + 1) m turn = some out) : Settles m r turn out := by
  obtain ⟨n, hn⟩ := h
  refine ⟨n + 1, fun k hk => ?_⟩
  obtain ⟨j, rfl⟩ : ∃ j, k = j + 1 := ⟨k - 1, by omega⟩
  exact hn j (by omega)

theorem Settles.step (h : Settles m₁ r₁ second out)
    (hstep : ∀ k, r.carryOut (k + 1) m turn = r₁.carryOut k m₁ second) : Settles m r turn out := by
  obtain ⟨n, hn⟩ := h
  exact settles_of_succ ⟨n, fun k hk => by rw [hstep, hn k hk]⟩

/-- What settles in two halves settles as a whole. -/
theorem Settles.andThen {inner : List Call} (h : Settles m r first (m₁, r₁, inner)) (h' : Settles m₁ r₁ second out')
    (hstep : ∀ k, r.carryOut k m first = some (m₁, r₁, inner) → r₁.carryOut k m₁ second = some out' →
      r.carryOut (k + 1) m turn = some out) : Settles m r turn out := by
  obtain ⟨n, hn⟩ := h
  obtain ⟨j, hj⟩ := h'
  exact settles_of_succ ⟨n + j, fun k hk => hstep k (hn k (by omega)) (hj k (by omega))⟩

end Settling

/-- What unfolds is what the registry does, with enough steps. -/
theorem Unfolds.settles {m m' : σ} {past last : List (Change σ)} {turn : Turn σ} {calls : List Call}
    (h : Unfolds m past turn calls m' last) : Settles m (standing past) turn (m', standing last, calls) := by
  induction h with
  | done => exact settles_of_succ ⟨0, fun _ _ => rfl⟩
  | told => exact settles_of_succ ⟨0, fun _ _ => rfl⟩
  | recalled _ ih => exact ih.step fun k => rfl
  | kept _ ih => exact ih.step fun k => rfl
  | unregistered hthere _ ih => exact ih.step fun k => by rw [Registry.carryOut, unregister_standing hthere]
  | absent hthere _ ih => exact ih.step fun k => by rw [Registry.carryOut, unregister_absent hthere]
  | registered hnew _ ih => exact ih.step fun k => by simp only [Registry.carryOut, register_standing hnew]
  | taken hthere _ ih => exact ih.step fun k => by simp only [Registry.carryOut, register_taken hthere]
  | missing hfault _ ih =>
    subst hfault
    exact ih.step fun k => rfl
  | named _ ih => exact ih.step fun k => rfl
  | listed _ ih => exact ih.step fun k => rfl
  | fired _ _ ihtell ihnext =>
    refine ihtell.andThen ihnext fun k htell hnext => ?_
    simp only [Registry.carryOut, htell, hnext, Option.bind_eq_bind, Option.bind_some, Option.pure_def]
  | called _ _ ihcall ihrest =>
    refine ihcall.andThen ihrest fun k hcall hrest => ?_
    simp only [Registry.carryOut, hcall, hrest, Option.bind_eq_bind, Option.bind_some, Option.pure_def]

/-! ### From registries to histories -/

/-- What is to be done unfolds into this memory, these calls and a history after which this registry stands. -/
def Ends (m : σ) (past : List (Change σ)) (turn : Turn σ) (out : σ × Registry σ × List Call) : Prop :=
  ∃ last, Unfolds m past turn out.2.2 out.1 last ∧ out.2.1 = standing last

section Step
variable {steps : Nat} (ih : ∀ {m : σ} {past turn out}, (standing past).carryOut steps m turn = some out →
    Ends m past turn out)
  {m : σ} {past : List (Change σ)} {event name : Text} {out : σ × Registry σ × List Call}
include ih

theorem ends_unregister {next : Bool → Script σ}
    (h : (standing past).carryOut (steps + 1) m (.ask (.unregister event name next)) = some out) :
    Ends m past (.ask (.unregister event name next)) out := by
  rw [Registry.carryOut] at h
  by_cases hthere : name ∈ (standing past).names event
  · rw [unregister_standing hthere] at h
    obtain ⟨last, hnext, hlast⟩ := ih h
    exact ⟨last, .unregistered hthere hnext, hlast⟩
  · rw [unregister_absent hthere] at h
    obtain ⟨last, hnext, hlast⟩ := ih h
    exact ⟨last, .absent hthere hnext, hlast⟩

/-- What a registry does when a script registers a callback. -/
theorem ends_register {callback : Option (Callback σ)} {next : Option Fault → Script σ}
    (h : (standing past).carryOut (steps + 1) m (.ask (.register event name callback next)) = some out) :
    Ends m past (.ask (.register event name callback next)) out := by
  cases callback with
  | none =>
    obtain ⟨last, hnext, hlast⟩ := ih h
    exact ⟨last, .missing rfl hnext, hlast⟩
  | some callback =>
    rw [Registry.carryOut] at h
    by_cases hthere : name ∈ (standing past).names event
    · rw [register_taken hthere] at h
      obtain ⟨last, hnext, hlast⟩ := ih h
      exact ⟨last, .taken hthere hnext, hlast⟩
    · rw [register_standing hthere] at h
      obtain ⟨last, hnext, hlast⟩ := ih h
      exact ⟨last, .registered hthere hnext, hlast⟩

/-- What it does when a script fires an event. -/
theorem ends_fire {ev : Event} {next : Script σ}
    (h : (standing past).carryOut (steps + 1) m (.ask (.fire ev next)) = some out) :
    Ends m past (.ask (.fire ev next)) out := by
  simp only [Registry.carryOut, Option.bind_eq_bind, Option.bind_eq_some_iff, Option.pure_def,
    Option.some.injEq] at h
  obtain ⟨⟨m₁, r₁, inner⟩, htell, ⟨m₂, r₂, more⟩, hnext, rfl⟩ := h
  obtain ⟨mid, hinner, rfl⟩ := ih htell
  obtain ⟨last, hmore, rfl⟩ := ih hnext
  exact ⟨last, .fired hinner hmore, rfl⟩

/-- What it does when a callback is called. -/
theorem ends_call {ev : Event} {e : Entry σ} {es : List (Entry σ)}
    (h : (standing past).carryOut (steps + 1) m (.tell ev (e :: es)) = some out) :
    Ends m past (.tell ev (e :: es)) out := by
  simp only [Registry.carryOut, Option.bind_eq_bind, Option.bind_eq_some_iff, Option.pure_def,
    Option.some.injEq] at h
  obtain ⟨⟨m₁, r₁, inner⟩, hcall, ⟨m₂, r₂, more⟩, hrest, rfl⟩ := h
  obtain ⟨mid, hinner, rfl⟩ := ih hcall
  obtain ⟨last, hmore, rfl⟩ := ih hrest
  exact ⟨last, .called hinner hmore, rfl⟩

end Step

theorem ends_carryOut (steps : Nat) : ∀ {m : σ} {past turn out},
    (standing past).carryOut steps m turn = some out → Ends m past turn out := by
  -- on the steps: every request goes on with one less, from the history that it left
  induction steps with
  | zero =>
    intro m past turn out h
    cases h
  | succ steps ih =>
    intro m past turn out h
    cases turn with
    | tell ev es =>
      cases es with
      | nil =>
        obtain rfl := Option.some.inj h
        exact ⟨past, .told, rfl⟩
      | cons e es => exact ends_call ih h
    | ask script =>
      cases script with
      | done =>
        obtain rfl := Option.some.inj h
        exact ⟨past, .done, rfl⟩
      | fetch next =>
        obtain ⟨last, hnext, hlast⟩ := ih h
        exact ⟨last, .recalled hnext, hlast⟩
      | keep kept next =>
        obtain ⟨last, hnext, hlast⟩ := ih h
        exact ⟨last, .kept hnext, hlast⟩
      | unregister event name next => exact ends_unregister ih h
      | register event name callback next => exact ends_register ih h
      | fire ev next => exact ends_fire ih h
      | names event next =>
        obtain ⟨last, hnext, hlast⟩ := ih h
        exact ⟨last, .named hnext, hlast⟩
      | events next =>
        obtain ⟨last, hnext, hlast⟩ := ih h
        exact ⟨last, .listed hnext, hlast⟩

/-! ### Compilations -/

/-- What callbacks are told after a source was compiled or refused. -/
def outcomeEvent (source : Text) : Except Fault Text → Event
  | .ok python => ⟨after, source, python, none⟩
  | .error f => ⟨failed, source, [], some f.message⟩

/-- A compilation as something that is asked: one firing before, and one for the outcome. -/
def compilation (σ : Type) (source : Text) (outcome : Except Fault Text) : Turn σ :=
  .ask (.fire ⟨before, source, [], none⟩ (.fire (outcomeEvent source outcome) .done))

theorem Registry.compile_eq (n : Nat) (m : σ) (r : Registry σ) (style : Python.Style) (source : Text) :
    r.compile n m style source = (r.fire n m ⟨before, source, [], none⟩).bind fun first =>
      (first.2.1.fire n first.1 (outcomeEvent source (Anadil.compile style source))).bind fun second =>
        some (Anadil.compile style source, second.1, second.2.1, first.2.2 ++ second.2.2) := by
  simp only [compile]
  cases Anadil.compile style source <;> rfl

section
variable {m m' : σ} {past last : List (Change σ)} {style : Python.Style} {source : Text} {calls : List Call}

theorem ends_compile {r' : Registry σ} {n : Nat} {outcome : Except Fault Text}
    (h : (standing past).compile n m style source = some (outcome, m', r', calls)) :
    outcome = Anadil.compile style source ∧ Ends m past (compilation σ source outcome) (m', r', calls) := by
  rw [Registry.compile_eq] at h
  simp only [Registry.fire, Option.bind_eq_some_iff, Option.some.injEq, Prod.mk.injEq] at h
  obtain ⟨⟨m₁, r₁, first⟩, hfirst, ⟨m₂, r₂, second⟩, hsecond, rfl, rfl, rfl, rfl⟩ := h
  obtain ⟨mid, hinner, rfl⟩ := ends_carryOut n hfirst
  obtain ⟨last, hmore, rfl⟩ := ends_carryOut n hsecond
  have hdone := Unfolds.fired hmore .done
  rw [List.append_nil] at hdone
  exact ⟨rfl, last, .fired hinner hdone, rfl⟩

/-- A compilation settles as its events unfold. -/
theorem compile_settles (h : Unfolds m past (compilation σ source (Anadil.compile style source)) calls m' last) :
    ∃ n, ∀ k, n ≤ k →
      (standing past).compile k m style source = some (Anadil.compile style source, m', standing last, calls) := by
  rcases h with ⟨⟩
  rename_i hfirst hrest
  rcases hrest with ⟨⟩
  rename_i hsecond hdone
  rcases hdone with ⟨⟩
  obtain ⟨n, hn⟩ := hfirst.settles
  obtain ⟨j, hj⟩ := hsecond.settles
  refine ⟨n + j, fun k hk => ?_⟩
  rw [Registry.compile_eq, Registry.fire, hn k (by omega), Option.bind_some, Registry.fire, hj k (by omega),
    Option.bind_some, List.append_nil]

end

/-- A registry does what the history of its changes says. -/
structure FollowsHistory (past : List (Change σ)) : Prop where
  distinct : ∀ event, ((standing past).names event).Nodup
  /-- What is done is what the history unfolds into. -/
  unfolds : ∀ {n m turn m' r' calls}, (standing past).carryOut n m turn = some (m', r', calls) →
    ∃ last, Unfolds m past turn calls m' last ∧ r' = standing last
  /-- What unfolds is done with enough steps. -/
  settles : ∀ {m turn calls m' last}, Unfolds m past turn calls m' last →
    ∃ n, ∀ k, n ≤ k → (standing past).carryOut k m turn = some (m', standing last, calls)
  /-- A compilation is two firings, and the second tells of its outcome. -/
  compiled : ∀ {n m style source outcome m' r' calls},
    (standing past).compile n m style source = some (outcome, m', r', calls) →
    outcome = Anadil.compile style source ∧
      ∃ last, Unfolds m past (compilation σ source outcome) calls m' last ∧ r' = standing last
  compiles : ∀ {m style source calls m' last},
    Unfolds m past (compilation σ source (Anadil.compile style source)) calls m' last →
    ∃ n, ∀ k, n ≤ k →
      (standing past).compile k m style source = some (Anadil.compile style source, m', standing last, calls)

/-- A registry lists the events that have callbacks, and is left alone when there is nothing to take away. -/
structure Registry.Orderly (r : Registry σ) : Prop where
  listed : ∀ event, event ∈ r.events ↔ r.names event ≠ []
  /-- Events are in strict order if they are texts as they are read from bytes. -/
  sorted : (∀ e ∈ r, Text.ofBytes e.event.bytes = e.event) → r.events.Pairwise (Text.before · · = true)
  untouched : ∀ event name, (r.unregister event name).1 = false → (r.unregister event name).2 = r

/-- Whatever callers and callbacks ask and remember, also while callbacks are being told of an event, a registry that
was empty is what stands after the history of its changes, does what the history says, and ends if the history does. -/
theorem carryOut_unfolds_history :
    standing ([] : List (Change σ)) = [] ∧ (∀ past : List (Change σ), FollowsHistory past) ∧
      ∀ r : Registry σ, r.Orderly := by
  refine ⟨rfl, fun past => ⟨nodup_names past, ?_, Unfolds.settles, ends_compile, compile_settles⟩,
    fun r => ⟨fun event => r.mem_events_iff, r.sorted_events, fun event name h => ?_⟩⟩
  · exact fun h => ends_carryOut _ h
  · rw [Registry.unregister] at h ⊢
    split at h
    · cases h
    · rw [if_neg ‹_›]

-- A callback that another one takes away during a firing is still told of it.
example : (Registry.carryOut 8 () [] (.ask (.register "e" "a" (some fun _ => .unregister "e" "b" fun _ => .done) fun _ =>
    .register "e" "b" (some fun _ => .done) fun _ => .fire ⟨"e", [], [], none⟩ .done))).map
      (fun out => (out.2.1.names "e", out.2.2.map (·.name))) = some ([("a" : Text)], [("a" : Text), "b"]) := by
  cbv

-- A callback that counts how often it was called takes itself away the second time.
example : (Registry.carryOut 14 0 [] (.ask (.register "e" "a" (some fun _ => .fetch fun n => .keep (n + 1)
    (if n = 0 then .done else .unregister "e" "a" fun _ => .done)) fun _ => .fire ⟨"e", [], [], none⟩
      (.fire ⟨"e", [], [], none⟩ (.fire ⟨"e", [], [], none⟩ .done))))).map
      (fun out => (out.1, out.2.1.names "e", out.2.2.length)) = some (2, [], 2) := by
  cbv

end Hook

end Anadil
