import Anadil.Proofs.Pipeline.Names
import Anadil.Proofs.Pipeline.Residue
import Anadil.Proofs.Pipeline.Verdicts

/-! # Stored sources stay as they are

Sources are stored as files below a data directory, and what they compile to is written beside them. The names of
the files are made of names from outside, and an action that is called off may leave a file that no sample knows.
As long as the digests of different sources start differently, the file of a sample holds its source all the same:
nothing that is written later has its key. -/

namespace Anadil.Pipeline

open Store (Sample)
open Anadil.Path (IsElement Unslashed)
open Files (DifferOnly lies)

variable {x : Submission} {fs : Files} {dataDir : Text} {a' : Sample} {w : Worker} {s : State}
  {ts : List Turn}

/-! ### Where files are -/

/-- Different sources have digests that start differently. -/
def Distinct (xs : List Submission) : Prop :=
  ∀ x ∈ xs, ∀ y ∈ xs, (Store.digest x.source).takeBytes 8 = (Store.digest y.source).takeBytes 8 →
    x.source.bytes = y.source.bytes

instance (xs : List Submission) : Decidable (Distinct xs) :=
  inferInstanceAs (Decidable (∀ x ∈ xs, ∀ y ∈ xs,
    (Store.digest x.source).takeBytes 8 = (Store.digest y.source).takeBytes 8 → x.source.bytes = y.source.bytes))

theorem Distinct.digest_eq {xs : List Submission} (h : Distinct xs) {y : Submission} (hx : x ∈ xs) (hy : y ∈ xs)
    (heq : (Store.digest x.source).takeBytes 8 = (Store.digest y.source).takeBytes 8) :
    Store.digest x.source = Store.digest y.source := congrArg Digest.sha256 (h x hx y hy heq)

/-- The elements of the path of a source that is taken into a batch. -/
inductive SourceAt (x : Submission) (b : Int) : List Text → Prop where
  | intro {stem : Text} (hstem : Unslashed stem)
      (hname : standardFilename x.filename (Store.digest x.source) = label stem x.source sourceExt) :
      SourceAt x b (inBatch b (label stem x.source sourceExt))

theorem exists_sourceAt (x : Submission) (b : Int) : ∃ xs, SourceAt x b xs := by
  obtain ⟨stem, hstem, hname⟩ := standardFilename_eq x.filename x.source
  exact ⟨_, .intro hstem hname⟩

/-- The elements of the path of a sample's Python. -/
inductive PythonAt (taken : List Submission) (a : Sample) : List Text → Prop where
  | unfiled (hpath : a.path = []) : PythonAt taken a (unfiled a.id)
  | filed {x : Submission} {b : Int} {stem : Text} (hx : x ∈ taken) (hfiled : FiledAs b x a) (hstem : Unslashed stem)
      (hname : standardFilename x.filename (Store.digest x.source) = label stem x.source sourceExt) :
      PythonAt taken a (inBatch b (label stem x.source pythonExt))

section Places
variable {b : Int} {a : Sample} {taken : List Submission} {xs ys : List Text}

theorem SourceAt.isElement (h : SourceAt x b xs) : ∀ y ∈ xs, IsElement y := by
  obtain ⟨hstem, -⟩ := h
  exact isElement_of_mem_inBatch (isElement_label hstem (by decide) x.source)

theorem SourceAt.ne_nil (h : SourceAt x b xs) : xs ≠ [] := by
  cases h
  exact List.cons_ne_nil _ _

theorem SourceAt.path (h : SourceAt x b xs) : x.path b = Text.join "/" xs := by
  obtain ⟨hstem, hname⟩ := h
  rw [Submission.path, hname, samplePath_eq b (isElement_label hstem (by decide) x.source)]

theorem SourceAt.path_ne_nil (h : SourceAt x b xs) : x.path b ≠ [] := by
  rw [h.path, Ne, Path.join_eq_nil fun y hy => (h.isElement y hy).nonempty]
  exact h.ne_nil

theorem PythonAt.isElement (h : PythonAt taken a ys) : ∀ y ∈ ys, IsElement y := by
  cases h with
  | unfiled => exact isElement_of_mem_unfiled a.id
  | filed _ _ hstem _ => exact isElement_of_mem_inBatch (isElement_label hstem (by decide) _)

theorem PythonAt.ne_nil (h : PythonAt taken a ys) : ys ≠ [] := by
  cases h with
  | unfiled => exact List.cons_ne_nil _ _
  | filed => exact List.cons_ne_nil _ _

theorem PythonAt.pythonPath (h : PythonAt taken a ys) (w : Worker) :
    w.pythonPath a = Path.join [w.dataDir, Text.join "/" ys] := by
  cases h with
  | unfiled hpath => exact w.pythonPath_unfiled hpath
  | filed _ hfiled hstem hname =>
    exact w.pythonPath_filed hstem (hfiled.path.trans (SourceAt.intro hstem hname).path)

theorem PythonAt.ne_source (h : PythonAt taken a ys) (hxs : SourceAt x b xs) : ys ≠ xs := by
  intro heq
  obtain ⟨-, -⟩ := hxs
  cases h with
  | unfiled => exact unfiled_ne_inBatch heq
  | filed => exact label_ne (inBatch_inj heq)

/-- Sources that are stored under one key have one digest. -/
theorem digest_eq_of_key (hfs : fs.IsAnchored) (hd : Distinct taken) (hx : x ∈ taken) {y : Submission}
    (hy : y ∈ taken) {b' : Int}
    (heq : fs.key (Path.join [dataDir, x.path b]) = fs.key (Path.join [dataDir, y.path b'])) :
    Store.digest x.source = Store.digest y.source := by
  obtain ⟨xs, hxs⟩ := exists_sourceAt x b
  obtain ⟨ys, hys⟩ := exists_sourceAt y b'
  rw [hxs.path, hys.path] at heq
  have hsame := hfs.key_below_inj hxs.ne_nil hxs.isElement hys.ne_nil hys.isElement heq
  obtain ⟨-, -⟩ := hxs
  obtain ⟨-, -⟩ := hys
  exact hd.digest_eq hx hy (label_inj (inBatch_inj hsame) rfl).1

theorem PythonAt.same (hd : Distinct taken) (h : PythonAt taken a xs) (h' : PythonAt taken a' ys)
    (heq : xs = ys) : a.id = a'.id ∨ a.sha256 = a'.sha256 := by
  cases h with
  | unfiled =>
    cases h' with
    | unfiled => exact .inl (unfiled_inj heq)
    | filed => exact absurd heq unfiled_ne_inBatch
  | filed hx hfiled =>
    cases h' with
    | unfiled => exact absurd heq.symm unfiled_ne_inBatch
    | filed hy hfiled' =>
      rw [hfiled.sha256, hfiled'.sha256]
      exact .inr (hd.digest_eq hx hy (label_inj (inBatch_inj heq) rfl).1)

/-- A key lies in one of the two directories for what samples have. -/
def Within (dataDir : Text) (fs : Files) (k : Text) : Prop :=
  lies k (fs.key (Path.join [dataDir, "batches"])) = true ∨ lies k (fs.key (Path.join [dataDir, "translations"])) = true

theorem SourceAt.within (hfs : fs.IsAnchored) (h : SourceAt x b xs) (dataDir : Text) :
    Within dataDir fs (fs.key (Path.join [dataDir, Text.join "/" xs])) := by
  have helements := h.isElement
  obtain ⟨-, -⟩ := h
  exact .inl (hfs.lies_below isElement_batches (List.cons_ne_nil _ _) (List.forall_mem_cons.mp helements).2)

theorem PythonAt.within (hfs : fs.IsAnchored) (h : PythonAt taken a ys) (dataDir : Text) :
    Within dataDir fs (fs.key (Path.join [dataDir, Text.join "/" ys])) := by
  have helements := h.isElement
  cases h with
  | unfiled =>
    exact .inr (hfs.lies_below isElement_translations (List.cons_ne_nil _ _) (List.forall_mem_cons.mp helements).2)
  | filed => exact .inl (hfs.lies_below isElement_batches (List.cons_ne_nil _ _) (List.forall_mem_cons.mp helements).2)

theorem SourceAt.not_null (hfs : fs.IsAnchored) (h : SourceAt x b xs) (dataDir : Text) :
    fs.key (Path.join [dataDir, Text.join "/" xs]) ≠ Files.nullDevice := by
  intro heq
  have hlast : (Path.parts (fs.key (Path.join [dataDir, Text.join "/" xs]))).getLast? = xs.getLast? :=
    hfs.getLast?_key_below h.ne_nil h.isElement
  obtain ⟨-, -⟩ := h
  have hnull : (Path.parts Files.nullDevice).getLast? = some ("null" : Text) := by decide
  rw [heq, hnull] at hlast
  have hlength : 4 = (label _ x.source sourceExt).length := congrArg List.length (Option.some.inj hlast)
  rw [length_label] at hlength
  omega

end Places

/-! ### What every step keeps -/

/-- What every step keeps of samples and files; `taken` are the sources that are taken in, sooner or later. -/
structure Filed (dataDir : Text) (taken : List Submission) (rows : List Sample) (fs : Files) : Prop where
  anchored : fs.IsAnchored
  digests : (rows.map Sample.sha256).Nodup
  stored : ∀ a ∈ rows, a.path ≠ [] → ∃ x ∈ taken, (∃ b, FiledAs b x a) ∧
    fs.Stores (Path.join [dataDir, a.path]) a.source

namespace Filed
variable {taken : List Submission} {rows : List Sample} {fs' : Files} {a : Sample}
  (h : Filed dataDir taken rows fs)
include h

theorem exists_pythonAt (ha : a ∈ rows) : ∃ ys, PythonAt taken a ys := by
  by_cases hpath : a.path = []
  · exact ⟨_, .unfiled hpath⟩
  · obtain ⟨x, hx, ⟨b, hfiled⟩, -⟩ := h.stored a ha hpath
    obtain ⟨stem, hstem, hname⟩ := standardFilename_eq x.filename x.source
    exact ⟨_, .filed hx hfiled hstem hname⟩

/-- Files that hold no source of a sample may change. -/
theorem keep {changed : Text → Prop} (hdiffer : DifferOnly changed fs fs')
    (hspared : ∀ a ∈ rows, a.path ≠ [] → ¬ changed (fs.key (Path.join [dataDir, a.path]))) :
    Filed dataDir taken rows fs' where
  anchored := hdiffer.anchored h.anchored
  digests := h.digests
  stored a ha hpath := by
    obtain ⟨x, hx, hfiled, hstores⟩ := h.stored a ha hpath
    exact ⟨x, hx, hfiled, hdiffer.stored _ _ hstores (hspared a ha hpath)⟩

/-- A sample whose source is stored may be added. -/
theorem append {row : Sample} (hdigest : ∀ a ∈ rows, a.sha256 ≠ row.sha256) (hrow : row.path ≠ [] →
    ∃ x ∈ taken, (∃ b, FiledAs b x row) ∧ fs.Stores (Path.join [dataDir, row.path]) row.source) :
    Filed dataDir taken (rows ++ [row]) fs where
  anchored := h.anchored
  digests := by
    rw [List.map_append, List.nodup_append]
    refine ⟨h.digests, List.nodup_singleton _, fun d hd d' hd' heq => ?_⟩
    obtain ⟨a, ha, rfl⟩ := List.mem_map.mp hd
    exact hdigest a ha (heq.trans (List.mem_singleton.mp hd'))
  stored a ha hpath := by
    rcases List.mem_append.mp ha with ha | ha
    · exact h.stored a ha hpath
    · obtain rfl := List.mem_singleton.mp ha
      exact hrow hpath

theorem python_ne (ha : a ∈ rows) (hpath : a.path ≠ []) (ha' : a' ∈ rows)
    (hw : w.dataDir = dataDir) : fs.key (Path.join [dataDir, a.path]) ≠ fs.key (w.pythonPath a') := by
  obtain ⟨x, -, ⟨b, hfiled⟩, -⟩ := h.stored a ha hpath
  obtain ⟨xs, hxs⟩ := exists_sourceAt x b
  obtain ⟨ys, hys⟩ := h.exists_pythonAt ha'
  rw [hfiled.path, hxs.path, hys.pythonPath, hw]
  exact fun heq => hys.ne_source hxs
    (h.anchored.key_below_inj hxs.ne_nil hxs.isElement hys.ne_nil hys.isElement heq).symm

/-- A new source goes to a file that is not the file of a sample. -/
theorem source_ne (hd : Distinct taken) (ha : a ∈ rows) (hpath : a.path ≠ []) (hx : x ∈ taken)
    (hnew : ∀ a ∈ rows, a.sha256 ≠ Store.digest x.source) (b : Int) :
    fs.key (Path.join [dataDir, a.path]) ≠ fs.key (Path.join [dataDir, x.path b]) := by
  obtain ⟨y, hy, ⟨b', hfiled⟩, -⟩ := h.stored a ha hpath
  rw [hfiled.path]
  exact fun heq => hnew a ha (hfiled.sha256.trans (digest_eq_of_key h.anchored hd hy hx heq))

theorem sha256_eq (hd : Distinct taken) (ha : a ∈ rows) (hpath : a.path ≠ []) (ha' : a' ∈ rows)
    (heq : a.path = a'.path) : a.sha256 = a'.sha256 := by
  obtain ⟨x, hx, ⟨b, hfiled⟩, -⟩ := h.stored a ha hpath
  obtain ⟨y, hy, ⟨b', hfiled'⟩, -⟩ := h.stored a' ha' (heq ▸ hpath)
  rw [hfiled.path, hfiled'.path] at heq
  rw [hfiled.sha256, hfiled'.sha256]
  exact digest_eq_of_key h.anchored hd hx hy (congrArg (fun p => fs.key (Path.join [dataDir, p])) heq)

/-- Samples whose Python goes to one file are the same sample or have one source. -/
theorem python_same (hd : Distinct taken) (ha : a ∈ rows) (ha' : a' ∈ rows) {w' : Worker}
    (hw : w.dataDir = dataDir) (hw' : w'.dataDir = dataDir)
    (heq : fs.key (w.pythonPath a) = fs.key (w'.pythonPath a')) : a.id = a'.id ∨ a.sha256 = a'.sha256 := by
  obtain ⟨xs, hxs⟩ := h.exists_pythonAt ha
  obtain ⟨ys, hys⟩ := h.exists_pythonAt ha'
  rw [hxs.pythonPath, hys.pythonPath, hw, hw'] at heq
  exact hxs.same hd hys (h.anchored.key_below_inj hxs.ne_nil hxs.isElement hys.ne_nil hys.isElement heq)

end Filed

/-- Samples stay, and files change only where those of samples are. -/
structure Advances (dataDir : Text) (s s' : State) : Prop where
  rows : s.store.samples.rows <+: s'.store.samples.rows
  files : DifferOnly (Within dataDir s.files) s.files s'.files

theorem Advances.refl (dataDir : Text) (s : State) : Advances dataDir s s := ⟨List.prefix_refl _, .refl _⟩

theorem Within.congr {k : Text} {fs' : Files} {changed : Text → Prop} (h : DifferOnly changed fs fs')
    (hk : Within dataDir fs' k) : Within dataDir fs k := by
  unfold Within at *
  rwa [h.key, h.key] at hk

theorem Advances.trans {s' s'' : State} (h : Advances dataDir s s') (h' : Advances dataDir s' s'') :
    Advances dataDir s s'' :=
  ⟨h.rows.trans h'.rows, h.files.trans (h'.files.imp fun _ hk => hk.congr h.files)⟩

/-! ### Steps -/

/-- Whether a step keeps to a data directory, with nobody else at the files. -/
def Step.isConfined (dataDir : Text) (s : State) : Step → Bool
  | .ingest d _ _ => d == dataDir
  | .process w _ => w.dataDir == dataDir
  | .elsewhere _ files _ _ => files == s.files
  | _ => true

/-- What a turn submits, if anything. -/
def Turn.submission? (t : Turn) : Option Submission :=
  match t.step with
  | .ingest _ _ x => some x
  | _ => none

section Steps
variable {taken : List Submission} {s' : State} (h : Filed dataDir taken s.store.samples.rows s.files)
include h

theorem filed_spared (hstore : besideJobs s'.store = besideJobs s.store) (hfiles : s'.files = s.files) :
    Filed dataDir taken s'.store.samples.rows s'.files ∧ Advances dataDir s s' := by
  have hsamples : s'.store.samples = s.store.samples := congrArg (·.2.1) hstore
  rw [hsamples, hfiles]
  exact ⟨h, by rw [hsamples], hfiles ▸ .refl _⟩

theorem filed_taken (hd : Distinct taken) {b : Int} (hx : x ∈ taken) {r : Except Fault Receipt}
    (htaken : Taken dataDir b x s r s') :
    Filed dataDir taken s'.store.samples.rows s'.files ∧ Advances dataDir s s' := by
  obtain ⟨xs, hxs⟩ := exists_sourceAt x b
  -- a sample under the key of the new file would have its digest, and a file is written only if none has
  have hkept : Filed dataDir taken s.store.samples.rows s'.files :=
    h.keep htaken.files fun a ha hpath ⟨hdigest, hkey⟩ =>
      h.source_ne hd ha hpath hx (Store.hasDigest_eq_false.mp hdigest) b hkey
  have hfiles : DifferOnly (Within dataDir s.files) s.files s'.files := htaken.files.imp fun k hk => by
    rw [hk.2, hxs.path]
    exact hxs.within h.anchored dataDir
  rcases htaken.samples with ⟨hsame, -⟩ | ⟨row, hfiled, hdigest, hrows, hstores, -⟩
  · rw [hsame]
    exact ⟨hkept, by rw [hsame], hfiles⟩
  · rw [hrows]
    refine ⟨hkept.append (hfiled.sha256 ▸ Store.hasDigest_eq_false.mp hdigest) fun _ => ⟨x, hx, ⟨b, hfiled⟩, ?_⟩,
      hrows ▸ List.prefix_append _ _, hfiles⟩
    rw [hfiled.path, hfiled.source]
    exact hstores (hxs.path ▸ hxs.not_null h.anchored dataDir)

theorem filed_processed (hw : w.dataDir = dataDir) (htreated : Treated w s.store s'.store)
    (hfiles : DifferOnly (fun k => ∃ a ∈ s.store.samples.rows, k = s.files.key (w.pythonPath a)) s.files s'.files) :
    Filed dataDir taken s'.store.samples.rows s'.files ∧ Advances dataDir s s' := by
  have hsamples : s'.store.samples = s.store.samples := by
    rcases htreated with heq | ⟨_, _, _, _, heq⟩ | ⟨_, _, _, _, _, _, _, heq⟩ <;> exact congrArg (·.2.1) heq
  rw [hsamples]
  refine ⟨h.keep hfiles fun a ha hpath ⟨a', ha', hkey⟩ => h.python_ne ha hpath ha' hw hkey, by rw [hsamples],
    hfiles.imp ?_⟩
  rintro k ⟨a, ha, rfl⟩
  obtain ⟨ys, hys⟩ := h.exists_pythonAt ha
  rw [hys.pythonPath, hw]
  exact hys.within h.anchored dataDir

theorem filed_loaded {ctx : Store.Context} {text : Text} {batch : Option Int} {ids : List Int} {st : Store}
    (hload : s.store.loadSeeds ctx text batch = .ok (ids, st)) :
    Filed dataDir taken st.samples.rows s.files ∧ s.store.samples.rows <+: st.samples.rows := by
  refine Store.loadSeeds_preserves (P := fun st => Filed dataDir taken st.samples.rows s.files ∧
    s.store.samples.rows <+: st.samples.rows) (fun hst _ hpath hdigest => ?_) (fun hst => hst)
    ⟨h, List.prefix_refl _⟩ hload
  exact ⟨hst.1.append (Store.hasDigest_eq_false.mp hdigest) fun hne => absurd hpath hne,
    hst.2.trans (List.prefix_append _ _)⟩

/-- What is filed stays filed in every turn that is confined. -/
theorem filed_turn (hn : s.store.artifacts.Numbered Store.Artifact.id) (hd : Distinct taken) {t : Turn}
    (hconfined : t.step.isConfined dataDir s = true) (ht : ∀ x ∈ t.submission?, x ∈ taken) :
    Filed dataDir taken (s.turn t).store.samples.rows (s.turn t).files ∧ Advances dataDir s (s.turn t) := by
  obtain ⟨step, lease⟩ := t
  have hspared : ∀ {α : Type} {w : Work α}, Spares besideJobs w → Saves State.files w →
      Ends w { s with lease } fun _ s' =>
        Filed dataDir taken s'.store.samples.rows s'.files ∧ Advances dataDir s s' :=
    fun hstore hfiles => ((hstore _).and (hfiles _)).imp fun _ _ h' => filed_spared h h'.1 h'.2
  cases step with
  | ingest d b x =>
    obtain rfl := beq_iff_eq.mp hconfined
    have hends : Ends (ingest d b x) { s with lease } fun _ s' =>
        Filed d taken s'.store.samples.rows s'.files ∧ Advances d s s' :=
      (taken_ingest (s := { s with lease }) h.anchored d b x).imp fun r s' htaken =>
        filed_taken h hd (ht x rfl) ⟨htaken.files, htaken.samples⟩
    exact hends.settled
  | process w stage =>
    have htreated := (Worker.ends_process (s := { s with lease }) (w := w) hn stage).settled
    have hfiles := (Worker.differ_process (s := { s with lease }) (w := w) h.anchored stage).settled
    exact filed_processed h (beq_iff_eq.mp hconfined) htreated hfiles
  | load text batch =>
    refine (ends_update (P := fun _ s' => Filed dataDir taken s'.store.samples.rows s'.files ∧ Advances dataDir s s')
      (s := { s with lease }) (fun ids st hload => ?_) fun e _ => ⟨h, List.prefix_refl _, .refl _⟩).settled
    obtain ⟨hfiled, hrows⟩ := filed_loaded h hload
    exact ⟨hfiled, hrows, .refl _⟩
  | queue samples => exact (hspared (spares_queueExisting samples) (saves_files_queueExisting samples)).settled
  | reset stage => exact (hspared (spares_reset stage) (saves_files_update _)).settled
  | elsewhere now files log batches =>
    obtain rfl := beq_iff_eq.mp hconfined
    exact ⟨h, List.prefix_refl _, .refl _⟩

end Steps

/-! ### Runs -/

/-- Whether all steps of a run keep to a data directory. -/
def State.isConfined (dataDir : Text) (s : State) : List Turn → Bool
  | [] => true
  | t :: ts => t.step.isConfined dataDir s && (s.turn t).isConfined dataDir ts

/-- The sources that are taken in during a run. -/
def submissions (ts : List Turn) : List Submission := ts.filterMap Turn.submission?

theorem isConfined_append (dataDir : Text) (s : State) (ts us : List Turn) :
    s.isConfined dataDir (ts ++ us) = (s.isConfined dataDir ts && (ts.foldl State.turn s).isConfined dataDir us) := by
  induction ts generalizing s with
  | nil => rfl
  | cons t ts ih =>
    rw [List.cons_append, State.isConfined, State.isConfined, ih, Bool.and_assoc]
    rfl

/-- A run keeps to a data directory and takes in no sources but some. -/
structure Orderly (dataDir : Text) (taken : List Submission) (s : State) (ts : List Turn) : Prop where
  confined : s.isConfined dataDir ts = true
  taken : submissions ts ⊆ taken

theorem Orderly.left {taken : List Submission} {us : List Turn}
    (h : Orderly dataDir taken s (ts ++ us)) : Orderly dataDir taken s ts where
  confined := by
    have hconfined := h.confined
    rw [isConfined_append, Bool.and_eq_true] at hconfined
    exact hconfined.1
  taken := fun x hx => h.taken (by
    rw [submissions, List.filterMap_append]
    exact List.mem_append_left _ hx)

section Runs
variable (hfresh : s.Fresh) (hfs : s.files.IsAnchored) {taken : List Submission} (hd : Distinct taken)
include hfresh hd

theorem filed_next {t : Turn} (h : Orderly dataDir taken s (ts ++ [t]))
    (hfiled : Filed dataDir taken (ts.foldl State.turn s).store.samples.rows (ts.foldl State.turn s).files) :
    let s' := (ts ++ [t]).foldl State.turn s
    Filed dataDir taken s'.store.samples.rows s'.files ∧ Advances dataDir (ts.foldl State.turn s) s' := by
  have hconfined := h.confined
  rw [isConfined_append, Bool.and_eq_true] at hconfined
  have hstep : t.step.isConfined dataDir (ts.foldl State.turn s) = true := by
    simpa [State.isConfined] using hconfined.2
  rw [List.foldl_append]
  refine filed_turn hfiled (attested_run hfresh ts).artifacts hd hstep fun x hx => h.taken ?_
  rw [submissions, List.filterMap_append]
  exact List.mem_append_right _ (by simpa using hx)

include hfs

theorem filed_run (h : Orderly dataDir taken s ts) :
    Filed dataDir taken (ts.foldl State.turn s).store.samples.rows (ts.foldl State.turn s).files := by
  induction ts using List.reverseRecOn with
  | nil => exact ⟨hfs, by simp [hfresh.samples], by simp [hfresh.samples]⟩
  | append_singleton ts t ih => exact (filed_next hfresh hd h (ih h.left)).1

/-- Later in a run nothing is lost of what was there earlier. -/
theorem advances_run {before later : List Turn} (h : Orderly dataDir taken s (before ++ later)) :
    Advances dataDir (before.foldl State.turn s) ((before ++ later).foldl State.turn s) := by
  induction later using List.reverseRecOn with
  | nil =>
    rw [List.append_nil]
    exact .refl dataDir _
  | append_singleton later t ih =>
    -- the split stays where it is, and the run grows at its end
    rw [← List.append_assoc] at h ⊢
    exact (ih h.left).trans (filed_next hfresh hd h (filed_run hfresh hfs hd h.left)).2

end Runs

/-! ### Faithful files -/

/-- The files of samples below a data directory. -/
structure Faithful (dataDir : Text) (s : State) : Prop where
  named : ∀ a ∈ s.store.samples.rows, a.path ≠ [] → ∃ b, a.batch = some b ∧
    a.path = Text.join "/" ["batches", Text.integer b, a.name] ∧ IsElement a.name ∧ sourceExt <:+ a.name
  held : ∀ a ∈ s.store.samples.rows, a.path ≠ [] → s.files.read (Path.join [dataDir, a.path]) = .ok a.source
  apart : s.store.samples.rows.Pairwise fun a a' => a.path ≠ [] → a.path ≠ a'.path
  pythons : s.store.samples.rows.Pairwise fun a a' => ∀ w w' : Worker, w.dataDir = dataDir → w'.dataDir = dataDir →
    s.files.key (w.pythonPath a) ≠ s.files.key (w'.pythonPath a')
  beside : ∀ a ∈ s.store.samples.rows, a.path ≠ [] → ∀ a' ∈ s.store.samples.rows, ∀ w : Worker, w.dataDir = dataDir →
    s.files.key (Path.join [dataDir, a.path]) ≠ s.files.key (w.pythonPath a')

theorem Filed.faithful {taken : List Submission}
    (h : Filed dataDir taken s.store.samples.rows s.files) (hd : Distinct taken)
    (hn : s.store.samples.Numbered Sample.id) : Faithful dataDir s := by
  have hids := List.pairwise_map.mp hn.nodup
  have hdigests := List.pairwise_map.mp h.digests
  refine ⟨fun a ha hpath => ?_, fun a ha hpath => ?_, ?_, ?_, fun a ha hpath a' ha' w hw => h.python_ne ha hpath ha' hw⟩
  · obtain ⟨x, -, ⟨b, hfiled⟩, -⟩ := h.stored a ha hpath
    obtain ⟨stem, hstem, hname⟩ := standardFilename_eq x.filename x.source
    have hsource : SourceAt x b _ := .intro hstem hname
    rw [hfiled.name, hname]
    refine ⟨b, hfiled.batch, hfiled.path.trans hsource.path, isElement_label hstem (by decide) _, ?_⟩
    exact List.suffix_append _ _
  · obtain ⟨-, -, -, hstores⟩ := h.stored a ha hpath
    exact hstores.read
  · exact hdigests.imp_of_mem fun ha ha' hne hpath heq => hne (h.sha256_eq hd ha hpath ha' heq)
  · refine (hids.and hdigests).imp_of_mem fun ha ha' hne w w' hw hw' heq => ?_
    rcases h.python_same hd ha ha' hw hw' heq with hid | hdigest
    · exact hne.1 hid
    · exact hne.2 hdigest

/-- A source that is taken in and is no duplicate becomes a sample with a path. -/
theorem exists_sample_of_ingest {s' : State} (hfs : s.files.IsAnchored) {b : Int}
    {receipt : Receipt} (h : ingest dataDir b x s = .ok receipt s') (hnew : receipt.duplicate = false) :
    ∃ a ∈ s'.store.samples.rows, a.id = receipt.sample ∧ a.batch = some b ∧ a.source = x.source ∧ a.path ≠ [] := by
  rcases ((taken_ingest hfs dataDir b x).of_ok h).samples with ⟨-, hduplicate⟩ | ⟨row, hfiled, -, hrows, -, hreceipt⟩
  · rw [hduplicate receipt rfl] at hnew
    cases hnew
  · obtain ⟨xs, hxs⟩ := exists_sourceAt x b
    rw [hrows]
    exact ⟨row, List.mem_append_right _ (List.mem_singleton_self row), (hreceipt receipt rfl).symm, hfiled.batch,
      hfiled.source, hfiled.path ▸ hxs.path_ne_nil⟩

/-- During any run that keeps to a data directory, wherever its steps are called off, if the digests of different
sources start differently: every sample with a path is named after its batch and its own name, which is one element
of a path, and its file holds its source; no two samples share a path or a file for their Python, and no Python goes
where a source is; a source that is taken in and is no duplicate becomes such a sample, and stays one; and outside of
the two directories for what samples have, files keep their texts. -/
theorem sources_faithful {s : State} (hfresh : s.Fresh) (hfs : s.files.IsAnchored) {dataDir : Text} {ts : List Turn}
    (hconfined : s.isConfined dataDir ts = true) (hd : Distinct (submissions ts)) (before later : List Turn)
    (hsplit : ts = before ++ later) :
    let s₁ := before.foldl State.turn s
    let s₂ := ts.foldl State.turn s
    Faithful dataDir s₁ ∧
      (∀ b x lease receipt s', ingest dataDir b x { s₁ with lease } = .ok receipt s' → receipt.duplicate = false →
        ∃ a ∈ s'.store.samples.rows, a.id = receipt.sample ∧ a.batch = some b ∧ a.source = x.source ∧ a.path ≠ []) ∧
      s₁.store.samples.rows <+: s₂.store.samples.rows ∧
      ∀ k, lies k (s.files.key (Path.join [dataDir, "batches"])) = false →
        lies k (s.files.key (Path.join [dataDir, "translations"])) = false → s₂.files.at? k = s₁.files.at? k := by
  intro s₁ s₂
  subst hsplit
  have horderly : Orderly dataDir (submissions (before ++ later)) s (before ++ later) :=
    ⟨hconfined, List.Subset.refl _⟩
  have hbefore : Orderly dataDir (submissions (before ++ later)) s ([] ++ before) := horderly.left
  have hfiled := filed_run hfresh hfs hd hbefore
  have hstart : Advances dataDir s s₁ := advances_run hfresh hfs hd hbefore
  have hadvances : Advances dataDir s₁ s₂ := advances_run hfresh hfs hd horderly
  refine ⟨hfiled.faithful hd (attested_run hfresh before).samples, fun b x lease receipt s' h hnew => ?_,
    hadvances.rows, fun k hbatches htranslations => hadvances.files.texts k fun hk => ?_⟩
  · exact exists_sample_of_ingest (s := { s₁ with lease }) hfiled.anchored h hnew
  · -- no step moves the working directory, so keys are those of the start
    rcases hk.congr hstart.files with hk | hk
    · rw [hbatches] at hk
      cases hk
    · rw [htranslations] at hk
      cases hk

/-- Sources with awkward names are taken in on a disk, one of them is called off behind its file, a seed is loaded, and
all samples are compiled. -/
def awkward : List Turn :=
  let batches : Store.Table Store.Batch := ⟨[⟨1, "b", [], 0⟩], 1⟩
  [⟨.elsewhere 5 (.disk "/w") [] batches, none⟩, ⟨.ingest "d" 1 ⟨"..", [], "yaz(1)", []⟩, none⟩,
    ⟨.ingest "d" 1 ⟨"...", [], "yaz(2)", []⟩, none⟩, ⟨.ingest "d" 1 ⟨"a/.tr/", [], "yaz(3)", []⟩, none⟩,
    ⟨.ingest "d" 1 ⟨"../b.py", [], "yaz(4)", []⟩, some 1⟩, ⟨.load "[\x7b\"code\": \"yaz(5)\"\x7d]" none, none⟩,
    ⟨.queue [4], none⟩, ⟨.process stubborn "transpile", none⟩, ⟨.process stubborn "transpile", none⟩,
    ⟨.process stubborn "transpile", none⟩, ⟨.process stubborn "transpile", none⟩]

theorem sources_faithful_awkward :
    let s := State.start 0 (.disk "/w")
    let s' := awkward.foldl State.turn s
    s'.files.files.map Prod.fst = (["/dev/null", "/w/d/batches/1/sample.cc80c11b.tr", "/w/d/batches/1/...51cb9901.tr",
        "/w/d/batches/1/sample.84f8d0d7.tr", "/w/d/batches/1/b.0a895258.tr", "/w/d/batches/1/sample.cc80c11b.py",
        "/w/d/batches/1/...51cb9901.py", "/w/d/batches/1/sample.84f8d0d7.py", "/w/d/translations/4.py"] :
          List String).map Text.ofString ∧
      s.isConfined "d" awkward = true ∧ Distinct (submissions awkward) ∧ Faithful "d" s' := by
  have hconfined : (State.start 0 (.disk "/w")).isConfined "d" awkward = true := by decide +kernel
  have hd : Distinct (submissions awkward) := by decide +kernel
  exact ⟨by decide +kernel, hconfined, hd, (sources_faithful ⟨rfl, rfl, rfl, rfl, rfl⟩
    ⟨fun _ => by decide, fun _ => by decide⟩ hconfined hd awkward [] (List.append_nil _).symm).1⟩

end Anadil.Pipeline
