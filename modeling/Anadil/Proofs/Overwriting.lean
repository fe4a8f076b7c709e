import Anadil.Cli.Workbench.Root
import Anadil.Proofs.Files

/-! # Results that are written over sources

`transpile --write` puts the Python of each source beside it, under a name that ends in `.py`. A source that has such a
name itself lies where a result goes, its own or that of another source, and is lost then. -/

namespace Anadil.Cli.Workbench

open Files (IsAnchored Stores)

variable {style : Python.Style} {fs fs' : Files} {paths : List Text} {flags : Flags} {s : Session}

/-- The results that are written beside sources, each with its path, and the files then. What cannot be read or written
stops the run. -/
def writeBeside (style : Python.Style) : Files → List Text → List (Text × Text) × Files
  | fs, [] => ([], fs)
  | fs, path :: paths =>
    if path = ("-" : Text) then writeBeside style fs paths
    else
      match fs.read path with
      | .error _ => ([], fs)
      | .ok source =>
        match compile style source with
        | .error _ => writeBeside style fs paths
        | .ok python =>
          match fs.write (outputPath path) python with
          | .error _ => ([], fs)
          | .ok fs' => ((outputPath path, python) :: (writeBeside style fs' paths).1, (writeBeside style fs' paths).2)

/-- The files that a run leaves, however it ends. -/
def filesAfter {α : Type} (run : Run α) (s : Session) : Files :=
  match run s with
  | .ok _ s' => s'.files
  | .error _ s' => s'.files

theorem filesAfter_bind {α β : Type} (run : Run α) (k : α → Run β) (s : Session) : filesAfter (run >>= k) s =
    match run s with
    | .ok a s' => filesAfter (k a) s'
    | .error _ s' => s'.files := by
  simp only [filesAfter, bind, EStateM.bind]
  cases run s <;> rfl

/-- A source that comes from the input or that cannot be compiled leaves the files. -/
theorem transpileSource_unsaved (houtput : flags.text "output" = []) (path source : Text)
    (hunsaved : path = ("-" : Text) ∨ ∃ f, compile style source = .error f) (s : Session) :
    ∃ ok s', transpileSource style flags path source s = .ok ok s' ∧ s'.files = s.files := by
  unfold compile at hunsaved
  unfold transpileSource
  generalize compileLogged style source = compiled at hunsaved ⊢
  obtain ⟨outcome, log⟩ := compiled
  cases outcome with
  | error f => exact ⟨_, _, rfl, rfl⟩
  | ok python =>
    obtain rfl | ⟨f, hf⟩ := hunsaved
    · simp only [houtput, List.isEmpty_nil, Bool.not_true, Bool.false_eq_true, ↓reduceIte, bne_self_eq_false,
        Bool.and_false]
      exact ⟨_, _, rfl, rfl⟩
    · cases hf

theorem writeLog_eq (least : Log.Level) (log : List Log.Record) (s : Session) : writeLog least log s =
    .ok () { s with stderr := s.stderr ++ (log.filter fun r => least ≤ r.level).flatMap logLine } := rfl

theorem changeFiles_eq (f : Files → Except Fault Files) (s : Session) : changeFiles f s =
    match f s.files with
    | .error e => .error (.fault e) s
    | .ok fs => .ok () { s with files := fs } := by
  change (settle (f s.files) >>= fun files => set { s with files }) s = _
  cases f s.files <;> rfl

theorem transpileSource_saved (hwrite : flags.switch "write" = true) (houtput : flags.text "output" = [])
    {path source python : Text} (hpath : path ≠ ("-" : Text)) (hcompile : compile style source = .ok python) (s : Session) :
    match s.files.write (outputPath path) python with
    | .error f => ∃ s', transpileSource style flags path source s = .error (.fault f) s' ∧ s'.files = s.files
    | .ok fs' => ∃ s', transpileSource style flags path source s = .ok true s' ∧ s'.files = fs' := by
  unfold compile at hcompile
  unfold transpileSource
  generalize compileLogged style source = compiled at hcompile ⊢
  obtain ⟨outcome, log⟩ := compiled
  subst hcompile
  simp only [hwrite, houtput, List.isEmpty_nil, Bool.not_true, Bool.false_eq_true, ↓reduceIte, Bool.true_and,
    bne_iff_ne, hpath, ne_eq, not_false_eq_true, save, bind, EStateM.bind, writeLog_eq, changeFiles_eq]
  cases s.files.write (outputPath path) python with
  | error f => exact ⟨_, rfl, rfl⟩
  | ok fs' => exact ⟨_, rfl, rfl⟩

theorem readSource_eq (path : Text) (s : Session) : readSource path s =
    if path = ("-" : Text) then .ok s.stdin { s with stdin := [] }
    else
      match s.files.read path with
      | .error f => .error (.fault f) s
      | .ok source => .ok source s := by
  unfold readSource
  by_cases hpath : path = ("-" : Text)
  · rw [if_pos hpath, if_pos (beq_iff_eq.mpr hpath)]
    rfl
  · rw [if_neg hpath, if_neg (by simpa using hpath)]
    change settle (s.files.read path) s = _
    cases s.files.read path <;> rfl

theorem filesAfter_countFailures (hwrite : flags.switch "write" = true) (houtput : flags.text "output" = []) (n : Nat) :
    filesAfter (paths.foldlM (fun n path => do
      return if ← transpileSource style flags path (← readSource path) then n else n + 1) n) s =
      (writeBeside style s.files paths).2 := by
  induction paths generalizing n s with
  | nil => rfl
  | cons path paths ih =>
    -- The loop goes on from a session of which only the files matter.
    have hrest {source : Text} {s s' : Session} {ok : Bool} {fs : Files}
        (h : transpileSource style flags path source s = .ok ok s' ∧ s'.files = fs) :
        filesAfter (transpileSource style flags path source >>= fun ok =>
          pure (if ok then n else n + 1) >>= fun n => paths.foldlM (fun n path => do
            return if ← transpileSource style flags path (← readSource path) then n else n + 1) n) s =
          (writeBeside style fs paths).2 := by
      rw [filesAfter_bind, h.1, ← h.2]
      simp only [pure_bind]
      exact ih _
    rw [List.foldlM_cons, bind_assoc, filesAfter_bind, readSource_eq, writeBeside]
    simp only [bind_assoc]
    by_cases hpath : path = ("-" : Text)
    · obtain ⟨ok, s', h⟩ := transpileSource_unsaved houtput path s.stdin (.inl hpath) { s with stdin := [] }
      simp only [if_pos hpath]
      exact hrest h
    · simp only [if_neg hpath]
      cases s.files.read path with
      | error f => rfl
      | ok source =>
        simp only
        cases hcompile : compile style source with
        | error f =>
          obtain ⟨ok, s', h⟩ := transpileSource_unsaved houtput path source (.inr ⟨f, hcompile⟩) s
          exact hrest h
        | ok python =>
          have hsaved := transpileSource_saved hwrite houtput hpath hcompile s
          cases hw : s.files.write (outputPath path) python with
          | error f =>
            simp only [hw] at hsaved ⊢
            obtain ⟨s', h, hs'⟩ := hsaved
            simp only [filesAfter_bind, h]
            exact hs'
          | ok fs' =>
            simp only [hw] at hsaved ⊢
            obtain ⟨s', h⟩ := hsaved
            exact hrest h

/-- What a run of the command writes, and the files then. A name for the result is refused beside the wish to write. -/
def written (flags : Flags) (s : Session) : List (Text × Text) × Files :=
  match Config.load s.files s.environment (flags.text "config") with
  | .error _ => ([], s.files)
  | .ok c => if flags.text "output" = [] then writeBeside (styleOf c) s.files flags.args else ([], s.files)

theorem filesAfter_transpile (hwrite : flags.switch "write" = true) (s : Session) :
    filesAfter (transpile flags) s = (written flags s).2 := by
  unfold transpile written
  by_cases houtput : flags.text "output" = []
  · have hsettings : settings flags s =
        match Config.load s.files s.environment (flags.text "config") with
        | .error f => .error (.fault f.fault) s
        | .ok c => .ok c s := by
      change settle (_ : Except Fault Config) s = _
      cases Config.load s.files s.environment (flags.text "config") <;> rfl
    have hneed : ∀ n s, filesAfter (needAll flags.args n) s = s.files := by
      intro n s
      unfold needAll
      split <;> rfl
    simp only [houtput, List.isEmpty_nil, Bool.not_true, Bool.false_and, Bool.false_eq_true, ↓reduceIte]
    rw [filesAfter_bind, hsettings]
    cases Config.load s.files s.environment (flags.text "config") with
    | error f => rfl
    | ok c =>
      simp only [filesAfter_bind, hneed]
      exact filesAfter_countFailures hwrite houtput 0
  · have hstop : (!(flags.text "output").isEmpty && (flags.switch "write" || flags.args.length != 1)) = true := by
      simp [hwrite, houtput]
    simp only [if_pos hstop, if_neg houtput]
    split <;> rfl

theorem files_run {args : List Text} {shows : Bool} (user : Text)
    (hdispatch : dispatch (program user).root args = .run transpile flags shows) (hwrite : flags.switch "write" = true)
    (s : Session) : ((program user).run args s).2.files = (written flags s).2 := by
  have hbefore : ∃ s', introduce flags s = .ok () s' ∧ s'.files = s.files ∧ s'.environment = s.environment := by
    unfold introduce
    simp only [bind, EStateM.bind]
    by_cases h : flags.switch "show-version" = true
    · simp only [h]
      exact ⟨_, rfl, rfl, rfl⟩
    · simp only [h]
      exact ⟨_, rfl, rfl, rfl⟩
  obtain ⟨s', hs', hfiles, henvironment⟩ := hbefore
  have hafter := filesAfter_transpile hwrite s'
  rw [written, hfiles, henvironment, ← written] at hafter
  have hrun : ((program user).before flags *> transpile flags) s = transpile flags s' := by
    simp only [program, seqRight_eq_bind, bind, EStateM.bind, hs']
  simp only [Program.run, hdispatch, hrun]
  unfold filesAfter at hafter
  cases htranspile : transpile flags s' with
  | ok _ s'' => rwa [htranspile] at hafter
  | error e s'' =>
    rw [htranspile] at hafter
    cases e <;> exact hafter

/-! ### What is read afterwards -/

/-- The last of some results that lies where a file is, if one does. -/
def latest (fs : Files) (path text : Text) (results : List (Text × Text)) : Text :=
  ((results.filter fun w => fs.key w.1 = fs.key path).map (·.2)).getLastD text

section Reading
variable {path text q python : Text}

theorem ext_outputPath (path : Text) : Path.ext (outputPath path) = ".py" :=
  Path.ext_append _ (by decide) (by decide)

theorem outputPath_eq_self (h : Path.ext path = ".py") : outputPath path = path :=
  (congrArg (Path.withoutExt path ++ ·) h.symm).trans (Path.withoutExt_append_ext path)

theorem ext_place (hfs : fs.IsAnchored) (hdisk : fs.volume = .disk) {k : Text} (h : fs.place path = .ok k)
    (hplain : fs.hasDirectory k = false) : Path.ext k = Path.ext path := by
  rw [Path.ext, Path.ext, Files.getLast?_place hfs hdisk h hplain]

theorem ext_key_of_stores (hfs : fs.IsAnchored) (hdisk : fs.volume = .disk) (h : fs.Stores path text) :
    Path.ext (fs.key path) = Path.ext path := ext_place hfs hdisk (h.placed hdisk) (h.plain hdisk)

/-- A result lies where only a file with its extension can be. -/
theorem ext_key_of_write (hfs : fs.IsAnchored) (hdisk : fs.volume = .disk)
    (h : fs.write (outputPath q) python = .ok fs') : Path.ext (fs.key (outputPath q)) = ".py" := by
  obtain ⟨k, hplace, hplain, -⟩ := Files.write_disk hdisk h
  rw [← (Files.place_eq_ok hfs hdisk hplace).1, ext_place hfs hdisk hplace hplain, ext_outputPath]

theorem latest_cons (w : Text × Text) (ws : List (Text × Text)) :
    latest fs path text (w :: ws) = latest fs path (if fs.key w.1 = fs.key path then w.2 else text) ws := by
  unfold latest
  by_cases h : fs.key w.1 = fs.key path
  · rw [List.filter_cons_of_pos (by simpa using h), if_pos h, List.map_cons, List.getLastD_cons]
  · rw [List.filter_cons_of_neg (by simpa using h), if_neg h]

/-- The step: one more result lies over the file, or over another. -/
theorem stores_write_latest (hfs : fs.IsAnchored) (hdisk : fs.volume = .disk) (h : fs.Stores path text)
    (hw : fs.write (outputPath q) python = .ok fs') :
    fs'.Stores path (if fs.key (outputPath q) = fs.key path then python else text) := by
  split
  · rename_i hkey
    refine h.overwrite hfs hkey.symm hw fun hnull => ?_
    have hext := ext_key_of_write hfs hdisk hw
    rw [hnull] at hext
    exact absurd hext (by decide)
  · rename_i hkey
    exact (Files.differ_write hfs hw).stored path text h fun heq => hkey heq.symm

theorem stores_writeBeside (hfs : fs.IsAnchored) (hdisk : fs.volume = .disk) (h : fs.Stores path text) :
    (writeBeside style fs paths).2.Stores path (latest fs path text (writeBeside style fs paths).1) := by
  fun_induction writeBeside style fs paths generalizing text with
  | case1 => exact h
  | case2 fs paths ih => exact ih hfs hdisk h
  | case3 => exact h
  | case4 fs q paths hq source hread f hcompile ih => exact ih hfs hdisk h
  | case5 => exact h
  | case6 fs q paths hq source hread python hcompile fs' hw ih =>
    have hdiffer := Files.differ_write hfs hw
    have hrest := ih (hdiffer.anchored hfs) (hdiffer.volume.trans hdisk) (stores_write_latest hfs hdisk h hw)
    rw [latest_cons]
    simpa only [latest, hdiffer.key] using hrest

theorem mem_writeBeside (hfs : fs.IsAnchored) (hdisk : fs.volume = .disk) {w : Text × Text}
    (h : w ∈ (writeBeside style fs paths).1) :
    Path.ext (fs.key w.1) = ".py" ∧ ∃ q ∈ paths, w.1 = outputPath q := by
  fun_induction writeBeside style fs paths with
  | case1 => cases h
  | case2 fs paths ih =>
    obtain ⟨hext, q, hq, hw⟩ := ih hfs hdisk h
    exact ⟨hext, q, List.mem_cons_of_mem _ hq, hw⟩
  | case3 => cases h
  | case4 fs q paths hq source hread f hcompile ih =>
    obtain ⟨hext, q, hq, hw⟩ := ih hfs hdisk h
    exact ⟨hext, q, List.mem_cons_of_mem _ hq, hw⟩
  | case5 => cases h
  | case6 fs q paths hq source hread python hcompile fs' hw ih =>
    rcases List.mem_cons.mp h with rfl | h
    · exact ⟨ext_key_of_write hfs hdisk hw, q, List.mem_cons_self, rfl⟩
    · have hdiffer := Files.differ_write hfs hw
      obtain ⟨hext, q, hq, hw⟩ := ih (hdiffer.anchored hfs) (hdiffer.volume.trans hdisk) h
      exact ⟨hdiffer.key w.1 ▸ hext, q, List.mem_cons_of_mem _ hq, hw⟩

theorem read_of_latest_ne (hfs : fs.IsAnchored) (hdisk : fs.volume = .disk) (h : fs.Stores path text)
    (hne : latest fs path text (writeBeside style fs paths).1 ≠ text) :
    Path.ext path = ".py" ∧ ∃ q ∈ paths, fs.key (outputPath q) = fs.key path := by
  obtain ⟨w, hw⟩ := List.exists_mem_of_ne_nil _ fun hnone : (writeBeside style fs paths).1.filter
    (fun w => fs.key w.1 = fs.key path) = [] => hne (by rw [latest, hnone]; rfl)
  obtain ⟨hmem, hkey⟩ := List.mem_filter.mp hw
  obtain ⟨hext, q, hq, hout⟩ := mem_writeBeside hfs hdisk hmem
  rw [of_decide_eq_true hkey, ext_key_of_stores hfs hdisk h] at hext
  exact ⟨hext, q, hq, by rw [← hout, of_decide_eq_true hkey]⟩

theorem read_compileFile (hfs : fs.IsAnchored) (hdisk : fs.volume = .disk) (h : fs.Stores path text) {out : Text}
    (hcompile : compileFile fs style path = .ok (out, fs')) : fs'.read path = .ok text := by
  simp only [compileFile, bind_eq_ok] at hcompile
  obtain ⟨source, -, python, -, hcompile⟩ := hcompile
  split at hcompile
  · cases hcompile
  · rename_i hother
    obtain ⟨fs'', hw, hout⟩ := bind_eq_ok.mp hcompile
    obtain ⟨-, rfl⟩ := Prod.mk.inj (Except.ok.inj hout)
    rw [mapError_eq_ok] at hw
    refine ((Files.differ_write hfs hw).stored path text h fun hkey => hother ?_).read
    have hext := ext_key_of_write hfs hdisk hw
    rw [← hkey, ext_key_of_stores hfs hdisk h] at hext
    exact outputPath_eq_self hext

/-- After sources are compiled with `--write`, every file has the last result that lies where it is, or else the text
that it had. Only a file whose name ends in `.py` can be lost, to a source beside which it is. A file that is compiled by
itself never is. -/
theorem transpile_write_exact {args : List Text} {shows : Bool} (user : Text) (hfs : s.files.IsAnchored)
    (hdisk : s.files.volume = .disk) (hdispatch : dispatch (program user).root args = .run transpile flags shows)
    (hwrite : flags.switch "write" = true) :
    (∀ path text, s.files.read path = .ok text →
      ((program user).run args s).2.files.read path = .ok (latest s.files path text (written flags s).1)) ∧
    (∀ path text, s.files.read path = .ok text → ((program user).run args s).2.files.read path ≠ .ok text →
      Path.ext path = ".py" ∧ ∃ q ∈ flags.args, s.files.key (outputPath q) = s.files.key path) ∧
    ∀ style path text out fs', s.files.read path = .ok text → compileFile s.files style path = .ok (out, fs') →
      fs'.read path = .ok text := by
  have hread : ∀ path text, s.files.read path = .ok text →
      ((program user).run args s).2.files.read path = .ok (latest s.files path text (written flags s).1) := by
    intro path text htext
    have hstores := Files.stores_of_read hfs hdisk htext
    rw [files_run user hdispatch hwrite]
    unfold written
    split
    · exact hstores.read
    · split
      · exact (stores_writeBeside hfs hdisk hstores).read
      · exact hstores.read
  refine ⟨hread, fun path text htext hne => ?_, fun style path text out fs' htext hcompile => ?_⟩
  · have hstores := Files.stores_of_read hfs hdisk htext
    rw [hread path text htext] at hne
    have hne : latest s.files path text (written flags s).1 ≠ text := fun heq => hne (by rw [heq])
    unfold written at hne
    split at hne
    · exact absurd rfl hne
    · split at hne
      · exact read_of_latest_ne hfs hdisk hstores hne
      · exact absurd rfl hne
  · exact read_compileFile hfs hdisk (Files.stores_of_read hfs hdisk htext) hcompile

/-- A session with one file in its directory. -/
def sessionWith (name text : Text) : Session where
  files := (Files.disk "/w").put ("/w/" ++ name) text
  databases := []
  environment := []
  now := 0
  programs _ _ _ := .notFound
  stdin := []
  stdout := []
  stderr := []
  noteStyle := {}

theorem transpile_write_exact_kept :
    ((program []).run ["transpile", "-w", "a.tr"] (sessionWith "a.tr" "yazdır(1)")).2.files.read "a.tr" =
      .ok "yazdır(1)" := by
  have hfs : (sessionWith "a.tr" "yazdır(1)").files.IsAnchored :=
    ⟨fun _ => by decide +kernel, fun _ => by decide +kernel⟩
  have hread : (sessionWith "a.tr" "yazdır(1)").files.read "a.tr" = .ok "yazdır(1)" := by with_unfolding_all rfl
  rw [(transpile_write_exact [] hfs rfl (by with_unfolding_all rfl) (by decide +kernel)).1 _ _ hread]
  exact congrArg Except.ok (by decide +kernel)

/-- A source whose name ends in `.py` is lost to its own Python. -/
theorem overwritten_by_transpile :
    ((sessionWith "a.py" "yazdır(1)").files.read "a.py").toOption = some "yazdır(1)" ∧
      (((program []).run ["transpile", "--write", "a.py"] (sessionWith "a.py" "yazdır(1)")).2.files.read
        "a.py").toOption = some "print(1)\n" := by
  decide +kernel

end Reading

end Anadil.Cli.Workbench
