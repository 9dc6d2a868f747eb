import DiagramMarkup.Proofs.Attempts

/-!
# The verdict on a directory

A run on a directory visits the files below it in turn.

1. These are the files that a walk reaches (`RunSettings.mem_paths`), in whatever order they are sorted.
2. At its turn a file is a source, an archive with sources, or neither, or there is only something to log (`foundAt`).
   All its sources are tried, whatever becomes of them (`processFound_turn`), and so is every file (`processDir_turns`).
3. The run succeeds exactly if every attempt wrote its output (`run_dir_verdict`). An archive that cannot be walked is
   logged as an error, but holds no source that could fail, so the run may succeed (`run_dir_succeeds_packed`).
-/

namespace DiagramMarkup.Files

/-! ## Finding files -/

theorem Disk.child_eq_append (dir rel : String) : child dir rel = child dir "" ++ rel := by
  unfold child
  split
  · exact String.empty_append.symm
  split
  · rfl
  · rw [String.append_empty]

theorem Troubles.reaches_iff {t : Troubles} {dir rel : String} :
    t.reaches dir rel = true ↔ ∀ q ∈ ways dir rel, t.list q = none := by
  simp [reaches, List.all_eq_true, Option.isNone_iff_eq_none]

theorem Disk.mem_filesBelow_clean {d : Disk} {dir rel : String} {c : Content} :
    (rel, c) ∈ d.filesBelow (Path.clean dir) ↔ (walked dir rel, c) ∈ d.files := by
  simp only [filesBelow, List.mem_mergeSort, List.mem_filterMap, Option.map_eq_some_iff, relative?,
    Text.after?_eq_some_iff, ← child_eq_append]
  constructor
  · rintro ⟨⟨_, _⟩, hmem, r, rfl, ⟨⟩⟩
    exact hmem
  · intro hmem
    exact ⟨_, hmem, rel, rfl, rfl⟩

/-- The files that are found are those below the directory that are reached. -/
theorem RunSettings.mem_paths {cfg : RunSettings} {d : Disk} {dir path : String} :
    path ∈ cfg.paths d dir ↔ ∃ rel c, path = Disk.walked dir rel ∧ (path, c) ∈ d.files ∧
      ∀ q ∈ Troubles.ways dir rel, cfg.troubles.list q = none := by
  rw [paths, (cfg.sorting.perm _).mem_iff, Troubles.found, List.mem_map]
  simp only [List.mem_filter, List.mem_map, Troubles.reaches_iff]
  constructor
  · rintro ⟨_, ⟨⟨⟨rel, c⟩, hmem, rfl⟩, hways⟩, rfl⟩
    exact ⟨rel, c, rfl, Disk.mem_filesBelow_clean.1 hmem, hways⟩
  · rintro ⟨rel, c, rfl, hmem, hways⟩
    exact ⟨rel, ⟨⟨(rel, c), Disk.mem_filesBelow_clean.2 hmem, rfl⟩, hways⟩, rfl⟩

/-- They are in natural order if their numbers are written without leading zeros and are small enough to count. -/
theorem RunSettings.pairwise_paths {cfg : RunSettings} {d : Disk} {dir : String}
    (h : ∀ path ∈ cfg.paths d dir, ∃ ks, Ranked path.toList ks) :
    (cfg.paths d dir).Pairwise fun p q => naturalLess q p = false :=
  cfg.sorting.sorted _ (ordered_of_ranked fun p hp => h p ((cfg.sorting.perm _).mem_iff.2 hp))

namespace Run

/-! ## Turns -/

/-- What is to be done with a file below a directory: sources to try, or only something to log. -/
def sourcesIn (cfg : RunSettings) (set : Option Text.Charset) (dir path : String) (c : Content) :
    Except LogEntry (List Source) :=
  let name := nameBelow dir path
  match cfg.troubles.start (hasArchiveExt path || hasSourceExt path) (.file path) with
  | some why => .error ⟨.warn, "Skipping file", some why⟩
  | none =>
    if isArchive path c then
      match cfg.troubles.walk path c "" with
      | .error why => .error ⟨.error, "Unable to process archive", some why⟩
      | .ok es => .ok ((es.filter (recognised cfg path)).map (sourceOf set path (Path.dir name)))
    else if isSource path c.bytes then .ok [⟨name, c.bytes, .file path⟩]
    else .ok []

/-- What is to be done with what a path below a directory leads to. -/
def foundAt (cfg : RunSettings) (set : Option Text.Charset) (d : Disk) (dir path : String) :
    Except LogEntry (List Source) :=
  match d.stat path with
  | .file c => sourcesIn cfg set dir path c
  | _ => .ok []

/-- The turn of a file. -/
inductive Turn (cfg : RunSettings) (set : Option Text.Charset) (dir path : String) :
    List Attempt → RunState → RunState → Prop where
  | noted {e : LogEntry} {s : RunState} (h : foundAt cfg set s.disk dir path = .error e) :
      Turn cfg set dir path [] s { s with log := e :: s.log }
  | tried {as : List Attempt} {s t : RunState} (h : foundAt cfg set s.disk dir path = .ok (as.map (·.source)))
      (tries : Tries cfg as s t) : Turn cfg set dir path as s t

/-- The turns of files, one after the other. -/
inductive Turns (cfg : RunSettings) (set : Option Text.Charset) (dir : String) :
    List String → List Attempt → RunState → RunState → Prop where
  | done (s : RunState) : Turns cfg set dir [] [] s s
  | turn {path : String} {paths : List String} {as bs : List Attempt} {s t u : RunState} :
      Turn cfg set dir path as s t → Turns cfg set dir paths bs t u → Turns cfg set dir (path :: paths) (as ++ bs) s u

section Turns

variable {cfg : RunSettings} {set : Option Text.Charset} {dir path : String} {paths : List String} {as : List Attempt}
  {s t : RunState}

theorem Turn.tries (h : Turn cfg set dir path as s t) : Tries cfg as s t := by
  cases h with
  | noted => exact .logged _ (.done _)
  | tried _ tries => exact tries

theorem Turns.tries (h : Turns cfg set dir paths as s t) : Tries cfg as s t := by
  induction h with
  | done s => exact .done s
  | turn first _ ih => exact first.tries.append ih

/-- What a file holds in the beginning is tried at its turn, if no file is replaced. -/
theorem Turns.covers (h : Turns cfg set dir paths as s t) (hkeep : cfg.overwrite = false)
    (habs : Path.isAbsolute path = true) {d : Disk} (hd : d.Keeps s.disk) (hpath : path ∈ paths) {c : Content}
    (hstat : d.stat path = .file c) {sources : List Source} (hsources : sourcesIn cfg set dir path c = .ok sources)
    {src : Source} (hsrc : src ∈ sources) : ∃ a ∈ as, a.source = src := by
  induction h with
  | done s => cases hpath
  | @turn path' paths as bs s t u first rest ih =>
    rcases List.mem_cons.1 hpath with rfl | hpath
    · have found : foundAt cfg set s.disk dir path = .ok sources := by
        rw [foundAt, hd _ _ habs hstat]
        exact hsources
      cases first with
      | noted h => simp [found] at h
      | tried h _ =>
        obtain rfl : sources = as.map (·.source) := by simpa [found] using h
        obtain ⟨a, ha, rfl⟩ := List.mem_map.1 hsrc
        exact ⟨a, List.mem_append_left _ ha, rfl⟩
    · obtain ⟨a, ha, heq⟩ := ih (hd.trans (first.tries.kept hkeep)) hpath
      exact ⟨a, List.mem_append_right _ ha, heq⟩

variable (cfg set dir path s)

theorem processFound_run :
    (processFound cfg set dir path).run s = match s.disk.stat path with
      | .file c => (processContent cfg set dir path c).run s
      | _ => ((), s) := by
  simp only [processFound, StateT.run_bind, StateT.run_get, pure_bind]
  cases s.disk.stat path <;> rfl

theorem processContent_run (c : Content) :
    (∃ e, sourcesIn cfg set dir path c = .error e ∧
        (processContent cfg set dir path c).run s = ((), { s with log := e :: s.log })) ∨
      ∃ as t, sourcesIn cfg set dir path c = .ok (as.map (·.source)) ∧
        (processContent cfg set dir path c).run s = ((), t) ∧ Tries cfg as s t := by
  unfold sourcesIn processContent
  simp only
  cases cfg.troubles.start (hasArchiveExt path || hasSourceExt path) (.file path) with
  | some why => exact .inl ⟨_, rfl, rfl⟩
  | none =>
    cases harchive : isArchive path c with
    | true =>
      simp only [if_true, StateT.run_bind]
      cases hwalk : cfg.troubles.walk path c "" with
      | error why =>
        rw [processArchive_error cfg set _ _ hwalk]
        exact .inl ⟨_, rfl, rfl⟩
      | ok es =>
        obtain ⟨as, t, hrun, tries, hsources⟩ := processArchive_ok cfg set _ (Path.dir (nameBelow dir path)) hwalk s
        rw [hrun]
        exact .inr ⟨as, t, congrArg Except.ok hsources.symm, rfl, tries⟩
    | false =>
      simp only [Bool.false_eq_true, if_false]
      cases isSource path c.bytes with
      | true => exact .inr ⟨[⟨_, s⟩], _, rfl, rfl, .tried "Unable to process file" ⟨_, s⟩ (.done _)⟩
      | false => exact .inr ⟨[], s, rfl, rfl, .done s⟩

/-- Whatever is found, its sources are tried. -/
theorem processFound_turn : ∃ as, Turn cfg set dir path as s ((processFound cfg set dir path).run s).2 := by
  rw [processFound_run]
  split
  · next c hstat =>
    have found : foundAt cfg set s.disk dir path = sourcesIn cfg set dir path c := by simp [foundAt, hstat]
    rcases processContent_run cfg set dir path s c with ⟨e, he, hrun⟩ | ⟨as, t, hsources, hrun, tries⟩
    · rw [hrun]
      exact ⟨[], .noted (found.trans he)⟩
    · rw [hrun]
      exact ⟨as, .tried (found.trans hsources) tries⟩
  · next hother =>
    refine ⟨[], .tried ?_ (.done s)⟩
    unfold foundAt
    split
    · next c hstat => exact absurd hstat (hother c)
    · rfl

/-- Every file that is found has its turn. -/
theorem processFound_turns (paths : List String) :
    ∃ as, Turns cfg set dir paths as s ((paths.forM (processFound cfg set dir)).run s).2 := by
  induction paths generalizing s with
  | nil => exact ⟨[], .done s⟩
  | cons path paths ih =>
    obtain ⟨as, first⟩ := processFound_turn cfg set dir path s
    obtain ⟨bs, rest⟩ := ih ((processFound cfg set dir path).run s).2
    exact ⟨as ++ bs, .turn first rest⟩

theorem notes_run (whys : List String) :
    ∃ log, (whys.forM fun why => note .warn "Skipping path" (some why)).run s = ((), { s with log := log }) := by
  induction whys generalizing s with
  | nil => exact ⟨s.log, rfl⟩
  | cons why whys ih =>
    obtain ⟨log, hlog⟩ := ih { s with log := ⟨.warn, "Skipping path", some why⟩ :: s.log }
    exact ⟨log, hlog⟩

/-- A directory is processed by the turns of all files that are found. -/
theorem processDir_turns :
    ∃ log as t, (processDir cfg set dir).run s = ((), t) ∧
      Turns cfg set dir (cfg.paths s.disk dir) as { s with log := log } t := by
  obtain ⟨log, hnotes⟩ := notes_run s (cfg.troubles.unlisted s.disk dir)
  obtain ⟨as, turns⟩ := processFound_turns cfg set dir { s with log := log } (cfg.paths s.disk dir)
  refine ⟨log, as, _, ?_, turns⟩
  unfold processDir
  rw [StateT.run_bind]
  change StateT.run (do
    (cfg.troubles.unlisted s.disk dir).forM fun why => note .warn "Skipping path" (some why)
    (cfg.paths s.disk dir).forM (processFound cfg set dir)) s = _
  rw [StateT.run_bind, hnotes]
  rfl

end Turns

/-! ## The verdict -/

/-- The character set with a name, if it is known. -/
def charsetOf (name : String) : Option Text.Charset :=
  if name == "" then none else (Text.Charset.ofRegistered? name).join

theorem nameSet_run (name : String) (s : RunState) :
    ∃ log, (nameSet name).run s = (charsetOf name, { s with log := log }) := by
  unfold nameSet charsetOf
  split
  · exact ⟨s.log, rfl⟩
  · rcases Text.Charset.ofRegistered? name with _ | _ | set
    · exact ⟨_, rfl⟩
    · exact ⟨_, rfl⟩
    · exact ⟨s.log, rfl⟩

/-- The verdict after attempts: how many failed, of how many that were counted. -/
def verdict (cfg : RunSettings) (as : List Attempt) : Except RunFault Unit :=
  if as.countP (·.fails cfg) = 0 then .ok () else .error (.sources (as.countP (·.fails cfg)) (as.countP (·.opens cfg)))

theorem verdict_eq_ok_iff {cfg : RunSettings} {as : List Attempt} :
    verdict cfg as = .ok () ↔ ∀ a ∈ as, a.fault? cfg = none := by
  unfold verdict
  split
  · next h => simpa [List.countP_eq_zero, Attempt.fails] using h
  · next h => simpa [List.countP_eq_zero, Attempt.fails] using h

theorem run_some (cfg : RunSettings) (src : String) (extra : Bool) (charset : String) (s : RunState) :
    ∃ log, (run cfg (some src) extra charset).run s = (runSource cfg src charset).run { s with log := log } := by
  unfold run
  cases extra with
  | false => exact ⟨s.log, rfl⟩
  | true =>
    refine ⟨⟨.warn, "Mailformed command line, too many destinations", none⟩ :: s.log, ?_⟩
    simp only [if_true]
    rw [StateT.run_bind]
    rfl

/-- A run that can process its source ends with the verdict on what failed. -/
theorem runSource_run {cfg : RunSettings} {src charset : String} {s t : RunState} {set : Option Text.Charset}
    {s' : RunState} (hset : (nameSet charset).run s = (set, s'))
    (h : (process cfg set src (src.toList.length + 1) src true).run s' = (.ok (), t)) :
    (runSource cfg src charset).run s = (if t.failed = 0 then .ok () else .error (.sources t.failed t.count), t) := by
  unfold runSource
  rw [StateT.run_bind, hset]
  change StateT.run (_ >>= _) s' = _
  rw [StateT.run_bind, h]
  rfl

theorem process_dir {cfg : RunSettings} {set : Option Text.Charset} {src : String} {s : RunState} (hsrc : src ≠ "")
    (hdir : s.disk.stat (Text.dropEnd "/" src) = .dir) (fuel : Nat) :
    (process cfg set src (fuel + 1) src true).run s =
      (.ok (), ((processDir cfg set (Text.dropEnd "/" src)).run s).2) := by
  have nonempty : (src == "") = false := by simpa using hsrc
  rw [process]
  simp only [nonempty, Bool.false_eq_true, if_false, StateT.run_bind, StateT.run_get, pure_bind, hdir]
  rfl

/-- The run from any log on. -/
theorem runSource_dir (cfg : RunSettings) (charset : String) {d : Disk} (report : Option Report) {src : String}
    (hsrc : src ≠ "") (hdir : d.stat (Text.dropEnd "/" src) = .dir) (log : List LogEntry) :
    ∃ log' as t, (runSource cfg src charset).run { disk := d, report := report, log := log } = (verdict cfg as, t) ∧
      Turns cfg (charsetOf charset) (Text.dropEnd "/" src) (cfg.paths d (Text.dropEnd "/" src)) as
        { disk := d, report := report, log := log' } t := by
  obtain ⟨log', hset⟩ := nameSet_run charset { disk := d, report := report, log := log }
  obtain ⟨log'', as, t, hprocess, turns⟩ :=
    processDir_turns cfg (charsetOf charset) (Text.dropEnd "/" src) { disk := d, report := report, log := log' }
  have ends := runSource_run hset
    ((process_dir (s := { disk := d, report := report, log := log' }) hsrc hdir _).trans (by rw [hprocess]))
  refine ⟨log'', as, t, ?_, turns⟩
  rw [ends, turns.tries.failed, turns.tries.count]
  simp only [Nat.zero_add]
  rfl

/-- Nothing is left of the root without its slash. -/
theorem process_root (cfg : RunSettings) (set : Option Text.Charset) (s : RunState) (fuel : Nat) (isWhole : Bool) :
    (process cfg set "/" (fuel + 2) "/" isWhole).run s = (.error (.notFound "/"), s) := by
  have root : ("/" == "") = false := by decide
  have nothing : Text.dropEnd "/" "/" = "" := by decide
  have nowhere : s.disk.stat "" = .missing := rfl
  have above : (Path.split "").1 = "" := by decide
  rw [process]
  simp only [root, nothing, nowhere, above, Bool.false_eq_true, if_false, StateT.run_bind, StateT.run_get, pure_bind]
  rw [process]
  rfl

/-- The root is not found. -/
theorem run_root (cfg : RunSettings) (extra : Bool) (charset : String) (s : RunState) :
    ∃ log, (run cfg (some "/") extra charset).run s = (.error (.notFound "/"), { s with log := log }) := by
  obtain ⟨log, hstart⟩ := run_some cfg "/" extra charset s
  obtain ⟨log', hset⟩ := nameSet_run charset { s with log := log }
  have hprocess := process_root cfg (charsetOf charset) { s with log := log' } 0 true
  have length : "/".toList.length + 1 = 2 := by simp
  refine ⟨log', hstart.trans ?_⟩
  unfold runSource
  rw [StateT.run_bind, hset, length]
  change StateT.run (_ >>= _) { s with log := log' } = _
  rw [StateT.run_bind, hprocess]
  rfl

/-- A run on a directory, named by its absolute path, gives every file that is found its turn, whatever becomes of the
others, and ends with the verdict on all attempts. It succeeds exactly if every source that was found, in archives as
well, could be opened, read and compiled and its output is written. What fails is logged. If no file may be replaced,
these are the sources that were there in the beginning. An archive that cannot be walked is logged, too, but does not
change the verdict. -/
theorem run_dir_verdict (cfg : RunSettings) (extra : Bool) (charset : String) {d : Disk} (report : Option Report)
    {src : String} (habs : Path.isAbsolute src = true) (hroot : src ≠ "/") (hdir : d.stat src = .dir) :
    let dir := Text.dropEnd "/" src
    ∃ log as t,
      (run cfg (some src) extra charset).run { disk := d, report := report } = (verdict cfg as, t) ∧
        Turns cfg (charsetOf charset) dir (cfg.paths d dir) as { disk := d, report := report, log := log } t ∧
        (verdict cfg as = .ok () ↔ ∀ a ∈ as, a.fault? cfg = none) ∧
        (∀ a ∈ as, (a.fault? cfg = none → Drawn cfg a.source (a.before.count + 1 : Nat) (a.after cfg)) ∧
          ∀ f, a.fault? cfg = some f → ∃ message, ⟨.error, message, some f.message⟩ ∈ t.log) ∧
        (cfg.overwrite = false → ∀ path ∈ cfg.paths d dir, ∀ c, d.stat path = .file c →
          ∀ sources, sourcesIn cfg (charsetOf charset) dir path c = .ok sources →
            ∀ s ∈ sources, ∃ a ∈ as, a.source = s) := by
  intro dir
  have hsrc : src ≠ "" := by
    rintro rfl
    exact absurd habs (by decide)
  obtain ⟨habs, hdir⟩ := Disk.stat_dropEnd_slash habs hroot hdir
  obtain ⟨log, hstart⟩ := run_some cfg src extra charset { disk := d, report := report }
  obtain ⟨log', as, t, hrun, turns⟩ := runSource_dir cfg charset report hsrc hdir log
  refine ⟨log', as, t, hstart.trans hrun, turns, verdict_eq_ok_iff, fun a ha => ?_, ?_⟩
  · exact ⟨Attempt.drawn, fun f hf => turns.tries.reported ha hf⟩
  · intro hkeep path hpath c hstat sources hsources s hs
    obtain ⟨rel, -, rfl, -⟩ := RunSettings.mem_paths.1 hpath
    exact turns.covers hkeep (Disk.isAbsolute_walked habs rel) (.refl d) hpath hstat hsources hs

/-- A directory with an archive whose entry leads out of it. -/
def packed : Disk where
  files := [("/d/a.zip", .archive [⟨Text.toBytes "../a.svg".toList, true, []⟩])]
  dirs := ["/d"]

/-- The run on it. -/
theorem run_dir_verdict_packed :
    let cfg : RunSettings := { dest := "/out" }
    Path.isAbsolute "/d/" = true ∧ "/d/" ≠ "/" ∧ packed.stat "/d/" = .dir ∧ Text.dropEnd "/" "/d/" = "/d" ∧
      ∃ log as t, (run cfg (some "/d/") false "").run { disk := packed } = (verdict cfg as, t) ∧
        Turns cfg (charsetOf "") "/d" (cfg.paths packed "/d") as { disk := packed, log := log } t ∧
        (verdict cfg as = .ok () ↔ ∀ a ∈ as, a.fault? cfg = none) ∧
        (∀ a ∈ as, (a.fault? cfg = none → Drawn cfg a.source (a.before.count + 1 : Nat) (a.after cfg)) ∧
          ∀ f, a.fault? cfg = some f → ∃ message, ⟨.error, message, some f.message⟩ ∈ t.log) ∧
        (cfg.overwrite = false → ∀ path ∈ cfg.paths packed "/d", ∀ c, packed.stat path = .file c →
          ∀ sources, sourcesIn cfg (charsetOf "") "/d" path c = .ok sources →
            ∀ s ∈ sources, ∃ a ∈ as, a.source = s) := by
  intro cfg
  have habs : Path.isAbsolute "/d/" = true := by decide
  have hdir : packed.stat "/d/" = .dir := by rfl
  have trimmed : Text.dropEnd "/" "/d/" = "/d" := by decide
  have verdict := run_dir_verdict cfg false "" none habs (by decide) hdir
  rw [trimmed] at verdict
  exact ⟨habs, by decide, hdir, trimmed, verdict⟩

/-- The archive is given up, and the run succeeds. -/
theorem run_dir_succeeds_packed :
    ∃ t, (run { dest := "/out" } (some "/d") false "").run { disk := packed } = (.ok (), t) ∧
      t.log.map (·.message) = ["Unable to process archive"] := by
  have logged : (match (run { dest := "/out" } (some "/d") false "").run { disk := packed } with
      | (.ok (), t) => t.log.map (·.message)
      | (.error _, _) => []) = ["Unable to process archive"] := by decide +kernel
  rcases hrun : (run { dest := "/out" } (some "/d") false "").run { disk := packed } with ⟨_ | ⟨⟩, t⟩
  · rw [hrun] at logged
    cases logged
  · rw [hrun] at logged
    exact ⟨t, rfl, logged⟩

end Run
end DiagramMarkup.Files
