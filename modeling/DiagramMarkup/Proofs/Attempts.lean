import DiagramMarkup.Files.Run
import DiagramMarkup.Proofs.Disks
import DiagramMarkup.Proofs.NaturalOrder

/-!
# Attempts

What a run does with its sources, one after the other.

1. The steps of an attempt count nothing, take nothing back that was logged and replace no file without leave (`Quiet`),
   so an attempt is counted once, if its source can be opened (`compileSource_count`).
2. An attempt without a fault has read and compiled its source, and the output is on the disk (`Attempt.drawn`).
3. A run goes from state to state by attempts and by notes in the log only (`Tries`). How many failed is how often the
   count of failures was raised (`Tries.failed`), and the fault of each is in the log (`Tries.reported`).
-/

namespace DiagramMarkup.Files

namespace Run

/-! ## Steps that can fail -/

section Steps

variable {α β : Type} {s t : RunState}

theorem run_bind (m : ExceptT SourceFault RunM α) (f : α → ExceptT SourceFault RunM β) (s : RunState) :
    (m >>= f).run s = match m.run s with
      | (.ok a, t) => (f a).run t
      | (.error e, t) => (.error e, t) := by
  change (match m.run s with | (r, t) => ExceptT.bindCont f r t) = _
  rcases m.run s with ⟨_ | _, t⟩ <;> rfl

theorem ok_of_bind {m : ExceptT SourceFault RunM α} {f : α → ExceptT SourceFault RunM β} {b : β}
    (h : (m >>= f).run s = (.ok b, t)) : ∃ a u, m.run s = (.ok a, u) ∧ (f a).run u = (.ok b, t) := by
  rw [run_bind] at h
  split at h
  · next a u hm => exact ⟨a, u, hm, h⟩
  · cases h

theorem ok_of_refuse {f : Option SourceFault} (h : (refuse f).run s = (.ok (), t)) : f = none ∧ t = s := by
  cases f with
  | none =>
    cases h
    exact ⟨rfl, rfl⟩
  | some f => cases h

variable {cfg : RunSettings}

theorem makeRoom_ok {path : String} (h : (makeRoom path).run s = (.ok (), t)) : t = s := by
  unfold makeRoom at h
  split at h
  · cases h
    rfl
  · cases h

theorem replace_ok {path : String} (h : (replace cfg path).run s = (.ok (), t)) :
    t.disk = s.disk ∧ cfg.overwrite = true := by
  obtain ⟨⟨⟩, u, hrefuse, hnote⟩ := ok_of_bind h
  obtain ⟨hallowed, rfl⟩ := ok_of_refuse hrefuse
  cases hnote
  exact ⟨rfl, by simpa using hallowed⟩

/-- The way is clear where nothing was found, or where a file may be replaced. -/
theorem clearWay_ok {path : String} (h : (clearWay cfg path).run s = (.ok (), t)) :
    t.disk = s.disk ∧ (s.disk.stat path = .missing ∨ cfg.overwrite = true) := by
  unfold clearWay at h
  obtain ⟨u, v, hget, looked⟩ := ok_of_bind h
  cases hget
  split at looked
  · next hmissing => exact ⟨by rw [makeRoom_ok looked], .inl hmissing⟩
  · cases looked
  · cases looked
  · exact ⟨(replace_ok looked).1, .inr (replace_ok looked).2⟩
  · obtain ⟨⟨⟩, w, -, stopped⟩ := ok_of_bind looked
    cases stopped

end Steps

/-! ## What an attempt leaves alone -/

/-- Nothing was counted, nothing was taken back that was logged, and no file was replaced without leave. -/
structure Grows (cfg : RunSettings) (s t : RunState) : Prop where
  count : t.count = s.count
  failed : t.failed = s.failed
  log : s.log <:+ t.log
  kept : cfg.overwrite = false → s.disk.Keeps t.disk

theorem Grows.refl (cfg : RunSettings) (s : RunState) : Grows cfg s s :=
  ⟨rfl, rfl, List.suffix_refl _, fun _ => .refl _⟩

theorem Grows.trans {cfg : RunSettings} {s t u : RunState} (h : Grows cfg s t) (h' : Grows cfg t u) : Grows cfg s u :=
  ⟨h'.count.trans h.count, h'.failed.trans h.failed, h.log.trans h'.log, fun hc => (h.kept hc).trans (h'.kept hc)⟩

/-- A step that only adds to what there is. -/
def Quiet {α : Type} (cfg : RunSettings) (m : ExceptT SourceFault RunM α) : Prop := ∀ s, Grows cfg s (m.run s).2

namespace Quiet

variable {α β : Type} {cfg : RunSettings}

theorem bind {m : ExceptT SourceFault RunM α} {f : α → ExceptT SourceFault RunM β} (hm : Quiet cfg m)
    (hf : ∀ a, Quiet cfg (f a)) : Quiet cfg (m >>= f) := by
  intro s
  have first := hm s
  rw [run_bind]
  rcases h : m.run s with ⟨r, t⟩
  rw [h] at first
  cases r with
  | ok a => exact first.trans (hf a t)
  | error e => exact first

theorem pure (a : α) : Quiet cfg (Pure.pure a) := fun s => Grows.refl cfg s

theorem throw (f : SourceFault) : Quiet cfg (MonadExcept.throw f : ExceptT SourceFault RunM α) := fun s => Grows.refl cfg s

theorem get : Quiet cfg (MonadState.get : ExceptT SourceFault RunM RunState) := fun s => Grows.refl cfg s

theorem change (cfg : RunSettings) (f : Disk → Disk) (h : ∀ d : Disk, d.Keeps (f d)) :
    Quiet cfg (modify fun s : RunState => { s with disk := f s.disk }) :=
  fun s => ⟨rfl, rfl, List.suffix_refl _, fun _ => h s.disk⟩

theorem reporting (f : Report → Except ReportFault Report) : Quiet cfg (liftM (Run.reporting f)) :=
  fun _ => ⟨rfl, rfl, List.suffix_refl _, fun _ => .refl _⟩

theorem note (level : LogLevel) (message : String) (cause : Option String) :
    Quiet cfg (liftM (Run.note level message cause)) :=
  fun _ => ⟨rfl, rfl, List.suffix_cons _ _, fun _ => .refl _⟩

theorem refuse (f : Option SourceFault) : Quiet cfg (Run.refuse f) := by
  cases f with
  | none => exact pure ()
  | some f => exact throw f

theorem makeRoom (cfg : RunSettings) (path : String) : Quiet cfg (Run.makeRoom path) := by
  unfold Run.makeRoom
  split
  · exact pure ()
  · next p _ =>
    have made := change cfg (fun d => d.makeDir (Path.dir p)) fun d => Disk.keeps_makeDir d (Path.dir p)
    exact made.bind fun _ => throw _

theorem replace (cfg : RunSettings) (path : String) : Quiet cfg (Run.replace cfg path) :=
  (refuse _).bind fun _ => note _ _ _

theorem clearWay (cfg : RunSettings) (path : String) : Quiet cfg (Run.clearWay cfg path) := by
  unfold Run.clearWay
  refine get.bind fun s => ?_
  split
  · exact makeRoom cfg path
  · exact throw _
  · exact throw _
  · exact replace cfg path
  · exact (replace cfg path).bind fun _ => throw _

theorem writeOutput (cfg : RunSettings) (path : String) (c : Content) : Quiet cfg (Run.writeOutput cfg path c) := by
  intro s
  have cleared := clearWay cfg path s
  unfold Run.writeOutput
  rw [run_bind]
  rcases h : (Run.clearWay cfg path).run s with ⟨f | ⟨⟩, t⟩
  · rw [h] at cleared
    exact cleared
  · rw [h] at cleared
    obtain ⟨hdisk, hway⟩ := clearWay_ok h
    refine cleared.trans ⟨rfl, rfl, List.suffix_refl _, fun hkeep => ?_⟩
    refine Disk.keeps_write ?_ c
    rw [hdisk]
    exact hway.resolve_right (by simp [hkeep])

theorem outputPath (cfg : RunSettings) (d : OutputDoc) : Quiet cfg (liftM (Run.outputPath cfg d)) := by
  intro s
  change Grows cfg s ((Run.outputPath cfg d).run s).2
  unfold Run.outputPath
  rcases cfg.naming.outputPath d cfg.dest with ⟨path, _ | f⟩
  · exact Grows.refl cfg s
  · exact ⟨rfl, rfl, List.suffix_cons _ _, fun _ => .refl _⟩

theorem drawSource (cfg : RunSettings) (src : Source) (index : Int) : Quiet cfg (Run.drawSource cfg src index) := by
  unfold Run.drawSource
  refine (refuse _).bind fun _ => (reporting _).bind fun _ => ?_
  split
  · exact throw _
  split
  · exact throw _
  refine (reporting _).bind fun _ => ?_
  split
  · exact throw _
  · exact pure _

theorem writePreview (cfg : RunSettings) (src : Source) (index : Int) (path text : String) :
    Quiet cfg (Run.writePreview cfg src index path text) := by
  unfold Run.writePreview
  split
  · exact (note _ _ _).bind fun _ => throw _
  · exact throw _
  · exact (writeOutput _ _ _).bind fun _ => reporting _

theorem emitSource (cfg : RunSettings) (src : Source) (index : Int) : Quiet cfg (Run.emitSource cfg src index) := by
  refine (drawSource cfg src index).bind fun _ => (outputPath _ _).bind fun _ => (refuse _).bind fun _ =>
    (writeOutput _ _ _).bind fun _ => (reporting _).bind fun _ => ?_
  split
  · exact writePreview _ _ _ _ _
  · exact pure ()

end Quiet

/-- An attempt counts its source if it can be opened. -/
theorem compileSource_count (cfg : RunSettings) (src : Source) (s : RunState) :
    Grows cfg { s with count := s.count + if (cfg.troubles.enter src.place).isNone then 1 else 0 }
      ((compileSource cfg src).run s).2 := by
  unfold compileSource
  rw [run_bind]
  cases cfg.troubles.enter src.place with
  | some why => exact Grows.refl cfg s
  | none => exact Quiet.emitSource cfg src (s.count + 1 : Nat) { s with count := s.count + 1 }

/-! ## What an attempt writes -/

section Writing

variable {cfg : RunSettings} {src : Source} {s t : RunState}

theorem writeOutput_ok {path : String} {c : Content} (h : (writeOutput cfg path c).run s = (.ok (), t)) :
    t.disk.files = Disk.put path c s.disk.files := by
  obtain ⟨⟨⟩, u, hclear, hwrite⟩ := ok_of_bind h
  cases hwrite
  rw [Disk.files_write, (clearWay_ok hclear).1]

theorem outputPath_ok {d : OutputDoc} {path : String}
    (h : (liftM (outputPath cfg d) : ExceptT SourceFault RunM String).run s = (.ok path, t)) :
    path = (cfg.naming.outputPath d cfg.dest).1 := by
  change (ExceptT.lift (outputPath cfg d)).run s = _ at h
  unfold outputPath at h
  generalize cfg.naming.outputPath d cfg.dest = placed at h ⊢
  rcases placed with ⟨path, _ | f⟩
  · cases h
    rfl
  · cases h
    rfl

theorem drawSource_ok {index : Int} {out : List Event} {text : String}
    (h : (drawSource cfg src index).run s = (.ok (out, text), t)) :
    ∃ evs, Xml.readBytes (sourceBytes (Encoding.detect src.bytes) src.bytes) = some evs ∧
      compile cfg.options evs (cfg.chance index) = .ok out ∧ Xml.write out = .ok text := by
  unfold drawSource at h
  obtain ⟨⟨⟩, u, -, opened⟩ := ok_of_bind h
  obtain ⟨⟨⟩, v, -, stored⟩ := ok_of_bind opened
  split at stored
  · cases stored
  next evs hread =>
  split at stored
  · cases stored
  next out' hcompile =>
  obtain ⟨⟨⟩, w, -, drawn⟩ := ok_of_bind stored
  split at drawn
  · cases drawn
  next text' hwrite =>
  cases drawn
  exact ⟨evs, hread, hcompile, hwrite⟩

theorem writePreview_ok {index : Int} {path text : String}
    (h : (writePreview cfg src index path text).run s = (.ok (), t)) :
    t.disk.files = Disk.put (picturePath path) .picture s.disk.files := by
  unfold writePreview at h
  split at h
  · obtain ⟨⟨⟩, u, -, stopped⟩ := ok_of_bind h
    cases stopped
  · cases h
  · obtain ⟨⟨⟩, u, hwrite, stored⟩ := ok_of_bind h
    rw [← writeOutput_ok hwrite]
    cases stored
    rfl

/-- The source was read and compiled, and its output is on the disk, on request with a preview. -/
inductive Drawn (cfg : RunSettings) (src : Source) (index : Int) (t : RunState) : Prop where
  | intro {evs out : List Event} {text path : String}
    (read : Xml.readBytes (sourceBytes (Encoding.detect src.bytes) src.bytes) = some evs)
    (compiled : compile cfg.options evs (cfg.chance index) = .ok out)
    (written : Xml.write out = .ok text)
    (placed : path = (cfg.naming.outputPath ⟨src.name, index, cfg.runId, out⟩ cfg.dest).1)
    (output : (cfg.previews = true → picturePath path ≠ path) →
      t.disk.files.lookup path = some (.data (Text.toBytes text.toList)))
    (picture : cfg.previews = true → t.disk.files.lookup (picturePath path) = some .picture)

theorem emitSource_ok {index : Int} (h : (emitSource cfg src index).run s = (.ok (), t)) :
    Drawn cfg src index t := by
  obtain ⟨⟨out, text⟩, u, hdraw, drawn⟩ := ok_of_bind h
  obtain ⟨evs, hread, hcompile, hwrite⟩ := drawSource_ok hdraw
  obtain ⟨path, v, hpath, placed⟩ := ok_of_bind drawn
  have hplace := outputPath_ok hpath
  obtain ⟨⟨⟩, w, -, allowed⟩ := ok_of_bind placed
  obtain ⟨⟨⟩, x, hput, stored⟩ := ok_of_bind allowed
  obtain ⟨⟨⟩, y, hreport, previewed⟩ := ok_of_bind stored
  have output : y.disk.files = Disk.put path (.data (Text.toBytes text.toList)) w.disk.files := by
    rw [← writeOutput_ok hput]
    cases hreport
    rfl
  split at previewed
  · next hpreviews =>
    have picture := writePreview_ok previewed
    refine .intro hread hcompile hwrite hplace (fun hne => ?_) fun _ => ?_
    · rw [picture, Disk.lookup_put_of_ne (hne hpreviews).symm, output, Disk.lookup_put_self]
    · rw [picture, Disk.lookup_put_self]
  · next hpreviews =>
    cases previewed
    refine .intro hread hcompile hwrite hplace (fun _ => ?_) fun h => absurd h hpreviews
    rw [output, Disk.lookup_put_self]

theorem compileSource_ok (h : (compileSource cfg src).run s = (.ok (), t)) :
    Drawn cfg src (s.count + 1 : Nat) t := by
  obtain ⟨⟨⟩, u, hopen, counted⟩ := ok_of_bind h
  obtain ⟨-, rfl⟩ := ok_of_refuse hopen
  exact emitSource_ok counted

end Writing

/-! ## Attempts -/

/-- A source that is tried, and where the run stands before. -/
structure Attempt where
  source : Source
  before : RunState

namespace Attempt

variable (cfg : RunSettings) (a : Attempt)

/-- Why the source has no output, if so. -/
def fault? : Option SourceFault :=
  match ((compileSource cfg a.source).run a.before).1 with
  | .ok () => none
  | .error f => some f

/-- Where the run stands when the source is compiled, or when it is given up. -/
def after : RunState := ((compileSource cfg a.source).run a.before).2

/-- Can the source be opened? -/
def opens : Bool := (cfg.troubles.enter a.source.place).isNone

/-- Did it fail? -/
def fails : Bool := (a.fault? cfg).isSome

variable {cfg a}

theorem drawn (h : a.fault? cfg = none) : Drawn cfg a.source (a.before.count + 1 : Nat) (a.after cfg) := by
  unfold fault? at h
  split at h
  · next hrun => exact compileSource_ok (Prod.ext hrun rfl)
  · cases h

variable (cfg a)

theorem grows :
    Grows cfg { a.before with count := a.before.count + if a.opens cfg then 1 else 0 } (a.after cfg) :=
  compileSource_count cfg a.source a.before

/-- A failure is counted and logged, and the run goes on. -/
theorem trySource_run (message : String) :
    (trySource cfg message a.source).run a.before =
      ((), match a.fault? cfg with
        | none => a.after cfg
        | some f =>
          { a.after cfg with
            failed := (a.after cfg).failed + 1
            log := ⟨.error, message, some f.message⟩ :: (a.after cfg).log }) := by
  have step : (trySource cfg message a.source).run a.before =
      match (compileSource cfg a.source).run a.before with
      | (.ok (), t) => ((), t)
      | (.error f, t) =>
        ((), { t with failed := t.failed + 1, log := ⟨.error, message, some f.message⟩ :: t.log }) := by
    unfold trySource
    rw [StateT.run_bind]
    change (match ((compileSource cfg a.source).run a.before).1 with
      | .ok () => (pure () : RunM Unit)
      | .error f => _).run ((compileSource cfg a.source).run a.before).2 = _
    rcases (compileSource cfg a.source).run a.before with ⟨f | ⟨⟩, t⟩ <;> rfl
  rw [step, fault?, after]
  rcases (compileSource cfg a.source).run a.before with ⟨f | ⟨⟩, t⟩ <;> rfl

end Attempt

/-- A run gets from one state to another by attempts; apart from them it only logs. -/
inductive Tries (cfg : RunSettings) : List Attempt → RunState → RunState → Prop where
  | done (s : RunState) : Tries cfg [] s s
  | logged (e : LogEntry) {as : List Attempt} {s t : RunState} :
      Tries cfg as { s with log := e :: s.log } t → Tries cfg as s t
  | tried (message : String) (a : Attempt) {as : List Attempt} {t : RunState} :
      Tries cfg as ((trySource cfg message a.source).run a.before).2 t → Tries cfg (a :: as) a.before t

namespace Tries

variable {cfg : RunSettings} {as bs : List Attempt} {s t u : RunState}

theorem append (h : Tries cfg as s t) (h' : Tries cfg bs t u) : Tries cfg (as ++ bs) s u := by
  induction h with
  | done s => exact h'
  | logged e _ ih => exact .logged e (ih h')
  | tried message a _ ih => exact .tried message a (ih h')

/-- The count of failures is raised by every attempt that fails. -/
theorem failed (h : Tries cfg as s t) : t.failed = s.failed + as.countP (·.fails cfg) := by
  induction h with
  | done s => rfl
  | logged e _ ih => exact ih
  | tried message a _ ih =>
    have kept := (a.grows cfg).failed
    rw [ih, a.trySource_run, List.countP_cons]
    cases hf : a.fault? cfg with
    | none => simp [Attempt.fails, hf, kept]
    | some f =>
      simp [Attempt.fails, hf, kept]
      omega

/-- The count of sources is raised by every attempt whose source can be opened. -/
theorem count (h : Tries cfg as s t) : t.count = s.count + as.countP (·.opens cfg) := by
  induction h with
  | done s => rfl
  | logged e _ ih => exact ih
  | tried message a _ ih =>
    have raised := (a.grows cfg).count
    have same : ((trySource cfg message a.source).run a.before).2.count = (a.after cfg).count := by
      rw [a.trySource_run]
      cases a.fault? cfg <;> rfl
    rw [ih, same, raised, List.countP_cons]
    simp only
    omega

theorem log (h : Tries cfg as s t) : s.log <:+ t.log := by
  induction h with
  | done s => exact List.suffix_refl _
  | logged e _ ih => exact (List.suffix_cons e _).trans ih
  | tried message a _ ih =>
    refine List.IsSuffix.trans ?_ ih
    have kept := (a.grows cfg).log
    rw [a.trySource_run]
    cases a.fault? cfg with
    | none => exact kept
    | some f => exact kept.trans (List.suffix_cons _ _)

/-- Without leave to replace files, what led to a file still does. -/
theorem kept (h : Tries cfg as s t) (hkeep : cfg.overwrite = false) : s.disk.Keeps t.disk := by
  induction h with
  | done s => exact .refl _
  | logged e _ ih => exact ih
  | tried message a _ ih =>
    refine Disk.Keeps.trans ?_ ih
    have kept := (a.grows cfg).kept hkeep
    rw [a.trySource_run]
    cases a.fault? cfg <;> exact kept

/-- The fault of an attempt is logged. -/
theorem reported (h : Tries cfg as s t) {a : Attempt} (ha : a ∈ as) {f : SourceFault} (hf : a.fault? cfg = some f) :
    ∃ message, ⟨.error, message, some f.message⟩ ∈ t.log := by
  induction h with
  | done s => cases ha
  | logged e _ ih => exact ih ha
  | tried message b rest ih =>
    rcases List.mem_cons.1 ha with rfl | ha
    · refine ⟨message, rest.log.subset ?_⟩
      rw [a.trySource_run, hf]
      exact List.mem_cons_self
    · exact ih ha

end Tries

/-! ## Entries of an archive -/

/-- Steps that try sources, one after the other, try them all. -/
theorem exists_tries_forM {α : Type} {cfg : RunSettings} {f : α → RunM Unit} {sources : α → List Source}
    (h : ∀ x s, ∃ as, Tries cfg as s ((f x).run s).2 ∧ as.map (·.source) = sources x) (xs : List α) (s : RunState) :
    ∃ as, Tries cfg as s ((xs.forM f).run s).2 ∧ as.map (·.source) = xs.flatMap sources := by
  induction xs generalizing s with
  | nil => exact ⟨[], .done s, rfl⟩
  | cons x xs ih =>
    obtain ⟨as, first, has⟩ := h x s
    obtain ⟨bs, rest, hbs⟩ := ih ((f x).run s).2
    exact ⟨as ++ bs, first.append rest, by rw [List.map_append, has, hbs, List.flatMap_cons]⟩

theorem flatMap_if {α β : Type} (p : α → Bool) (f : α → β) (xs : List α) :
    (xs.flatMap fun x => if p x then [f x] else []) = (xs.filter p).map f := by
  induction xs with
  | nil => rfl
  | cons x xs ih => cases h : p x <;> simp [h, ih]

section Entries

variable (cfg : RunSettings) (set : Option Text.Charset) (path below : String)

/-- Is an entry a source? Its start tells, if it can be read. -/
def recognised (e : ArchiveEntry) : Bool :=
  (cfg.troubles.start (hasSourceExt e.name) (.entry path e)).isNone && isSource e.name e.content

/-- The source that an entry becomes. -/
def sourceOf (e : ArchiveEntry) : Source :=
  ⟨entrySource (set.map Text.Charset.decode) below e, e.content, .entry path e⟩

theorem processEntry_tries (e : ArchiveEntry) (s : RunState) :
    ∃ as, Tries cfg as s ((processEntry cfg (set.map Text.Charset.decode) path below e).run s).2 ∧
      as.map (·.source) = if recognised cfg path e then [sourceOf set path below e] else [] := by
  unfold processEntry recognised
  cases cfg.troubles.start (hasSourceExt e.name) (.entry path e) with
  | some why => exact ⟨[], .logged _ (.done _), rfl⟩
  | none =>
    cases hs : isSource e.name e.content with
    | false => exact ⟨[], .done s, rfl⟩
    | true =>
      exact ⟨[⟨sourceOf set path below e, s⟩],
        .tried "Unable to process file in archive" ⟨sourceOf set path below e, s⟩ (.done _), rfl⟩

/-- An archive that cannot be walked is left alone. -/
theorem processArchive_error {c : Content} {start why : String} (h : cfg.troubles.walk path c start = .error why)
    (s : RunState) : (processArchive cfg set path c start below).run s = (.error why, s) := by
  unfold processArchive
  rw [h]
  rfl

/-- The sources in an archive are tried, whatever becomes of them. -/
theorem processArchive_ok {c : Content} {start : String} {es : List ArchiveEntry}
    (h : cfg.troubles.walk path c start = .ok es) (s : RunState) :
    ∃ as t, (processArchive cfg set path c start below).run s = (.ok (), t) ∧ Tries cfg as s t ∧
      as.map (·.source) = (es.filter (recognised cfg path)).map (sourceOf set path below) := by
  obtain ⟨as, tries, hsources⟩ := exists_tries_forM (processEntry_tries cfg set path below) es s
  refine ⟨as, _, ?_, tries, ?_⟩
  · unfold processArchive
    rw [h]
    rfl
  · rw [hsources, flatMap_if]

end Entries

end Run
end DiagramMarkup.Files
