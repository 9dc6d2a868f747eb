import DiagramMarkup.Files.Run
import DiagramMarkup.Proofs.NaturalOrder
import DiagramMarkup.Proofs.Paths

/-!
# Where outputs go

An output is placed by texts that come from outside: the name of its source, which may be an entry of an archive, and
what a template makes of the document.

1. Whatever a text is, as a component of an output path it is one component and neither a directory itself nor its
   parent (`components_pathSegment`), so an output stays within the destination if its source has no parents in its path
   (`outputPath_within`).
2. An archive is refused if one of its names holds a parent, with either kind of slash between the components
   (`Archive.isSafe_spec`). The name that places the output may be read anew in another character set, though, and is
   not looked at again (`entrySource_confined_iff`).
-/

namespace DiagramMarkup.Files

/-! ## Components -/

theorem mem_of_mem_visibleChars {c : Char} {cs : List Char} (h : c ∈ visibleChars cs) :
    c ∈ cs ∧ isControl c = false ∧ isDivider c = false := by
  have kept : c ∈ Text.trimChars (cs.filter fun c => !isControl c && !isDivider c) :=
    (List.dropWhile_sublist _).subset h
  have hc := List.mem_filter.1 (Text.mem_of_mem_trimChars kept)
  simpa using hc

theorem head?_visibleChars (cs : List Char) : (visibleChars cs).head? ≠ some '.' := by
  intro h
  have := List.head?_dropWhile_not (· == '.') (Text.trimChars (cs.filter fun c => !isControl c && !isDivider c))
  rw [← visibleChars, h] at this
  simp at this

theorem single_cleanName (s : String) : Path.Single (cleanName s) := by
  unfold cleanName Path.Single
  simp only
  split
  · decide
  · rw [String.toList_ofList]
    intro h
    exact absurd (mem_of_mem_visibleChars h).2.2 (by decide)

theorem head?_cleanName (s : String) : (cleanName s).toList.head? ≠ some '.' := by
  unfold cleanName
  simp only
  split
  · decide
  · rw [String.toList_ofList]
    exact head?_visibleChars _

theorem no_parent_pathSegment (spell : String → String) (s : String) : ".." ∉ Path.components (pathSegment spell s) := by
  unfold pathSegment
  rw [Path.components_of_single (single_cleanName _), List.mem_singleton]
  intro h
  exact head?_cleanName (spell s) (by rw [← h]; rfl)

theorem no_parent_outputName (spell : String → String) (s : String) :
    ".." ∉ Path.components (pathSegment spell s ++ outputExt) := by
  have single : Path.Single (pathSegment spell s ++ outputExt) := by
    rw [Path.Single, String.toList_append, List.mem_append, not_or]
    exact ⟨single_cleanName _, by decide⟩
  rw [Path.components_of_single single, List.mem_singleton]
  intro h
  have long : "..".length = (pathSegment spell s).length + outputExt.length := by rw [← String.length_append, ← h]
  have short : "..".length = 2 ∧ outputExt.length = 4 := by decide
  omega

/-! ## Outputs -/

/-- The output is placed by what the template gives, or by nothing. -/
theorem exists_outputPath_eq (n : Naming) (d : OutputDoc) (dest : String) :
    ∃ name, (n.outputPath d dest).1 = placeOutput n.spell n.noDirs d.source dest name := by
  unfold Naming.outputPath
  simp only
  split
  · exact ⟨none, rfl⟩
  split
  · exact ⟨none, rfl⟩
  · next s _ =>
    simp only
    exact ⟨some s, rfl⟩

section Outputs

variable {dest source : String} (habs : Path.isAbsolute dest = true) (hclean : Path.clean dest = dest)
  (hsource : ".." ∉ Path.components source)

include habs hclean hsource

theorem within_outputDir (noDirs : Bool) : Path.Within dest (outputDir noDirs source dest) := by
  have self := Path.within_self habs hclean
  unfold outputDir
  split
  · exact self
  · refine self.join fun p hp => ?_
    rw [List.mem_singleton.1 hp]
    exact Path.no_parent_dir hsource

omit habs hclean hsource in
theorem within_placeBelow {dir : String} (h : Path.Within dest dir) (spell : String → String) (name : String) :
    Path.Within dest (placeBelow spell dir name) := by
  unfold placeBelow
  split
  · exact h
  · refine h.join fun p hp => ?_
    rcases List.mem_append.1 hp with hp | hp
    · obtain ⟨s, -, rfl⟩ := List.mem_map.1 hp
      exact no_parent_pathSegment spell s
    · rw [List.mem_singleton.1 hp]
      exact no_parent_outputName spell _

theorem within_placeOutput (spell : String → String) (noDirs : Bool) (name : Option String) :
    Path.Within dest (placeOutput spell noDirs source dest name) := by
  have dir := within_outputDir habs hclean hsource noDirs
  unfold placeOutput
  simp only
  split
  · refine dir.join fun p hp => ?_
    rw [List.mem_singleton.1 hp]
    exact no_parent_outputName spell _
  · exact within_placeBelow dir spell _

end Outputs

/-- An output stays within the destination, whatever its template gives and however names are spelt. -/
theorem outputPath_within {dest : String} (habs : Path.isAbsolute dest = true) (hclean : Path.clean dest = dest)
    {d : OutputDoc} (hsource : ".." ∉ Path.components d.source) (n : Naming) (spell : String → String)
    (noDirs : Bool) (name : Option String) :
    Path.Within dest (n.outputPath d dest).1 ∧ Path.Within dest (placeOutput spell noDirs d.source dest name) := by
  have place := within_placeOutput habs hclean hsource
  obtain ⟨given, hgiven⟩ := exists_outputPath_eq n d dest
  rw [hgiven]
  exact ⟨place n.spell n.noDirs given, place spell noDirs name⟩

/-- Here the template and the spelling both ask for parents. -/
theorem outputPath_within_parents :
    let d : OutputDoc := ⟨"figs/chart.xml", 1, "", []⟩
    let n : Naming := { template := "../../{{ .Name }}" }
    let spell := fun s => "../" ++ s
    Path.isAbsolute "/out" = true ∧ Path.clean "/out" = "/out" ∧ ".." ∉ Path.components d.source ∧
      placeOutput spell false d.source "/out" (some "../../etc/..") = "/out/figs/etc/_bad_file_name_.svg" ∧
      Path.Within "/out" (n.outputPath d "/out").1 ∧
      Path.Within "/out" (placeOutput spell false d.source "/out" (some "../../etc/..")) := by
  intro d n spell
  have absolute : Path.isAbsolute "/out" = true := by decide
  have cleaned : Path.clean "/out" = "/out" := by decide
  have noParent : ".." ∉ Path.components d.source := by decide
  exact ⟨absolute, cleaned, noParent, by decide +kernel,
    outputPath_within absolute cleaned noParent n spell false (some "../../etc/..")⟩

/-! ## Entries of archives -/

namespace Archive

/-- A safe name is relative and has no parents. -/
theorem isSafe_spec {name : String} (h : isSafe name = true) :
    Path.isAbsolute name = false ∧ ".." ∉ Path.components name := by
  unfold isSafe at h
  simp only [Bool.and_eq_true, Bool.not_eq_true'] at h
  obtain ⟨⟨hroot, -⟩, hup⟩ := h
  refine ⟨?_, fun hmem => ?_⟩
  · unfold Text.startsWith at hroot
    unfold Path.isAbsolute
    cases hc : name.toList with
    | nil => rfl
    | cons c cs =>
      have hne : '/' ≠ c := by simpa [hc, List.isPrefixOf] using hroot
      simpa using Ne.symm hne
  · have parts : Text.splitAt '/' (Text.replace "\\" "/" name) =
        ((name.toList.splitOn '/').flatMap fun w =>
          (w.map fun c => if c = '\\' then '/' else c).splitOn '/').map String.ofList := by
      rw [← Text.splitOn_map (by decide), ← Text.replaceChars_singleton]
      unfold Text.splitAt Text.replace
      rw [Text.splitWhere_eq_splitOnP, String.toList_ofList]
      rfl
    rw [Path.components_eq] at hmem
    obtain ⟨w, hw, heq⟩ := List.mem_map.1 hmem
    have hchars : w = ['.', '.'] := by
      rw [← String.toList_ofList (l := w), heq]
      rfl
    subst hchars
    rw [← Bool.not_eq_true, List.contains_iff_mem, parts] at hup
    exact hup (List.mem_map.2 ⟨['.', '.'], List.mem_flatMap.2 ⟨_, hw, by decide⟩, rfl⟩)

theorem mem_files {es fs : List ArchiveEntry} {start : String} (h : files es start = .ok fs) {e : ArchiveEntry}
    (he : e ∈ fs) : isSafe e.name = true := by
  unfold files at h
  split at h
  · cases h
  · next hnone =>
    cases h
    have hes := (List.mem_filter.1 ((mem_naturalSort _).1 he)).1
    simpa using List.find?_eq_none.1 hnone e hes

/-- An archive of one safe file. -/
theorem files_singleton {e : ArchiveEntry} (hsafe : isSafe e.name = true) (hfile : e.isDir = false) :
    files [e] "" = .ok [e] := by
  have safe : [e].find? (fun e => !isSafe e.name) = none := by simp [hsafe]
  have kept : [e].filter (fun e => !e.isDir && Text.startsWith "" e.name) = [e] := by
    rw [List.filter_cons_of_pos (by rw [hfile]; rfl), List.filter_nil]
  unfold files
  rw [safe, kept]
  exact congrArg Except.ok (naturalSort_singleton _ e)

end Archive

namespace Run

variable {es fs : List ArchiveEntry} {start : String} {e : ArchiveEntry} {dir : String}
  (decode : Option (List UInt8 → List Char))

/-- A name that is not read anew is the one that was looked at. -/
theorem entryName_eq_name (h : decode = none ∨ e.isForeign = false) : entryName decode e = e.name := by
  unfold entryName
  rcases h with rfl | h
  · rfl
  · simp only [h, Bool.false_eq_true, if_false]
    cases decode <;> rfl

/-- The source made from an entry of an archive that is not refused. It is confined to the directory it is put in if its
name is not read anew; and otherwise exactly if the new name does not start at the root of its own and a walk along it
does not leave the directory. The output directory of a confined source lies within the destination. -/
theorem entrySource_confined_iff (h : Archive.files es start = .ok fs) (he : e ∈ fs)
    (hdir : Path.isAbsolute dir = false) (hup : ".." ∉ Path.components dir) :
    (decode = none ∨ e.isForeign = false → Path.Confined (entrySource decode dir e)) ∧
      (Path.Confined (entrySource decode dir e) ↔
        (dir = "" → Path.isAbsolute (entryName decode e) = false) ∧
          Path.staysBelow 0 (Path.components dir ++ Path.components (entryName decode e)) = true) ∧
      ∀ dest noDirs, Path.isAbsolute dest = true → Path.clean dest = dest →
        Path.Confined (entrySource decode dir e) →
          Path.Within dest (outputDir noDirs (entrySource decode dir e) dest) := by
  obtain ⟨hroot, hparent⟩ := Archive.isSafe_spec (Archive.mem_files h he)
  have walk := Path.confined_join_iff hdir (entryName decode e)
  refine ⟨fun hname => ?_, walk, fun dest noDirs habs hclean hconfined => ?_⟩
  · refine walk.2 ?_
    rw [entryName_eq_name decode hname]
    exact ⟨fun _ => hroot, Path.staysBelow_of_no_parent (by simp [hup, hparent]) 0⟩
  · exact within_outputDir habs hclean hconfined.no_parent noDirs

/-- An entry whose name is not UTF-8, in an archive below a directory. -/
theorem entrySource_confined_latin :
    let e : ArchiveEntry := ⟨[0x61, 0x2F, 0xE9, 0x2E, 0x73, 0x76, 0x67], false, []⟩
    let decode := some (Text.Charset.chart Text.Chart.iso88591).decode
    Archive.files [e] "" = .ok [e] ∧ Path.isAbsolute "figs" = false ∧ ".." ∉ Path.components "figs" ∧
      Path.Confined (entrySource decode "figs" e) ∧
      Path.Within "/out" (outputDir false (entrySource decode "figs" e) "/out") := by
  intro e decode
  have accepted : Archive.files [e] "" = .ok [e] := Archive.files_singleton (by decide +kernel) (by decide +kernel)
  have confined : Path.Confined (entrySource decode "figs" e) := ⟨by decide +kernel, by decide +kernel⟩
  have relative : Path.isAbsolute "figs" = false := by decide
  have spec := entrySource_confined_iff decode accepted List.mem_cons_self relative (by decide)
  exact ⟨accepted, by decide, by decide, confined, spec.2.2 "/out" false (by decide) (by decide) confined⟩

/-- The name `../a` in UTF-16, with an extension in ASCII. -/
def climbing : ArchiveEntry := ⟨[0x2E, 0, 0x2E, 0, 0x2F, 0, 0x61, 0, 0x2E, 0x73, 0x76, 0x67], false, []⟩

/-- A safe name can lead out of the destination in another character set. -/
theorem climbing_escapes :
    Archive.files [climbing] "" = .ok [climbing] ∧
      Text.Charset.ofRegistered? "utf-16le" = some (some (.utf16 false)) ∧
      ¬ Path.Confined (entrySource (some (Text.Charset.utf16 false).decode) "" climbing) ∧
      ¬ Path.Within "/out" (outputDir false (entrySource (some (Text.Charset.utf16 false).decode) "" climbing) "/out") := by
  have source : entrySource (some (Text.Charset.utf16 false).decode) "" climbing = "../a献杶" := by decide +kernel
  have output : outputDir false "../a献杶" "/out" = "/" := by decide +kernel
  rw [source, output]
  have key : (Text.trim "utf-16le").map Number.lowerAscii = "utf-16le" := by decide +kernel
  have registered : Text.Charset.ofRegistered? "utf-16le" = some (some (.utf16 false)) := by
    unfold Text.Charset.ofRegistered?
    rw [key]
    rfl
  refine ⟨Archive.files_singleton (by decide +kernel) (by decide +kernel), registered,
    fun h => h.2 (by decide +kernel), fun h => ?_⟩
  exact absurd h.isPrefix (by decide)

end Run

end DiagramMarkup.Files
