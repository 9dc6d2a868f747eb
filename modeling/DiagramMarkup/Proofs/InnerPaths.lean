import DiagramMarkup.Proofs.Attempts
import DiagramMarkup.Proofs.Segments

/-!
# Paths that go on inside an archive

A source path may lead to an archive and go on inside it. It is cut off from its end until the rest leads to a file.

1. Below a file nothing is found, so the cut ends at the archive (`process_inner`), and what was cut off is the path of
   names inside it (`behind_rooted`).
2. An archive that cannot be opened, or with a name that is not safe, is left alone. Otherwise the sources are tried
   whose names start with that path, each of them once and in natural order. These are the sources under the path
   exactly if no other name begins with the same characters (`process_inside`).
-/

namespace DiagramMarkup.Files

/-! ## Paths from the root -/

namespace Path

theorem rooted_append {above inner : List String} (ha : above ≠ []) (hi : inner ≠ []) :
    rooted (above ++ inner) = rooted above ++ "/" ++ "/".intercalate inner := by
  unfold rooted
  rw [String.intercalate_append_of_ne_nil ha hi]
  simp only [String.append_assoc]

theorem rooted_ne_empty (cs : List String) : rooted cs ≠ "" := append_ne_empty (by decide) _

/-- The last name is cut off, and leaves a slash. -/
theorem split_rooted {cs : List String} {c : String} (hcs : cs ≠ []) (hc : Single c) :
    split (rooted (cs ++ [c])) = (rooted cs ++ "/", c) := by
  rw [rooted_append hcs (by simp), String.intercalate_singleton, split_slash hc]

theorem length_rooted_concat {cs : List String} (hcs : cs ≠ []) (c : String) :
    (rooted cs).toList.length < (rooted (cs ++ [c])).toList.length := by
  rw [rooted_append hcs (by simp)]
  simp only [String.toList_append, List.length_append]
  have slash : "/".toList.length = 1 := by simp
  omega

/-- Is a name the path itself or below it? All names are below the empty path. -/
def isUnder (p name : String) : Bool := p == "" || name == p || Text.startsWith (p ++ "/") name

theorem startsWith_of_isUnder {p name : String} (h : isUnder p name = true) : Text.startsWith p name = true := by
  simp only [isUnder, Bool.or_eq_true, beq_iff_eq, Text.startsWith_iff] at h
  rw [Text.startsWith_iff]
  rcases h with (rfl | rfl) | ⟨rest, rfl⟩
  · exact ⟨name, by simp⟩
  · exact ⟨"", by simp⟩
  · exact ⟨"/" ++ rest, String.append_assoc ..⟩

end Path

namespace Run

section Inside

variable {cfg : RunSettings} {set : Option Text.Charset} {src : String} {s : RunState}

section Cuts

variable {head p : String} (hne : head ≠ "") (hp : Text.dropEnd "/" head = p)

include hne hp

/-- Where a path leads nowhere since a file stands in its way, a shorter one is tried. -/
theorem process_shorter (h : s.disk.stat p = .notDirectory) (fuel : Nat) (isWhole : Bool) :
    (process cfg set src (fuel + 1) head isWhole).run s =
      (process cfg set src fuel (Path.split p).1 ((Path.split p).2 == "")).run s := by
  have nonempty : (head == "") = false := by simpa using hne
  rw [process]
  simp only [nonempty, Bool.false_eq_true, if_false, StateT.run_bind, StateT.run_get, pure_bind, hp, h]

theorem process_file {c : Content} (h : s.disk.stat p = .file c) (fuel : Nat) (isWhole : Bool) :
    (process cfg set src (fuel + 1) head isWhole).run s = (processHead cfg set src p isWhole c).run s := by
  have nonempty : (head == "") = false := by simpa using hne
  rw [process]
  simp only [nonempty, Bool.false_eq_true, if_false, StateT.run_bind, StateT.run_get, pure_bind, hp, h]

end Cuts

/-- An archive is walked from the path inside it on. -/
theorem processHead_archive {arc : String} {isWhole : Bool} {p : String}
    (hp : Text.dropStart "/" (behind arc src) = p) {es : List ArchiveEntry} (hext : hasArchiveExt arc = true) :
    (processHead cfg set src arc isWhole (.archive es)).run s =
      match cfg.troubles.look (.file arc) with
      | some why => (.error (.archiveType why), s)
      | none =>
        match (processArchive cfg set arc (.archive es) p "").run s with
        | (r, t) => (r.mapError .archive, t) := by
  have archive : isArchive arc (.archive es) = true := by simp [isArchive, hext, Content.looksPacked]
  unfold processHead
  simp only [Troubles.start, hext, if_true, archive, hp]
  cases cfg.troubles.look (.file arc) with
  | some why => rfl
  | none =>
    simp only [StateT.run_bind]
    rfl

variable {above : List String} {c : Content} (habove : above ≠ []) (harc : s.disk.stat (Path.rooted above) = .file c)

include habove harc

/-- What follows a file in a path is cut off. -/
theorem process_inner {inner : List String} (hnames : ∀ n ∈ above ++ inner, Path.IsName n) {head : String}
    (hne : head ≠ "") (hhead : Text.dropEnd "/" head = Path.rooted (above ++ inner)) {fuel : Nat} {isWhole : Bool}
    (hfuel : (Path.rooted (above ++ inner)).toList.length < fuel) :
    ∃ isWhole', (process cfg set src fuel head isWhole).run s =
      (processHead cfg set src (Path.rooted above) isWhole' c).run s := by
  have hup : ∀ n ∈ above, Path.Single n ∧ n ≠ "" := fun n hn =>
    ⟨(hnames n (List.mem_append_left _ hn)).single, (hnames n (List.mem_append_left _ hn)).ne_empty⟩
  induction inner using List.reverseRecOn generalizing head fuel isWhole with
  | nil =>
    obtain ⟨fuel, rfl⟩ := Nat.exists_eq_add_one_of_ne_zero (Nat.ne_zero_of_lt hfuel)
    rw [List.append_nil] at hhead
    exact ⟨isWhole, process_file hne hhead harc fuel isWhole⟩
  | append_singleton inner n ih =>
    obtain ⟨fuel, rfl⟩ := Nat.exists_eq_add_one_of_ne_zero (Nat.ne_zero_of_lt hfuel)
    have nowhere : s.disk.stat (Path.rooted (above ++ (inner ++ [n]))) = .notDirectory := by
      rw [Disk.stat_rooted _ fun m hm => ⟨(hnames m hm).single, (hnames m hm).ne_empty⟩]
      exact Disk.follow_below_file (by simp) ((Disk.stat_rooted _ hup).symm.trans harc)
    rw [process_shorter hne hhead nowhere]
    rw [← List.append_assoc] at hnames hfuel ⊢
    have outer : above ++ inner ≠ [] := by simp [habove]
    rw [Path.split_rooted outer (hnames n (by simp)).single]
    have shorter := Path.length_rooted_concat outer n
    exact ih (fun m hm => hnames m (List.mem_append_left _ hm)) (Path.append_ne_empty (Path.rooted_ne_empty _) _)
      (Text.dropEnd_append _ _) (by omega)

omit habove harc in
/-- What was cut off behind the archive is the path inside it. -/
theorem behind_rooted (habove : above ≠ []) (inner : List String) :
    Text.dropStart "/" (behind (Path.rooted above) (Path.rooted (above ++ inner))) = "/".intercalate inner := by
  by_cases hi : inner = []
  · subst hi
    have nothing := Text.dropStart_append (Path.rooted above) ""
    rw [String.append_empty] at nothing
    rw [List.append_nil, behind, nothing]
    decide
  · rw [behind, Path.rooted_append habove hi, String.append_assoc, Text.dropStart_append, Text.dropStart_append]

end Inside

/-! ## The entries under a path -/

section Entries

variable (cfg : RunSettings) (arc : String) (es : List ArchiveEntry)

/-- Is the entry a file and a source? -/
def isEntrySource (e : ArchiveEntry) : Bool := !e.isDir && recognised cfg arc e

/-- The entries that a walk from a path on makes sources. -/
def chosen (p : String) : List ArchiveEntry :=
  (naturalSort ArchiveEntry.name (es.filter fun e => !e.isDir && Text.startsWith p e.name)).filter (recognised cfg arc)

theorem chosen_perm (p : String) :
    (chosen cfg arc es p).Perm (es.filter fun e => isEntrySource cfg arc e && Text.startsWith p e.name) := by
  refine ((perm_naturalSort _ _).filter _).trans (List.Perm.of_eq ?_)
  rw [List.filter_filter]
  refine List.filter_congr fun e _ => ?_
  simp only [isEntrySource]
  cases e.isDir <;> cases recognised cfg arc e <;> simp

theorem chosen_sorted (p : String) (h : ∀ e ∈ es, ∃ ks, Ranked e.name.toList ks) :
    (chosen cfg arc es p).Pairwise fun e f => naturalLess f.name e.name = false :=
  (pairwise_naturalSort (ordered_of_ranked (List.forall_mem_map.2 h)) fun _ he =>
    List.mem_map_of_mem (List.mem_of_mem_filter he)).filter _

/-- The chosen entries are those under the path exactly if no other name begins with the same characters. -/
theorem chosen_perm_under_iff (p : String) :
    (chosen cfg arc es p).Perm (es.filter fun e => isEntrySource cfg arc e && Path.isUnder p e.name) ↔
      ∀ e ∈ es, isEntrySource cfg arc e = true → Text.startsWith p e.name = true → Path.isUnder p e.name = true := by
  constructor
  · intro h e he hsource hstart
    have kept : e ∈ es.filter fun e => isEntrySource cfg arc e && Text.startsWith p e.name :=
      List.mem_filter.2 ⟨he, by simp [hsource, hstart]⟩
    have under := h.mem_iff.1 ((chosen_perm cfg arc es p).mem_iff.2 kept)
    have both := (List.mem_filter.1 under).2
    rw [Bool.and_eq_true] at both
    exact both.2
  · intro h
    refine (chosen_perm cfg arc es p).trans (List.Perm.of_eq (List.filter_congr fun e he => ?_))
    cases hsource : isEntrySource cfg arc e with
    | false => simp
    | true =>
      simp only [Bool.true_and]
      exact Bool.eq_iff_iff.2 ⟨h e he hsource, Path.startsWith_of_isUnder⟩

/-- What is tried of an archive from a path on. -/
structure Selects (p : String) (tried : List ArchiveEntry) : Prop where
  /-- Every source whose name starts with the path, and each of them once. -/
  once : tried.Perm (es.filter fun e => isEntrySource cfg arc e && Text.startsWith p e.name)
  /-- In natural order, if that orders the names. -/
  ordered : (∀ e ∈ es, ∃ ks, Ranked e.name.toList ks) → tried.Pairwise fun e f => naturalLess f.name e.name = false
  /-- These are the sources under the path exactly if no other name begins with the same characters. -/
  exact_iff : tried.Perm (es.filter fun e => isEntrySource cfg arc e && Path.isUnder p e.name) ↔
    ∀ e ∈ es, isEntrySource cfg arc e = true → Text.startsWith p e.name = true → Path.isUnder p e.name = true

theorem selects_chosen (p : String) : Selects cfg arc es p (chosen cfg arc es p) where
  once := chosen_perm cfg arc es p
  ordered := chosen_sorted cfg arc es p
  exact_iff := chosen_perm_under_iff cfg arc es p

variable {cfg arc es}

theorem walk_archive (henter : cfg.troubles.enter (.file arc) = none) (p : String) :
    cfg.troubles.walk arc (.archive es) p = (Archive.files es p).mapError Archive.escapeMessage := by
  simp only [Troubles.walk, Troubles.unpack, henter]
  rfl

/-- An archive whose names are safe is walked along its files. -/
theorem walk_of_safe (henter : cfg.troubles.enter (.file arc) = none) (hsafe : ∀ e ∈ es, Archive.isSafe e.name = true)
    (p : String) : cfg.troubles.walk arc (.archive es) p =
      .ok (naturalSort ArchiveEntry.name (es.filter fun e => !e.isDir && Text.startsWith p e.name)) := by
  have safe : es.find? (fun e => !Archive.isSafe e.name) = none := by
    simpa [List.find?_eq_none] using hsafe
  rw [walk_archive henter, Archive.files, safe]
  rfl

/-- An archive that cannot be opened, or with a name that is not safe, is not walked. -/
theorem exists_walk_error (h : (cfg.troubles.enter (.file arc)).isSome ∨ ∃ e ∈ es, Archive.isSafe e.name = false)
    (p : String) : ∃ why, cfg.troubles.walk arc (.archive es) p = .error why := by
  cases henter : cfg.troubles.enter (.file arc) with
  | some why =>
    refine ⟨why, ?_⟩
    simp only [Troubles.walk, Troubles.unpack, henter]
    rfl
  | none =>
    obtain ⟨e, he, hescape⟩ : ∃ e ∈ es, Archive.isSafe e.name = false := by simpa [henter] using h
    cases hfind : es.find? fun e => !Archive.isSafe e.name with
    | some f =>
      refine ⟨Archive.escapeMessage f.name, ?_⟩
      rw [walk_archive henter, Archive.files, hfind]
      rfl
    | none => simpa [hescape] using List.find?_eq_none.1 hfind e he

end Entries

/-! ## Runs inside an archive -/

/-- A path that goes on inside an archive. If the archive cannot be opened, or one of its names is not safe, nothing is
done. Otherwise exactly the sources are tried whose names start with the path inside, each of them once and in natural
order; these are the sources under that path unless another name begins with the same characters. -/
theorem process_inside (cfg : RunSettings) (set : Option Text.Charset) {above inner : List String}
    (hnames : ∀ n ∈ above ++ inner, Path.IsName n) (habove : above ≠ []) {s : RunState} {es : List ArchiveEntry}
    (harc : s.disk.stat (Path.rooted above) = .file (.archive es))
    (hext : hasArchiveExt (Path.rooted above) = true) :
    let arc := Path.rooted above
    let p := "/".intercalate inner
    let src := Path.rooted (above ++ inner)
    let closed := (cfg.troubles.look (.file arc)).isSome ∨ (cfg.troubles.enter (.file arc)).isSome ∨
      ∃ e ∈ es, Archive.isSafe e.name = false
    ∃ r t, (process cfg set src (src.toList.length + 1) src true).run s = (r, t) ∧
      (closed → t = s ∧ ∃ f, r = .error f) ∧
      (¬ closed → r = .ok () ∧ ∃ as tried, Tries cfg as s t ∧ as.map (·.source) = tried.map (sourceOf set arc "") ∧
        Selects cfg arc es p tried) := by
  intro arc p src closed
  obtain ⟨isWhole, hcut⟩ : ∃ isWhole, (process cfg set src (src.toList.length + 1) src true).run s =
      (processHead cfg set src arc isWhole (.archive es)).run s := by
    have ends : Text.endsWith "/" src = false :=
      Disk.endsWith_rooted (by simp [habove]) fun n hn => ⟨(hnames n hn).single, (hnames n hn).ne_empty⟩
    exact process_inner habove harc hnames (Path.rooted_ne_empty _) (Text.dropEnd_of_endsWith ends) (Nat.lt_succ_self _)
  have hp : Text.dropStart "/" (behind arc src) = p := behind_rooted habove inner
  rw [hcut, processHead_archive hp hext]
  cases hlook : cfg.troubles.look (.file arc) with
  | some why => exact ⟨_, _, rfl, fun _ => ⟨rfl, _, rfl⟩, fun hopen => absurd (.inl (by simp [hlook])) hopen⟩
  | none =>
    by_cases hclosed : (cfg.troubles.enter (.file arc)).isSome ∨ ∃ e ∈ es, Archive.isSafe e.name = false
    · obtain ⟨why, hwalk⟩ := exists_walk_error hclosed p
      simp only [processArchive_error cfg set arc "" hwalk]
      exact ⟨_, _, rfl, fun _ => ⟨rfl, _, rfl⟩, fun hopen => absurd (.inr hclosed) hopen⟩
    · obtain ⟨hopens, hnone⟩ := not_or.1 hclosed
      have henter : cfg.troubles.enter (.file arc) = none := by simpa using hopens
      have hsafe : ∀ e ∈ es, Archive.isSafe e.name = true := fun e he => by simpa using fun h => hnone ⟨e, he, h⟩
      obtain ⟨as, t, hrun, tries, hsources⟩ := processArchive_ok cfg set arc "" (walk_of_safe henter hsafe p) s
      simp only [hrun]
      refine ⟨_, t, rfl, fun h => ?_, fun _ => ⟨rfl, as, _, tries, hsources, selects_chosen cfg arc es p⟩⟩
      rcases h with h | h
      · simp [hlook] at h
      · exact absurd h hclosed

/-- An archive with two directories whose names begin alike. -/
def alike : List ArchiveEntry :=
  [⟨Text.toBytes "figs/a.svg".toList, true, Text.toBytes "<svg/>".toList⟩,
    ⟨Text.toBytes "figs2/b.svg".toList, true, Text.toBytes "<svg/>".toList⟩]

/-- The run on the first of them. -/
theorem process_inside_alike :
    let cfg : RunSettings := { dest := "/out" }
    let s : RunState := { disk := { files := [("/d.zip", .archive alike)] } }
    let closed := (cfg.troubles.look (.file "/d.zip")).isSome ∨ (cfg.troubles.enter (.file "/d.zip")).isSome ∨
      ∃ e ∈ alike, Archive.isSafe e.name = false
    (∀ n ∈ ["d.zip"] ++ ["figs"], Path.IsName n) ∧ ["d.zip"] ≠ [] ∧
      s.disk.stat (Path.rooted ["d.zip"]) = .file (.archive alike) ∧ hasArchiveExt (Path.rooted ["d.zip"]) = true ∧
      ∃ r t, (process cfg none "/d.zip/figs" 12 "/d.zip/figs" true).run s = (r, t) ∧
        (closed → t = s ∧ ∃ f, r = .error f) ∧
        (¬ closed → r = .ok () ∧ ∃ as tried, Tries cfg as s t ∧
          as.map (·.source) = tried.map (sourceOf none "/d.zip" "") ∧ Selects cfg "/d.zip" alike "figs" tried) := by
  intro cfg s closed
  have hnames : ∀ n ∈ ["d.zip"] ++ ["figs"], Path.IsName n := by
    simp only [List.cons_append, List.nil_append, List.forall_mem_cons, List.not_mem_nil, false_implies, implies_true,
      and_true]
    have archive : Path.Single "d.zip" := by simp [Path.Single]
    have figs : Path.Single "figs" := by simp [Path.Single]
    exact ⟨⟨by decide, by decide, by decide, archive⟩, ⟨by decide, by decide, by decide, figs⟩⟩
  have harc : s.disk.stat (Path.rooted ["d.zip"]) = .file (.archive alike) := by rfl
  have hext : hasArchiveExt (Path.rooted ["d.zip"]) = true := by decide +kernel
  have ends := process_inside cfg none hnames (by simp) harc hext
  exact ⟨hnames, by simp, harc, hext, ends⟩

/-- The source in the other directory is compiled, too. -/
theorem run_compiles_sibling :
    (((run { dest := "/out" } (some "/d.zip/figs") false "").run
      { disk := { files := [("/d.zip", .archive alike)] } }).2.disk.files.map (·.1)) =
        ["/d.zip", "/out/figs/a.svg", "/out/figs2/b.svg"] ∧
      Path.isUnder "figs" "figs2/b.svg" = false := by
  decide +kernel

end Run

end DiagramMarkup.Files
