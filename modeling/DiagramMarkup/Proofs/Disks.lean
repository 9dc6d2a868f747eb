import DiagramMarkup.Files.Disk
import DiagramMarkup.Proofs.Paths
import Mathlib.Data.List.Induction

/-!
# Files on a disk

1. A path is followed name by name, so its end is found from any directory on the way (`follow_append`), and nothing is
   found below a file (`follow_below_file`).
2. A new file stands where nothing was found, so it is in no one's way: whatever else led to a file still does
   (`keeps_write`).
-/

namespace DiagramMarkup.Files.Disk

variable {d e : Disk} {p q : String} {c : Content}

/-! ## Contents -/

theorem lookup_put_self (fs : List (String × Content)) : (put p c fs).lookup p = some c := by
  induction fs with
  | nil => simp [put]
  | cons f fs ih =>
    obtain ⟨r, old⟩ := f
    by_cases h : r = p
    · simp [put, h]
    · have other : (p == r) = false := by simpa using Ne.symm h
      simp [put, List.lookup_cons, h, other, ih]

theorem lookup_put_of_ne (h : q ≠ p) (fs : List (String × Content)) : (put p c fs).lookup q = fs.lookup q := by
  have other : (q == p) = false := by simpa using h
  induction fs with
  | nil => simp [put, List.lookup_cons, other]
  | cons f fs ih =>
    obtain ⟨r, old⟩ := f
    by_cases hr : r = p
    · simp [put, List.lookup_cons, hr, other]
    · simp [put, List.lookup_cons, hr, ih]

@[simp] theorem files_makeDir (d : Disk) : (d.makeDir p).files = d.files := by
  simp only [makeDir]

@[simp] theorem files_write (d : Disk) : (d.write p c).files = put p c d.files := by
  simp only [write, files_makeDir]

theorem dirs_write (d : Disk) : (d.write p c).dirs = (d.makeDir (Path.dir p)).dirs := by
  simp only [write]

theorem dirs_subset_makeDir (d : Disk) (p : String) : d.dirs ⊆ (d.makeDir p).dirs := by
  have added : ∀ qs ds : List String, ds ⊆ qs.foldl (fun ds q => if ds.contains q then ds else ds ++ [q]) ds := by
    intro qs
    induction qs with
    | nil => exact fun ds => List.Subset.refl ds
    | cons q qs ih =>
      intro ds
      refine List.Subset.trans ?_ (ih _)
      dsimp only
      split
      · exact List.Subset.refl ds
      · exact List.subset_append_left ds [q]
  exact added _ _

/-! ## Following a path -/

theorem follow_cons (dir name : String) (rest : List String) :
    d.follow dir (name :: rest) =
      if componentLimit < Text.byteLength name.toList then .tooLong
      else match d.files.lookup (child dir name) with
        | some f => if rest.isEmpty then .file f else .notDirectory
        | none => if d.dirs.contains (child dir name) then d.follow (child dir name) rest else .missing := rfl

/-- From a directory on the way a path goes on as it would from its start. -/
theorem follow_append {rest : List String} : ∀ {names : List String} {dir : String}, d.follow dir names = .dir →
    d.follow dir (names ++ rest) = d.follow (names.foldl child dir) rest := by
  intro names
  induction names with
  | nil => exact fun _ => rfl
  | cons name names ih =>
    intro dir h
    rw [List.cons_append, follow_cons] at *
    split at h
    · cases h
    next hshort =>
    rw [if_neg hshort]
    split at h
    · split at h <;> cases h
    · split at h
      · next hdir =>
        rw [if_pos hdir]
        exact ih h
      · cases h

/-- A path does not go on below a file. -/
theorem follow_below_file {rest : List String} (hrest : rest ≠ []) :
    ∀ {names : List String} {dir : String}, d.follow dir names = .file c →
      d.follow dir (names ++ rest) = .notDirectory := by
  intro names
  induction names with
  | nil =>
    intro dir h
    cases h
  | cons name names ih =>
    intro dir h
    rw [List.cons_append, follow_cons] at *
    split at h
    · cases h
    next hshort =>
    rw [if_neg hshort]
    split at h
    · simp [hrest]
    · split at h
      · next hdir =>
        rw [if_pos hdir]
        exact ih h
      · cases h

theorem child_rooted {names : List String} (h : ∀ m ∈ names, m ≠ "") (n : String) :
    child (Path.rooted names) n = Path.rooted (names ++ [n]) := by
  by_cases hnil : names = []
  · subst hnil
    simp [child, Path.rooted]
  · obtain ⟨m, rest, rfl⟩ := List.exists_cons_of_ne_nil hnil
    have nonempty := Path.append_ne_empty (a := "/") (by decide) ("/".intercalate (m :: rest))
    have deeper : "/" ++ "/".intercalate (m :: rest) ≠ "/" := by
      have := Path.intercalate_cons_ne_empty (h m List.mem_cons_self) rest
      simpa using this
    unfold child Path.rooted
    rw [String.intercalate_append_of_ne_nil hnil (by simp), String.intercalate_singleton]
    simp only [beq_iff_eq, nonempty, deeper, if_false, String.append_assoc]

theorem foldl_child {names : List String} (h : ∀ n ∈ names, n ≠ "") : names.foldl child "/" = Path.rooted names := by
  induction names using List.reverseRecOn with
  | nil => rfl
  | append_singleton names n ih =>
    have hup : ∀ m ∈ names, m ≠ "" := fun m hm => h m (List.mem_append_left _ hm)
    rw [List.foldl_append, ih hup]
    exact child_rooted hup n

/-- A path of names does not end in a slash. -/
theorem endsWith_rooted {cs : List String} (hne : cs ≠ []) (h : ∀ c ∈ cs, Path.Single c ∧ c ≠ "") :
    Text.endsWith "/" (Path.rooted cs) = false := by
  rw [← Bool.not_eq_true, Text.endsWith_iff]
  rintro ⟨front, hfront⟩
  have parts := Path.components_rooted fun c hc => (h c hc).1
  have cut := Path.components_slash front ""
  rw [String.append_empty, ← hfront, parts, if_neg hne, Path.components_of_single (c := "") (by simp [Path.Single])] at cut
  have last := congrArg List.getLast? cut
  rw [List.getLast?_concat, List.getLast?_cons_of_ne_nil hne] at last
  exact (h "" (List.mem_of_getLast? last)).2 rfl

/-- An absolute path leads to a file by its names, and does not end in a slash then. -/
theorem stat_eq_file_iff (hp : Path.isAbsolute p = true) :
    d.stat p = .file c ↔
      Text.endsWith "/" p = false ∧ d.follow "/" ((Path.components p).filter (· != "")) = .file c := by
  have hne : (p == "") = false := by
    rw [beq_eq_false_iff_ne]
    rintro rfl
    exact absurd hp (by decide)
  unfold stat
  simp only [hne, hp, Bool.false_eq_true, if_false, if_true]
  cases Text.endsWith "/" p with
  | false => simp
  | true => cases d.follow "/" ((Path.components p).filter (· != "")) <;> simp [Stat.asDirectory]

theorem stat_eq_dir_iff (hp : p ≠ "") :
    d.stat p = .dir ↔
      d.follow (if Path.isAbsolute p then "/" else "") ((Path.components p).filter (· != "")) = .dir := by
  have hne : (p == "") = false := by simpa using hp
  unfold stat
  simp only [hne, Bool.false_eq_true, if_false]
  split
  · cases d.follow (if Path.isAbsolute p then "/" else "") ((Path.components p).filter (· != "")) <;>
      simp [Stat.asDirectory]
  · exact Iff.rfl

theorem stat_rooted (d : Disk) {cs : List String} (h : ∀ c ∈ cs, Path.Single c ∧ c ≠ "") :
    d.stat (Path.rooted cs) = d.follow "/" cs := by
  have kept : (Path.components (Path.rooted cs)).filter (· != "") = cs := by
    rw [Path.components_rooted fun c hc => (h c hc).1]
    by_cases hnil : cs = []
    · simp [hnil]
    · simp only [hnil, if_false, List.filter_cons, bne_self_eq_false, Bool.false_eq_true]
      exact List.filter_eq_self.2 fun c hc => by simpa using (h c hc).2
  have nonempty : (Path.rooted cs == "") = false :=
    beq_eq_false_iff_ne.2 (Path.append_ne_empty (by decide) _)
  unfold stat
  simp only [nonempty, Path.isAbsolute_rooted, kept, Bool.false_eq_true, if_false, if_true]
  by_cases hnil : cs = []
  · subst hnil
    split <;> rfl
  · rw [endsWith_rooted hnil h, if_neg Bool.false_ne_true]

/-- Where one more name leads from a directory. -/
theorem stat_concat {names : List String} {n : String} (hdir : d.follow "/" names = .dir)
    (h : ∀ m ∈ names ++ [n], Path.Single m ∧ m ≠ "") :
    d.stat (Path.rooted (names ++ [n])) = d.follow (Path.rooted names) [n] := by
  rw [stat_rooted d h, follow_append hdir, foldl_child fun m hm => (h m (List.mem_append_left _ hm)).2]

/-- A directory stays one without a slash at the end of its path, unless nothing is left. -/
theorem stat_dropEnd_slash (habs : Path.isAbsolute p = true) (hroot : p ≠ "/") (h : d.stat p = .dir) :
    Path.isAbsolute (Text.dropEnd "/" p) = true ∧ d.stat (Text.dropEnd "/" p) = .dir := by
  cases hend : Text.endsWith "/" p with
  | false =>
    rw [Text.dropEnd_of_endsWith hend]
    exact ⟨habs, h⟩
  | true =>
    obtain ⟨q, rfl⟩ := Text.endsWith_iff.1 hend
    have hq : q ≠ "" := by
      rintro rfl
      exact hroot rfl
    rw [Path.isAbsolute_append hq] at habs
    have names : (Path.components (q ++ "/")).filter (· != "") = (Path.components q).filter (· != "") := by
      have cut := Path.components_slash q ""
      rw [String.append_empty, Path.components_of_single (c := "") (by simp [Path.Single])] at cut
      rw [cut]
      simp
    rw [Text.dropEnd_append]
    rw [stat_eq_dir_iff (Path.append_ne_empty hq _), Path.isAbsolute_append hq, names] at h
    exact ⟨habs, (stat_eq_dir_iff hq).2 h⟩

/-- The paths of a walk are absolute if that of its directory is. -/
theorem isAbsolute_walked {dir : String} (h : Path.isAbsolute dir = true) (rel : String) :
    Path.isAbsolute (walked dir rel) = true := by
  have root : Path.isAbsolute "/" = true := by decide
  have clean := (Path.isAbsolute_clean dir).trans h
  have hne : Path.clean dir ≠ "" := by
    intro hempty
    rw [hempty] at clean
    exact absurd clean (by decide)
  unfold walked child
  rw [if_neg (by simpa using hne)]
  split
  · rw [Path.isAbsolute_append (by decide), root]
  · rw [Path.isAbsolute_append (Path.append_ne_empty hne _), Path.isAbsolute_append hne, clean]

/-! ## What is kept -/

/-- What leads to a file still leads to it. -/
def Keeps (d e : Disk) : Prop := ∀ p c, Path.isAbsolute p = true → d.stat p = .file c → e.stat p = .file c

theorem Keeps.refl (d : Disk) : Keeps d d := fun _ _ _ h => h

theorem Keeps.trans {f : Disk} (h : Keeps d e) (h' : Keeps e f) : Keeps d f :=
  fun p c hp hc => h' p c hp (h p c hp hc)

section Following

variable (hfiles : ∀ q, d.stat q ≠ .missing → e.files.lookup q = d.files.lookup q) (hdirs : d.dirs ⊆ e.dirs)

include hfiles hdirs

/-- What a path leads to by names below a directory is kept, if new files stand only where nothing was found. -/
theorem follow_kept (rest names : List String) (hnames : ∀ n ∈ names ++ rest, Path.Single n ∧ n ≠ "")
    (hdir : d.follow "/" names = .dir) (h : d.follow (Path.rooted names) rest = .file c) :
    e.follow (Path.rooted names) rest = .file c := by
  induction rest generalizing names with
  | nil => cases h
  | cons n rest ih =>
    rw [List.append_cons] at hnames
    have hnext : ∀ m ∈ names ++ [n], Path.Single m ∧ m ≠ "" := fun m hm => hnames m (List.mem_append_left _ hm)
    have hup : ∀ m ∈ names, m ≠ "" := fun m hm => (hnext m (List.mem_append_left _ hm)).2
    -- the next name leads somewhere, so no new file stands there
    have next := stat_concat hdir hnext
    rw [follow_cons, child_rooted hup] at h ⊢ next
    split at h
    · cases h
    next hshort =>
    rw [if_neg hshort] at next ⊢
    cases hlook : d.files.lookup (Path.rooted (names ++ [n])) with
    | some f =>
      rw [hlook] at h next
      rw [hfiles _ (by rw [next]; simp), hlook]
      exact h
    | none =>
      rw [hlook] at h next
      simp only at h next ⊢
      split at h
      · next hd =>
        rw [if_pos hd] at next
        have hd' : e.dirs.contains (Path.rooted (names ++ [n])) = true :=
          List.contains_iff_mem.2 (hdirs (List.contains_iff_mem.1 hd))
        rw [hfiles _ (by rw [next, follow]; simp), hlook]
        simp only
        rw [if_pos hd']
        exact ih (names ++ [n]) hnames ((stat_rooted d hnext).symm.trans next) h
      · cases h

/-- Files that stand where nothing was found, and more directories, are in no path's way. -/
theorem keeps_of_lookup : Keeps d e := by
  intro p c hp h
  rw [stat_eq_file_iff hp] at h ⊢
  refine ⟨h.1, follow_kept hfiles hdirs _ [] (fun m hm => ?_) rfl h.2⟩
  obtain ⟨hmem, hne⟩ := List.mem_filter.1 hm
  exact ⟨Path.single_of_mem_components hmem, by simpa using hne⟩

end Following

theorem keeps_makeDir (d : Disk) (p : String) : Keeps d (d.makeDir p) :=
  keeps_of_lookup (fun q _ => by rw [files_makeDir]) (dirs_subset_makeDir d p)

theorem keeps_write (hp : d.stat p = .missing) (c : Content) : Keeps d (d.write p c) := by
  refine keeps_of_lookup (fun q hq => ?_) ?_
  · have hne : q ≠ p := by
      rintro rfl
      exact hq hp
    rw [files_write, lookup_put_of_ne hne]
  · rw [dirs_write]
    exact dirs_subset_makeDir d _

end DiagramMarkup.Files.Disk
