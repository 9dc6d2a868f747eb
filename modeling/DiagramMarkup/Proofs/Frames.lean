import DiagramMarkup.Compile.Session
import DiagramMarkup.Proofs.Lookups
import DiagramMarkup.Proofs.Regimes

/-!
# Frames in memory

1. An assignment changes one frame, and there one value (`Frame.lookup_put_of_ne`).
2. It goes to the innermost frame that defines the name, or else to the innermost (`Memory.isTarget_target`). So the name
   has the value afterwards, and other names have theirs, though a frame may stand in a scope more than once.
3. A frame that is opened comes in front of those that are open (`Memory.addresses_push`), and the frames of a copy are
   new (`Memory.addresses_clone`).
-/

namespace DiagramMarkup

/-! ## Values -/

namespace Frame

variable {f : Frame} {name value n : String}

theorem put_eq (f : Frame) (name value : String) : f.put name value = Attrs.put name value f := by
  induction f with
  | nil => rfl
  | cons p rest ih => 
    obtain ⟨m, v⟩ := p
    by_cases hm : m = name
    · subst hm
      simp [put, Attrs.put_cons_self]
    · rw [Attrs.put_cons_of_ne hm, ← ih]
      simp [put, hm]

theorem lookup_put_self (f : Frame) (name value : String) : (f.put name value).lookup name = some value := by
  rw [put_eq, Attrs.lookup_put_self]

theorem lookup_put_of_ne (h : n ≠ name) (f : Frame) (value : String) : (f.put name value).lookup n = f.lookup n := by
  rw [put_eq, Attrs.lookup_put_of_ne h]

theorem mem_put {p : String × String} : ∀ {f : Frame}, p ∈ f.put name value → p = (name, value) ∨ p ∈ f
  | [], h => .inl (List.mem_singleton.1 h)
  | q :: rest, h => by
    unfold put at h
    split at h
    · exact (List.mem_cons.1 h).imp_right (List.mem_cons_of_mem q)
    · rcases List.mem_cons.1 h with rfl | h
      · exact .inr List.mem_cons_self
      · exact (mem_put h).imp_right (List.mem_cons_of_mem q)

theorem defines_put (h : f.defines n) : (f.put name value).defines n := by
  unfold defines at h ⊢
  by_cases hn : n = name
  · rw [hn, lookup_put_self, Option.isSome_some]
  · rwa [lookup_put_of_ne hn]

/-- An assignment keeps the names; a new one comes behind them. -/
theorem names_prefix_put : ∀ f : Frame, f.names <+: (f.put name value).names
  | [] => List.nil_prefix
  | p :: rest => by
    unfold put
    split
    · next h => simp [names, eq_of_beq h]
    · exact List.cons_prefix_cons.2 ⟨rfl, names_prefix_put rest⟩

/-- No value of the frame is longer than the limit. -/
def Bounded (limit : Int) (f : Frame) : Prop := ∀ p ∈ f, (Context.byteSize p.2 : Int) ≤ limit

theorem Bounded.put {limit : Int} (h : f.Bounded limit) (hv : (Context.byteSize value : Int) ≤ limit) :
    (f.put name value).Bounded limit := by
  intro p hp
  rcases mem_put hp with rfl | hp
  · exact hv
  · exact h p hp

end Frame

namespace Scope

/-- All frames, the innermost first and that of the document last. -/
def frames (s : Scope) : List Frame := s.inner ++ [s.globals]

/-- Frames that do not define the name are passed. -/
theorem find?_append {name : String} {gs : List Frame} : ∀ {fs : List Frame}, (∀ f ∈ fs, ¬ f.defines name) →
    find? (fs ++ gs) name = find? gs name
  | [], _ => rfl
  | f :: fs, h => by
    obtain ⟨hf, hfs⟩ := List.forall_mem_cons.1 h
    have hnone : f.lookup name = none := Option.not_isSome_iff_eq_none.1 hf
    rw [List.cons_append, find?, hnone]
    exact find?_append hfs

end Scope

namespace Memory

variable {m : Memory} {h k : Handle} {a b : Nat} {as : List Nat} {name value n : String}

/-- Every cell holds the address of a frame. -/
def Sound (m : Memory) : Prop := ∀ array ∈ m.arrays, ∀ a ∈ array, a < m.frames.length

/-- The scope has a frame, and its array has enough cells. -/
def Holds (m : Memory) (h : Handle) : Prop :=
  1 ≤ h.height ∧ ∃ array, m.arrays[h.array]? = some array ∧ h.height ≤ array.length

theorem Holds.lt (hh : m.Holds h) : h.array < m.arrays.length := by
  obtain ⟨-, array, harray, -⟩ := hh
  exact (List.getElem?_eq_some_iff.1 harray).1

theorem Holds.length_cells (hh : m.Holds h) : (m.cells h).length = h.height := by
  obtain ⟨-, array, harray, hle⟩ := hh
  rw [cells, harray, Option.getD_some, List.length_take, Nat.min_eq_left hle]

theorem Holds.cells_ne_nil (hh : m.Holds h) : m.cells h ≠ [] := by
  rw [← List.length_pos_iff, hh.length_cells]
  exact hh.1

theorem Holds.addresses_ne_nil (hh : m.Holds h) : m.addresses h ≠ [] := by
  rw [addresses, Ne, List.reverse_eq_nil_iff]
  exact hh.cells_ne_nil

theorem mem_addresses : a ∈ m.addresses h ↔ a ∈ m.cells h := List.mem_reverse

theorem Sound.lt_of_mem_cells (hm : m.Sound) (hh : m.Holds h) (ha : a ∈ m.cells h) : a < m.frames.length := by
  obtain ⟨-, array, harray, -⟩ := hh
  rw [cells, harray, Option.getD_some] at ha
  exact hm array (List.mem_of_getElem? harray) a (List.mem_of_mem_take ha)

theorem Sound.lt_of_mem (hm : m.Sound) (hh : m.Holds h) (ha : a ∈ m.addresses h) : a < m.frames.length :=
  hm.lt_of_mem_cells hh (mem_addresses.1 ha)

theorem frame_mem (ha : a < m.frames.length) : m.frame a ∈ m.frames := by
  rw [frame, List.getElem?_eq_getElem ha, Option.getD_some]
  exact List.getElem_mem ha

theorem frames_scope (hh : m.Holds h) : (m.scope h).frames = (m.addresses h).map m.frame := by
  have hne : (m.addresses h).map m.frame ≠ [] := by simpa using hh.addresses_ne_nil
  have hlast : ((m.addresses h).map m.frame).getLastD [] = ((m.addresses h).map m.frame).getLast hne := by
    rw [List.getLastD_eq_getLast?, List.getLast?_eq_some_getLast hne, Option.getD_some]
  change ((m.addresses h).map m.frame).dropLast ++ [((m.addresses h).map m.frame).getLastD []] = _
  rw [hlast, List.dropLast_concat_getLast]

/-- What shows depends on the open frames only. -/
theorem scope_congr {m' : Memory} (hcells : m'.cells h = m.cells h) (hframe : ∀ a ∈ m.cells h, m'.frame a = m.frame a) :
    m'.scope h = m.scope h := by
  have hframes : (m'.addresses h).map m'.frame = (m.addresses h).map m.frame := by
    rw [addresses, hcells, addresses]
    exact List.map_congr_left fun a ha => hframe a (mem_addresses.1 ha)
  rw [scope, hframes, scope]

/-! ## Assignments -/

theorem frame_put_self (ha : a < m.frames.length) (name value : String) :
    (m.put a name value).frame a = (m.frame a).put name value := by
  rw [frame, put, List.getElem?_modify_eq, List.getElem?_eq_getElem ha, frame, List.getElem?_eq_getElem ha]
  rfl

theorem frame_put_of_ne (h : b ≠ a) (name value : String) : (m.put a name value).frame b = m.frame b := by
  rw [frame, put, List.getElem?_modify_ne _ _ (Ne.symm h), frame]

/-- The innermost of the frames that defines the name, or the innermost of all if none does. -/
def IsTarget (m : Memory) (as : List Nat) (name : String) (a : Nat) : Prop :=
  (∃ inner outer, as = inner ++ a :: outer ∧ (∀ b ∈ inner, ¬ (m.frame b).defines name) ∧ (m.frame a).defines name) ∨
    as.head? = some a ∧ ∀ b ∈ as, ¬ (m.frame b).defines name

theorem IsTarget.mem (ha : m.IsTarget as name a) : a ∈ as := by
  rcases ha with ⟨inner, outer, rfl, -, -⟩ | ⟨ha, -⟩
  · exact List.mem_append_right _ List.mem_cons_self
  · exact List.mem_of_head? ha

theorem isTarget_target (hh : m.Holds h) (name : String) : m.IsTarget (m.addresses h) name (m.target h name) := by
  unfold target
  cases hfind : (m.addresses h).find? fun a => (m.frame a).defines name with
  | some a =>
    obtain ⟨ha, inner, outer, heq, hinner⟩ := List.find?_eq_some_iff_append.1 hfind
    exact .inl ⟨inner, outer, heq, fun b hb => by simpa using hinner b hb, ha⟩
  | none =>
    refine .inr ⟨?_, fun b hb => List.find?_eq_none.1 hfind b hb⟩
    obtain ⟨a, as, has⟩ := List.exists_cons_of_ne_nil hh.addresses_ne_nil
    rw [has]
    rfl

/-- The name has the value that it is given. -/
theorem find?_put_self (ht : m.IsTarget as name a) (ha : a < m.frames.length) (value : String) :
    Scope.find? (as.map (m.put a name value).frame) name = some value := by
  have found : ∀ outer : List Nat, Scope.find? ((a :: outer).map (m.put a name value).frame) name = some value := by
    intro outer
    rw [List.map_cons, Scope.find?, frame_put_self ha, Frame.lookup_put_self]
  rcases ht with ⟨inner, outer, rfl, hinner, hdef⟩ | ⟨hhead, -⟩
  · -- The frame stands nowhere further in, where it would define the name as well.
    rw [List.map_append, Scope.find?_append, found]
    intro f hf
    obtain ⟨b, hb, rfl⟩ := List.mem_map.1 hf
    have hne : b ≠ a := fun h => hinner b hb (h ▸ hdef)
    rw [frame_put_of_ne hne]
    exact hinner b hb
  · obtain ⟨outer, rfl⟩ := List.head?_eq_some_iff.1 hhead
    exact found outer

/-- Other names have the values that they had. -/
theorem find?_put_of_ne (hn : n ≠ name) (value : String) : ∀ as : List Nat,
    Scope.find? (as.map (m.put a name value).frame) n = Scope.find? (as.map m.frame) n
  | [] => rfl
  | b :: as => by
    have hlookup : ((m.put a name value).frame b).lookup n = (m.frame b).lookup n := by
      rw [frame, put, List.getElem?_modify, frame]
      cases m.frames[b]? with
      | none => rfl
      | some f =>
        change (if a = b then f.put name value else f).lookup n = f.lookup n
        split
        · exact Frame.lookup_put_of_ne hn f value
        · rfl
    rw [List.map_cons, List.map_cons, Scope.find?, Scope.find?, hlookup, find?_put_of_ne hn value as]

/-- Every frame keeps its names. -/
theorem names_prefix_put (a b : Nat) : (m.frame b).names <+: ((m.put a name value).frame b).names := by
  rw [frame, frame, put, List.getElem?_modify]
  cases m.frames[b]? with
  | none => exact List.prefix_rfl
  | some f =>
    change f.names <+: (if a = b then f.put name value else f).names
    split
    · exact Frame.names_prefix_put f
    · exact List.prefix_rfl

theorem bounded_put {limit : Int} (hm : ∀ f ∈ m.frames, f.Bounded limit)
    (hv : (Context.byteSize value : Int) ≤ limit) : ∀ f ∈ (m.put a name value).frames, f.Bounded limit := by
  intro f hf
  obtain ⟨i, hi⟩ := List.mem_iff_getElem?.1 hf
  rw [put, List.getElem?_modify] at hi
  obtain ⟨g, hg, rfl⟩ := Option.map_eq_some_iff.1 hi
  have hmem := hm g (List.mem_of_getElem? hg)
  split
  · exact hmem.put hv
  · exact hmem

theorem sound_put (hm : m.Sound) : (m.put a name value).Sound := by
  intro array harray b hb
  rw [put, List.length_modify]
  exact hm array harray b hb

/-! ## Frames that are opened and closed -/

theorem frames_pass (m : Memory) (vars : Passed) : ∃ new, (m.pass vars).1.frames = m.frames ++ new ∧
    (m.pass vars).2 < (m.pass vars).1.frames.length ∧ ∀ f ∈ new, f = (m.pass vars).1.frame (m.pass vars).2 := by
  have alloc : ∀ vars, (m.alloc vars).1.frames = m.frames ++ [vars] ∧
      (m.alloc vars).2 < (m.alloc vars).1.frames.length ∧
      ∀ f ∈ [vars], f = (m.alloc vars).1.frame (m.alloc vars).2 := by
    intro vars
    refine ⟨rfl, by simp [Memory.alloc], fun f hf => ?_⟩
    rw [List.mem_singleton.1 hf]
    simp [Memory.alloc, frame]
  cases vars with
  | fresh vars => exact ⟨[vars], alloc vars⟩
  | held a =>
    have hpass : m.pass (.held a) = if a < m.frames.length then (m, a) else m.alloc [] := rfl
    rw [hpass]
    by_cases ha : a < m.frames.length
    · rw [if_pos ha]
      exact ⟨[], (List.append_nil _).symm, ha, fun _ hf => nomatch hf⟩
    · rw [if_neg ha]
      exact ⟨[[]], alloc []⟩

theorem arrays_pass (m : Memory) (vars : Passed) : (m.pass vars).1.arrays = m.arrays := by
  cases vars with
  | fresh vars => rfl
  | held a =>
    change (if a < m.frames.length then (m, a) else m.alloc []).1.arrays = m.arrays
    split <;> rfl

variable {room : Nat → Nat}

theorem frames_push (m : Memory) (room : Nat → Nat) (h : Handle) (a : Nat) : (m.push room h a).1.frames = m.frames := by
  unfold push
  dsimp only
  split <;> rfl

theorem cells_push (hh : m.Holds h) (room : Nat → Nat) (a : Nat) :
    (m.push room h a).1.cells (m.push room h a).2 = m.cells h ++ [a] := by
  have hlen : (m.cells h ++ [a]).length = h.height + 1 := by rw [List.length_append, hh.length_cells, List.length_singleton]
  obtain ⟨-, array, harray, hle⟩ := hh
  unfold push
  rw [harray, Option.getD_some]
  dsimp only
  split
  · next hlt =>
    have hset : (m.arrays.set h.array (array.set h.height a))[h.array]? = some (array.set h.height a) :=
      List.getElem?_set_self (List.getElem?_eq_some_iff.1 harray).1
    rw [cells, hset, Option.getD_some, cells, harray, Option.getD_some,
      List.take_succ_eq_append_getElem (by simpa using hlt), List.getElem_set_self, List.take_set_of_le (Nat.le_refl _)]
  · rw [cells, List.getElem?_append_right (Nat.le_refl _), Nat.sub_self, List.getElem?_cons_zero, Option.getD_some, ← hlen,
      List.take_left]

theorem addresses_push (hh : m.Holds h) (room : Nat → Nat) (a : Nat) :
    (m.push room h a).1.addresses (m.push room h a).2 = a :: m.addresses h := by
  rw [addresses, cells_push hh, List.reverse_append]
  rfl

/-- A scope with an array of its own, or no longer than the one behind which a frame is opened, stays as it is. -/
theorem cells_push_of (hk : m.Holds k) (hkh : k.array ≠ h.array ∨ k.height ≤ h.height) (room : Nat → Nat) (a : Nat) :
    (m.push room h a).1.cells k = m.cells k := by
  have hlt := hk.lt
  unfold push
  dsimp only
  split
  · rw [cells, cells]
    by_cases harray : k.array = h.array
    · have hle : k.height ≤ h.height := hkh.resolve_left fun hne => hne harray
      rw [← harray, List.getElem?_set_self hlt, Option.getD_some, List.take_set_of_le hle]
    · rw [List.getElem?_set_ne (Ne.symm harray)]
  · rw [cells, List.getElem?_append_left hlt, cells]

theorem sound_push (hm : m.Sound) (hh : m.Holds h) (ha : a < m.frames.length) : (m.push room h a).1.Sound := by
  intro array harray b hb
  rw [frames_push]
  have hold : ∀ array ∈ m.arrays, b ∈ array → b < m.frames.length := fun array harray hb => hm array harray b hb
  unfold push at harray
  dsimp only at harray
  split at harray
  · rcases List.mem_or_eq_of_mem_set harray with harray | rfl
    · exact hold array harray hb
    · rcases List.mem_or_eq_of_mem_set hb with hb | rfl
      · obtain ⟨-, array, harray, -⟩ := hh
        rw [harray, Option.getD_some] at hb
        exact hold array (List.mem_of_getElem? harray) hb
      · exact ha
  · rcases List.mem_append.1 harray with harray | harray
    · exact hold array harray hb
    · rw [List.mem_singleton.1 harray] at hb
      rcases List.mem_append.1 hb with hb | hb
      · rcases List.mem_append.1 hb with hb | hb
        · exact hm.lt_of_mem_cells hh hb
        · rwa [List.mem_singleton.1 hb]
      · rwa [List.eq_of_mem_replicate hb]

theorem holds_push (hh : m.Holds h) (room : Nat → Nat) (a : Nat) : (m.push room h a).1.Holds (m.push room h a).2 := by
  have hlen := hh.length_cells
  obtain ⟨-, array, harray, hle⟩ := hh
  unfold push
  rw [harray, Option.getD_some]
  dsimp only
  split
  · next hlt =>
    refine ⟨Nat.succ_pos _, array.set h.height a, ?_, by simpa using Nat.succ_le_of_lt hlt⟩
    exact List.getElem?_set_self (List.getElem?_eq_some_iff.1 harray).1
  · refine ⟨Nat.succ_pos _, m.cells h ++ [a] ++ List.replicate (room h.height) a, ?_, ?_⟩
    · rw [List.getElem?_append_right (Nat.le_refl _), Nat.sub_self, List.getElem?_cons_zero]
    · simp only [List.length_append, hlen, List.length_singleton]
      omega

theorem holds_push_of (hk : m.Holds k) (room : Nat → Nat) (h : Handle) (a : Nat) : (m.push room h a).1.Holds k := by
  obtain ⟨hpos, array, harray, hle⟩ := hk
  have hlt := (List.getElem?_eq_some_iff.1 harray).1
  unfold push
  dsimp only
  split
  · by_cases hkh : k.array = h.array
    · refine ⟨hpos, array.set h.height a, ?_, by simpa using hle⟩
      rw [← hkh, harray, Option.getD_some, List.getElem?_set_self hlt]
    · exact ⟨hpos, array, by rw [List.getElem?_set_ne (Ne.symm hkh), harray], hle⟩
  · exact ⟨hpos, array, by rw [List.getElem?_append_left hlt, harray], hle⟩

theorem holds_pop (hh : m.Holds h) : m.Holds h.pop := by
  obtain ⟨hpos, array, harray, hle⟩ := hh
  unfold Handle.pop
  split
  · next hlt => exact ⟨Nat.le_sub_one_of_lt hlt, array, harray, (Nat.sub_le _ _).trans hle⟩
  · exact ⟨hpos, array, harray, hle⟩

theorem cells_pop (hh : m.Holds h) : m.cells h.pop = if 1 < h.height then (m.cells h).dropLast else m.cells h := by
  have hlen := hh.length_cells
  unfold Handle.pop
  split
  · rw [List.dropLast_eq_take, hlen, cells, cells, List.take_take, Nat.min_eq_left (Nat.sub_le _ _)]
  · rfl

theorem addresses_pop (hh : m.Holds h) :
    m.addresses h.pop = if 1 < h.height then (m.addresses h).tail else m.addresses h := by
  rw [addresses, cells_pop hh, addresses]
  split
  · rw [List.tail_reverse]
  · rfl

/-! ## Copies -/

theorem frame_append {m' : Memory} {new : List Frame} (hm' : m'.frames = m.frames ++ new) (ha : a < m.frames.length) :
    m'.frame a = m.frame a := by
  rw [frame, hm', List.getElem?_append_left ha, frame]

theorem cells_clone_of (hk : m.Holds k) (h : Handle) : (m.clone h).1.cells k = m.cells k := by
  rw [clone, cells, List.getElem?_append_left hk.lt, cells]

theorem holds_clone_of (hk : m.Holds k) (h : Handle) : (m.clone h).1.Holds k := by
  obtain ⟨hpos, array, harray, hle⟩ := hk
  exact ⟨hpos, array, (List.getElem?_append_left (List.getElem?_eq_some_iff.1 harray).1).trans harray, hle⟩

theorem scope_clone_of (hm : m.Sound) (hk : m.Holds k) (h : Handle) : (m.clone h).1.scope k = m.scope k :=
  scope_congr (cells_clone_of hk h) fun _ ha => frame_append rfl (hm.lt_of_mem_cells hk ha)

/-- The frames of the copy are new. -/
theorem cells_clone (m : Memory) (h : Handle) :
    (m.clone h).1.cells (m.clone h).2 = List.range' m.frames.length (m.cells h).length := by
  rw [clone, cells, List.getElem?_append_right (Nat.le_refl _), Nat.sub_self, List.getElem?_cons_zero, Option.getD_some,
    List.length_map, List.take_of_length_le (by simp)]

theorem holds_clone (hh : m.Holds h) : (m.clone h).1.Holds (m.clone h).2 := by
  have hlen := hh.length_cells
  refine ⟨?_, List.range' m.frames.length (m.cells h).length, ?_, ?_⟩
  · change 1 ≤ ((m.cells h).map m.frame).length
    rw [List.length_map, hlen]
    exact hh.1
  · change (m.arrays ++ [List.range' m.frames.length ((m.cells h).map m.frame).length])[m.arrays.length]? = _
    rw [List.getElem?_append_right (Nat.le_refl _), Nat.sub_self, List.getElem?_cons_zero, List.length_map]
  · change ((m.cells h).map m.frame).length ≤ _
    rw [List.length_map, List.length_range']

theorem sound_clone (hm : m.Sound) (h : Handle) : (m.clone h).1.Sound := by
  intro array harray a ha
  have hlen : (m.clone h).1.frames.length = m.frames.length + (m.cells h).length := by simp [clone]
  rw [hlen]
  rcases List.mem_append.1 harray with harray | harray
  · exact Nat.lt_add_right _ (hm array harray a ha)
  · rw [List.mem_singleton.1 harray, List.length_map] at ha
    exact (List.mem_range'_1.1 ha).2

/-- The copy shows what is copied. -/
theorem map_frame_clone (m : Memory) (h : Handle) :
    ((m.clone h).1.cells (m.clone h).2).map (m.clone h).1.frame = (m.cells h).map m.frame := by
  rw [cells_clone]
  refine List.ext_getElem (by simp) fun i hi hi' => ?_
  have hlt : i < ((m.cells h).map m.frame).length := hi'
  rw [List.getElem_map, List.getElem_range', clone, frame, Nat.one_mul,
    List.getElem?_append_right (Nat.le_add_right _ _), Nat.add_sub_cancel_left, List.getElem?_eq_getElem hlt]
  rfl

end Memory

end DiagramMarkup
