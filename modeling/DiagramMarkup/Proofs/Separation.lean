import Mathlib.Data.List.Nodup
import DiagramMarkup.Proofs.Sessions

/-!
# Scopes as values

A session in which frames are made for the scope that they are opened in, and in which no scope is kept beside the one
that is installed, never has a frame in two places (`Session.Separate.perform`). There a scope shows what was saved,
whatever is done in between: contexts and scopes change as values do (`Session.run_values`). The compiler opens no other
frames and installs copies, so its scopes are values.
-/

namespace DiagramMarkup

open Compile

/-! ## Assignments to values -/

namespace Scope

variable {s t : Scope} {name : String} {f : Frame} {inner outer : List Frame}

theorem eq_of_frames (h : s.frames = t.frames) (hd : s.defaults = t.defaults) : s = t := by
  obtain ⟨inner, globals, defaults⟩ := s
  obtain ⟨inner', globals', defaults'⟩ := t
  obtain ⟨rfl, hglobals⟩ := List.append_inj' h rfl
  obtain rfl : globals = globals' := List.singleton_inj.1 hglobals
  obtain rfl : defaults = defaults' := hd
  rfl

theorem reassign?_append (value : String) (hf : f.defines name) : ∀ {inner : List Frame},
    (∀ g ∈ inner, ¬ g.defines name) →
      reassign? name value (inner ++ f :: outer) = some (inner ++ f.put name value :: outer)
  | [], _ => by rw [List.nil_append, reassign?, if_pos hf, List.nil_append]
  | g :: inner, h => by
    obtain ⟨hg, hinner⟩ := List.forall_mem_cons.1 h
    rw [List.cons_append, reassign?, if_neg hg, reassign?_append value hf hinner]
    rfl

theorem reassign?_eq_none (value : String) : ∀ {fs : List Frame}, (∀ f ∈ fs, ¬ f.defines name) →
    reassign? name value fs = none
  | [], _ => rfl
  | f :: fs, h => by
    obtain ⟨hf, hfs⟩ := List.forall_mem_cons.1 h
    rw [reassign?, if_neg hf, reassign?_eq_none value hfs]
    rfl

/-- An assignment changes the innermost frame that defines the name. -/
theorem frames_setVar_of_defines (value : String) (hs : s.frames = inner ++ f :: outer)
    (hinner : ∀ g ∈ inner, ¬ g.defines name) (hf : f.defines name) :
    (s.setVar name value).frames = inner ++ f.put name value :: outer := by
  obtain ⟨fs, globals, defaults⟩ := s
  rcases List.eq_nil_or_concat' outer with rfl | ⟨outer, g, rfl⟩
  · -- It is the frame of the document.
    obtain ⟨rfl, hglobals⟩ := List.append_inj' hs rfl
    obtain rfl : globals = f := List.singleton_inj.1 hglobals
    unfold setVar
    rw [reassign?_eq_none value hinner]
    cases fs with
    | nil => rfl
    | cons g fs =>
      dsimp only
      rw [if_pos hf]
      rfl
  · have hs : fs ++ [globals] = (inner ++ f :: outer) ++ [g] := by
      rw [List.append_assoc, List.cons_append]
      exact hs
    obtain ⟨rfl, hglobals⟩ := List.append_inj' hs rfl
    obtain rfl : globals = g := List.singleton_inj.1 hglobals
    unfold setVar
    rw [reassign?_append value hf hinner]
    simp [frames]

/-- A new name comes to the innermost frame. -/
theorem frames_setVar_of_not_defines (value : String) (hs : s.frames = f :: outer)
    (hnew : ∀ g ∈ s.frames, ¬ g.defines name) : (s.setVar name value).frames = f.put name value :: outer := by
  obtain ⟨fs, globals, defaults⟩ := s
  have hfs : ∀ g ∈ fs, ¬ g.defines name := fun g hg => hnew g (List.mem_append_left _ hg)
  have hglobals : ¬ globals.defines name := hnew globals (List.mem_append_right _ (List.mem_singleton_self _))
  unfold setVar
  rw [reassign?_eq_none value hfs]
  cases fs with
  | nil =>
    obtain ⟨rfl, rfl⟩ := List.cons.inj (hs : [globals] = f :: outer)
    rfl
  | cons g fs =>
    obtain ⟨rfl, rfl⟩ := List.cons.inj (hs : g :: (fs ++ [globals]) = f :: outer)
    dsimp only
    rw [if_neg hglobals]
    rfl

end Scope

/-! ## Memory in which no frame is shared -/

namespace Memory

variable {m m' : Memory} {h h' : Handle} {a : Nat} {name value : String}

theorem scope_eq_of_frames {s : Scope} (hh : m.Holds h) (hs : (m.addresses h).map m.frame = s.frames)
    (hd : s.defaults = []) : m.scope h = s :=
  Scope.eq_of_frames ((frames_scope hh).trans hs) hd.symm

/-- A frame that is opened shows in front of the others. -/
theorem scope_cons (hh : m.Holds h) (hh' : m'.Holds h') (haddresses : m'.addresses h' = a :: m.addresses h)
    (hframe : ∀ b ∈ m.addresses h, m'.frame b = m.frame b) : m'.scope h' = (m.scope h).push (m'.frame a) := by
  refine scope_eq_of_frames hh' ?_ rfl
  rw [haddresses, List.map_cons, List.map_congr_left hframe, ← frames_scope hh]
  rfl

theorem scope_pop (hh : m.Holds h) : m.scope h.pop = (m.scope h).pop := by
  refine scope_eq_of_frames (holds_pop hh) ?_ rfl
  have hframes := frames_scope hh
  have hlength : (m.scope h).inner.length + 1 = h.height := by
    have := congrArg List.length hframes
    rwa [List.length_map, addresses, List.length_reverse, hh.length_cells, Scope.frames, List.length_append] at this
  rw [addresses_pop hh]
  split
  · next hlt =>
    have hne : (m.scope h).inner ≠ [] := List.length_pos_iff.1 (by omega)
    rw [List.map_tail, ← hframes, Scope.frames, List.tail_append_of_ne_nil hne]
    rfl
  · have hnil : (m.scope h).inner = [] := List.length_eq_zero_iff.1 (by have := hh.1; omega)
    rw [← hframes, Scope.frames, Scope.frames, Scope.pop, hnil]
    rfl

theorem map_frame_put {as : List Nat} (ha : a ∉ as) : as.map (m.put a name value).frame = as.map m.frame :=
  List.map_congr_left fun _ hb => frame_put_of_ne (ne_of_mem_of_not_mem hb ha) _ _

/-- An assignment changes one of the frames that show. -/
theorem scope_put (hh : m.Holds h) (hnodup : (m.addresses h).Nodup) (ha : m.IsTarget (m.addresses h) name a)
    (hlt : a < m.frames.length) (value : String) : (m.put a name value).scope h = (m.scope h).setVar name value := by
  have hframes := frames_scope hh
  have hdefaults : ((m.scope h).setVar name value).defaults = [] := by
    unfold Scope.setVar
    split
    · rfl
    · split
      · split <;> rfl
      · rfl
  refine scope_eq_of_frames hh ?_ hdefaults
  change (m.addresses h).map (m.put a name value).frame = _
  rcases ha with ⟨inner, outer, heq, hinner, hdef⟩ | ⟨hhead, hnew⟩
  · rw [heq] at hframes hnodup ⊢
    obtain ⟨-, hcons, hdisjoint⟩ := List.nodup_append.1 hnodup
    have hnotin : a ∉ inner := fun hmem => hdisjoint a hmem a List.mem_cons_self rfl
    rw [List.map_append, List.map_cons] at hframes
    rw [List.map_append, List.map_cons, map_frame_put hnotin, map_frame_put (List.nodup_cons.1 hcons).1,
      frame_put_self hlt]
    refine (Scope.frames_setVar_of_defines value hframes (fun g hg => ?_) hdef).symm
    obtain ⟨b, hb, rfl⟩ := List.mem_map.1 hg
    exact hinner b hb
  · obtain ⟨outer, heq⟩ := List.head?_eq_some_iff.1 hhead
    have hnew' : ∀ g ∈ (m.scope h).frames, ¬ g.defines name := by
      rw [hframes]
      exact fun g hg => by
        obtain ⟨b, hb, rfl⟩ := List.mem_map.1 hg
        exact hnew b hb
    rw [heq] at hframes hnodup ⊢
    rw [List.map_cons] at hframes
    rw [List.map_cons, map_frame_put (List.nodup_cons.1 hnodup).1, frame_put_self hlt]
    exact (Scope.frames_setVar_of_not_defines value hframes hnew').symm

theorem scope_put_global (hm : m.Sound) (hh : m.Holds h) (hnodup : (m.addresses h).Nodup) (name value : String) :
    (m.put ((m.cells h).headD 0) name value).scope h = (m.scope h).setGlobal name value := by
  refine scope_eq_of_frames hh ?_ rfl
  change (m.addresses h).map (m.put _ name value).frame = _
  obtain ⟨a, cells, hcells⟩ := List.exists_cons_of_ne_nil hh.cells_ne_nil
  have hframes := frames_scope hh
  have hlt : a < m.frames.length := hm.lt_of_mem_cells hh (hcells ▸ List.mem_cons_self)
  rw [addresses, hcells, List.reverse_cons] at hnodup hframes ⊢
  rw [List.map_append] at hframes
  obtain ⟨hinner, hglobals⟩ := List.append_inj' hframes rfl
  have hglobals : (m.scope h).globals = m.frame a := List.singleton_inj.1 hglobals
  have hnotin : a ∉ cells.reverse := fun hmem =>
    (List.nodup_append.1 hnodup).2.2 a hmem a (List.mem_singleton_self a) rfl
  rw [List.headD_cons, List.map_append, map_frame_put hnotin, List.map_singleton, frame_put_self hlt, ← hinner,
    ← hglobals]
  rfl

theorem array_push (m : Memory) (room : Nat → Nat) (h : Handle) (a : Nat) :
    (m.push room h a).2.array = h.array ∨ (m.push room h a).2.array = m.arrays.length := by
  unfold push
  dsimp only
  split
  · exact .inl rfl
  · exact .inr rfl

/-- A copy shows what it is a copy of. -/
theorem scope_clone (hh : m.Holds h) : (m.clone h).1.scope (m.clone h).2 = m.scope h := by
  refine scope_eq_of_frames (holds_clone hh) ?_ rfl
  rw [frames_scope hh, addresses, addresses, List.map_reverse, List.map_reverse, map_frame_clone]

end Memory

/-! ## Sessions in which no frame is shared -/

namespace Operation

/-- The operation opens no frame a second time, and keeps no scope a second time. -/
def Careful : Operation → Prop
  | .push _ (.held _) | .keep _ => False
  | _ => True

/-- What an operation does to a context and to saved scopes if scopes are values. -/
def onValues (op : Operation) (v : Context × List Scope) : Context × List Scope :=
  let changed := fun (r : Except Failure Context) => (r.toOption.getD v.1, v.2)
  match op with
  | .push visit (.fresh vars) => changed ((v.1.visiting visit).pushFrame vars)
  | .push _ (.held _) => v
  | .pop => (v.1.popFrame, v.2)
  | .setVar name value => changed (v.1.setVar name value)
  | .setGlobal name value => changed (v.1.setGlobal name value)
  | .snapshot => (v.1, v.2 ++ [v.1.scope])
  | .copy i => (v.1, v.2 ++ v.2[i]?.toList)
  | .keep _ => v
  | .restore i =>
    match v.2[i]? with
    | some t => ({ v.1 with scope := t }, v.2.set i v.1.scope)
    | none => v
  | .enter el => changed (v.1.enter el)
  | .leave => (v.1.leave, v.2)
  | .setOption el name value => changed (checked el name (v.1.setOption name value))

end Operation

namespace Session

variable {s : Session}

/-- The context of a session, and what its saved scopes show. -/
def values (s : Session) : Context × List Scope := (s.context, s.saved.map s.memory.scope)

/-- No frame is open in two places, and no array is shared. -/
structure Separate (s : Session) : Prop where
  frames : ((s.live :: s.saved).flatMap s.memory.addresses).Nodup
  arrays : ((s.live :: s.saved).map Handle.array).Nodup

namespace Separate

theorem nodup_live (h : s.Separate) : (s.memory.addresses s.live).Nodup := by
  have := h.frames
  rw [List.flatMap_cons] at this
  exact (List.nodup_append.1 this).1

/-- What is open in the live scope is not open in a saved one. -/
theorem not_mem_saved (h : s.Separate) {a : Nat} (ha : a ∈ s.memory.addresses s.live) {k : Handle} (hk : k ∈ s.saved) :
    a ∉ s.memory.cells k := by
  have := h.frames
  rw [List.flatMap_cons] at this
  exact fun hmem => (List.nodup_append.1 this).2.2 a ha a
    (List.mem_flatMap.2 ⟨k, hk, Memory.mem_addresses.2 hmem⟩) rfl

theorem array_ne (h : s.Separate) {k : Handle} (hk : k ∈ s.saved) : k.array ≠ s.live.array := by
  have := h.arrays
  rw [List.map_cons, List.nodup_cons] at this
  exact fun heq => this.1 (heq ▸ List.mem_map_of_mem hk)

/-- Saved scopes show what they did if their frames are as they were. -/
theorem values_withLive {c : Context} {r : Memory × Handle} {t : Scope}
    (hsaved : ∀ k ∈ s.saved, r.1.scope k = s.memory.scope k) (ht : r.1.scope r.2 = t) :
    (s.withLive c r).values = ({ c with scope := t }, s.values.2) := by
  subst ht
  exact Prod.ext rfl (List.map_congr_left hsaved)

/-- An assignment in the live scope. -/
theorem put (h : s.Separate) {a : Nat} (ha : a ∈ s.memory.addresses s.live) (c : Context) {t : Scope}
    {name value : String} (ht : (s.memory.put a name value).scope s.live = t) :
    (s.withLive c (s.memory.put a name value, s.live)).Separate ∧
      (s.withLive c (s.memory.put a name value, s.live)).values = ({ c with scope := t }, s.values.2) :=
  ⟨⟨h.frames, h.arrays⟩, values_withLive (fun _ hk => Memory.scope_congr rfl fun _ hb =>
    Memory.frame_put_of_ne (ne_of_mem_of_not_mem hb (h.not_mem_saved ha hk)) _ _) ht⟩

theorem setVar (h : s.Separate) (hs : s.Sound) (c : Context) (name value : String) :
    let r := (s.memory.put (s.memory.target s.live name) name value, s.live)
    (s.withLive c r).Separate ∧
      (s.withLive c r).values = ({ c with scope := s.context.scope.setVar name value }, s.values.2) := by
  have htarget := Memory.isTarget_target hs.live name
  refine h.put htarget.mem c ?_
  rw [hs.shows]
  exact Memory.scope_put hs.live h.nodup_live htarget (hs.lt htarget.mem) value

theorem setGlobal (h : s.Separate) (hs : s.Sound) (c : Context) (name value : String) :
    let r := (s.memory.put ((s.memory.cells s.live).headD 0) name value, s.live)
    (s.withLive c r).Separate ∧
      (s.withLive c r).values = ({ c with scope := s.context.scope.setGlobal name value }, s.values.2) := by
  have hmem : (s.memory.cells s.live).headD 0 ∈ s.memory.addresses s.live := by
    obtain ⟨a, cells, hcells⟩ := List.exists_cons_of_ne_nil hs.live.cells_ne_nil
    rw [Memory.mem_addresses, hcells]
    exact List.mem_cons_self
  refine h.put hmem c ?_
  rw [hs.shows]
  exact Memory.scope_put_global hs.memory hs.live h.nodup_live name value

theorem push (h : s.Separate) (hs : s.Sound) (c : Context) (vars : Frame) :
    let r := (s.memory.alloc vars).1.push s.room s.live s.memory.frames.length
    (s.withLive c r).Separate ∧ (s.withLive c r).values = ({ c with scope := s.context.scope.push vars }, s.values.2) := by
  intro r
  let m := (s.memory.alloc vars).1
  have hlive : m.Holds s.live := hs.live
  have hframes : r.1.frames = s.memory.frames ++ [vars] := Memory.frames_push m _ _ _
  have hframe : ∀ b < s.memory.frames.length, r.1.frame b = s.memory.frame b :=
    fun b hb => Memory.frame_append hframes hb
  have haddresses : r.1.addresses r.2 = s.memory.frames.length :: s.memory.addresses s.live :=
    Memory.addresses_push hlive _ _
  have hcells : ∀ k ∈ s.saved, r.1.cells k = s.memory.cells k := fun k hk =>
    Memory.cells_push_of (m := m) (hs.saved k hk) (.inl (h.array_ne hk)) _ _
  refine ⟨⟨?_, ?_⟩, values_withLive (fun k hk => ?_) ?_⟩
  · have hsaved : s.saved.flatMap r.1.addresses = s.saved.flatMap s.memory.addresses :=
      List.flatMap_congr fun k hk => congrArg List.reverse (hcells k hk)
    change ((r.2 :: s.saved).flatMap r.1.addresses).Nodup
    rw [List.flatMap_cons, haddresses, hsaved, List.cons_append, ← List.flatMap_cons, List.nodup_cons]
    refine ⟨fun hmem => ?_, h.frames⟩
    obtain ⟨k, hk, hlt⟩ := List.mem_flatMap.1 hmem
    exact Nat.lt_irrefl _ (hs.memory.lt_of_mem (List.forall_mem_cons.2 ⟨hs.live, hs.saved⟩ k hk) hlt)
  · have harrays := h.arrays
    change (r.2.array :: s.saved.map Handle.array).Nodup
    rcases Memory.array_push m s.room s.live s.memory.frames.length with heq | heq
    · rw [show r.2.array = s.live.array from heq]
      exact harrays
    · rw [List.map_cons, List.nodup_cons] at harrays
      refine List.nodup_cons.2 ⟨fun hmem => ?_, harrays.2⟩
      obtain ⟨k, hk, hka⟩ := List.mem_map.1 hmem
      exact Nat.ne_of_lt (hs.saved k hk).lt (hka.trans heq)
  · exact Memory.scope_congr (hcells k hk) fun b hb => hframe b (hs.memory.lt_of_mem_cells (hs.saved k hk) hb)
  · have hvars : r.1.frame s.memory.frames.length = vars := by
      rw [Memory.frame, hframes, List.getElem?_append_right (Nat.le_refl _), Nat.sub_self]
      rfl
    rw [hs.shows, ← hvars]
    exact Memory.scope_cons hs.live (Memory.holds_push hlive _ _) haddresses fun b hb => hframe b (hs.lt hb)

theorem pop (h : s.Separate) (hs : s.Sound) (c : Context) :
    (s.withLive c (s.memory, s.live.pop)).Separate ∧
      (s.withLive c (s.memory, s.live.pop)).values = ({ c with scope := s.context.scope.pop }, s.values.2) := by
  refine ⟨⟨?_, ?_⟩, values_withLive (fun _ _ => rfl) ?_⟩
  · refine h.frames.sublist ?_
    change ((s.live.pop :: s.saved).flatMap s.memory.addresses).Sublist _
    rw [List.flatMap_cons, List.flatMap_cons, Memory.addresses_pop hs.live]
    split
    · exact (List.tail_sublist _).append_right _
    · exact .refl _
  · have harray : s.live.pop.array = s.live.array := by
      unfold Handle.pop
      split <;> rfl
    change (s.live.pop.array :: s.saved.map Handle.array).Nodup
    rw [harray]
    exact h.arrays
  · rw [hs.shows]
    exact Memory.scope_pop hs.live

theorem save (h : s.Separate) (hs : s.Sound) {k : Handle} (hk : s.memory.Holds k) :
    (s.save (s.memory.clone k)).Separate ∧
      (s.save (s.memory.clone k)).values = (s.context, s.values.2 ++ [s.memory.scope k]) := by
  have holds : ∀ l ∈ s.live :: s.saved, s.memory.Holds l := List.forall_mem_cons.2 ⟨hs.live, hs.saved⟩
  have hold : (s.live :: s.saved).flatMap (s.memory.clone k).1.addresses =
      (s.live :: s.saved).flatMap s.memory.addresses :=
    List.flatMap_congr fun l hl => congrArg List.reverse (Memory.cells_clone_of (holds l hl) k)
  refine ⟨⟨?_, ?_⟩, Prod.ext rfl ?_⟩
  · change ((s.live :: (s.saved ++ [(s.memory.clone k).2])).flatMap (s.memory.clone k).1.addresses).Nodup
    rw [← List.cons_append, List.flatMap_append, hold, List.flatMap_singleton, Memory.addresses, Memory.cells_clone]
    refine List.nodup_append.2 ⟨h.frames, List.nodup_reverse.2 (List.nodup_range' ..), fun a ha b hb => ?_⟩
    obtain ⟨l, hl, hal⟩ := List.mem_flatMap.1 ha
    have hlt := hs.memory.lt_of_mem (holds l hl) hal
    have hle := (List.mem_range'_1.1 (List.mem_reverse.1 hb)).1
    omega
  · change ((s.live :: (s.saved ++ [(s.memory.clone k).2])).map Handle.array).Nodup
    rw [← List.cons_append, List.map_append, List.map_singleton]
    refine List.nodup_append.2 ⟨h.arrays, List.nodup_singleton _, fun a ha b hb => ?_⟩
    obtain ⟨l, hl, rfl⟩ := List.mem_map.1 ha
    rw [List.mem_singleton.1 hb]
    exact Nat.ne_of_lt (holds l hl).lt
  · change (s.saved ++ [(s.memory.clone k).2]).map (s.memory.clone k).1.scope = _
    rw [List.map_append, List.map_singleton, Memory.scope_clone hk]
    exact congrArg (· ++ _) (List.map_congr_left fun l hl => Memory.scope_clone_of hs.memory (hs.saved l hl) k)

/-- The installed scope and the one that it replaces change places. -/
theorem restore (h : s.Separate) (i : Nat) : (s.restore i).Separate := by
  unfold Session.restore
  split
  · next k hk =>
    have hperm : (k :: s.saved.set i s.live).Perm (s.live :: s.saved) := by
      obtain ⟨hlt, rfl⟩ := List.getElem?_eq_some_iff.1 hk
      obtain ⟨before, behind, heq, -, hset⟩ : ∃ before behind, s.saved = before ++ s.saved[i] :: behind ∧
          before.length = i ∧ s.saved.set i s.live = before ++ s.live :: behind := List.exists_of_set hlt
      generalize s.saved[i] = k at heq
      rw [hset, heq]
      exact (List.perm_middle.cons k).trans ((List.Perm.swap s.live k _).trans (List.perm_middle.symm.cons s.live))
    exact ⟨(hperm.flatMap_right _).nodup_iff.2 h.frames, (hperm.map _).nodup_iff.2 h.arrays⟩
  · exact h

theorem values_restore (hs : s.Sound) (i : Nat) :
    (s.restore i).values = (Operation.restore i).onValues s.values := by
  unfold Session.restore Operation.onValues
  dsimp only [values]
  rw [List.getElem?_map]
  cases hi : s.saved[i]? with
  | none => rfl
  | some k =>
    refine Prod.ext rfl ?_
    change (s.saved.set i s.live).map s.memory.scope = _
    rw [List.map_set, ← hs.shows]
    rfl

theorem perform_fresh (s : Session) (visit : Frame.Visit) (vars : Frame) : s.perform (.push visit (.fresh vars)) =
    s.step (fun c => (c.visiting visit).pushFrame vars)
      ((s.memory.alloc vars).1.push s.room s.live s.memory.frames.length) := by
  have hvars : (s.memory.alloc vars).1.frame s.memory.frames.length = vars := by simp [Memory.alloc, Memory.frame]
  exact congrArg (fun f => s.step (fun c => (c.visiting visit).pushFrame f) _) hvars

/-- One operation changes contexts and scopes as it changes values. -/
theorem perform (h : s.Separate) (hs : s.Sound) {op : Operation} (hop : op.Careful) :
    (s.perform op).2.Separate ∧ (s.perform op).2.values = op.onValues s.values := by
  have step : ∀ (f : Context → Except Failure Context) (r : Memory × Handle),
      (∀ c, f s.context = .ok c → (s.withLive c r).Separate ∧ (s.withLive c r).values = (c, s.values.2)) →
      (s.step f r).2.Separate ∧ (s.step f r).2.values = ((f s.context).toOption.getD s.context, s.values.2) := by
    intro f r hstep
    unfold Session.step
    cases hf : f s.context with
    | ok c => exact hstep c hf
    | error e => exact ⟨h, rfl⟩
  have same : ∀ c : Context, c.scope = s.context.scope →
      (s.withLive c (s.memory, s.live)).Separate ∧ (s.withLive c (s.memory, s.live)).values = (c, s.values.2) := by
    intro c hc
    refine ⟨⟨h.frames, h.arrays⟩, ?_⟩
    rw [values_withLive (fun _ _ => rfl) hs.shows.symm, ← hc]
  cases op with
  | push visit vars =>
    cases vars with
    | held a => exact hop.elim
    | fresh vars =>
      rw [perform_fresh]
      refine step _ _ fun c hc => ?_
      cases Context.pushFrame_eq_ok hc
      exact h.push hs _ vars
  | pop =>
    refine step _ _ fun c hc => ?_
    cases hc
    exact h.pop hs _
  | setVar name value =>
    refine step _ _ fun c hc => ?_
    cases Context.setVar_eq_ok hc
    exact h.setVar hs _ name value
  | setGlobal name value =>
    refine step _ _ fun c hc => ?_
    obtain ⟨_, -, hc⟩ := except_bind_eq_ok hc
    cases hc
    exact h.setGlobal hs _ name value
  | snapshot =>
    obtain ⟨hsave, hvalues⟩ := h.save hs hs.live
    refine ⟨hsave, hvalues.trans ?_⟩
    rw [← hs.shows]
    rfl
  | copy i =>
    unfold Session.perform Operation.onValues
    dsimp only [values]
    rw [List.getElem?_map]
    cases hi : s.saved[i]? with
    | none => exact ⟨h, by simp⟩
    | some k => exact h.save hs (hs.saved k (List.mem_of_getElem? hi))
  | keep i => exact hop.elim
  | restore i => exact ⟨h.restore i, values_restore hs i⟩
  | enter el =>
    refine step _ _ fun c hc => same c ?_
    rw [Context.enter_eq_ok hc]
  | leave =>
    refine step _ _ fun c hc => same c ?_
    cases hc
    rfl
  | setOption el name value =>
    refine step _ _ fun c hc => same c ?_
    obtain ⟨o, dice, rfl⟩ := Context.setOption_eq_ok (checked_eq_ok hc)
    rfl

end Separate

/-- In a session that opens no frame and keeps no scope a second time, contexts and saved scopes are what they are as
values. -/
theorem run_values (o : Options) (chance : Chance) (room : Nat → Nat) {ops : List Operation}
    (hops : ∀ op ∈ ops, op.Careful) :
    ((Session.new o chance room).run ops).values =
      ops.foldl (fun v op => op.onValues v) (Context.new o chance, []) := by
  have run : ∀ {ops : List Operation} {s : Session}, (∀ op ∈ ops, op.Careful) → s.Sound → s.Separate →
      (s.run ops).values = ops.foldl (fun v op => op.onValues v) s.values := by
    intro ops
    induction ops with
    | nil => exact fun _ _ _ => rfl
    | cons op ops ih =>
      intro s hops hs h
      obtain ⟨hop, hops⟩ := List.forall_mem_cons.1 hops
      obtain ⟨hsep, hvalues⟩ := h.perform hs hop
      rw [List.foldl_cons, ← hvalues]
      exact ih hops (hs.perform op) hsep
  exact run hops (.new o chance room) ⟨by simp [Session.new, Memory.addresses, Memory.cells], by simp [Session.new]⟩

end Session

end DiagramMarkup
