import DiagramMarkup.Proofs.Frames
import DiagramMarkup.Proofs.Termination

/-!
# Invariants of sessions

Whatever is done in a session, and in whatever order:

1. The live scope shows what is in memory, and all scopes have frames (`Session.Sound.perform`).
2. No value and no nesting exceeds its limit, unless an operation moves the limits (`Session.InBounds.perform`).
3. Assignments behind an opened frame reach the frames around it only where it does not define the name
   (`Session.Shielded.setVar`). So closing it leaves their names as they were.

One operation keeps each of these, and so does any number of them (`Session.run_keeps`). A frame that stands in the scope
already and is opened once more is not shielded from itself, and a frame that could not be opened is not there to be
closed (`Session.push_pop_changes`).
-/

namespace DiagramMarkup

open Compile

namespace Options

/-- A change of options moves the limit on values only by its name. -/
theorem varLimit_of_set {o o' : Options} {name value : String} (h : o.set name value = .ok o')
    (hname : name ≠ "var-limit") : o'.varLimit = o.varLimit := by
  obtain ⟨hp, -⟩ := set_eq_ok_iff.1 h
  unfold assign at hp
  simp only at hp
  split at hp
  case h_10 => exact absurd rfl hname
  case h_7 | h_14 | h_16 =>
    cases hp
    rfl
  case h_17 => cases hp
  all_goals
    obtain ⟨x, -, hx⟩ := except_bind_eq_ok hp
    cases hx
    rfl

/-- Options are checked by comparing each with its bound. -/
theorem validate_eq_ok_iff {o : Options} : o.validate = .ok () ↔
    ¬ o.scale ≤ 0 ∧ ¬ o.border < 0 ∧
      (1 ≤ o.loopLimit ∧ 1 ≤ o.varLimit ∧ 1 ≤ o.depthLimit ∧ 1 ≤ o.pathRepeatLimit) ∧ ¬ o.fontSize ≤ 0 := by
  have hlimits : (o.loopLimit ≤ 0 || o.varLimit ≤ 0 || o.depthLimit ≤ 0 || o.pathRepeatLimit ≤ 0) = true ↔
      ¬ (1 ≤ o.loopLimit ∧ 1 ≤ o.varLimit ∧ 1 ≤ o.depthLimit ∧ 1 ≤ o.pathRepeatLimit) := by
    simp only [Bool.or_eq_true, decide_eq_true_eq]
    omega
  unfold validate problem?
  by_cases hscale : o.scale ≤ 0
  · simp [hscale]
  · by_cases hborder : o.border < 0
    · simp [hscale, hborder]
    · by_cases hl : 1 ≤ o.loopLimit ∧ 1 ≤ o.varLimit ∧ 1 ≤ o.depthLimit ∧ 1 ≤ o.pathRepeatLimit
      · by_cases hfont : o.fontSize ≤ 0
        · simp [hscale, hborder, hl, hlimits, hfont]
        · simp [hscale, hborder, hl, hlimits, hfont]
      · simp [hscale, hborder, hl, hlimits]

/-- The depth limit of valid options is positive. -/
theorem depthLimit_pos_of_validate {o : Options} (h : o.validate = .ok ()) : 0 < o.depthLimit := by
  obtain ⟨-, -, ⟨-, -, hdepth, -⟩, -⟩ := validate_eq_ok_iff.1 h
  exact hdepth

end Options

namespace Operation

/-- The operation does not change the limits on values and on nesting. -/
def KeepsLimits : Operation → Prop
  | .setOption _ name _ => name ≠ "var-limit" ∧ name ≠ "depth-limit"
  | _ => True

end Operation

namespace Session

/-! ## Steps -/

section Steps

variable {s t : Session} {f : Context → Except Failure Context} {r : Memory × Handle}

theorem step_eq_ok (h : s.step f r = (.ok (), t)) : ∃ c, f s.context = .ok c ∧ t = s.withLive c r := by
  unfold step at h
  split at h <;> cases h
  exact ⟨_, ‹_›, rfl⟩

theorem step_eq_error {e : Failure} (h : s.step f r = (.error e, t)) : t = s := by
  unfold step at h
  split at h <;> cases h
  rfl

/-- What holds of a session and of what a step makes of it when it succeeds. -/
theorem step_induction {P : Session → Prop} (hs : P s) (h : ∀ c, f s.context = .ok c → P (s.withLive c r)) :
    P (s.step f r).2 := by
  unfold step
  split
  · exact h _ ‹_›
  · exact hs

theorem perform_push (s : Session) (visit : Frame.Visit) (vars : Passed) : s.perform (.push visit vars) =
    s.step (fun c => (c.visiting visit).pushFrame ((s.memory.pass vars).1.frame (s.memory.pass vars).2))
      ((s.memory.pass vars).1.push s.room s.live (s.memory.pass vars).2) := rfl

/-- What fails changes nothing. -/
theorem perform_eq_error {op : Operation} {e : Failure} (h : s.perform op = (.error e, t)) : t = s := by
  unfold perform at h
  cases op with
  | push | pop | setVar | setGlobal | enter | leave | setOption => exact step_eq_error h
  | snapshot | keep | restore => cases h
  | copy =>
    dsimp only at h
    split at h <;> cases h

/-- What one operation keeps, any number of them keeps. -/
theorem run_induction {P : Session → Prop} {ops : List Operation} (hs : P s)
    (h : ∀ op ∈ ops, ∀ t, P t → P (t.perform op).2) : P (s.run ops) := by
  induction ops generalizing s with
  | nil => exact hs
  | cons op ops ih =>
    obtain ⟨hop, hops⟩ := List.forall_mem_cons.1 h
    exact ih (hop s hs) hops

end Steps

/-! ## What shows -/

/-- The live scope shows in the context, and every scope is held in memory. -/
structure Sound (s : Session) : Prop where
  shows : s.context.scope = s.memory.scope s.live
  memory : s.memory.Sound
  live : s.memory.Holds s.live
  saved : ∀ h ∈ s.saved, s.memory.Holds h

namespace Sound

variable {s : Session}

theorem new (o : Options) (chance : Chance) (room : Nat → Nat) : (Session.new o chance room).Sound where
  shows := rfl
  memory := by simp [Session.new, Memory.Sound]
  live := ⟨Nat.le_refl 1, [0], rfl, Nat.le_refl 1⟩
  saved := fun _ h => nomatch h

theorem withLive (c : Context) {r : Memory × Handle} (hm : r.1.Sound) (hl : r.1.Holds r.2)
    (hs : ∀ h ∈ s.saved, r.1.Holds h) : (s.withLive c r).Sound := ⟨rfl, hm, hl, hs⟩

theorem save (hs : s.Sound) {h : Handle} (hh : s.memory.Holds h) : (s.save (s.memory.clone h)).Sound where
  shows := hs.shows.trans (Memory.scope_clone_of hs.memory hs.live h).symm
  memory := Memory.sound_clone hs.memory h
  live := Memory.holds_clone_of hs.live h
  saved := List.forall_mem_append.2 ⟨fun k hk => Memory.holds_clone_of (hs.saved k hk) h,
    List.forall_mem_singleton.2 (Memory.holds_clone hh)⟩

theorem put (hs : s.Sound) (c : Context) (a : Nat) (name value : String) :
    (s.withLive c (s.memory.put a name value, s.live)).Sound :=
  withLive c (Memory.sound_put hs.memory) hs.live hs.saved

theorem restore (hs : s.Sound) (i : Nat) : (s.restore i).Sound := by
  unfold Session.restore
  split
  · next h hi =>
    refine ⟨rfl, hs.memory, hs.saved h (List.mem_of_getElem? hi), fun k hk => ?_⟩
    rcases List.mem_or_eq_of_mem_set hk with hk | rfl
    · exact hs.saved k hk
    · exact hs.live
  · exact hs

theorem perform (hs : s.Sound) (op : Operation) : (s.perform op).2.Sound := by
  cases op with
  | push visit vars =>
    obtain ⟨new, hframes, hlt, -⟩ := s.memory.frames_pass vars
    have harrays := s.memory.arrays_pass vars
    have holds : ∀ h, s.memory.Holds h → (s.memory.pass vars).1.Holds h := by
      intro h hh
      rwa [Memory.Holds, harrays]
    have sound : (s.memory.pass vars).1.Sound := by
      intro array harray a ha
      rw [harrays] at harray
      rw [hframes, List.length_append]
      exact Nat.lt_add_right _ (hs.memory array harray a ha)
    have hlive := holds _ hs.live
    exact step_induction hs fun c _ => withLive c (Memory.sound_push sound hlive hlt) (Memory.holds_push hlive _ _)
      fun k hk => Memory.holds_push_of (holds k (hs.saved k hk)) _ _ _
  | pop => exact step_induction hs fun c _ => withLive c hs.memory (Memory.holds_pop hs.live) hs.saved
  | setVar name value => exact step_induction hs fun c _ => hs.put c _ name value
  | setGlobal name value => exact step_induction hs fun c _ => hs.put c _ name value
  | snapshot => exact hs.save hs.live
  | copy i =>
    unfold Session.perform
    dsimp only
    split
    · next h hi => exact hs.save (hs.saved h (List.mem_of_getElem? hi))
    · exact hs
  | keep i =>
    refine ⟨hs.shows, hs.memory, hs.live, List.forall_mem_append.2 ⟨hs.saved, fun k hk => ?_⟩⟩
    exact hs.saved k (List.mem_of_getElem? (Option.mem_toList.1 hk))
  | restore i => exact hs.restore i
  | enter | leave | setOption => exact step_induction hs fun c _ => withLive c hs.memory hs.live hs.saved

/-- The open frames are in memory. -/
theorem lt (hs : s.Sound) {a : Nat} (ha : a ∈ s.memory.addresses s.live) : a < s.memory.frames.length :=
  hs.memory.lt_of_mem hs.live ha

theorem frames (hs : s.Sound) : s.context.scope.frames = (s.memory.addresses s.live).map s.memory.frame := by
  rw [hs.shows, Memory.frames_scope hs.live]

theorem lt_target (hs : s.Sound) (name : String) : s.memory.target s.live name < s.memory.frames.length :=
  hs.lt (Memory.isTarget_target hs.live name).mem

end Sound

/-! ## Limits -/

/-- The limits are those of the options, and the session is within them. -/
structure InBounds (o : Options) (s : Session) : Prop where
  varLimit : s.context.options.varLimit = o.varLimit
  depthLimit : s.context.options.depthLimit = o.depthLimit
  depth : (s.context.depth : Int) ≤ o.depthLimit
  values : ∀ f ∈ s.memory.frames, f.Bounded o.varLimit

namespace InBounds

variable {o : Options} {s : Session}

theorem new (h : o.validate = .ok ()) (chance : Chance) (room : Nat → Nat) : (Session.new o chance room).InBounds o where
  varLimit := rfl
  depthLimit := rfl
  depth := Int.le_of_lt (Options.depthLimit_pos_of_validate h)
  values := fun f hf p hp => by
    rw [List.mem_singleton.1 (hf : f ∈ [([] : Frame)])] at hp
    cases hp

/-- An assignment in any frame. -/
theorem put (h : s.InBounds o) {c : Context} {scope : Scope} {name value : String} (a : Nat)
    (hv : s.context.checkVar name value = .ok ()) (hc : c = { s.context with scope := scope }) :
    (s.withLive c (s.memory.put a name value, s.live)).InBounds o := by
  subst hc
  exact ⟨h.varLimit, h.depthLimit, h.depth, Memory.bounded_put h.values (h.varLimit ▸ Context.checkVar_eq_ok_iff.1 hv)⟩

/-- A copy has the values of what is copied. -/
theorem save (h : s.InBounds o) (hs : s.Sound) {k : Handle} (hk : s.memory.Holds k) :
    (s.save (s.memory.clone k)).InBounds o := by
  refine ⟨h.varLimit, h.depthLimit, h.depth, List.forall_mem_append.2 ⟨h.values, fun f hf => ?_⟩⟩
  obtain ⟨a, ha, rfl⟩ := List.mem_map.1 hf
  exact h.values _ (Memory.frame_mem (hs.memory.lt_of_mem_cells hk ha))

/-- One operation keeps the bounds. -/
theorem perform (hs : s.Sound) {op : Operation} (h : s.InBounds o) (hop : op.KeepsLimits) : (s.perform op).2.InBounds o := by
  cases op with
  | push visit vars =>
    rw [perform_push]
    refine step_induction h fun d hd => ?_
    obtain ⟨hbound, rfl⟩ := Context.pushFrame_eq_ok_iff.1 hd
    obtain ⟨new, hframes, -, hnew⟩ := s.memory.frames_pass vars
    refine ⟨h.varLimit, h.depthLimit, h.depth, fun f hf => ?_⟩
    change f ∈ (Memory.push (s.memory.pass vars).1 _ _ _).1.frames at hf
    rw [Memory.frames_push, hframes] at hf
    rcases List.mem_append.1 hf with hf | hf
    · exact h.values f hf
    · rw [hnew f hf]
      exact fun p hp => h.varLimit ▸ hbound p hp
  | pop =>
    refine step_induction h fun d hd => ?_
    cases hd
    exact ⟨h.varLimit, h.depthLimit, h.depth, h.values⟩
  | setVar name value =>
    refine step_induction h fun d hd => ?_
    obtain ⟨_, hvalue, hd⟩ := except_bind_eq_ok hd
    cases hd
    exact h.put _ hvalue rfl
  | setGlobal name value =>
    refine step_induction h fun d hd => ?_
    obtain ⟨_, hvalue, hd⟩ := except_bind_eq_ok hd
    cases hd
    exact h.put _ hvalue rfl
  | snapshot => exact h.save hs hs.live
  | copy i =>
    unfold Session.perform
    dsimp only
    split
    · next k hk => exact h.save hs (hs.saved k (List.mem_of_getElem? hk))
    · exact h
  | keep i => exact ⟨h.varLimit, h.depthLimit, h.depth, h.values⟩
  | restore i =>
    change (s.restore i).InBounds o
    unfold Session.restore
    split <;> exact ⟨h.varLimit, h.depthLimit, h.depth, h.values⟩
  | enter el =>
    refine step_induction h fun d hd => ?_
    have hlt := Context.depth_lt_of_enter hd
    cases Context.enter_eq_ok hd
    rw [h.depthLimit] at hlt
    exact ⟨h.varLimit, h.depthLimit, Int.add_one_le_of_lt hlt, h.values⟩
  | leave =>
    refine step_induction h fun d hd => ?_
    cases hd
    have hle : s.context.leave.depth ≤ s.context.depth := Nat.sub_le _ _
    exact ⟨h.varLimit, h.depthLimit, Int.le_trans (by exact_mod_cast hle) h.depth, h.values⟩
  | setOption el name value =>
    refine step_induction h fun d hd => ?_
    obtain ⟨e, he, hd⟩ := except_bind_eq_ok (checked_eq_ok hd)
    cases hd
    refine ⟨(Options.varLimit_of_set he hop.1).trans h.varLimit, ?_, h.depth, h.values⟩
    rcases (Options.limits_of_set he).1 with heq | ⟨hname, -⟩
    · exact heq.trans h.depthLimit
    · exact absurd hname hop.2

end InBounds

end Session

/-! ## Frames that are opened and closed -/

namespace Frame

variable {A : String → String → Prop} {f g : Frame} {name value : String}

/-- The second frame has the names of the first, and differs at most in values that were assigned. -/
def Reassigned (A : String → String → Prop) (f g : Frame) : Prop :=
  g.names = f.names ∧ ∀ n, g.lookup n = f.lookup n ∨ ∃ v, A n v ∧ g.lookup n = some v

theorem Reassigned.refl (f : Frame) : Reassigned A f f := ⟨rfl, fun _ => .inl rfl⟩

theorem Reassigned.put (h : Reassigned A f g) (hg : g.defines name) (ha : A name value) :
    Reassigned A f (g.put name value) := by
  refine ⟨(names_put_of_defines value hg).trans h.1, fun n => ?_⟩
  by_cases hn : n = name
  · subst hn
    exact .inr ⟨value, ha, lookup_put_self g n value⟩
  · rw [lookup_put_of_ne hn]
    exact h.2 n

end Frame

namespace Session

variable {o : Options} {s t : Session} {vars : Frame} {A : String → String → Prop} {a : Nat}

/-- In front of the frames of a session stands one that defines the variables. The others are as they were, but for values
that were assigned. -/
structure Shielded (s : Session) (a : Nat) (vars : Frame) (A : String → String → Prop) (t : Session) : Prop where
  sound : t.Sound
  addresses : t.memory.addresses t.live = a :: s.memory.addresses s.live
  defines : ∀ n, vars.defines n → (t.memory.frame a).defines n
  around : ∀ b ∈ s.memory.addresses s.live, b ≠ a → Frame.Reassigned A (s.memory.frame b) (t.memory.frame b)

namespace Shielded

theorem push (hs : s.Sound) {visit : Frame.Visit} {vars : Passed} (ht : s.perform (.push visit vars) = (.ok (), t)) :
    s.Shielded (s.memory.pass vars).2 ((s.memory.pass vars).1.frame (s.memory.pass vars).2) A t := by
  have sound : t.Sound := by
    have := hs.perform (.push visit vars)
    rwa [ht] at this
  obtain ⟨new, hframes, -, -⟩ := s.memory.frames_pass vars
  rw [perform_push] at ht
  obtain ⟨c, -, rfl⟩ := step_eq_ok ht
  have hlive : (s.memory.pass vars).1.Holds s.live := by
    rw [Memory.Holds, s.memory.arrays_pass]
    exact hs.live
  have frame : ∀ b, ((s.memory.pass vars).1.push s.room s.live (s.memory.pass vars).2).1.frame b =
      (s.memory.pass vars).1.frame b := by
    intro b
    rw [Memory.frame, Memory.frames_push, Memory.frame]
  have old : (s.memory.pass vars).1.addresses s.live = s.memory.addresses s.live := by
    rw [Memory.addresses, Memory.cells, s.memory.arrays_pass]
    rfl
  refine ⟨sound, (Memory.addresses_push hlive _ _).trans (by rw [old]), fun n hn => ?_, fun b hb _ => ?_⟩
  · exact (frame _).symm ▸ hn
  · have hb' : (s.withLive c _).memory.frame b = s.memory.frame b :=
      (frame b).trans (Memory.frame_append hframes (hs.lt hb))
    rw [hb']
    exact .refl _

/-- An assignment goes past the frame only if the frame does not define the name. -/
theorem setVar (ht : s.Shielded a vars A t) {name value : String} (hA : ¬ vars.defines name → A name value) :
    s.Shielded a vars A (t.perform (.setVar name value)).2 := by
  have sound := ht.sound.perform (.setVar name value)
  have htarget := Memory.isTarget_target ht.sound.live name
  have hlt := ht.sound.lt_target name
  rw [ht.addresses] at htarget
  revert sound
  refine step_induction (P := fun u => u.Sound → s.Shielded a vars A u) (fun _ => ht) fun c _ sound => ?_
  refine ⟨sound, ht.addresses, fun n hn => ?_, fun b hb hne => ?_⟩
  · by_cases ha : a = t.memory.target t.live name
    · rw [← ha] at hlt
      change ((t.memory.put _ name value).frame a).defines n
      rw [← ha, Memory.frame_put_self hlt]
      exact Frame.defines_put (ht.defines n hn)
    · change ((t.memory.put _ name value).frame a).defines n
      rw [Memory.frame_put_of_ne ha]
      exact ht.defines n hn
  · change Frame.Reassigned A _ ((t.memory.put _ name value).frame b)
    by_cases hb' : b = t.memory.target t.live name
    · rw [← hb'] at htarget hlt ⊢
      rw [Memory.frame_put_self hlt]
      rcases htarget with ⟨inner, outer, heq, hinner, hdef⟩ | ⟨hhead, -⟩
      · cases inner with
        | nil => exact absurd (List.cons.inj heq).1.symm hne
        | cons a' inner =>
          obtain ⟨rfl, -⟩ := List.cons.inj heq
          have hundefined := hinner a List.mem_cons_self
          exact (ht.around b hb hne).put hdef (hA fun hvars => hundefined (ht.defines name hvars))
      · exact absurd (Option.some.inj hhead).symm hne
    · rw [Memory.frame_put_of_ne hb']
      exact ht.around b hb hne

/-- Any number of assignments. -/
theorem setVars (ht : s.Shielded a vars A t) {ps : List (String × String)}
    (hA : ∀ p ∈ ps, ¬ vars.defines p.1 → A p.1 p.2) :
    s.Shielded a vars A (t.run (ps.map fun p => .setVar p.1 p.2)) := by
  refine run_induction ht fun op hop u hu => ?_
  obtain ⟨p, hp, rfl⟩ := List.mem_map.1 hop
  exact hu.setVar (hA p hp)

theorem pop (hs : s.Sound) (ht : s.Shielded a vars A t) :
    (t.perform .pop).2.memory.addresses (t.perform .pop).2.live = s.memory.addresses s.live ∧
      (t.perform .pop).2.memory = t.memory := by
  have hlen : 1 < t.live.height := by
    have hlength := congrArg List.length ht.addresses
    rw [Memory.addresses, List.length_reverse, ht.sound.live.length_cells] at hlength
    rw [hlength, List.length_cons]
    exact Nat.succ_lt_succ (List.length_pos_iff.2 hs.live.addresses_ne_nil)
  refine ⟨?_, rfl⟩
  change t.memory.addresses t.live.pop = _
  rw [Memory.addresses_pop ht.sound.live, if_pos hlen, ht.addresses, List.tail_cons]

end Shielded

/-- Assignments behind a frame that is opened and closed again reach the frames around it only where it does not define
the name, and give them no names. -/
theorem reassigned_run (hs : s.Sound) {visit : Frame.Visit} {vars : Passed}
    (ht : s.perform (.push visit vars) = (.ok (), t)) (ps : List (String × String)) :
    let a := (s.memory.pass vars).2
    let u := t.run (ps.map (fun p => .setVar p.1 p.2) ++ [.pop])
    u.memory.addresses u.live = s.memory.addresses s.live ∧
      ∀ b ∈ s.memory.addresses s.live, b ≠ a →
        (s.memory.frame b).Reassigned (fun n v => ¬ ((s.memory.pass vars).1.frame a).defines n ∧ (n, v) ∈ ps)
          (u.memory.frame b) := by
  intro a u
  have hshield := (Shielded.push hs ht).setVars (A := fun n v =>
    ¬ ((s.memory.pass vars).1.frame a).defines n ∧ (n, v) ∈ ps) fun p hp hvars => ⟨hvars, hp⟩
  have hu : u = ((t.run (ps.map fun p => .setVar p.1 p.2)).perform .pop).2 := List.foldl_append
  obtain ⟨haddresses, hmemory⟩ := hshield.pop hs
  rw [hu, haddresses, hmemory]
  exact ⟨rfl, hshield.around⟩

/-! ## Assignments -/

theorem Sound.var? (hs : s.Sound) (n : String) :
    s.context.scope.var? n = Scope.find? ((s.memory.addresses s.live).map s.memory.frame) n := by
  rw [← hs.frames]
  rfl

/-- An assignment changes one value in one frame. -/
theorem perform_setVar_eq_ok (hs : s.Sound) {name value : String} (h : s.perform (.setVar name value) = (.ok (), t)) :
    t.context.scope.var? name = some value ∧ (∀ n ≠ name, t.context.scope.var? n = s.context.scope.var? n) ∧
      t.memory.addresses t.live = s.memory.addresses s.live ∧
      ∃ a, s.memory.IsTarget (s.memory.addresses s.live) name a ∧
        t.memory.frame a = (s.memory.frame a).put name value ∧ ∀ b ≠ a, t.memory.frame b = s.memory.frame b := by
  have htarget := Memory.isTarget_target hs.live name
  have hlt := hs.lt_target name
  have ht : t.Sound := by
    have := hs.perform (.setVar name value)
    rwa [h] at this
  unfold perform at h
  obtain ⟨c, -, rfl⟩ := step_eq_ok h
  refine ⟨?_, fun n hn => ?_, rfl, _, htarget, Memory.frame_put_self hlt name value,
    fun b hb => Memory.frame_put_of_ne hb name value⟩
  · rw [ht.var?]
    exact Memory.find?_put_self htarget hlt value
  · rw [ht.var?, hs.var?]
    exact Memory.find?_put_of_ne hn value _

/-! ## The frame of the document -/

/-- No frame in memory loses a name. -/
theorem names_prefix_perform (s : Session) (op : Operation) (ha : a < s.memory.frames.length) :
    (s.memory.frame a).names <+: ((s.perform op).2.memory.frame a).names := by
  let P : Session → Prop := fun u => (s.memory.frame a).names <+: (u.memory.frame a).names
  have same : ∀ u : Session, u.memory.frame a = s.memory.frame a → P u := fun u h => by simp only [P, h, List.prefix_rfl]
  have kept : P s := same s rfl
  change P _
  cases op with
  | push visit vars =>
    obtain ⟨new, hframes, -, -⟩ := s.memory.frames_pass vars
    rw [perform_push]
    refine step_induction kept fun c _ => same _ ?_
    change (Memory.push (s.memory.pass vars).1 _ _ _).1.frame a = _
    rw [Memory.frame, Memory.frames_push]
    exact Memory.frame_append hframes ha
  | setVar name value => exact step_induction (P := P) kept fun c _ => Memory.names_prefix_put _ a
  | setGlobal name value => exact step_induction (P := P) kept fun c _ => Memory.names_prefix_put _ a
  | snapshot => exact same _ (Memory.frame_append rfl ha)
  | copy i =>
    unfold perform
    dsimp only
    split
    · exact same _ (Memory.frame_append rfl ha)
    · exact kept
  | restore i =>
    change P (s.restore i)
    unfold restore
    split <;> exact kept
  | keep i => exact kept
  | pop | enter | leave | setOption => exact step_induction (P := P) kept fun c _ => kept

/-- Only installing a scope exchanges the frame of the document. -/
theorem head?_perform (hs : s.Sound) {op : Operation} (hop : ∀ i, op ≠ .restore i) :
    ((s.perform op).2.memory.cells (s.perform op).2.live).head? = (s.memory.cells s.live).head? := by
  let P : Session → Prop := fun u => (u.memory.cells u.live).head? = (s.memory.cells s.live).head?
  change P _
  cases op with
  | push visit vars =>
    have hcells : (s.memory.pass vars).1.cells s.live = s.memory.cells s.live := by
      rw [Memory.cells, s.memory.arrays_pass]
      rfl
    have hlive : (s.memory.pass vars).1.Holds s.live := by
      rw [Memory.Holds, s.memory.arrays_pass]
      exact hs.live
    rw [perform_push]
    refine step_induction (P := P) rfl fun c _ => ?_
    change ((Memory.push (s.memory.pass vars).1 _ _ _).1.cells (Memory.push (s.memory.pass vars).1 _ _ _).2).head? = _
    rw [Memory.cells_push hlive, hcells, List.head?_append_of_ne_nil _ hs.live.cells_ne_nil]
  | pop =>
    refine step_induction (P := P) rfl fun c _ => ?_
    change (s.memory.cells s.live.pop).head? = _
    rw [Memory.cells_pop hs.live]
    split
    · next h => rw [List.head?_dropLast, hs.live.length_cells, if_pos h]
    · rfl
  | snapshot => exact congrArg List.head? (Memory.cells_clone_of hs.live _)
  | copy i =>
    unfold perform
    dsimp only
    split
    · exact congrArg List.head? (Memory.cells_clone_of hs.live _)
    · rfl
  | keep i => rfl
  | restore i => exact absurd rfl (hop i)
  | setVar | setGlobal | enter | leave | setOption => exact step_induction (P := P) rfl fun c _ => rfl

/-! ## Any number of operations -/

/-- In a session from valid options there is always a frame of the document, and the limits on values and on nesting
hold as long as they are not moved. What fails changes nothing. An assignment changes the value of its name and no
other, in the innermost frame that defines it or else in the innermost. A frame that is opened and closed shields the
names that it defines from the assignments in between, and the frames around it get no names, unless one of them is that
frame. -/
theorem run_keeps (ho : o.validate = .ok ()) (chance : Chance) (room : Nat → Nat) {ops : List Operation}
    (hops : ∀ op ∈ ops, op.KeepsLimits) :
    let s := (Session.new o chance room).run ops
    let scope := s.context.scope
    scope.frames = (s.memory.addresses s.live).map s.memory.frame ∧
    (∃ a, (s.memory.addresses s.live).getLast? = some a ∧ ∀ op, (∀ i, op ≠ .restore i) →
      let t := (s.perform op).2
      (t.memory.addresses t.live).getLast? = some a ∧ (s.memory.frame a).names <+: (t.memory.frame a).names) ∧
    (∀ f ∈ scope.frames ++ s.memory.frames, ∀ p ∈ f, (Context.byteSize p.2 : Int) ≤ s.context.options.varLimit) ∧
    (0 ≤ s.context.depth ∧ (s.context.depth : Int) ≤ s.context.options.depthLimit) ∧
    (∀ op e t, s.perform op = (.error e, t) → t = s) ∧
    (∀ name value t, s.perform (.setVar name value) = (.ok (), t) →
      t.context.scope.var? name = some value ∧ (∀ n ≠ name, t.context.scope.var? n = scope.var? n) ∧
      t.memory.addresses t.live = s.memory.addresses s.live ∧
      ∃ a, s.memory.IsTarget (s.memory.addresses s.live) name a ∧
        t.memory.frame a = (s.memory.frame a).put name value ∧ ∀ b ≠ a, t.memory.frame b = s.memory.frame b) ∧
    ∀ visit vars t, s.perform (.push visit vars) = (.ok (), t) → ∀ ps : List (String × String),
      let a := (s.memory.pass vars).2
      let u := t.run (ps.map (fun p => .setVar p.1 p.2) ++ [.pop])
      u.memory.addresses u.live = s.memory.addresses s.live ∧
        ∀ b ∈ s.memory.addresses s.live, b ≠ a →
          (s.memory.frame b).Reassigned (fun n v => ¬ ((s.memory.pass vars).1.frame a).defines n ∧ (n, v) ∈ ps)
            (u.memory.frame b) := by
  intro s scope
  obtain ⟨hs, hbounds⟩ : s.Sound ∧ s.InBounds o :=
    run_induction (P := fun t => t.Sound ∧ t.InBounds o) ⟨.new o chance room, .new ho chance room⟩ fun op hop t ht =>
      ⟨ht.1.perform op, ht.2.perform ht.1 (hops op hop)⟩
  refine ⟨hs.frames, ?_, fun f hf => ?_, ⟨Nat.zero_le _, ?_⟩, fun op e t h => perform_eq_error h,
    fun name value t h => ?_, fun visit vars t h ps => reassigned_run hs h ps⟩
  · have last : ∀ t : Session, (t.memory.addresses t.live).getLast? = (t.memory.cells t.live).head? :=
      fun t => List.getLast?_reverse
    obtain ⟨a, cells, hcells⟩ := List.exists_cons_of_ne_nil hs.live.cells_ne_nil
    have ha : a < s.memory.frames.length := hs.memory.lt_of_mem_cells hs.live (hcells ▸ List.mem_cons_self)
    refine ⟨a, by rw [last, hcells, List.head?_cons], fun op hop => ⟨?_, s.names_prefix_perform op ha⟩⟩
    rw [last, head?_perform hs hop, hcells, List.head?_cons]
  · rw [hbounds.varLimit]
    rcases List.mem_append.1 hf with hf | hf
    · rw [show scope.frames = _ from hs.frames] at hf
      obtain ⟨a, ha, rfl⟩ := List.mem_map.1 hf
      exact hbounds.values _ (Memory.frame_mem (hs.lt ha))
    · exact hbounds.values f hf
  · rw [hbounds.depthLimit]
    exact hbounds.depth
  · exact perform_setVar_eq_ok hs h

/-- Nine bytes are too many for a limit of eight, more frames are closed than opened, and one saved scope is installed
twice. -/
theorem run_keeps_eightBytes :
    let ops : List Operation :=
      [.setVar "a" "1", .snapshot, .keep 0, .push .written (.fresh [("b", "2")]), .setVar "a" "123456789",
        .setVar "b" "12345678", .enter none, .restore 0, .setVar "a" "2", .pop, .leave, .leave,
        .setOption { name := "config" } "seed" "7", .restore 1, .push .written (.held 2)]
    let s := (Session.new { varLimit := 8 } {} id).run ops
    ({ varLimit := 8 } : Options).validate = .ok () ∧ (∀ op ∈ ops, op.KeepsLimits) ∧
      s.context.scope.frames = [[("b", "12345678")], [("a", "2")]] ∧
      (∀ f ∈ s.context.scope.frames ++ s.memory.frames, ∀ p ∈ f,
        (Context.byteSize p.2 : Int) ≤ s.context.options.varLimit) ∧
      (s.context.depth : Int) ≤ s.context.options.depthLimit := by
  intro ops
  have ho : ({ varLimit := 8 } : Options).validate = .ok () := rfl
  have hops : ∀ op ∈ ops, op.KeepsLimits := by simp [ops, Operation.KeepsLimits]
  have hkeeps := run_keeps ho {} id hops
  exact ⟨ho, hops, by decide +kernel, hkeeps.2.2.1, hkeeps.2.2.2.1.2⟩

/-- A frame that is open and opened once more gets names from the assignments in between. A frame that is not opened,
since a value of it is too long, is not there to be closed, and the one around it is closed instead. -/
theorem push_pop_changes :
    let s := (Session.new { varLimit := 3 }).run [.push .written (.fresh [("a", "1")])]
    let twice := s.run [.push .written (.held 1), .setVar "c" "2", .pop]
    let refused := s.run [.push .written (.fresh [("b", "12345")]), .pop]
    s.context.scope.frames.map Frame.names = [["a"], []] ∧
      twice.context.scope.frames.map Frame.names = [["a", "c"], []] ∧
      refused.context.scope.frames.map Frame.names = [[]] := by
  decide +kernel

end Session

end DiagramMarkup
