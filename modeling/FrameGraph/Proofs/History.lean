/-
Histories: what an arena can be told from.

Four things happen to an arena: a frame is allocated, a frame is copied, and a frame is attached to another one, in a slot or
as a child. A `History` lists them, the latest first, and says by itself what every frame is like: its label and children
are those it was allocated with, with every frame pushed onto it since, and a slot holds what was stored there last. A copy
starts with what its original was like at that time and shares nothing that happens later.

`past.Tells a` says that the arena `a` is what the history tells, no more and no less.

Results:
- `Tells.alloc`, `Tells.copy`, `Tells.store`, `Tells.push`: each event of its own keeps the two in step.
- `Tells.link`, `Tells.linkAll`: links are the events that they stand for, up to the first that stops.
- `label?_append`, `children_append`: what happens later changes no label and takes no child away.
-/
import FrameGraph.Arena.Link
import FrameGraph.Proofs.Arena

namespace FrameGraph

/-- what can happen to an arena: a frame, or the copy of one, is allocated under the handle `new`, or a frame is attached to
another one -/
inductive Event where
  | alloc (new : Handle) (l : Label)
  | copy (new original : Handle)
  | attach (target : Handle) (way : Way) (that : Handle)
  deriving DecidableEq, Repr

/-- events, the latest first -/
abbrev History := List Event

namespace History

/-! ## What a history tells -/

/-- the handles of all allocations, in their order -/
def allocated : History → List Handle
  | [] => []
  | .alloc new _ :: past | .copy new _ :: past => allocated past ++ [new]
  | .attach _ _ _ :: past => allocated past

/-- kind and value of a frame: those it was allocated with -/
def label? : History → Handle → Option Label
  | [], _ => none
  | .alloc new l :: past, h => if h = new then some l else label? past h
  | .copy new original :: past, h => if h = new then label? past original else label? past h
  | .attach _ _ _ :: past, h => label? past h

/-- children of a frame: those it was allocated with, and behind them what was pushed onto it -/
def children : History → Handle → List Handle
  | [], _ => []
  | .alloc new _ :: past, h => if h = new then [] else children past h
  | .copy new original :: past, h => if h = new then children past original else children past h
  | .attach target way that :: past, h =>
    if h = target ∧ way = .child then children past h ++ [that] else children past h

/-- the key of the slot that a frame is attached in, none for a child -/
def key? (past : History) (that : Handle) : Way → Option String
  | .slot key => some key
  | .byTag => (past.label? that).map (·.kind.tag)
  | .byValue => (past.label? that).map (·.value.raw)
  | .child => none

/-- what a slot of a frame holds: what was stored there last, be it in the frame or in the original it is a copy of -/
def slot? : History → Handle → String → Option Handle
  | [], _, _ => none
  | .alloc new _ :: past, h, key => if h = new then none else slot? past h key
  | .copy new original :: past, h, key => if h = new then slot? past original key else slot? past h key
  | .attach target way that :: past, h, key =>
    if h = target ∧ key? past that way = some key then some that else slot? past h key

/-- the arena is what the history tells -/
structure Tells (past : History) (a : Arena) : Prop where
  allocated_eq : past.allocated = (List.range a.size).map Handle.mk
  label_eq : ∀ h, past.label? h = (a.frame? h).map Frame.label
  children_eq : ∀ {h f}, a.frame? h = some f → past.children h = f.children.toList
  slot_eq : ∀ {h f}, a.frame? h = some f → ∀ key, past.slot? h key = f.slots.get? key

/-! ## Single events -/

variable {past : History} {a : Arena}

theorem tells_empty : Tells [] .empty where
  allocated_eq := rfl
  label_eq _ := rfl
  children_eq hf := by simp [Arena.frame?, Arena.empty] at hf
  slot_eq hf := by simp [Arena.frame?, Arena.empty] at hf

theorem frame?_push_next (a : Arena) (f : Frame) : Arena.frame? ⟨a.frames.push f⟩ a.next = some f := by
  simp [Arena.frame?, Arena.next, Arena.size]

theorem frame?_push_of_ne (a : Arena) (f : Frame) {h : Handle} (hne : h ≠ a.next) :
    Arena.frame? ⟨a.frames.push f⟩ h = a.frame? h := by
  have hi : h.index ≠ a.frames.size := fun heq => hne (by cases h; simp_all [Arena.next, Arena.size])
  simp [Arena.frame?, Array.getElem?_push, hi]

/-- a frame that is put behind the others is told by any event that tells this frame and no other -/
theorem Tells.put (h : past.Tells a) (f : Frame) {e : Event} (hnew : allocated (e :: past) = allocated past ++ [a.next])
    (hlabel : ∀ k, label? (e :: past) k = if k = a.next then some f.label else label? past k)
    (hchildren : ∀ k, children (e :: past) k = if k = a.next then f.children.toList else children past k)
    (hslot : ∀ k key, slot? (e :: past) k key = if k = a.next then f.slots.get? key else slot? past k key) :
    Tells (e :: past) ⟨a.frames.push f⟩ where
  allocated_eq := by
    have hsize : Arena.size ⟨a.frames.push f⟩ = a.size + 1 := by simp [Arena.size]
    rw [hnew, h.allocated_eq, hsize, List.range_succ, List.map_append]
    rfl
  label_eq k := by
    rw [hlabel]
    split_ifs with hk
    · rw [hk, frame?_push_next]
      rfl
    · rw [frame?_push_of_ne a f hk, h.label_eq]
  children_eq {k g} hg := by
    rw [hchildren]
    split_ifs with hk
    · rw [hk, frame?_push_next] at hg
      rw [Option.some.inj hg]
    · exact h.children_eq (frame?_push_of_ne a f hk ▸ hg)
  slot_eq {k g} hg key := by
    rw [hslot]
    split_ifs with hk
    · rw [hk, frame?_push_next] at hg
      rw [Option.some.inj hg]
    · exact h.slot_eq (frame?_push_of_ne a f hk ▸ hg) key

theorem Tells.alloc (h : past.Tells a) (l : Label) : Tells (.alloc a.next l :: past) (a.alloc l) :=
  h.put (.ofLabel l a.next) rfl (fun _ => rfl) (fun _ => rfl) fun _ _ => rfl

/-- what copying a frame tells -/
def copyEvents (a : Arena) (original : Handle) : History :=
  if a.contains original then [.copy a.next original] else []

theorem Tells.copy (h : past.Tells a) (original : Handle) :
    Tells (copyEvents a original ++ past) (a.copy original).arena := by
  unfold copyEvents
  rw [Arena.contains_eq_isSome]
  cases hf : a.frame? original with
  | none => simpa [Arena.copy, hf] using h
  | some f =>
    simp only [Arena.copy, hf, Option.isSome_some, if_true, List.singleton_append]
    refine h.put f rfl (fun k => ?_) (fun k => ?_) fun k key => ?_
    · simp only [label?, h.label_eq original, hf, Option.map_some]
    · simp only [children, h.children_eq hf]
    · simp only [slot?, h.slot_eq hf]

/-- a change of a frame that keeps its label is told by any event that tells this change and no other -/
theorem Tells.change (h : past.Tells a) {target : Handle} {change : Frame → Frame} {e : Event}
    (hnew : allocated (e :: past) = allocated past) (hlabel : ∀ k, label? (e :: past) k = label? past k)
    (hkeep : ∀ f, (change f).label = f.label)
    (hchildren : ∀ k f, a.frame? k = some f →
      children (e :: past) k = if k = target then (change f).children.toList else f.children.toList)
    (hslot : ∀ k f key, a.frame? k = some f →
      slot? (e :: past) k key = if k = target then (change f).slots.get? key else f.slots.get? key) :
    Tells (e :: past) (a.modify target change) where
  allocated_eq := by rw [hnew, h.allocated_eq, Arena.size_modify]
  label_eq k := by
    rw [hlabel, h.label_eq]
    by_cases hk : k = target
    · subst hk
      rw [Arena.frame?_modify_self, Option.map_map]
      congr 1
      exact funext fun f => (hkeep f).symm
    · rw [Arena.frame?_modify_of_ne a change hk]
  children_eq {k g} hg := by
    by_cases hk : k = target
    · subst hk
      rw [Arena.frame?_modify_self] at hg
      obtain ⟨f, hf, rfl⟩ := Option.map_eq_some_iff.1 hg
      rw [hchildren k f hf, if_pos rfl]
    · rw [Arena.frame?_modify_of_ne a change hk] at hg
      rw [hchildren k g hg, if_neg hk]
  slot_eq {k g} hg key := by
    by_cases hk : k = target
    · subst hk
      rw [Arena.frame?_modify_self] at hg
      obtain ⟨f, hf, rfl⟩ := Option.map_eq_some_iff.1 hg
      rw [hslot k f key hf, if_pos rfl]
    · rw [Arena.frame?_modify_of_ne a change hk] at hg
      rw [hslot k g key hg, if_neg hk]

theorem Tells.store (h : past.Tells a) {target that : Handle} {way : Way} {key : String}
    (hkey : past.key? that way = some key) :
    Tells (.attach target way that :: past) (a.modify target (·.setSlot key that)) := by
  have hway : way ≠ .child := by
    rintro rfl
    simp [key?] at hkey
  refine h.change rfl (fun _ => rfl) (fun _ => rfl) (fun k f hf => ?_) fun k f other hf => ?_
  · simp only [children, hway, and_false, if_false, h.children_eq hf, Frame.setSlot, ite_self]
  · simp only [slot?, hkey, Option.some.injEq, Frame.setSlot, h.slot_eq hf]
    by_cases hk : k = target
    · by_cases ho : key = other
      · rw [if_pos ⟨hk, ho⟩, if_pos hk, ho, Slots.get?_insert_self]
      · rw [if_neg fun hc => ho hc.2, if_pos hk, Slots.get?_insert_of_ne _ _ (Ne.symm ho)]
    · rw [if_neg fun hc => hk hc.1, if_neg hk]

theorem Tells.push (h : past.Tells a) (target that : Handle) :
    Tells (.attach target .child that :: past) (a.modify target (·.addChild that)) := by
  refine h.change rfl (fun _ => rfl) (fun _ => rfl) (fun k f hf => ?_) fun k f other hf => ?_
  · simp only [children, and_true, h.children_eq hf, Frame.addChild, Array.toList_push]
  · simp [slot?, key?, h.slot_eq hf, Frame.addChild]

/-! ## Links -/

end History

/-- what is attached -/
def Link.that : Link → Attachment
  | .slot _ that | .byTag that | .byValue that | .child that => that

/-- the way it is attached -/
def Link.way : Link → Way
  | .slot key _ => .slot key
  | .byTag _ => .byTag
  | .byValue _ => .byValue
  | .child _ => .child

namespace History

variable {past : History} {a : Arena}

/-- what making an attachment present tells -/
def settleEvents (a : Arena) : Attachment → History
  | .present _ => []
  | .detached l => [.alloc a.next l]

/-- what a link tells: a new frame is there in any case, and attached if the link does not stop -/
def linkEvents (a : Arena) (target : Handle) (l : Link) : History :=
  match (a.link target l).answer with
  | .ok () => .attach target l.way (a.settle l.that).2 :: settleEvents a l.that
  | .error _ => settleEvents a l.that

/-- what links to one target tell -/
def linkAllEvents (a : Arena) (target : Handle) : List Link → History
  | [] => []
  | l :: ls =>
    match a.link target l with
    | ⟨b, .ok ()⟩ => linkAllEvents b target ls ++ linkEvents a target l
    | ⟨_, .error _⟩ => linkEvents a target l

theorem Tells.settle (h : past.Tells a) (that : Attachment) :
    Tells (settleEvents a that ++ past) (a.settle that).1 := by
  cases that with
  | present k => exact h
  | detached l => exact h.alloc l

/-- what a link does once its attachment is present -/
theorem link_eq (a : Arena) (target : Handle) (l : Link) :
    a.link target l =
      match l.way with
      | .slot key => (a.settle l.that).1.update target (·.setSlot key (a.settle l.that).2)
      | .byTag => (a.settle l.that).1.linkKeyed target (a.settle l.that).2 (·.kind.tag)
      | .byValue => (a.settle l.that).1.linkKeyed target (a.settle l.that).2 (·.value.raw)
      | .child => (a.settle l.that).1.update target (·.addChild (a.settle l.that).2) := by
  cases l <;> rfl

/-- a change that has to find its frame either stops and does nothing, or is done -/
theorem update_cases (a : Arena) (target : Handle) (change : Frame → Frame) :
    (∃ e, a.update target change = ⟨a, .error e⟩) ∨ a.update target change = ⟨a.modify target change, .ok ()⟩ := by
  unfold Arena.update
  split_ifs
  · exact .inr rfl
  · exact .inl ⟨_, rfl⟩

/-- a link by tag or by value stops and does nothing, or stores under the key of the attached frame's label -/
theorem linkKeyed_cases (a : Arena) (target that : Handle) (key : Label → String) :
    (∃ e, a.linkKeyed target that key = ⟨a, .error e⟩) ∨
      ∃ f, a.frame? that = some f ∧
        a.linkKeyed target that key = ⟨a.modify target (·.setSlot (key f.label) that), .ok ()⟩ := by
  unfold Arena.linkKeyed
  cases hf : a.frame? that with
  | none => exact .inl ⟨_, rfl⟩
  | some f =>
    rcases update_cases a target (·.setSlot (key f.label) that) with ⟨e, he⟩ | he
    · exact .inl ⟨e, he⟩
    · exact .inr ⟨f, rfl, he⟩

/-- a link stops once its attachment is present, or attaches it -/
theorem Tells.link (h : past.Tells a) (target : Handle) (l : Link) :
    Tells (linkEvents a target l ++ past) (a.link target l).arena := by
  have hb := h.settle l.that
  -- the two outcomes that every way of linking has
  have hstop {e : Stop} (he : a.link target l = ⟨(a.settle l.that).1, .error e⟩) :
      Tells (linkEvents a target l ++ past) (a.link target l).arena := by
    simpa only [linkEvents, he] using hb
  have hdone {b : Arena} (he : a.link target l = ⟨b, .ok ()⟩)
      (ht : Tells (.attach target l.way (a.settle l.that).2 :: (settleEvents a l.that ++ past)) b) :
      Tells (linkEvents a target l ++ past) (a.link target l).arena := by
    simpa only [linkEvents, he, List.cons_append] using ht
  have hkeyed {key : Label → String} (he : a.link target l = (a.settle l.that).1.linkKeyed target (a.settle l.that).2 key)
      (hkey : ∀ f, (a.settle l.that).1.frame? (a.settle l.that).2 = some f →
        key? (settleEvents a l.that ++ past) (a.settle l.that).2 l.way = some (key f.label)) :
      Tells (linkEvents a target l ++ past) (a.link target l).arena := by
    rcases linkKeyed_cases (a.settle l.that).1 target (a.settle l.that).2 key with ⟨e, hc⟩ | ⟨f, hf, hc⟩
    · exact hstop (he.trans hc)
    · exact hdone (he.trans hc) (hb.store (hkey f hf))
  have heq := link_eq a target l
  cases hway : l.way with
  | slot key =>
    rw [hway] at heq hdone
    rcases update_cases (a.settle l.that).1 target (·.setSlot key (a.settle l.that).2) with ⟨e, hc⟩ | hc
    · exact hstop (heq.trans hc)
    · exact hdone (heq.trans hc) (hb.store rfl)
  | byTag =>
    rw [hway] at heq hkeyed
    exact hkeyed heq fun f hf => by simp [key?, hb.label_eq, hf]
  | byValue =>
    rw [hway] at heq hkeyed
    exact hkeyed heq fun f hf => by simp [key?, hb.label_eq, hf]
  | child =>
    rw [hway] at heq hdone
    rcases update_cases (a.settle l.that).1 target (·.addChild (a.settle l.that).2) with ⟨e, hc⟩ | hc
    · exact hstop (heq.trans hc)
    · exact hdone (heq.trans hc) (hb.push _ _)

theorem Tells.linkAll (h : past.Tells a) (target : Handle) (ls : List Link) :
    Tells (linkAllEvents a target ls ++ past) (a.linkAll target ls).arena := by
  induction ls generalizing a past with
  | nil => exact h
  | cons l ls ih =>
    have hl := h.link target l
    rw [linkAllEvents, Arena.linkAll]
    rcases hstep : a.link target l with ⟨b, e | _⟩
    · rw [hstep] at hl
      exact hl
    · rw [hstep] at hl
      rw [List.append_assoc]
      exact ih hl

/-! ## What stays -/

theorem allocated_append (later past : History) : allocated (later ++ past) = allocated past ++ allocated later := by
  induction later with
  | nil => simp [allocated]
  | cons e later ih => cases e <;> simp [allocated, ih]

/-- what happens later changes the label of no frame that is there -/
theorem label?_append {later past : History} {h : Handle} (hh : h ∉ allocated later) :
    label? (later ++ past) h = label? past h := by
  induction later with
  | nil => rfl
  | cons e later ih =>
    cases e with
    | attach => exact ih hh
    | _ =>
      simp only [allocated, List.mem_append, List.mem_singleton, not_or] at hh
      simp only [List.cons_append, label?, if_neg hh.2, ih hh.1]

/-- what happens later puts children behind those that are there -/
theorem children_append {later past : History} {h : Handle} (hh : h ∉ allocated later) :
    children past h <+: children (later ++ past) h := by
  induction later with
  | nil => exact List.prefix_rfl
  | cons e later ih =>
    cases e with
    | attach target way that =>
      simp only [List.cons_append, children]
      split_ifs
      · exact (ih hh).trans (List.prefix_append _ _)
      · exact ih hh
    | _ =>
      simp only [allocated, List.mem_append, List.mem_singleton, not_or] at hh
      simp only [List.cons_append, children, if_neg hh.2]
      exact ih hh.1

end History

end FrameGraph
