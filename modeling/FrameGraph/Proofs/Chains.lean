/-
Chains of calls that attach frames to one target, and what is left where a call stops.

A call is given a frame of the arena by its handle, or a frame that stands in no arena: a new one, or a copy with slots and
children of its own. Such a frame is put behind the others first, and stays there whatever becomes of the call. A call by tag
or by value then looks at the frame that it was given, for the key; every call looks for its target last, and changes it. So a
call that stops has changed no frame.

Nothing is asked of the arena, where handles may dangle, nor of the handles that are given. A target that is not there may be
there once a frame was put behind the others, and the frame that is given may be the target itself.

Results:
- `linkAll_eq_attachAll`: links are such calls, each given the frame of its attachment.
- `attach_of_lacks`, `attach_of_not_lacks`: all that a call does, where it lacks a frame that it looks for and where it does not.
- `attachAll_cases`, `attachAll_append`: a chain goes through, or ends with its first call that stops.
- `attachAll_exact`: what becomes of every call of a chain that has its turn.
-/
import FrameGraph.Proofs.Arena
import FrameGraph.Proofs.History

namespace FrameGraph

/-! ## Calls -/

/-- what a call is given to attach: a frame of the arena, or one that stands in no arena, with whatever slots and children it
has -/
inductive Given where
  | handle (h : Handle)
  | loose (f : Frame)
  deriving DecidableEq, Repr

/-- what is put behind the frames of the arena -/
def Given.frames : Given → List Frame
  | handle _ => []
  | loose f => [f]

/-- the handle that is attached, where the call starts with the arena `a` -/
def Given.handleIn (a : Arena) : Given → Handle
  | handle h => h
  | loose _ => a.next

/-- a call that attaches what it is given to a target -/
structure Attaching where
  way : Way
  that : Given
  deriving DecidableEq, Repr

/-- whether the key is read off the frame that is attached -/
def Way.looks : Way → Bool
  | .byTag | .byValue => true
  | .slot _ | .child => false

namespace Arena

/-- put the given frame into the arena, and attach it -/
def attach (a : Arena) (target : Handle) (c : Attaching) : Step Unit :=
  (a.extend c.that.frames).link target (c.way.link (.present (c.that.handleIn a)))

/-- calls with one target, up to the first that stops; the answer is the target -/
def attachAll (a : Arena) (target : Handle) : List Attaching → Step Handle
  | [] => ⟨a, .ok target⟩
  | c :: cs => (a.attach target c).bind fun b _ => b.attachAll target cs

end Arena

/-- a link as a call: a new frame carries the label, and the identity of the handle that it gets -/
def Link.attaching (a : Arena) (l : Link) : Attaching where
  way := l.way
  that :=
    match l.that with
    | .present h => .handle h
    | .detached label => .loose (.ofLabel label a.next)

namespace Arena

/-- links as calls, each in the arena that the links before it leave -/
def attachings (a : Arena) (target : Handle) : List Link → List Attaching
  | [] => []
  | l :: ls => l.attaching a :: (a.link target l).arena.attachings target ls

theorem link_eq_attach (a : Arena) (target : Handle) (l : Link) : a.link target l = a.attach target (l.attaching a) := by
  have halloc (label : Label) : a.extend [.ofLabel label a.next] = a.alloc label := by simp [extend, alloc]
  rcases l with ⟨key, h | label⟩ | ⟨h | label⟩ | ⟨h | label⟩ | ⟨h | label⟩ <;>
    simp only [attach, Link.attaching, Link.way, Link.that, Given.frames, Given.handleIn, extend_nil, halloc, Way.link] <;> rfl

/-- **Links are calls.** -/
theorem linkAll_eq_attachAll (a : Arena) (target : Handle) (ls : List Link) :
    a.linkAll target ls = a.attachAll target (a.attachings target ls) := by
  induction ls generalizing a with
  | nil => rfl
  | cons l ls ih =>
    rw [linkAll, attachings, attachAll, ← link_eq_attach]
    rcases a.link target l with ⟨b, e | _⟩
    · rfl
    · exact ih b

end Arena

/-! ## Frames that are attached -/

/-- `g` is `f` but for what is attached: it stands in the slot of the key and every other slot is as it was, or it stands
behind the children -/
structure Frame.Gains (f : Frame) (key? : Option String) (that : Handle) (g : Frame) : Prop where
  label : g.label = f.label
  identity : g.identity = f.identity
  slots : ∀ key, g.slots.get? key = if key? = some key then some that else f.slots.get? key
  children : g.children = if key? = none then f.children.push that else f.children

theorem Frame.gains_setSlot (f : Frame) (key : String) (that : Handle) : f.Gains (some key) that (f.setSlot key that) where
  label := rfl
  identity := rfl
  slots other := by
    by_cases hkey : key = other
    · rw [if_pos (congrArg some hkey), ← hkey]
      exact f.slots.get?_insert_self key that
    · rw [if_neg fun h => hkey (Option.some.inj h)]
      exact f.slots.get?_insert_of_ne that (Ne.symm hkey)
  children := rfl

theorem Frame.gains_addChild (f : Frame) (that : Handle) : f.Gains none that (f.addChild that) where
  label := rfl
  identity := rfl
  slots _ := rfl
  children := rfl

namespace Arena

/-- the key of the slot that a frame is attached in, none for a child -/
inductive Keyed (b : Arena) (that : Handle) : Way → Option String → Prop where
  | slot (key : String) : Keyed b that (.slot key) (some key)
  | byTag {f : Frame} (hf : b.frame? that = some f) : Keyed b that .byTag (some f.label.kind.tag)
  | byValue {f : Frame} (hf : b.frame? that = some f) : Keyed b that .byValue (some f.label.value.raw)
  | child : Keyed b that .child none

/-- `n` is `b` but for the target, which has gained what is attached -/
structure Attaches (b : Arena) (target : Handle) (way : Way) (that : Handle) (n : Arena) : Prop where
  size : n.size = b.size
  others : ∀ k, k ≠ target → n.frame? k = b.frame? k
  gains : ∃ f g key?, b.frame? target = some f ∧ n.frame? target = some g ∧ b.Keyed that way key? ∧ f.Gains key? that g

variable {a b : Arena} {target that : Handle} {way : Way} {f : Frame} {c : Attaching}

theorem attaches_modify {key? : Option String} {change : Frame → Frame} (hf : b.frame? target = some f)
    (hkey : b.Keyed that way key?) (hgains : f.Gains key? that (change f)) :
    b.Attaches target way that (b.modify target change) where
  size := b.size_modify target change
  others k hk := b.frame?_modify_of_ne change hk
  gains := ⟨f, change f, key?, hf, by rw [frame?_modify_self, hf]; rfl, hkey, hgains⟩

theorem update_of_none (ht : b.frame? target = none) (change : Frame → Frame) :
    b.update target change = ⟨b, .error (.dangling target)⟩ := by
  rw [update, contains_eq_isSome, ht]
  rfl

theorem linkKeyed_of_none (hthat : b.frame? that = none) (target : Handle) (key : Label → String) :
    b.linkKeyed target that key = ⟨b, .error (.dangling that)⟩ := by
  rw [linkKeyed, hthat]
  rfl

theorem linkKeyed_of_some (hthat : b.frame? that = some f) (target : Handle) (key : Label → String) :
    b.linkKeyed target that key = b.update target (·.setSlot (key f.label) that) := by
  rw [linkKeyed, hthat]
  rfl

/-- a link of a frame by its handle stops where a frame that it looks for is not there, and has changed nothing by then -/
theorem link_stops (h : b.frame? target = none ∨ way.looks = true ∧ b.frame? that = none) :
    ∃ k, b.link target (way.link (.present that)) = ⟨b, .error (.dangling k)⟩ := by
  have hkeyed (key : Label → String) (h : b.frame? target = none ∨ b.frame? that = none) :
      ∃ k, b.linkKeyed target that key = ⟨b, .error (.dangling k)⟩ := by
    cases hthat : b.frame? that with
    | none => exact ⟨that, linkKeyed_of_none hthat target key⟩
    | some f =>
      rw [linkKeyed_of_some hthat]
      exact ⟨target, update_of_none (h.resolve_right (by simp [hthat])) _⟩
  cases way with
  | slot key => exact ⟨target, update_of_none (h.resolve_right (by simp [Way.looks])) _⟩
  | byTag => exact hkeyed (·.kind.tag) (h.imp_right And.right)
  | byValue => exact hkeyed (·.value.raw) (h.imp_right And.right)
  | child => exact ⟨target, update_of_none (h.resolve_right (by simp [Way.looks])) _⟩

/-- and attaches the frame where all of them are there -/
theorem link_attaches (ht : b.frame? target = some f) (hthat : way.looks = true → ∃ g, b.frame? that = some g) :
    ∃ n, b.link target (way.link (.present that)) = ⟨n, .ok ()⟩ ∧ b.Attaches target way that n := by
  have hupdate (change : Frame → Frame) : b.update target change = ⟨b.modify target change, .ok ()⟩ :=
    update_of_contains (contains_of_frame? ht) change
  cases way with
  | slot key => exact ⟨_, hupdate _, attaches_modify ht (.slot key) (f.gains_setSlot key that)⟩
  | byTag =>
    obtain ⟨g, hg⟩ := hthat rfl
    exact ⟨_, (linkKeyed_of_some hg target (·.kind.tag)).trans (hupdate _),
      attaches_modify ht (.byTag hg) (f.gains_setSlot g.label.kind.tag that)⟩
  | byValue =>
    obtain ⟨g, hg⟩ := hthat rfl
    exact ⟨_, (linkKeyed_of_some hg target (·.value.raw)).trans (hupdate _),
      attaches_modify ht (.byValue hg) (f.gains_setSlot g.label.value.raw that)⟩
  | child => exact ⟨_, hupdate _, attaches_modify ht .child (f.gains_addChild that)⟩

/-! ## What a call does -/

/-- with what the call is given in it, the arena is too short for a handle that the call looks for: that of the target, or one
that is given and that the key is to be read from -/
def Lacks (a : Arena) (target : Handle) (c : Attaching) : Prop :=
  let b := a.extend c.that.frames
  b.size ≤ target.index ∨ c.way.looks = true ∧ ∃ h, c.that = .handle h ∧ b.size ≤ h.index

theorem frame?_eq_none_iff {h : Handle} : b.frame? h = none ↔ b.size ≤ h.index := Array.getElem?_eq_none_iff

/-- a frame that is given as such is there once it was put into the arena -/
theorem frame?_loose (a : Arena) (f : Frame) : (a.extend [f]).frame? a.next = some f := by
  simpa [next] using a.frame?_extend_add [f] 0

theorem frame?_given_eq_none_iff {g : Given} : (a.extend g.frames).frame? (g.handleIn a) = none ↔
    ∃ h, g = .handle h ∧ (a.extend g.frames).size ≤ h.index := by
  cases g with
  | handle h => simp [Given.frames, Given.handleIn, frame?_eq_none_iff]
  | loose f => simp [Given.frames, Given.handleIn, frame?_loose]

/-- a call that lacks a frame leaves the given one behind the others, and changes no frame -/
theorem attach_of_lacks (h : a.Lacks target c) :
    ∃ k, a.attach target c = ⟨a.extend c.that.frames, .error (.dangling k)⟩ := by
  apply link_stops
  rwa [frame?_eq_none_iff, frame?_given_eq_none_iff]

/-- any other call attaches the given frame -/
theorem attach_of_not_lacks (h : ¬ a.Lacks target c) :
    ∃ n, a.attach target c = ⟨n, .ok ()⟩ ∧ (a.extend c.that.frames).Attaches target c.way (c.that.handleIn a) n := by
  rw [Lacks, ← frame?_eq_none_iff, ← frame?_given_eq_none_iff, not_or, not_and] at h
  obtain ⟨f, hf⟩ := Option.ne_none_iff_exists'.1 h.1
  exact link_attaches hf fun hlooks => Option.ne_none_iff_exists'.1 (h.2 hlooks)

/-! ## Chains -/

/-- calls behind those that go through -/
theorem attachAll_append {m : Arena} {before : List Attaching} (h : a.attachAll target before = ⟨m, .ok target⟩)
    (behind : List Attaching) : a.attachAll target (before ++ behind) = m.attachAll target behind := by
  induction before generalizing a with
  | nil =>
    obtain rfl : a = m := congrArg Step.arena h
    rfl
  | cons c cs ih =>
    rw [attachAll] at h
    rw [List.cons_append, attachAll]
    rcases hcall : a.attach target c with ⟨b, e | _⟩ <;> rw [hcall] at h
    · cases congrArg Step.answer h
    · exact ih h

/-- a chain goes through, or one of its calls lacks a frame -/
theorem attachAll_cases (a : Arena) (target : Handle) (cs : List Attaching) :
    (∃ m, a.attachAll target cs = ⟨m, .ok target⟩) ∨
      ∃ before c behind m, cs = before ++ c :: behind ∧ a.attachAll target before = ⟨m, .ok target⟩ ∧ m.Lacks target c := by
  induction cs generalizing a with
  | nil => exact .inl ⟨a, rfl⟩
  | cons c cs ih =>
    by_cases hlacks : a.Lacks target c
    · exact .inr ⟨[], c, cs, a, rfl, rfl, hlacks⟩
    · obtain ⟨b, hb, -⟩ := attach_of_not_lacks hlacks
      have hfirst (ds : List Attaching) : a.attachAll target (c :: ds) = b.attachAll target ds := by rw [attachAll, hb]; rfl
      rcases ih b with ⟨m, hm⟩ | ⟨before, d, behind, m, rfl, hm, hd⟩
      · exact .inl ⟨m, (hfirst cs).trans hm⟩
      · exact .inr ⟨c :: before, d, behind, m, rfl, (hfirst before).trans hm, hd⟩

/-- **A chain that stops has damaged nothing.** Whatever handles dangle in an arena or are given, a chain of calls goes through,
or one of its calls has its turn and lacks a frame. A call that has its turn first puts the given frame behind those that are
there, if it was given as such. If it lacks a frame then it stops, the chain ends with it, and that is all it has done.
Otherwise it changes the target and no other frame: the given frame stands in one slot of it, or behind its children. Links
make such chains. -/
theorem attachAll_exact (a : Arena) (target : Handle) (cs : List Attaching) :
    ((∃ m, a.attachAll target cs = ⟨m, .ok target⟩) ∨
      ∃ before c behind m, cs = before ++ c :: behind ∧ a.attachAll target before = ⟨m, .ok target⟩ ∧ m.Lacks target c) ∧
    (∀ before c behind m, cs = before ++ c :: behind → a.attachAll target before = ⟨m, .ok target⟩ →
      let b := m.extend c.that.frames
      (∀ k, m.contains k = true → b.frame? k = m.frame? k) ∧
      (m.Lacks target c →
        ∃ k, m.attach target c = ⟨b, .error (.dangling k)⟩ ∧ a.attachAll target cs = ⟨b, .error (.dangling k)⟩) ∧
      (¬ m.Lacks target c →
        ∃ n, m.attach target c = ⟨n, .ok ()⟩ ∧ a.attachAll target (before ++ [c]) = ⟨n, .ok target⟩ ∧
          b.Attaches target c.way (c.that.handleIn m) n)) ∧
    ∀ ls, a.linkAll target ls = a.attachAll target (a.attachings target ls) := by
  refine ⟨attachAll_cases a target cs, ?_, linkAll_eq_attachAll a target⟩
  intro before c behind m hcs hbefore b
  refine ⟨fun k hk => frame?_extend_of_contains hk _, ?_, ?_⟩
  · intro hlacks
    obtain ⟨k, hk⟩ := attach_of_lacks hlacks
    refine ⟨k, hk, ?_⟩
    rw [hcs, attachAll_append hbefore, attachAll, hk]
    rfl
  · intro hlacks
    obtain ⟨n, hn, hattaches⟩ := attach_of_not_lacks hlacks
    refine ⟨n, hn, ?_, hattaches⟩
    rw [attachAll_append hbefore, attachAll, hn]
    rfl

/-- a new child is there, and stays there when the next call is given a handle that dangles -/
theorem attachAll_exact_dangling :
    let target : Frame := .ofLabel ⟨.list, .text ""⟩ ⟨0⟩
    let new : Frame := .ofLabel ⟨.symbol, .text "x"⟩ ⟨1⟩
    let cs : List Attaching := [⟨.child, .loose new⟩, ⟨.byTag, .handle ⟨9⟩⟩, ⟨.slot "last", .loose new⟩]
    ∃ k, attachAll ⟨#[target]⟩ ⟨0⟩ cs = ⟨⟨#[target.addChild ⟨1⟩, new]⟩, .error (.dangling k)⟩ := by
  intro target new cs
  have hturn := (attachAll_exact ⟨#[target]⟩ ⟨0⟩ cs).2.1 [⟨.child, .loose new⟩] ⟨.byTag, .handle ⟨9⟩⟩
    [⟨.slot "last", .loose new⟩] ⟨#[target.addChild ⟨1⟩, new]⟩ rfl rfl
  obtain ⟨k, -, hk⟩ := hturn.2.1 (.inr ⟨rfl, ⟨9⟩, rfl, by decide⟩)
  exact ⟨k, hk⟩

end Arena

end FrameGraph
