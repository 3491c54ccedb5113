/-
Arenas as lists of frames: what stands behind the frames of an arena, and arenas whose links stay inside.

`extend a fs` is `a` with the frames `fs` behind its own. Allocating puts one more frame behind them, and changing one of
them is a change of the list, so a computation that touches only the frames it made itself can be followed on the list.
-/
import FrameGraph.Arena.Link
import Mathlib.Tactic

namespace FrameGraph.Arena

/-! ## Frames behind an arena -/

/-- the arena with more frames behind its own -/
def extend (a : Arena) (fs : List Frame) : Arena := ⟨a.frames ++ fs.toArray⟩

theorem next_eq (a : Arena) : a.next = ⟨a.size⟩ := rfl

@[simp] theorem size_extend (a : Arena) (fs : List Frame) : (a.extend fs).size = a.size + fs.length := by
  simp [extend, size]

@[simp] theorem extend_nil (a : Arena) : a.extend [] = a := by
  simp [extend]

theorem extend_extend (a : Arena) (fs gs : List Frame) : (a.extend fs).extend gs = a.extend (fs ++ gs) := by
  simp [extend]

theorem alloc_extend (a : Arena) (fs : List Frame) (l : Label) :
    (a.extend fs).alloc l = a.extend (fs ++ [.ofLabel l ⟨a.size + fs.length⟩]) := by
  simp [alloc, extend, next, size]

theorem modify_append_cons {α : Type} (l r : List α) (x : α) (change : α → α) :
    (l ++ x :: r).modify l.length change = l ++ change x :: r := by
  rw [List.modify_eq_take_cons_drop (by simp)]
  simp

/-- a change of the frame that stands behind `fs` -/
theorem modify_extend (a : Arena) (fs gs : List Frame) (f : Frame) (change : Frame → Frame) :
    (a.extend (fs ++ f :: gs)).modify ⟨a.size + fs.length⟩ change = a.extend (fs ++ change f :: gs) := by
  obtain ⟨⟨l⟩⟩ := a
  have h := modify_append_cons (l ++ fs) gs f change
  simp only [List.append_assoc, List.length_append] at h
  simp [modify, extend, size, h]

theorem frame?_extend_add (a : Arena) (fs : List Frame) (i : Nat) : (a.extend fs).frame? ⟨a.size + i⟩ = fs[i]? := by
  simp only [extend, frame?, size]
  rw [Array.getElem?_append_right (Nat.le_add_right _ _)]
  simp

theorem frame?_extend_of_contains {a : Arena} {h : Handle} (hh : a.contains h = true) (fs : List Frame) :
    (a.extend fs).frame? h = a.frame? h :=
  Array.getElem?_append_left (of_decide_eq_true hh)

/-! ## Closed arenas -/

/-- every slot and every child of every frame is a frame of the arena -/
def Closed (a : Arena) : Prop :=
  ∀ f ∈ a.frames, (∀ e ∈ f.slots.entries, a.contains e.2 = true) ∧ ∀ c ∈ f.children, a.contains c = true

instance (a : Arena) : Decidable a.Closed := by
  unfold Closed; infer_instance

/-! ## Handles that name a frame -/

variable {a b : Arena}

theorem exists_frame? {h : Handle} (hh : a.contains h = true) : ∃ f, a.frame? h = some f := by
  rw [contains_eq_isSome] at hh
  exact Option.isSome_iff_exists.1 hh

theorem contains_of_frame? {h : Handle} {f : Frame} (hf : a.frame? h = some f) : a.contains h = true := by
  rw [contains_eq_isSome, hf]
  rfl

theorem contains_mono (h : a.size ≤ b.size) {x : Handle} (hx : a.contains x = true) : b.contains x = true := by
  rw [contains, decide_eq_true_iff] at hx ⊢
  exact hx.trans_le h

theorem size_le_alloc (a : Arena) (l : Label) : a.size ≤ (a.alloc l).size := by
  rw [size_alloc]
  exact Nat.le_succ _

theorem contains_next_alloc (a : Arena) (l : Label) : (a.alloc l).contains a.next = true := by
  rw [contains, size_alloc, decide_eq_true_iff]
  exact Nat.lt_succ_self _

theorem contains_modify (a : Arena) (h : Handle) (change : Frame → Frame) (x : Handle) :
    (a.modify h change).contains x = a.contains x := by
  simp only [contains, size_modify]

theorem update_of_contains {h : Handle} (hh : a.contains h = true) (change : Frame → Frame) :
    a.update h change = ⟨a.modify h change, .ok ()⟩ := if_pos hh

end FrameGraph.Arena
