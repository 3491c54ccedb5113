/-
Sets of handles, as the bits of a natural number.

`contains_insert` is all that a set is about; `unseen_insert_lt` counts what a set of some size still lacks.
-/
import FrameGraph.Handle

namespace FrameGraph

structure HandleSet where
  bits : Nat
  deriving DecidableEq, Repr

namespace HandleSet

def empty : HandleSet := ⟨0⟩

def contains (s : HandleSet) (h : Handle) : Bool := s.bits.testBit h.index

def insert (s : HandleSet) (h : Handle) : HandleSet := ⟨s.bits ||| Nat.pow 2 h.index⟩

/-- how many of the first `n` handles are not in the set -/
def unseen (s : HandleSet) (n : Nat) : Nat := (List.range n).countP fun i => !s.contains ⟨i⟩

theorem contains_empty (h : Handle) : empty.contains h = false := by simp [empty, contains]

theorem contains_insert (s : HandleSet) (h k : Handle) : (s.insert h).contains k = (s.contains k || h == k) := by
  obtain ⟨i⟩ := h
  obtain ⟨j⟩ := k
  simp only [contains, insert, Nat.pow_eq, Nat.testBit_or, Nat.testBit_two_pow]
  congr 1
  rw [Bool.eq_iff_iff]
  simp

theorem countP_lt {p q : Nat → Bool} {l : List Nat} {i : Nat} (hi : i ∈ l) (hp : p i = true) (hq : q i = false)
    (hqp : ∀ x, q x = true → p x = true) : l.countP q < l.countP p := by
  induction l with
  | nil => simp at hi
  | cons x xs ih =>
    have hle : xs.countP q ≤ xs.countP p := List.countP_mono_left fun x _ => hqp x
    rcases List.mem_cons.1 hi with rfl | hi
    · simp [hp, hq]
      omega
    · simp only [List.countP_cons]
      by_cases hqx : q x = true
      · simpa [hqx, hqp x hqx] using ih hi
      · rw [if_neg hqx]
        exact Nat.lt_of_lt_of_le (ih hi) (Nat.le_add_right _ _)

/-- to insert a handle below `n` leaves fewer to see -/
theorem unseen_insert_lt {s : HandleSet} {h : Handle} {n : Nat} (hn : h.index < n) (hs : s.contains h = false) :
    (s.insert h).unseen n < s.unseen n := by
  refine countP_lt (List.mem_range.2 hn) ?_ ?_ ?_
  · simp [hs]
  · simp [contains_insert]
  · intro x hx
    simp [contains_insert] at hx
    simp [hx.1]

end HandleSet

end FrameGraph
