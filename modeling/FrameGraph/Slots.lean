/-
Named slots of a frame: handles under distinct keys, kept in the order of the keys.

`get?_insert_self` and `get?_insert_of_ne` say that a slot holds what was stored in it last.
-/
import FrameGraph.Handle

namespace FrameGraph

/-- slots in strictly ascending order of their keys -/
structure Slots where
  entries : List (String × Handle)
  ascending : entries.Pairwise (fun a b => a.1 < b.1)
  deriving DecidableEq, Repr

namespace Slots

def empty : Slots := ⟨[], .nil⟩

instance : Inhabited Slots := ⟨empty⟩

/-- put `h` under `key`, in place of what is there -/
def insertEntry (key : String) (h : Handle) : List (String × Handle) → List (String × Handle)
  | [] => [(key, h)]
  | e :: es =>
    if key < e.1 then (key, h) :: e :: es
    else if e.1 < key then e :: insertEntry key h es
    else (key, h) :: es

theorem fst_of_mem_insertEntry {key : String} {h : Handle} {es : List (String × Handle)} {e : String × Handle}
    (he : e ∈ insertEntry key h es) : e = (key, h) ∨ e ∈ es := by
  induction es with
  | nil => simpa [insertEntry] using he
  | cons d ds ih =>
    simp only [insertEntry] at he
    split at he
    · simpa using he
    · split at he
      · rcases List.mem_cons.1 he with rfl | he
        · simp
        · rcases ih he with rfl | he
          · simp
          · exact .inr (List.mem_cons_of_mem _ he)
      · rcases List.mem_cons.1 he with rfl | he
        · simp
        · exact .inr (List.mem_cons_of_mem _ he)

theorem insertEntry_ascending {key : String} {h : Handle} {es : List (String × Handle)}
    (hs : es.Pairwise (fun a b => a.1 < b.1)) : (insertEntry key h es).Pairwise (fun a b => a.1 < b.1) := by
  induction es with
  | nil => simp [insertEntry]
  | cons d ds ih =>
    obtain ⟨hd, hds⟩ := List.pairwise_cons.1 hs
    simp only [insertEntry]
    split
    · next hlt =>
      refine List.pairwise_cons.2 ⟨fun e he => ?_, hs⟩
      rcases List.mem_cons.1 he with rfl | he
      · exact hlt
      · exact String.lt_trans hlt (hd e he)
    · next hge =>
      split
      · next hgt =>
        refine List.pairwise_cons.2 ⟨fun e he => ?_, ih hds⟩
        rcases fst_of_mem_insertEntry he with rfl | he
        · exact hgt
        · exact hd e he
      · next hle =>
        have heq : d.1 = key := String.le_antisymm (String.not_lt.1 hge) (String.not_lt.1 hle)
        exact List.pairwise_cons.2 ⟨fun e he => heq ▸ hd e he, hds⟩

def insert (s : Slots) (key : String) (h : Handle) : Slots :=
  ⟨insertEntry key h s.entries, insertEntry_ascending s.ascending⟩

def get? (s : Slots) (key : String) : Option Handle := s.entries.lookup key

theorem get?_insert_self (s : Slots) (key : String) (h : Handle) : (s.insert key h).get? key = some h := by
  simp only [get?, insert]
  induction s.entries with
  | nil => simp [insertEntry]
  | cons d ds ih =>
    obtain ⟨k, v⟩ := d
    simp only [insertEntry]
    split
    · simp
    · split
      · next hgt =>
        have hne : (key == k) = false := by simpa using fun heq : key = k => String.lt_irrefl k (heq ▸ hgt)
        simp [List.lookup_cons, hne, ih]
      · simp

theorem get?_insert_of_ne (s : Slots) {key other : String} (h : Handle) (hne : other ≠ key) :
    (s.insert key h).get? other = s.get? other := by
  have hko : (other == key) = false := by simpa using hne
  simp only [get?, insert]
  induction s.entries with
  | nil => simp [insertEntry, List.lookup_cons, hko]
  | cons d ds ih =>
    obtain ⟨k, v⟩ := d
    simp only [insertEntry]
    split
    · simp [List.lookup_cons, hko]
    · next hge =>
      split
      · simp only [List.lookup_cons, ih]
      · next hle =>
        have heq : k = key := String.le_antisymm (String.not_lt.1 hge) (String.not_lt.1 hle)
        simp [List.lookup_cons, heq, hko]

end Slots

end FrameGraph
