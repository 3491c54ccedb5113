/-
A listing depends on what can be reached from its root, and on nothing else.

An allocation changes no frame, and a call that attaches something changes none but its target, even if it stops. So edits that
attach nothing to a frame that can be reached leave all such frames as they are, and the listing with them.

Results:
- `frame?_edit`, `frame?_editAll`: edits leave the frames that they spare.
- `listing_reached`: the listing of a root is the same in all arenas that agree on what it reaches, and after all edits that
  spare it.
-/
import FrameGraph.Proofs.Agreement
import FrameGraph.Proofs.Chains

namespace FrameGraph.Arena

variable {a : Arena} {h : Handle} {P : Handle → Prop}

/-! ## Edits -/

/-- what changes an arena: a frame that is put behind the others, or a call that attaches something, as far as it comes -/
inductive Edit where
  | alloc (f : Frame)
  | attach (target : Handle) (c : Attaching)
  deriving DecidableEq, Repr

/-- nothing is attached to what `P` holds of -/
def Edit.Spares (P : Handle → Prop) : Edit → Prop
  | alloc _ => True
  | attach target _ => ¬ P target

def edit (a : Arena) : Edit → Arena
  | .alloc f => a.extend [f]
  | .attach target c => (a.attach target c).arena

def editAll (a : Arena) (es : List Edit) : Arena := es.foldl edit a

/-- an edit leaves every frame but the target -/
theorem frame?_edit {e : Edit} (hh : a.contains h = true) (he : e.Spares (· = h)) : (a.edit e).frame? h = a.frame? h := by
  cases e with
  | alloc f => exact frame?_extend_of_contains hh [f]
  | attach target c =>
    rw [← frame?_extend_of_contains hh c.that.frames, edit]
    by_cases hlacks : a.Lacks target c
    · obtain ⟨k, hk⟩ := attach_of_lacks hlacks
      rw [hk]
    · obtain ⟨n, hn, hattaches⟩ := attach_of_not_lacks hlacks
      rw [hn]
      exact hattaches.others h (Ne.symm he)

/-- edits leave the frames that all of them spare -/
theorem frame?_editAll {es : List Edit} (hes : ∀ e ∈ es, e.Spares P) (hh : a.contains h = true) (hP : P h) :
    (a.editAll es).frame? h = a.frame? h := by
  induction es generalizing a with
  | nil => rfl
  | cons e es ih =>
    obtain ⟨he, hrest⟩ := List.forall_mem_cons.1 hes
    have hfirst : (a.edit e).frame? h = a.frame? h := by
      apply frame?_edit hh
      cases e with
      | alloc f => trivial
      | attach target c =>
        rintro rfl
        exact he hP
    obtain ⟨f, hf⟩ := exists_frame? hh
    have hthere : (a.edit e).contains h = true := contains_of_frame? (hfirst.trans hf)
    exact (ih hrest hthere).trans hfirst

/-- **A listing depends on nothing but its reach.** Arenas that agree on all that is reached from a root, in the kinds, the
values as they are written, the slots and the children, have the same listing of it. If no handle dangles then the root has a
listing, and no edits change it that attach nothing to a frame that is reached, nor do they change what is reached: whatever is
allocated, attached to other frames or given to a call that stops. -/
theorem listing_reached (a : Arena) (root : Handle) :
    (∀ b : Arena, (∀ h, a.Reaches root h → b.face? h = a.face? h) → b.listing root = a.listing root) ∧
    (a.Closed → a.contains root = true →
      (∃ text, a.listing root = .ok text) ∧
      ∀ es, (∀ e ∈ es, Edit.Spares (a.Reaches root) e) →
        (a.editAll es).listing root = a.listing root ∧ ∀ h, (a.editAll es).Reaches root h ↔ a.Reaches root h) := by
  refine ⟨fun b hab => listing_eq_of_agree hab, fun ha hroot => ⟨?_, fun es hes => ?_⟩⟩
  · obtain ⟨es, hes⟩ := Listing.exists_root_trail ha hroot
    exact ⟨_, hes.listing_eq⟩
  · have hab : ∀ h, a.Reaches root h → (a.editAll es).face? h = a.face? h := by
      intro h hh
      rw [face?, frame?_editAll hes (ha.contains_of_reaches hroot hh) hh]
      rfl
    exact ⟨listing_eq_of_agree hab, fun h => reaches_iff_of_agree hab⟩

/-- a frame is allocated and has a frame that is reached attached to it, and a call stops -/
theorem listing_reached_knot :
    let x : Frame := .ofLabel ⟨.symbol, .text "x"⟩ ⟨2⟩
    let es : List Edit := [.alloc x, .attach ⟨2⟩ ⟨.child, .handle ⟨0⟩⟩, .attach ⟨9⟩ ⟨.byTag, .loose x⟩]
    (knot.editAll es).size = 4 ∧ (knot.editAll es).listing ⟨0⟩ = knot.listing ⟨0⟩ := by
  intro x es
  have hes : ∀ e ∈ es, e.Spares (knot.Reaches ⟨0⟩) := by
    have houtside (i : Nat) (hi : 2 ≤ i) : ¬ knot.Reaches ⟨0⟩ ⟨i⟩ := by
      intro hreach
      have hlt : i < 2 := of_decide_eq_true (Closed.contains_of_reaches (by decide) (by decide) hreach)
      omega
    simp [es, Edit.Spares, houtside]
  exact ⟨rfl, (((listing_reached knot ⟨0⟩).2 (by decide) (by decide)).2 es hes).1⟩

end FrameGraph.Arena
