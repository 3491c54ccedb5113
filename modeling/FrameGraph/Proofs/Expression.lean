/-
Expressions as trees, apart from any arena: what the reader's grammar derives.

    expression := leaf | quote expression | '(' expression* ')'

A tree says how it is written (`tokens`), how deep its lists and quotes nest (`nesting`), and which frames it takes if the
first of them is allocated under a given handle (`frames`): one for each token but the closing ones, in the order of the
tokens. `Holds a h e` says that the graph at `h` is the tree `e`.

Results:
- `length_frames`: an expression takes as many frames as it has tokens that do not close a list.
- `holds_plant`: an arena with the frames of an expression behind its own holds the expression.
- `holdsAll_plantAll`: with the frames of several expressions behind its own it holds each of them.
-/
import FrameGraph.Proofs.Arena
import FrameGraph.Reader

namespace FrameGraph

inductive Expr where
  | leaf (l : Label)
  | quote (op : Label) (e : Expr)
  | list (es : List Expr)

namespace Expr

/-- induction with one hypothesis for each element of a list -/
@[elab_as_elim, induction_eliminator]
theorem induction {motive : Expr → Prop} (leaf : ∀ l, motive (.leaf l)) (quote : ∀ op e, motive e → motive (.quote op e))
    (list : ∀ es, (∀ e ∈ es, motive e) → motive (.list es)) (e : Expr) : motive e :=
  @Expr.rec motive (fun es => ∀ e ∈ es, motive e) leaf quote list (by simp)
    (fun e es he hes => by simpa using ⟨he, hes⟩) e

/-! ## Tokens and nesting -/

mutual
/-- the tokens that write an expression -/
def tokens : Expr → List Token
  | .leaf l => [.leaf l]
  | .quote op e => .quote op :: e.tokens
  | .list es => .opening :: (tokensAll es ++ [.closing])

/-- the tokens that write expressions one after the other -/
def tokensAll : List Expr → List Token
  | [] => []
  | e :: es => e.tokens ++ tokensAll es
end

mutual
/-- how many lists and quotes there are around the innermost part -/
def nesting : Expr → Nat
  | .leaf _ => 0
  | .quote _ e => 1 + e.nesting
  | .list es => 1 + nestingAll es

/-- the deepest nesting of several expressions, 0 of none -/
def nestingAll : List Expr → Nat
  | [] => 0
  | e :: es => max e.nesting (nestingAll es)
end

theorem tokensAll_append (es fs : List Expr) : tokensAll (es ++ fs) = tokensAll es ++ tokensAll fs := by
  induction es with
  | nil => rfl
  | cons e es ih => simp [tokensAll, ih]

theorem nestingAll_append (es fs : List Expr) : nestingAll (es ++ fs) = max (nestingAll es) (nestingAll fs) := by
  induction es with
  | nil => simp [nestingAll]
  | cons e es ih => simp [nestingAll, ih, max_assoc]

/-! ## Frames -/

/-- how many frames tokens take: one each, but for the closing ones -/
def room (ts : List Token) : Nat := ts.countP (· ≠ .closing)

theorem room_append (ts us : List Token) : room (ts ++ us) = room ts + room us := List.countP_append

/-- how many frames an expression takes -/
def size (e : Expr) : Nat := room e.tokens

/-- handles of the first frames of expressions that are laid out from `n` on -/
def handles (n : Nat) : List Expr → List Handle
  | [] => []
  | e :: es => ⟨n⟩ :: handles (n + e.size) es

mutual
/-- the frames of an expression whose first frame has the handle `n` -/
def frames (n : Nat) : Expr → List Frame
  | .leaf l => [.ofLabel l ⟨n⟩]
  | .quote op e => ⟨op, .empty, #[⟨n + 1⟩], ⟨n⟩⟩ :: e.frames (n + 1)
  | .list es => ⟨Reader.listLabel, .empty, (handles (n + 1) es).toArray, ⟨n⟩⟩ :: framesAll (n + 1) es

/-- the frames of expressions that are laid out from `n` on -/
def framesAll (n : Nat) : List Expr → List Frame
  | [] => []
  | e :: es => e.frames n ++ framesAll (n + e.size) es
end

theorem size_quote (op : Label) (e : Expr) : (quote op e).size = 1 + e.size := by
  simp [size, tokens, room, Nat.add_comm]

theorem size_list (es : List Expr) : (list es).size = 1 + room (tokensAll es) := by
  simp [size, tokens, room, Nat.add_comm]

theorem length_framesAll_of {es : List Expr} (h : ∀ e ∈ es, ∀ n, (e.frames n).length = e.size) (n : Nat) :
    (framesAll n es).length = room (tokensAll es) := by
  induction es generalizing n with
  | nil => rfl
  | cons e es ih =>
    rw [framesAll, tokensAll, room_append, List.length_append, h e List.mem_cons_self, size,
      ih fun e he => h e (List.mem_cons_of_mem _ he)]

theorem length_frames (e : Expr) (n : Nat) : (e.frames n).length = e.size := by
  induction e generalizing n with
  | leaf l => rfl
  | quote op e ih => simp [frames, ih, size_quote, Nat.add_comm]
  | list es ih => simp [frames, length_framesAll_of ih, size_list, Nat.add_comm]

theorem length_framesAll (es : List Expr) (n : Nat) : (framesAll n es).length = room (tokensAll es) :=
  length_framesAll_of (fun e _ => e.length_frames) n

theorem handles_append (n : Nat) (es fs : List Expr) :
    handles n (es ++ fs) = handles n es ++ handles (n + room (tokensAll es)) fs := by
  induction es generalizing n with
  | nil => rfl
  | cons e es ih => simp [handles, ih, tokensAll, room_append, size, Nat.add_assoc]

theorem framesAll_append (n : Nat) (es fs : List Expr) :
    framesAll n (es ++ fs) = framesAll n es ++ framesAll (n + room (tokensAll es)) fs := by
  induction es generalizing n with
  | nil => rfl
  | cons e es ih => simp [framesAll, ih, tokensAll, room_append, size, Nat.add_assoc]

end Expr

/-! ## Expressions in an arena -/

/-- the graph at a handle is the expression: the labels are those of its tokens, a quote has the quoted expression as its
only child, a list has its elements as children in order, and nothing has slots -/
inductive Holds (a : Arena) : Handle → Expr → Prop where
  | leaf {h : Handle} {f : Frame} (there : a.frame? h = some f) (slots : f.slots = .empty) (children : f.children = #[]) :
    Holds a h (.leaf f.label)
  | quote {h c : Handle} {f : Frame} {e : Expr} (there : a.frame? h = some f) (slots : f.slots = .empty)
    (children : f.children = #[c]) (quoted : Holds a c e) : Holds a h (.quote f.label e)
  | list {h : Handle} {f : Frame} {es : List Expr} (there : a.frame? h = some f) (slots : f.slots = .empty)
    (label : f.label = Reader.listLabel) (elements : List.Forall₂ (Holds a) f.children.toList es) : Holds a h (.list es)

namespace Arena

/-- the arena with the frames of an expression behind its own; the expression stands at `a.next` -/
def plant (a : Arena) (e : Expr) : Arena := a.extend (e.frames a.size)

/-- the arena with several expressions behind its frames -/
def plantAll (a : Arena) (es : List Expr) : Arena := a.extend (Expr.framesAll a.size es)

/-- the frames `fs` stand in the arena from `n` on -/
def Shows (a : Arena) (n : Nat) (fs : List Frame) : Prop := ∀ i f, fs[i]? = some f → a.frame? ⟨n + i⟩ = some f

theorem Shows.head {a : Arena} {n : Nat} {f : Frame} {fs : List Frame} (h : a.Shows n (f :: fs)) :
    a.frame? ⟨n⟩ = some f := h 0 f rfl

theorem Shows.tail {a : Arena} {n : Nat} {f : Frame} {fs : List Frame} (h : a.Shows n (f :: fs)) :
    a.Shows (n + 1) fs := by
  intro i g hg
  rw [Nat.add_assoc, Nat.add_comm 1 i]
  exact h (i + 1) g hg

theorem Shows.left {a : Arena} {n : Nat} {fs gs : List Frame} (h : a.Shows n (fs ++ gs)) : a.Shows n fs := by
  intro i f hf
  refine h i f ?_
  rw [List.getElem?_append_left (List.getElem?_eq_some_iff.1 hf).1]
  exact hf

theorem Shows.right {a : Arena} {n : Nat} {fs gs : List Frame} (h : a.Shows n (fs ++ gs)) :
    a.Shows (n + fs.length) gs := by
  intro i f hf
  rw [Nat.add_assoc]
  refine h (fs.length + i) f ?_
  rw [List.getElem?_append_right (Nat.le_add_right _ _), Nat.add_sub_cancel_left]
  exact hf

theorem shows_extend (a : Arena) (fs : List Frame) : (a.extend fs).Shows a.size fs := by
  intro i f hf
  rw [frame?_extend_add]
  exact hf

end Arena

theorem holdsAll_of_shows {a : Arena} {es : List Expr}
    (ih : ∀ e ∈ es, ∀ n, a.Shows n (e.frames n) → Holds a ⟨n⟩ e) (n : Nat) (h : a.Shows n (Expr.framesAll n es)) :
    List.Forall₂ (Holds a) (Expr.handles n es) es := by
  induction es generalizing n with
  | nil => exact .nil
  | cons e es ihes =>
    refine .cons (ih e List.mem_cons_self n h.left) ?_
    have hright := Arena.Shows.right h
    rw [Expr.length_frames] at hright
    exact ihes (fun e he => ih e (List.mem_cons_of_mem _ he)) _ hright

theorem holds_of_shows {a : Arena} (e : Expr) (n : Nat) (h : a.Shows n (e.frames n)) : Holds a ⟨n⟩ e := by
  induction e generalizing n with
  | leaf l => exact Holds.leaf (f := .ofLabel l ⟨n⟩) h.head rfl rfl
  | quote op e ih => exact Holds.quote h.head rfl rfl (ih (n + 1) h.tail)
  | list es ih => exact Holds.list h.head rfl rfl (holdsAll_of_shows ih (n + 1) h.tail)

theorem holds_plant (a : Arena) (e : Expr) : Holds (a.plant e) a.next e :=
  holds_of_shows e a.size (a.shows_extend _)

theorem holdsAll_plantAll (a : Arena) (es : List Expr) :
    List.Forall₂ (Holds (a.plantAll es)) (Expr.handles a.size es) es :=
  holdsAll_of_shows (fun e _ => holds_of_shows e) a.size (a.shows_extend _)

end FrameGraph
