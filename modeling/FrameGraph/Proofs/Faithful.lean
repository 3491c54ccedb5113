/-
Listings of what was read are faithful: the expression can be read off the text.

The rows of a listing give the labels of an expression in the order of its tokens, each with its depth
(`Listing.rows_injective`). Labels tell leaves, quotes and lists apart, since the lexer makes no leaf that looks like a
quote mark or a list; and where a quote or a list ends is told by the depths, since what stands behind it is no deeper than
it is.

Results:
- `recovers`: expressions with the same labels at the same depths are the same, with anything behind them that is no
  deeper.
- `listing_faithful`: so are expressions that were read and have the same listing.
-/
import FrameGraph.Proofs.Preorder

namespace FrameGraph

open FrameGraph.Expr

variable {s : Settings}

/-! ## Lexed expressions -/

/-- an expression that can be written -/
def Expr.Lexed (s : Settings) (e : Expr) : Prop := ∀ u ∈ e.tokens, u.Lexed s

theorem Expr.Lexed.leaf {l : Label} (h : (Expr.leaf l).Lexed s) : Lexeme s l := by
  have hl := h (.leaf l) (by simp [tokens])
  cases hl with
  | leaf hl => exact hl

theorem Expr.Lexed.quote {op : Label} {e : Expr} (h : (Expr.quote op e).Lexed s) : op = Lexer.quoteLabel s ∧ e.Lexed s := by
  have hop := h (.quote op) (by simp [tokens])
  refine ⟨?_, fun u hu => h u (by simp [tokens, hu])⟩
  cases hop with
  | quote => rfl

theorem Expr.Lexed.list {es : List Expr} (h : (Expr.list es).Lexed s) : ∀ e ∈ es, e.Lexed s := by
  have hall : ∀ u ∈ tokensAll es, u.Lexed s := fun u hu => h u (by simp [tokens, hu])
  clear h
  induction es with
  | nil => simp
  | cons e es ih =>
    rw [tokensAll, List.forall_mem_append] at hall
    exact List.forall_mem_cons.2 ⟨hall.1, ih hall.2⟩

/-- no leaf looks like a list or a quote mark -/
theorem Lexeme.ne {l : Label} (hl : Lexeme s l) : l ≠ Reader.listLabel ∧ l ≠ Lexer.quoteLabel s := by
  have hkind : l.kind ∈ [Kind.number, .hex, .bin, .integer, .symbol] := by
    cases hl with
    | number hx => simp
    | integer hk => exact List.mem_cons_of_mem _ (List.mem_append_left [Kind.symbol] hk)
    | symbol hw => simp
  constructor
  · rintro rfl
    simp [Reader.listLabel] at hkind
  · rintro rfl
    simp [Lexer.quoteLabel] at hkind

theorem Lexer.quoteLabel_ne (s : Settings) : quoteLabel s ≠ Reader.listLabel :=
  fun heq => Kind.noConfusion (congrArg Label.kind heq)

/-! ## Shapes -/

namespace Expr

mutual
/-- what the rows of an expression show: its labels with their depths -/
def shape (depth : Nat) : Expr → List (Nat × Label)
  | .leaf l => [(depth, l)]
  | .quote op e => (depth, op) :: e.shape (depth + 1)
  | .list es => (depth, Reader.listLabel) :: shapeAll (depth + 1) es

/-- what the rows of expressions show that stand one behind the other -/
def shapeAll (depth : Nat) : List Expr → List (Nat × Label)
  | [] => []
  | e :: es => e.shape depth ++ shapeAll depth es
end

theorem shapeAll_outlineAll_of {es : List Expr}
    (h : ∀ e ∈ es, ∀ n place depth, (e.outline n place depth).map (fun x => (x.1.depth, x.2)) = e.shape depth)
    (n index depth : Nat) : (outlineAll n index depth es).map (fun x => (x.1.depth, x.2)) = shapeAll depth es := by
  induction es generalizing n index with
  | nil => rfl
  | cons e es ih =>
    obtain ⟨hfirst, hrest⟩ := List.forall_mem_cons.1 h
    rw [outlineAll, List.map_append, hfirst, ih hrest, shapeAll]

theorem shape_outline (e : Expr) (n : Nat) (place : Place) (depth : Nat) :
    (e.outline n place depth).map (fun x => (x.1.depth, x.2)) = e.shape depth := by
  induction e generalizing n place depth with
  | leaf l => rfl
  | quote op e ih => simp [outline, ih, shape]
  | list es ih => simp [outline, shapeAll_outlineAll_of ih, shape]

/-- the label of the frame that an expression starts with -/
def head : Expr → Label
  | .leaf l => l
  | .quote op _ => op
  | .list _ => Reader.listLabel

/-- what the rows behind the first one show -/
def shapeBelow (depth : Nat) : Expr → List (Nat × Label)
  | .leaf _ => []
  | .quote _ e => e.shape (depth + 1)
  | .list es => shapeAll (depth + 1) es

theorem shape_eq (e : Expr) (depth : Nat) : e.shape depth = (depth, e.head) :: e.shapeBelow depth := by
  cases e <;> rfl

theorem shape_inj {e e' : Expr} {depth : Nat} {rest rest' : List (Nat × Label)}
    (h : e.shape depth ++ rest = e'.shape depth ++ rest') :
    e.head = e'.head ∧ e.shapeBelow depth ++ rest = e'.shapeBelow depth ++ rest' := by
  rw [shape_eq, shape_eq] at h
  obtain ⟨hfirst, hbelow⟩ := List.cons.inj h
  exact ⟨(Prod.mk.inj hfirst).2, hbelow⟩

/-- nothing is deeper that stands right behind an expression -/
def NoDeeper (depth : Nat) (rest : List (Nat × Label)) : Prop := ∀ x ∈ rest.head?, x.1 ≤ depth

theorem NoDeeper.mono {depth depth' : Nat} {rest : List (Nat × Label)} (h : NoDeeper depth rest) (hle : depth ≤ depth') :
    NoDeeper depth' rest := fun x hx => (h x hx).trans hle

theorem NoDeeper.shapeAll {depth : Nat} {rest : List (Nat × Label)} (h : NoDeeper depth rest) (es : List Expr) :
    NoDeeper depth (shapeAll depth es ++ rest) := by
  cases es with
  | nil => exact h
  | cons e es =>
    intro x hx
    obtain rfl : (depth, e.head) = x := by simpa [Expr.shapeAll, shape_eq] using hx
    exact le_rfl

/-- the expression is the only one with its shape, also with more behind it -/
def Recovers (s : Settings) (e : Expr) : Prop :=
  ∀ (e' : Expr) (depth : Nat) (rest rest' : List (Nat × Label)), e.Lexed s → e'.Lexed s → NoDeeper depth rest →
    NoDeeper depth rest' → e.shape depth ++ rest = e'.shape depth ++ rest' → e = e' ∧ rest = rest'

theorem recoversAll {es : List Expr} (hes : ∀ e ∈ es, Recovers s e) {es' : List Expr} {depth : Nat}
    {rest rest' : List (Nat × Label)} (hlexed : ∀ e ∈ es, e.Lexed s) (hlexed' : ∀ e ∈ es', e.Lexed s)
    (hrest : NoDeeper depth rest) (hrest' : NoDeeper depth rest')
    (h : shapeAll (depth + 1) es ++ rest = shapeAll (depth + 1) es' ++ rest') : es = es' ∧ rest = rest' := by
  -- an element starts one level below its list, and so is no part of what stands behind the list
  have hnone {e : Expr} {es : List Expr} {rest rest' : List (Nat × Label)} (hrest : NoDeeper depth rest)
      (h : rest = shapeAll (depth + 1) (e :: es) ++ rest') : False := by
    have hle := hrest (depth + 1, e.head) (by simp [h, shapeAll, shape_eq])
    exact absurd hle (Nat.not_succ_le_self depth)
  induction es generalizing es' with
  | nil =>
    cases es' with
    | nil => exact ⟨rfl, h⟩
    | cons e' es' => exact (hnone hrest h).elim
  | cons e es ih =>
    cases es' with
    | nil => exact (hnone hrest' h.symm).elim
    | cons e' es' =>
      obtain ⟨hfirst, hothers⟩ := List.forall_mem_cons.1 hes
      obtain ⟨he, hes⟩ := List.forall_mem_cons.1 hlexed
      obtain ⟨he', hes'⟩ := List.forall_mem_cons.1 hlexed'
      rw [shapeAll, shapeAll, List.append_assoc, List.append_assoc] at h
      have hbehind := (hrest.mono (Nat.le_succ depth)).shapeAll es
      have hbehind' := (hrest'.mono (Nat.le_succ depth)).shapeAll es'
      obtain ⟨rfl, htail⟩ := hfirst e' (depth + 1) _ _ he he' hbehind hbehind' h
      obtain ⟨rfl, hend⟩ := ih hothers hes hes' htail
      exact ⟨rfl, hend⟩

/-- the labels with their depths determine the expression -/
theorem recovers (s : Settings) (e : Expr) : Recovers s e := by
  induction e with
  | leaf l =>
    intro e' depth rest rest' he he' hrest hrest' h
    obtain ⟨hhead, hbelow⟩ := shape_inj h
    cases e' with
    | leaf l' => exact ⟨congrArg Expr.leaf hhead, hbelow⟩
    | quote op e' => exact absurd (hhead.trans he'.quote.1) he.leaf.ne.2
    | list es' => exact absurd hhead he.leaf.ne.1
  | quote op e ih =>
    intro e' depth rest rest' he he' hrest hrest' h
    obtain ⟨hhead, hbelow⟩ := shape_inj h
    cases e' with
    | leaf l' => exact absurd (hhead.symm.trans he.quote.1) he'.leaf.ne.2
    | quote op' e' =>
      have hdeeper := hrest.mono (Nat.le_succ depth)
      have hdeeper' := hrest'.mono (Nat.le_succ depth)
      obtain ⟨rfl, hend⟩ := ih e' (depth + 1) rest rest' he.quote.2 he'.quote.2 hdeeper hdeeper' hbelow
      exact ⟨congrArg (Expr.quote · e) hhead, hend⟩
    | list es' => exact absurd (he.quote.1.symm.trans hhead) (Lexer.quoteLabel_ne s)
  | list es ih =>
    intro e' depth rest rest' he he' hrest hrest' h
    obtain ⟨hhead, hbelow⟩ := shape_inj h
    cases e' with
    | leaf l' => exact absurd hhead.symm he'.leaf.ne.1
    | quote op e' => exact absurd (he'.quote.1.symm.trans hhead.symm) (Lexer.quoteLabel_ne s)
    | list es' =>
      obtain ⟨rfl, hend⟩ := recoversAll ih he.list he'.list hrest hrest' hbelow
      exact ⟨rfl, hend⟩

/-- expressions with the same shape are the same -/
theorem eq_of_shape {e e' : Expr} (he : e.Lexed s) (he' : e'.Lexed s) (h : e.shape 0 = e'.shape 0) : e = e' := by
  have hnone : NoDeeper 0 [] := by simp [NoDeeper]
  exact (recovers s e e' 0 [] [] he he' hnone hnone (by rw [h])).1

end Expr

namespace Reader

/-- **The listing is faithful.** Under proper settings, and whatever two sources and two arenas are: if an expression that
the reader delivers from the first source has the same listing as one that it delivers from the second, at once or with
whatever frames have come into the arenas since, then it is the same expression: both frames hold it, and the tokens of
both write it. So shapes, kinds and values agree, and floating-point numbers agree in all bits. -/
theorem listing_faithful (hs : s.Proper) {src src' : CharSource} {a a' : Arena} {n n' : Nat} {t t' : Turn} {h h' : Handle}
    (ht : t ∈ turns s.maxDepth n a (src.tokens s)) (hh : t.call.outcome = .expression h)
    (ht' : t' ∈ turns s.maxDepth n' a' (src'.tokens s)) (hh' : t'.call.outcome = .expression h')
    (later later' : List Frame) {text : String} (htext : (t.call.arena.extend later).listing h = .ok text)
    (htext' : (t'.call.arena.extend later').listing h' = .ok text) :
    ∃ e, Holds (t.call.arena.extend later) h e ∧ Holds (t'.call.arena.extend later') h' e ∧
      ∃ p p' : List (Located Token), t.tokens = p.map .ok ++ t.call.rest ∧ t'.tokens = p'.map .ok ++ t'.call.rest ∧
        p.map Located.item = e.tokens ∧ p'.map Located.item = e.tokens := by
  obtain ⟨p, e, htokens, hp, -, hlexed, hshows⟩ := exists_expr_of_turn ht hh
  obtain ⟨p', e', htokens', hp', -, hlexed', hshows'⟩ := exists_expr_of_turn ht' hh'
  have hrows : String.join ((e.outline h.index .root 0).map Listing.row) =
      String.join ((e'.outline h'.index .root 0).map Listing.row) := by
    apply Except.ok.inj
    calc (.ok (String.join ((e.outline h.index .root 0).map Listing.row)) : Except Stop String)
        = (t.call.arena.extend later).listing h := (Listing.listing_of_shows (hshows later)).symm
      _ = (t'.call.arena.extend later').listing h' := htext.trans htext'.symm
      _ = .ok (String.join ((e'.outline h'.index .root 0).map Listing.row)) :=
        Listing.listing_of_shows (hshows' later')
  have hshapes := Listing.rows_injective hs (legible_outline hlexed _) (legible_outline hlexed' _) hrows
  rw [e.shape_outline, e'.shape_outline] at hshapes
  obtain rfl := Expr.eq_of_shape hlexed hlexed' hshapes
  exact ⟨e, holds_of_shows e _ (hshows later), holds_of_shows e _ (hshows' later'), p, p', htokens, htokens', hp, hp'⟩

/-- the same list, written with other blanks and with a symbol behind it -/
theorem listing_faithful_blanks :
    let src : CharSource := ⟨['(', 'a', ')'], none⟩
    let src' : CharSource := ⟨['(', ' ', 'a', '\n', ')', 'b'], none⟩
    let t : Turn := ⟨.empty, src.tokens .default, next 500 .empty (src.tokens .default)⟩
    let t' : Turn := ⟨.empty, src'.tokens .default, next 500 .empty (src'.tokens .default)⟩
    Settings.default.Proper ∧ (t ∈ turns 500 1 .empty (src.tokens .default) ∧ t.call.outcome = .expression ⟨0⟩) ∧
      (t' ∈ turns 500 1 .empty (src'.tokens .default) ∧ t'.call.outcome = .expression ⟨0⟩) ∧
      (∃ text, t.call.arena.listing ⟨0⟩ = .ok text ∧ t'.call.arena.listing ⟨0⟩ = .ok text) ∧
      ∃ e, Holds t.call.arena ⟨0⟩ e ∧ Holds t'.call.arena ⟨0⟩ e := by
  intro src src' t t'
  have hs : Settings.default.Proper := by decide
  have ht : t ∈ turns 500 1 .empty (src.tokens .default) := List.mem_singleton.2 rfl
  have ht' : t' ∈ turns 500 1 .empty (src'.tokens .default) := List.mem_singleton.2 rfl
  have hh : t.call.outcome = .expression ⟨0⟩ := by rfl
  have hh' : t'.call.outcome = .expression ⟨0⟩ := by rfl
  have harena : t'.call.arena = t.call.arena := by rfl
  obtain ⟨-, e, -, -, -, -, hshows⟩ := exists_expr_of_turn (s := .default) ht hh
  have htext := Listing.listing_of_shows (hshows [])
  have htext' := htext
  rw [← harena] at htext'
  obtain ⟨e', he, he', -⟩ := listing_faithful hs ht hh ht' hh' [] [] htext htext'
  rw [Arena.extend_nil] at htext htext' he he'
  exact ⟨hs, ⟨ht, hh⟩, ⟨ht', hh'⟩, ⟨_, htext, htext'⟩, e', he, he'⟩

end Reader

end FrameGraph
