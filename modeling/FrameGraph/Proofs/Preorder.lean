/-
Listings of what was read are plain preorder listings.

An expression that the reader delivers stands in the arena as its frames, one behind the other, and no later call changes
them; so its listing is its outline, at once and ever after. An item of the outline is found from the tokens alone: its
handle by counting the tokens before it that take frames, its depth and its place by the constructs that these tokens leave
open.

Results:
- `exists_expr_of_turn`: what a turn delivers is an expression of lexed tokens, laid out from its handle on.
- `legible_outline`: everything that its outline shows can be read off a listing.
- `outline_item`: the item of a token is found from the tokens before it.
- `listing_preorder`: the k-th entry of the listing stands for the k-th token that takes a frame.
-/
import FrameGraph.Proofs.Calls
import FrameGraph.Proofs.Lines

namespace FrameGraph.Reader

open Grammar

variable {s : Settings} {src : CharSource} {a : Arena} {n : Nat} {t : Turn} {h : Handle}

/-- an expression that a turn delivers: its tokens, which are lexed, and its frames, which stay in the arena -/
theorem exists_expr_of_turn (ht : t ∈ turns s.maxDepth n a (src.tokens s)) (hh : t.call.outcome = .expression h) :
    ∃ (p : List (Located Token)) (e : Expr), t.tokens = p.map .ok ++ t.call.rest ∧ p.map Located.item = e.tokens ∧
      e.nesting ≤ s.maxDepth ∧ (∀ u ∈ e.tokens, u.Lexed s) ∧
      ∀ later : List Frame, (t.call.arena.extend later).Shows h.index (e.frames h.index) := by
  obtain ⟨hcall, hsuffix⟩ := turns_suffix ht
  rw [hcall] at hh ⊢
  obtain ⟨rfl, e, hparse, harena⟩ := next_expression_iff.1 ⟨hh, rfl⟩
  obtain ⟨p, htokens, hp, hnesting⟩ := parse_expression_iff.1 hparse
  refine ⟨p, e, htokens, hp, hnesting, ?_, ?_⟩
  · intro u hu
    rw [← hp] at hu
    obtain ⟨v, hv, rfl⟩ := List.mem_map.1 hu
    apply lexed_tokens s src
    apply hsuffix.subset
    rw [htokens]
    exact List.mem_append_left _ (List.mem_map_of_mem hv)
  · intro later
    rw [harena, Arena.plant, Arena.extend_extend]
    exact (t.before.shows_extend _).left

/-- the labels of lexed tokens are lexed -/
theorem legible_outline {e : Expr} (he : ∀ u ∈ e.tokens, u.Lexed s) (n : Nat) :
    Listing.Legible s (e.outline n .root 0) := by
  intro x hx
  refine ⟨Listing.inside_outline e n .root 0 .root x hx, ?_⟩
  have hlabel : x.2 ∈ Expr.labels e.tokens := by
    rw [← e.labels_outline n .root 0]
    exact List.mem_map_of_mem hx
  obtain ⟨u, hu, hul⟩ := List.mem_filterMap.1 hlabel
  exact (he u hu).label hul

/-- the item of a token of an expression: its handle is counted off the tokens before it, and its depth and its place are
those of the constructs that they leave open -/
theorem outline_item {e : Expr} {q r : List (Located Token)} {u : Located Token} {l : Label}
    (h : (q ++ u :: r).map Located.item = e.tokens) (hl : u.item.label? = some l) (n : Nat) :
    ∃ inner, LeavesOpen inner q ∧ inner.length ≤ e.nesting ∧
      (e.outline n .root 0)[Expr.room (q.map Located.item)]? =
        some (⟨placeIn inner, ⟨n + Expr.room (q.map Located.item)⟩, inner.length⟩, l) := by
  obtain ⟨x, hx, inner, hinner, rfl⟩ := outline_of_leavesOpen e [] [] q r u l n .nil h hl
  rw [List.nil_append] at hinner
  have hproper : q.map Located.item <+: e.tokens ∧ q.map Located.item ≠ e.tokens := by
    rw [← h, List.map_append]
    exact ⟨List.prefix_append _ _, by simp⟩
  obtain ⟨stack, hstack, hdepth⟩ := leavesOpen_of_proper hproper.1 hproper.2
  obtain rfl := leavesOpen_unique hstack hinner
  exact ⟨stack, hinner, (length_le_depth stack).trans hdepth, hx⟩

/-- **The listing of what was read is a plain preorder listing.** Whatever is in the arena before and comes into it later,
the listing of an expression that the reader delivers from the tokens of a source has an entry for each token of the
expression that takes a frame, in the order of the tokens, and no others, and it shows no mark. With `k` such tokens before
it, the entry of a token is the one at `k`; it shows the frame at the handle of the expression and `k` more, which carries
the label of the token, at a depth that is the number of lists and quotes that the tokens before it leave open, and in the
place behind the elements that the innermost of them has so far. -/
theorem listing_preorder (ht : t ∈ turns s.maxDepth n a (src.tokens s)) (hh : t.call.outcome = .expression h)
    (later : List Frame) :
    let b := t.call.arena.extend later
    let es := Listing.entries b h
    ∃ (p : List (Located Token)) (e : Expr), t.tokens = p.map .ok ++ t.call.rest ∧ p.map Located.item = e.tokens ∧
      b.listing h = .ok (String.join (es.map (Listing.line b))) ∧
      (∀ entry ∈ es, entry.again = false) ∧
      ¬ Listing.marker.toList <:+: (String.join (es.map (Listing.line b))).toList ∧
      es.length = Expr.room (p.map Located.item) ∧
      ∀ q u r l, p = q ++ u :: r → u.item.label? = some l →
        let k := Expr.room (q.map Located.item)
        ∃ inner, LeavesOpen inner q ∧ inner.length ≤ s.maxDepth ∧
          let m : Mention := ⟨placeIn inner, ⟨h.index + k⟩, inner.length⟩
          es[k]? = some ⟨m, false⟩ ∧ (b.frame? ⟨h.index + k⟩).map Frame.label = some l ∧
          Listing.line b ⟨m, false⟩ = Listing.row (m, l) := by
  intro b es
  obtain ⟨p, e, htokens, hp, hnesting, hlexed, hshows⟩ := exists_expr_of_turn ht hh
  have hshow : b.Shows h.index (e.frames h.index) := hshows later
  have hentries : es = Listing.unmarked (e.outline h.index .root 0) := Listing.entries_of_shows hshow
  have htext : b.listing h = .ok (String.join ((e.outline h.index .root 0).map Listing.row)) :=
    Listing.listing_of_shows hshow
  have hjoin : b.listing h = .ok (String.join (es.map (Listing.line b))) := by
    rw [hentries]
    exact (Listing.trail_of_shows hshow).listing_eq
  have hrows : String.join (es.map (Listing.line b)) = String.join ((e.outline h.index .root 0).map Listing.row) :=
    Except.ok.inj (hjoin.symm.trans htext)
  refine ⟨p, e, htokens, hp, hjoin, ?_, ?_, ?_, ?_⟩
  · intro entry hentry
    rw [hentries] at hentry
    obtain ⟨x, -, rfl⟩ := List.mem_map.1 hentry
    rfl
  · rw [hrows]
    exact Listing.marker_notMem_rows (legible_outline hlexed h.index)
  · rw [hentries, Listing.unmarked, List.length_map, Expr.length_outline, hp]
    rfl
  · intro q u r l hq hl k
    obtain ⟨inner, hinner, hdepth, hx⟩ := outline_item (hq ▸ hp) hl h.index
    obtain ⟨-, f, hf, rfl⟩ := Listing.frame?_of_outline hshow hx
    refine ⟨inner, hinner, hdepth.trans hnesting, ?_, ?_, Listing.line_eq_row hf⟩
    · rw [hentries, Listing.unmarked, List.getElem?_map]
      exact congrArg _ hx
    · exact congrArg (Option.map Frame.label) hf

/-- a quoted list with one element -/
theorem listing_preorder_nested :
    let src : CharSource := ⟨['(', '\x60', 'a', ')'], none⟩
    let t : Turn := ⟨.empty, src.tokens .default, next 500 .empty (src.tokens .default)⟩
    t ∈ turns 500 1 .empty (src.tokens .default) ∧ t.call.outcome = .expression ⟨0⟩ ∧
      ∃ (p : List (Located Token)) (e : Expr), t.tokens = p.map .ok ++ t.call.rest ∧ p.map Located.item = e.tokens ∧
        (Listing.entries t.call.arena ⟨0⟩).length = Expr.room (p.map Located.item) := by
  intro src t
  have ht : t ∈ turns 500 1 .empty (src.tokens .default) := List.mem_singleton.2 rfl
  have hh : t.call.outcome = .expression ⟨0⟩ := by rfl
  refine ⟨ht, hh, ?_⟩
  obtain ⟨p, e, htokens, hp, -, -, -, hlength, -⟩ := listing_preorder (s := .default) ht hh []
  rw [Arena.extend_nil] at hlength
  exact ⟨p, e, htokens, hp, hlength⟩

end FrameGraph.Reader
