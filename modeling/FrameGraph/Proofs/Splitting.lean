/-
Words are cut to their end.

A leaf takes at least one character, so cutting a word comes to an end, and it comes to the end of the word: the rule for symbols
refuses nothing, and a rule that matches a text makes a leaf of it. The rule for symbols takes all that is left, so only the last
piece of a word can be a symbol.

Results:
- `exists_cut`: every word has a cut into pieces, each with its leaf.
- `Cut.leaves_eq`: the leaves of a word are those of its pieces, each as many columns further on as the pieces before it have
  characters.
- `Cut.split`: in a cut, every piece is what the rules take of the rest of the word.
- `words_split_completely`: so words are cut completely, and the only error of a source is that of its decoding.
-/
import FrameGraph.Proofs.LineEnds
import FrameGraph.Proofs.Literals

namespace FrameGraph

namespace Position

theorem right_zero (p : Position) : p.right 0 = p := by
  simp [right]

theorem right_right (p : Position) (m n : Nat) : (p.right m).right n = p.right (m + n) := by
  simp only [right, UInt32.ofNat_add, UInt32.add_assoc]

end Position

/-- a piece of a word, and the label of the leaf that it makes -/
structure Piece where
  text : List Char
  label : Label
  deriving DecidableEq, Repr

namespace Word

/-- the text that pieces were cut from -/
def joined (pieces : List Piece) : List Char := pieces.flatMap Piece.text

/-- a word cut up: each piece is what the rules take of the text from it on -/
inductive Cut : List Piece → Prop where
  | nil : Cut []
  | cons {x : Piece} {later : List Piece} (hx : classify (joined (x :: later)) = some ⟨x.label, x.text.length⟩)
    (h : Cut later) : Cut (x :: later)

theorem joined_cons (x : Piece) (later : List Piece) : joined (x :: later) = x.text ++ joined later := List.flatMap_cons

theorem exists_cut (w : List Char) : ∃ pieces, Cut pieces ∧ joined pieces = w := by
  induction w using leafInduction with
  | nil => exact ⟨[], .nil, rfl⟩
  | leaf u v x _ hx ih =>
    obtain ⟨later, hlater, hjoined⟩ := ih
    have hw : joined (⟨u, x⟩ :: later) = u ++ v := by rw [joined_cons, hjoined]
    exact ⟨⟨u, x⟩ :: later, .cons (hw ▸ hx) hlater, hw⟩

/-- tokens of pieces that stand one behind the other from `p` on -/
def tokensFrom (p : Position) : List Piece → TokenStream
  | [] => []
  | x :: later => .ok ⟨.leaf x.label, p⟩ :: tokensFrom (p.right x.text.length) later

theorem length_tokensFrom (p : Position) (pieces : List Piece) : (tokensFrom p pieces).length = pieces.length := by
  induction pieces generalizing p with
  | nil => rfl
  | cons x later ih => rw [tokensFrom, List.length_cons, List.length_cons, ih]

/-- a piece stands as many columns to the right as the pieces before it have characters -/
theorem getElem?_tokensFrom (p : Position) (before : List Piece) (x : Piece) (after : List Piece) :
    (tokensFrom p (before ++ x :: after))[before.length]? = some (.ok ⟨.leaf x.label, p.right (joined before).length⟩) := by
  induction before generalizing p with
  | nil =>
    show some _ = some _
    rw [show (joined []).length = 0 from rfl, Position.right_zero]
  | cons y before ih =>
    rw [List.cons_append, tokensFrom, List.length_cons, List.getElem?_cons_succ, ih, Position.right_right, joined_cons,
      List.length_append]

namespace Cut

variable {pieces before after : List Piece} {x : Piece}

theorem leaves_eq (h : Cut pieces) (p : Position) : leaves (joined pieces) p = tokensFrom p pieces := by
  induction h generalizing p with
  | nil => rfl
  | @cons x later hx _ ih =>
    rw [joined_cons] at hx ⊢
    rw [leaves_append hx, ih]
    rfl

theorem split (h : Cut (before ++ x :: after)) :
    classify (joined (x :: after)) = some ⟨x.label, x.text.length⟩ := by
  induction before with
  | nil =>
    cases h with
    | cons hx _ => exact hx
  | cons y before ih =>
    cases h with
    | cons _ h => exact ih h

theorem text_ne_nil (h : Cut (before ++ x :: after)) : x.text ≠ [] := by
  have hpos := (classify_bounds h.split).1
  exact List.length_pos_iff.1 hpos

/-- what a piece makes is of the kind of a rule, and is what the piece denotes in the pattern of this rule -/
theorem exists_rule (h : Cut (before ++ x :: after)) :
    ∃ r : Rule, x.text ∈ r.pattern ∧ x.label.kind = r.kind ∧ r.denotes x.text = some x.label.value := by
  obtain ⟨_, r, _, -, -, hmatch, hkind, hvalue⟩ := classify_eq_some_iff.1 h.split
  have htext : (joined (x :: after)).take x.text.length = x.text := by
    rw [joined_cons]
    exact List.take_left
  have hmem := Rule.mem_pattern_of_matchLength hmatch
  rw [htext] at hmem hvalue
  exact ⟨r, hmem, hkind, hvalue⟩

/-- a symbol takes all that is left of the word, and a piece behind it would not be empty -/
theorem last_of_symbol (h : Cut (before ++ x :: after)) (hkind : x.label.kind = .symbol) : after = [] := by
  obtain ⟨-, hlength⟩ := whole_of_symbol h.split hkind
  rw [joined_cons, List.length_append] at hlength
  cases after with
  | nil => rfl
  | cons y after =>
    have hbehind : Cut ((before ++ [x]) ++ y :: after) := by
      rwa [List.append_assoc, List.singleton_append]
    have hpos := List.length_pos_iff.2 hbehind.text_ne_nil
    rw [joined_cons, List.length_append] at hlength
    omega

theorem kind_of_not_last (h : Cut (before ++ x :: after)) (hafter : after ≠ []) :
    x.label.kind = .number ∨ x.label.kind = .hex ∨ x.label.kind = .bin ∨ x.label.kind = .integer := by
  obtain ⟨r, -, hkind, -⟩ := h.exists_rule
  cases r with
  | exponent => exact .inl hkind
  | decimal => exact .inl hkind
  | hex => exact .inr (.inl hkind)
  | bin => exact .inr (.inr (.inl hkind))
  | integer => exact .inr (.inr (.inr hkind))
  | symbol => exact absurd (h.last_of_symbol hkind) hafter

end Cut

end Word

/-- the only error of a source is that of its decoding -/
theorem eq_decode_of_mem_tokens {s : Settings} {src : CharSource} {e : Located LexError} (he : .error e ∈ src.tokens s) :
    ∃ fault, src.fault = some fault ∧ e.item = .decode fault := by
  obtain ⟨cs, fault⟩ := src
  cases fault with
  | none =>
    obtain ⟨p, -, htokens⟩ := tokens_text s cs
    rw [htokens] at he
    simp at he
  | some fault =>
    obtain ⟨p, -, htokens⟩ := tokens_fault s cs fault
    rw [htokens, List.mem_append, List.mem_singleton] at he
    rcases he with he | he
    · simp at he
    · obtain rfl := Except.error.inj he
      exact ⟨fault, rfl, rfl⟩

/-- **Words are split completely.** Cutting a word comes to an end, after no more steps than the word has characters, and yields
no error: its leaves are those of pieces which are not empty and make up the word. A piece is what the rules take of the text from
it on, and its leaf is what it denotes in the pattern of a rule; it stands as many columns behind the start of the word as the
pieces before it have characters; and if it is not the last one, it is a number, a hexadecimal, binary or decimal integer. So under
any settings, the tokens of a source have no error but that of its decoding, and none if it does not break off. -/
theorem words_split_completely :
    (∀ (w : List Char) (p : Position), w ≠ [] →
      (∀ n, w.length ≤ n → Word.leavesFrom n w p = Word.leaves w p) ∧
      ∃ pieces : List Piece, pieces ≠ [] ∧ Word.joined pieces = w ∧ (Word.leaves w p).length = pieces.length ∧
        ∀ before x after, pieces = before ++ x :: after →
          x.text ≠ [] ∧
          (Word.leaves w p)[before.length]? = some (.ok ⟨.leaf x.label, p.right (Word.joined before).length⟩) ∧
          Word.classify (Word.joined (x :: after)) = some ⟨x.label, x.text.length⟩ ∧
          (∃ r : Rule, x.text ∈ r.pattern ∧ x.label.kind = r.kind ∧ r.denotes x.text = some x.label.value) ∧
          (after ≠ [] →
            x.label.kind = .number ∨ x.label.kind = .hex ∨ x.label.kind = .bin ∨ x.label.kind = .integer)) ∧
    ∀ (s : Settings) (src : CharSource),
      (∀ e, .error e ∈ src.tokens s →
        (∀ word, e.item ≠ .unmatched word) ∧ ∃ fault, src.fault = some fault ∧ e.item = .decode fault) ∧
      (src.fault = none → ∃ ts : List (Located Token), src.tokens s = ts.map .ok) := by
  refine ⟨?_, ?_⟩
  · intro w p hne
    refine ⟨fun n hn => Word.leavesFrom_congr hn le_rfl p, ?_⟩
    obtain ⟨pieces, hcut, hjoined⟩ := Word.exists_cut w
    have hleaves : Word.leaves w p = Word.tokensFrom p pieces := by rw [← hjoined, hcut.leaves_eq]
    refine ⟨pieces, ?_, hjoined, ?_, ?_⟩
    · rintro rfl
      exact hne hjoined.symm
    · rw [hleaves, Word.length_tokensFrom]
    · rintro before x after rfl
      refine ⟨hcut.text_ne_nil, ?_, hcut.split, hcut.exists_rule, hcut.kind_of_not_last⟩
      rw [hleaves]
      exact Word.getElem?_tokensFrom p before x after
  · intro s src
    refine ⟨?_, ?_⟩
    · intro e he
      obtain ⟨fault, hfault, hitem⟩ := eq_decode_of_mem_tokens he
      refine ⟨fun word => ?_, fault, hfault, hitem⟩
      rw [hitem]
      exact LexError.noConfusion
    · intro hfault
      obtain ⟨cs, fault⟩ := src
      obtain rfl : fault = none := hfault
      obtain ⟨ts, -, htokens⟩ := tokens_text s cs
      exact ⟨ts, htokens⟩

/-- a word of three leaves, and a source that breaks off behind one -/
theorem words_split_completely_mixed :
    let w := ['0', 'b', '1', '2', 'x']
    let p : Position := ⟨3, 7⟩
    let src : CharSource := ⟨['a', ' '], some (.invalidUtf8 [0xFF])⟩
    let e : Located LexError := ⟨.decode (.invalidUtf8 [0xFF]), ⟨0, 1⟩⟩
    w ≠ [] ∧ w.length ≤ 9 ∧ Word.leavesFrom 9 w p = Word.leaves w p ∧
    (∃ x y z : Piece, Word.joined [x, y, z] = w ∧ y.text ≠ [] ∧ [z] ≠ [] ∧
      (Word.leaves w p)[1]? = some (.ok ⟨.leaf y.label, p.right (Word.joined [x]).length⟩) ∧
      (y.label.kind = .number ∨ y.label.kind = .hex ∨ y.label.kind = .bin ∨ y.label.kind = .integer)) ∧
    .error e ∈ src.tokens .default ∧ (∃ fault, src.fault = some fault ∧ e.item = .decode fault) ∧
    ∃ ts : List (Located Token), (⟨w, none⟩ : CharSource).tokens .default = ts.map .ok := by
  intro w p src e
  have hne : w ≠ [] := by decide
  have hlength : w.length ≤ 9 := by decide
  have he : .error e ∈ src.tokens .default := by decide
  obtain ⟨hwords, hsources⟩ := words_split_completely
  obtain ⟨hbound, pieces, -, hjoined, hpieces, hsplit⟩ := hwords w p hne
  have hthree : pieces.length = 3 := by
    rw [← hpieces]
    decide
  obtain ⟨x, y, z, rfl⟩ := List.length_eq_three.1 hthree
  obtain ⟨htext, hleaf, -, -, hkind⟩ := hsplit [x] y [z] rfl
  exact ⟨hne, hlength, hbound 9 hlength, ⟨x, y, z, hjoined, htext, by simp, hleaf, hkind (by simp)⟩, he,
    ((hsources .default src).1 e he).2, (hsources .default ⟨w, none⟩).2 rfl⟩

end FrameGraph
