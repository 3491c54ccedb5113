/-
How words are cut into leaves.

Every rule matches at least one character and none that is not there, and the rule for symbols leaves no word unmatched.
So cutting goes on to the end of a word, each leaf takes a piece of it, and no piece is empty.

Results:
- `matchLength_bounds`: what a rule matches is a beginning of the word that is not empty.
- `exists_classify`: every word has a leaf at its start.
- `leaves_cons`: the leaves of a word are the one at its start and those of the rest, which starts as many columns
  further on as the first leaf has characters.
- `leafInduction`: induction on a word, leaf by leaf.
-/
import FrameGraph.Token.Lexer
import Mathlib.Tactic

namespace FrameGraph

namespace Word

/-! ## What a rule matches -/

theorem signLength_le (cs : List Char) : signLength cs ≤ cs.length := by
  unfold signLength
  split <;> simp

theorem run_bounds {p : Char → Bool} {cs : List Char} {n : Nat} (h : run p cs = some n) : 0 < n ∧ n ≤ cs.length := by
  have hle : (cs.takeWhile p).length ≤ cs.length := (List.takeWhile_prefix p).length_le
  unfold run at h
  split at h
  · cases h
  · next m hm =>
    obtain rfl := Option.some.inj h
    omega

theorem signedDigits_bounds {cs : List Char} {n : Nat} (h : signedDigits cs = some n) : 0 < n ∧ n ≤ cs.length := by
  obtain ⟨m, hm, rfl⟩ := Option.map_eq_some_iff.1 h
  have hrun := run_bounds hm
  have hsign := signLength_le cs
  rw [List.length_drop] at hrun
  omega

/-- what follows the digits that a word starts with -/
theorem length_of_drop {cs rest : List Char} {c : Char} {n : Nat} (h : cs.drop n = c :: rest) :
    n + 1 + rest.length = cs.length := by
  have := congrArg List.length h
  rw [List.length_drop, List.length_cons] at this
  omega

theorem exponentForm_bounds {cs : List Char} {n : Nat} (h : exponentForm cs = some n) : 0 < n ∧ n ≤ cs.length := by
  obtain ⟨m, -, hrest⟩ := Option.bind_eq_some_iff.1 h
  have hmark {c : Char} {rest : List Char} (hdrop : cs.drop m = c :: rest)
      (hdigits : (signedDigits rest).map (m + 1 + ·) = some n) : 0 < n ∧ n ≤ cs.length := by
    obtain ⟨k, hk, rfl⟩ := Option.map_eq_some_iff.1 hdigits
    have := length_of_drop hdrop
    have := signedDigits_bounds hk
    omega
  split at hrest
  · next hdrop => exact hmark hdrop hrest
  · next hdrop => exact hmark hdrop hrest
  · cases hrest

theorem pointForm_bounds {cs : List Char} {n : Nat} (h : pointForm cs = some n) : 0 < n ∧ n ≤ cs.length := by
  obtain ⟨m, -, hrest⟩ := Option.bind_eq_some_iff.1 h
  split at hrest
  · next rest hdrop =>
    obtain rfl := Option.some.inj hrest
    have := length_of_drop hdrop
    have : (rest.takeWhile Char.isDigit).length ≤ rest.length := (List.takeWhile_prefix _).length_le
    omega
  · cases hrest

theorem hexForm_bounds {cs : List Char} {n : Nat} (h : hexForm cs = some n) : 0 < n ∧ n ≤ cs.length := by
  unfold hexForm at h
  split at h
  · obtain ⟨k, hk, rfl⟩ := Option.map_eq_some_iff.1 h
    have := run_bounds hk
    simp only [List.length_cons]
    omega
  · cases h

theorem binForm_bounds {cs : List Char} {n : Nat} (h : binForm cs = some n) : 0 < n ∧ n ≤ cs.length := by
  unfold binForm at h
  split at h
  · obtain ⟨k, hk, rfl⟩ := Option.map_eq_some_iff.1 h
    have := run_bounds hk
    simp only [List.length_cons]
    omega
  · cases h

theorem whole_eq_some {cs : List Char} {n : Nat} : whole cs = some n ↔ cs ≠ [] ∧ n = cs.length := by
  unfold whole
  cases cs with
  | nil => simp
  | cons c cs => simp [eq_comm]

end Word

/-- a rule matches a beginning of the word that is not empty -/
theorem Rule.matchLength_bounds {r : Rule} {cs : List Char} {n : Nat} (h : r.matchLength cs = some n) :
    0 < n ∧ n ≤ cs.length := by
  cases r with
  | exponent => exact Word.exponentForm_bounds h
  | decimal => exact Word.pointForm_bounds h
  | hex => exact Word.hexForm_bounds h
  | bin => exact Word.binForm_bounds h
  | integer => exact Word.signedDigits_bounds h
  | symbol =>
    obtain ⟨hne, rfl⟩ := Word.whole_eq_some.1 h
    exact ⟨List.length_pos_iff.2 hne, le_rfl⟩

theorem Rule.leaf?_bounds {r : Rule} {cs : List Char} {x : Leaf} (h : r.leaf? cs = some x) :
    0 < x.length ∧ x.length ≤ cs.length := by
  obtain ⟨n, hn, hv⟩ := Option.bind_eq_some_iff.1 h
  obtain ⟨v, -, rfl⟩ := Option.map_eq_some_iff.1 hv
  exact matchLength_bounds hn

namespace Word

/-! ## Leaves -/

theorem classify_bounds {cs : List Char} {x : Leaf} (h : classify cs = some x) : 0 < x.length ∧ x.length ≤ cs.length := by
  obtain ⟨r, -, hr⟩ := List.exists_of_findSome?_eq_some h
  exact Rule.leaf?_bounds hr

/-- the rule for symbols takes what no other rule does -/
theorem exists_classify {cs : List Char} (hne : cs ≠ []) : ∃ x, classify cs = some x := by
  rw [← Option.isSome_iff_exists, classify, List.findSome?_isSome_iff]
  refine ⟨.symbol, by simp [Rule.all], ?_⟩
  simp [Rule.leaf?, Rule.matchLength, whole_eq_some.2 ⟨hne, rfl⟩, Rule.value?]

/-- as many steps as there are characters are enough -/
theorem leavesFrom_congr {m n : Nat} {cs : List Char} (hm : cs.length ≤ m) (hn : cs.length ≤ n) (p : Position) :
    leavesFrom m cs p = leavesFrom n cs p := by
  induction m generalizing n cs p with
  | zero =>
    obtain rfl : cs = [] := List.length_eq_zero_iff.1 (Nat.le_zero.1 hm)
    cases n <;> simp [leavesFrom]
  | succ m ih =>
    cases n with
    | zero =>
      obtain rfl : cs = [] := List.length_eq_zero_iff.1 (Nat.le_zero.1 hn)
      simp [leavesFrom]
    | succ n =>
      simp only [leavesFrom]
      cases hx : classify cs with
      | none => rfl
      | some x =>
        have hpos := classify_bounds hx
        have hrest : (cs.drop x.length).length + 1 ≤ cs.length := by rw [List.length_drop]; omega
        simp only [ih (show (cs.drop x.length).length ≤ m by omega) (show (cs.drop x.length).length ≤ n by omega)]

/-- the leaf at the start of a word, and the leaves of what it leaves of the word -/
theorem leaves_cons {cs : List Char} {x : Leaf} (hx : classify cs = some x) (p : Position) :
    leaves cs p = .ok ⟨.leaf x.label, p⟩ :: leaves (cs.drop x.length) (p.right x.length) := by
  obtain ⟨hpos, hle⟩ := classify_bounds hx
  obtain ⟨n, hn⟩ : ∃ n, cs.length = n + 1 := ⟨cs.length - 1, by omega⟩
  have hne : cs.isEmpty = false := by
    cases cs with
    | nil => simp at hn
    | cons c cs => rfl
  have hrest : (cs.drop x.length).length ≤ n := by rw [List.length_drop]; omega
  rw [leaves, hn, leavesFrom, hne, if_neg Bool.false_ne_true, hx]
  simp only [leaves, leavesFrom_congr hrest le_rfl]

/-- **Words from their leaves.** What is true of the empty word, and of a word if it is of what its first leaf leaves, is true of
every word. -/
@[elab_as_elim]
theorem leafInduction {motive : List Char → Prop} (nil : motive [])
    (leaf : ∀ (u v : List Char) (x : Label), u ≠ [] → classify (u ++ v) = some ⟨x, u.length⟩ → motive v → motive (u ++ v))
    (w : List Char) : motive w := by
  induction hn : w.length using Nat.strong_induction_on generalizing w with
  | _ n ih =>
    by_cases hne : w = []
    · exact hne ▸ nil
    obtain ⟨⟨x, k⟩, hx⟩ := exists_classify hne
    obtain ⟨hpos, hle⟩ : 0 < k ∧ k ≤ w.length := classify_bounds hx
    -- the first leaf takes `u` and leaves `v`
    obtain ⟨u, v, rfl, rfl⟩ : ∃ u v, w = u ++ v ∧ u.length = k :=
      ⟨w.take k, w.drop k, (List.take_append_drop k w).symm, List.length_take_of_le hle⟩
    have hshorter : v.length < n := by
      rw [← hn, List.length_append]
      omega
    exact leaf u v x (List.length_pos_iff.1 hpos) hx (ih v.length hshorter v rfl)

/-- the leaf that takes `u`, and the leaves of what it leaves -/
theorem leaves_append {u v : List Char} {x : Label} (hx : classify (u ++ v) = some ⟨x, u.length⟩) (p : Position) :
    leaves (u ++ v) p = .ok ⟨.leaf x, p⟩ :: leaves v (p.right u.length) := by
  rw [leaves_cons hx, List.drop_left]

end Word

end FrameGraph
