/-
Which tokens a source can have, under any settings.

A leaf carries a number, in the kind of its rule, or a symbol of word characters; the rules for numbers match texts that
begin with a digit behind their sign, so no leaf is a float that is no number. A quote token carries the quote mark. A token
is made while the source is read and kept from then on, so this is an invariant of the lexer (`Lexer.Sound`), from the first
character to the end of the source or to where it breaks off.

Results:
- `Binary64.isNaN_of_read`: what is read from a text that begins with a digit is a number or infinite.
- `lexeme_of_classify`: the first leaf of a word is a lexeme.
- `Lexer.Sound.step`, `Lexer.sound_after`: a character, and so a text, keeps the invariant.
- `lexed_tokens`: all tokens of a source are lexed.
-/
import FrameGraph.Proofs.Words

namespace FrameGraph

/-! ## Floating-point literals -/

namespace Binary64

/-- a sign and bits that are at most those of infinity make no NaN -/
theorem isNaN_ofMagnitude (negative : Bool) {m : Nat} (hm : m ≤ infinityBits) : (ofMagnitude negative m).isNaN = false := by
  have hpow : Nat.pow 2 63 = 2 ^ 63 := rfl
  have hbound : infinityBits < 2 ^ 63 := by decide
  have hbits : (ofMagnitude negative m).magnitudeBits = m := by
    rw [magnitudeBits, ofMagnitude, hpow]
    cases negative
    · have hm' : m < 2 ^ 64 := by omega
      rw [if_neg Bool.false_ne_true, UInt64.toNat_ofNat', Nat.mod_eq_of_lt hm', Nat.mod_eq_of_lt (by omega)]
    · have hm' : 2 ^ 63 + m < 2 ^ 64 := by omega
      rw [if_pos rfl, UInt64.toNat_ofNat', Nat.mod_eq_of_lt hm', Nat.add_mod_left, Nat.mod_eq_of_lt (by omega)]
  rw [isNaN, hbits, decide_eq_false_iff_not]
  omega

theorem isNaN_ofDecimal (negative : Bool) (digits : Nat) (exponent : Int) :
    (ofDecimal negative digits exponent).isNaN = false := by
  unfold ofDecimal
  split_ifs
  · exact isNaN_ofMagnitude negative (Nat.zero_le _)
  · exact isNaN_ofMagnitude negative le_rfl
  · exact isNaN_ofMagnitude negative (Nat.zero_le _)
  · exact isNaN_ofMagnitude negative (Nat.min_le_left _ _)
  · exact isNaN_ofMagnitude negative (Nat.min_le_left _ _)

theorem exists_ofDecimal {negative : Bool} {cs : List Char} {x : Binary64} (hx : readDecimal negative cs = some x) :
    ∃ digits exponent, x = ofDecimal negative digits exponent := by
  unfold readDecimal at hx
  dsimp only at hx
  split at hx <;> split_ifs at hx
  all_goals
    obtain ⟨e, -, rfl⟩ := Option.map_eq_some_iff.1 hx
    exact ⟨_, _, rfl⟩

theorem toLower_of_isDigit {c : Char} (hc : c.isDigit = true) : c.toLower = c := by
  simp only [Char.isDigit, Bool.and_eq_true, decide_eq_true_eq] at hc
  have hlow : ¬ (c.val ≥ 'A'.val ∧ c.val ≤ 'Z'.val) := by
    rintro ⟨hA, -⟩
    have h9 := UInt32.le_iff_toNat_le.1 hc.2
    have hA := UInt32.le_iff_toNat_le.1 hA
    simp at h9 hA
    omega
  exact dif_neg hlow

/-- behind its sign, if it has one, the text begins with a digit -/
def BeginsWithDigit (cs : List Char) : Prop := ∃ c ds, (Digits.splitSign cs).2 = c :: ds ∧ c.isDigit = true

/-- of all texts only `nan` stands for no number -/
theorem isNaN_of_readStrict {cs : List Char} (hcs : BeginsWithDigit cs) {x : Binary64} (hx : readStrict cs = some x) :
    x.isNaN = false := by
  obtain ⟨c, ds, hrest, hc⟩ := hcs
  have hword : String.ofList (((Digits.splitSign cs).2).map Char.toLower) ≠ "nan" := by
    intro heq
    have hchars := congrArg String.toList heq
    rw [String.toList_ofList, hrest, List.map_cons] at hchars
    have hfirst : c.toLower = 'n' := (List.cons.inj hchars).1
    rw [toLower_of_isDigit hc] at hfirst
    subst hfirst
    exact absurd hc (by decide)
  simp only [readStrict] at hx
  split_ifs at hx
  · rw [← Option.some.inj hx]
    exact isNaN_ofMagnitude _ le_rfl
  · obtain ⟨digits, e, rfl⟩ := exists_ofDecimal hx
    exact isNaN_ofDecimal _ _ _

theorem BeginsWithDigit.append {cs : List Char} (h : BeginsWithDigit cs) (ds : List Char) : BeginsWithDigit (cs ++ ds) := by
  obtain ⟨c, rest, hrest, hc⟩ := h
  refine ⟨c, rest ++ ds, ?_, hc⟩
  unfold Digits.splitSign at *
  split at hrest <;> simp_all

theorem isNaN_of_read {cs : List Char} (hcs : BeginsWithDigit cs) {x : Binary64} (hx : read cs = some x) :
    x.isNaN = false := by
  unfold read at hx
  split_ifs at hx
  · exact isNaN_of_readStrict (hcs.append _) hx
  · exact isNaN_of_readStrict hcs hx

end Binary64

/-! ## Lexemes -/

/-- what a leaf carries -/
inductive Lexeme (s : Settings) : Label → Prop where
  | number {x : Binary64} (hx : x.isNaN = false) : Lexeme s ⟨.number, .number (.float x)⟩
  | integer {kind : Kind} {n : Int} (hk : kind ∈ [Kind.hex, .bin, .integer]) : Lexeme s ⟨kind, .number (.integer n)⟩
  | symbol {w : List Char} (hw : ∀ c ∈ w, Lexer.isWordChar s c = true) : Lexeme s ⟨.symbol, .text (String.ofList w)⟩

namespace Word

theorem snd_splitSign (cs : List Char) : (Digits.splitSign cs).2 = cs.drop (signLength cs) := by
  unfold Digits.splitSign signLength
  split <;> simp_all

theorem signLength_take (cs : List Char) (n : Nat) : signLength (cs.take (n + 1)) = signLength cs := by
  unfold signLength
  cases cs with
  | nil => rfl
  | cons c cs => split <;> simp_all

/-- digits with a sign begin with a digit behind the sign, and so does every beginning of the text that has them -/
theorem beginsWithDigit_take {cs : List Char} {m n : Nat} (h : signedDigits cs = some m) (hn : m < n) :
    Binary64.BeginsWithDigit (cs.take n) := by
  obtain ⟨k, hk, rfl⟩ := Option.map_eq_some_iff.1 h
  have hpos := (run_bounds hk).1
  obtain ⟨c, ds, hdrop, hc⟩ : ∃ c ds, cs.drop (signLength cs) = c :: ds ∧ c.isDigit = true := by
    cases hdrop : cs.drop (signLength cs) with
    | nil => simp [hdrop, run] at hk
    | cons c ds =>
      refine ⟨c, ds, rfl, ?_⟩
      by_contra hc
      simp [hdrop, run, hc] at hk
  obtain ⟨i, rfl⟩ : ∃ i, n = signLength cs + i + 1 := ⟨n - signLength cs - 1, by omega⟩
  refine ⟨c, ds.take i, ?_, hc⟩
  rw [snd_splitSign, signLength_take, Nat.add_assoc, List.drop_take, Nat.add_sub_cancel_left, hdrop, List.take_succ_cons]

/-- a text that a rule for floats matches is no NaN -/
theorem isNaN_of_matches {cs : List Char} {n : Nat} (h : exponentForm cs = some n ∨ pointForm cs = some n) {x : Binary64}
    (hx : Binary64.read (cs.take n) = some x) : x.isNaN = false := by
  refine Binary64.isNaN_of_read ?_ hx
  rcases h with h | h
  · obtain ⟨m, hm, hrest⟩ := Option.bind_eq_some_iff.1 h
    refine beginsWithDigit_take hm ?_
    split at hrest
    · obtain ⟨k, -, rfl⟩ := Option.map_eq_some_iff.1 hrest
      omega
    · obtain ⟨k, -, rfl⟩ := Option.map_eq_some_iff.1 hrest
      omega
    · cases hrest
  · obtain ⟨m, hm, hrest⟩ := Option.bind_eq_some_iff.1 h
    refine beginsWithDigit_take hm ?_
    split at hrest
    · obtain rfl := Option.some.inj hrest
      omega
    · cases hrest

end Word

/-- the leaf that a rule makes of a word is a lexeme -/
theorem Rule.lexeme_of_leaf? {s : Settings} {r : Rule} {cs : List Char} (hcs : ∀ c ∈ cs, Lexer.isWordChar s c = true)
    {x : Leaf} (hx : r.leaf? cs = some x) : Lexeme s x.label := by
  obtain ⟨n, hn, hleaf⟩ := Option.bind_eq_some_iff.1 hx
  obtain ⟨v, hv, rfl⟩ := Option.map_eq_some_iff.1 hleaf
  have hinteger {radix : Radix} {ds : List Char} (hr : r.kind ∈ [Kind.hex, .bin, .integer])
      (hds : (radix.readInteger ds).map (fun n => Value.number (.integer n)) = some v) : Lexeme s ⟨r.kind, v⟩ := by
    obtain ⟨y, -, rfl⟩ := Option.map_eq_some_iff.1 hds
    exact .integer hr
  have hfloat (hm : Word.exponentForm cs = some n ∨ Word.pointForm cs = some n)
      (hv : (Binary64.read (cs.take n)).map (fun x => Value.number (.float x)) = some v) : Lexeme s ⟨.number, v⟩ := by
    obtain ⟨y, hy, rfl⟩ := Option.map_eq_some_iff.1 hv
    exact .number (Word.isNaN_of_matches hm hy)
  cases r with
  | exponent => exact hfloat (.inl hn) hv
  | decimal => exact hfloat (.inr hn) hv
  | hex => exact hinteger (by simp [kind]) hv
  | bin => exact hinteger (by simp [kind]) hv
  | integer => exact hinteger (by simp [kind]) hv
  | symbol =>
    obtain rfl := Option.some.inj hv
    exact .symbol fun c hc => hcs c (List.mem_of_mem_take hc)

theorem Word.lexeme_of_classify {s : Settings} {cs : List Char} (hcs : ∀ c ∈ cs, Lexer.isWordChar s c = true) {x : Leaf}
    (hx : classify cs = some x) : Lexeme s x.label := by
  obtain ⟨r, -, hr⟩ := List.exists_of_findSome?_eq_some hx
  exact Rule.lexeme_of_leaf? hcs hr

/-! ## Tokens -/

/-- what a token of a source is under some settings -/
inductive Token.Lexed (s : Settings) : Token → Prop where
  | opening : Lexed s .opening
  | closing : Lexed s .closing
  | quote : Lexed s (.quote (Lexer.quoteLabel s))
  | leaf {l : Label} (hl : Lexeme s l) : Lexed s (.leaf l)

/-- all tokens of a stream are lexed -/
def TokenStream.Lexed (s : Settings) (ts : TokenStream) : Prop := ∀ t, .ok t ∈ ts → t.item.Lexed s

namespace Lexer

variable {s : Settings} {l : Lexer}

theorem lexed_leaves {cs : List Char} (hcs : ∀ c ∈ cs, isWordChar s c = true) (p : Position) :
    TokenStream.Lexed s (Word.leaves cs p) := by
  induction cs using Word.leafInduction generalizing p with
  | nil => simp [Word.leaves, Word.leavesFrom, TokenStream.Lexed]
  | leaf u v x _ hx ih =>
    have hv : ∀ c ∈ v, isWordChar s c = true := fun c hc => hcs c (List.mem_append_right u hc)
    rw [Word.leaves_append hx]
    intro t ht
    rcases List.mem_cons.1 ht with ht | ht
    · obtain rfl := Except.ok.inj ht
      exact .leaf (Word.lexeme_of_classify hcs hx)
    · exact ih hv _ t ht

/-- the tokens that are complete are lexed, and the word that the lexer is in has word characters only -/
structure Sound (s : Settings) (l : Lexer) : Prop where
  done : TokenStream.Lexed s l.done.toList
  word : ∀ p w, l.mode = .word p w → ∀ c ∈ w, isWordChar s c = true

theorem sound_start (s : Settings) : Sound s .start := ⟨by simp [start, TokenStream.Lexed], by simp [start]⟩

theorem Sound.advance (h : Sound s l) (c : Char) {mode : Mode}
    (hmode : ∀ p w, mode = .word p w → ∀ d ∈ w, isWordChar s d = true) : Sound s (l.advance c mode) := ⟨h.done, hmode⟩

theorem Sound.emit (h : Sound s l) (c : Char) {t : Token} (ht : t.Lexed s) : Sound s (l.emit c t) := by
  refine ⟨?_, by simp [Lexer.emit]⟩
  intro u hu
  simp only [Lexer.emit, Array.toList_push, List.mem_append, List.mem_singleton] at hu
  rcases hu with hu | hu
  · exact h.done u hu
  · obtain rfl := Except.ok.inj hu
    exact ht

theorem Sound.flush (h : Sound s l) : Sound s l.flush := by
  unfold Lexer.flush
  split
  next p w hmode =>
    refine ⟨?_, by simp⟩
    intro t ht
    rw [Array.toList_appendList, List.mem_append] at ht
    rcases ht with ht | ht
    · exact h.done t ht
    · exact lexed_leaves (fun c hc => h.word p w hmode c (List.mem_reverse.1 hc)) p t ht
  next => exact h

theorem Sound.takeInGap (h : Sound s l) (c : Char) : Sound s (l.takeInGap s c) := by
  unfold Lexer.takeInGap
  split_ifs with hopen hclose hquote hblank hsemi
  · exact h.emit c .opening
  · exact h.emit c .closing
  · exact h.emit c .quote
  · exact h.advance c (by simp)
  · exact h.advance c (by simp)
  · refine h.advance c ?_
    rintro p w hmode d hd
    obtain ⟨rfl, rfl⟩ := Mode.word.inj hmode
    obtain rfl := List.mem_singleton.1 hd
    simp [isWordChar, *]

theorem Sound.step (h : Sound s l) (c : Char) : Sound s (step s l c) := by
  unfold Lexer.step
  split
  · exact h.takeInGap c
  · refine h.advance c ?_
    intro p w hmode
    split_ifs at hmode
  next p w hmode =>
    split_ifs with hc
    · refine h.advance c ?_
      rintro q v hnext
      obtain ⟨rfl, rfl⟩ := Mode.word.inj hnext
      exact List.forall_mem_cons.2 ⟨hc, h.word p w hmode⟩
    · exact h.flush.takeInGap c

theorem sound_after (s : Settings) (cs : List Char) : Sound s (Lexer.start.after s cs) := by
  induction cs using List.reverseRecOn with
  | nil => exact sound_start s
  | append_singleton cs c ih =>
    rw [after_append]
    exact ih.step c

end Lexer

/-- cutting a stream off behind its first error takes no token from before it -/
theorem mem_finish_of_mem_tokens {s : Settings} {src : CharSource} {t : Located Token} (ht : .ok t ∈ src.tokens s) :
    .ok t ∈ (Lexer.start.after s src.chars).finish src.fault := by
  rw [CharSource.tokens, TokenStream.upToError, List.mem_append] at ht
  rcases ht with ht | ht
  · exact (List.takeWhile_prefix _).subset ht
  · exact List.mem_of_find?_eq_some (Option.mem_toList.1 ht)

/-- the tokens of a source are lexed, also of one that breaks off -/
theorem lexed_tokens (s : Settings) (src : CharSource) : TokenStream.Lexed s (src.tokens s) := by
  have hsound := Lexer.sound_after s src.chars
  intro t ht
  have hmem := mem_finish_of_mem_tokens ht
  unfold Lexer.finish at hmem
  split at hmem
  · exact hsound.flush.done t hmem
  · rw [Array.toList_push, List.mem_append] at hmem
    rcases hmem with hmem | hmem
    · exact hsound.done t hmem
    · simp at hmem

end FrameGraph
