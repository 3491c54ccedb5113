/-
Leaves survive the trip through text.

The text of an integer, in decimal or with the mark of its radix, is a word that one rule matches as a whole while no rule before
it matches any beginning. A symbol is what the rules have left of a word, and they leave the same of it when it stands alone:
whatever a source is cut into, each leaf was classified from the text of word characters that the lexer had come to.

Results:
- `tokens_of_word`: a word alone has its leaves for tokens, and one token if a rule matches all of it.
- `exists_classify_of_mem_tokens`: every leaf of a source is the leaf of some word.
- `classify_decimalText`, `classify_hexText`, `classify_binText`: the leaves of the texts of integers.
- `literals_read_back`: so what is written for a leaf other than a float is read as the leaf.
-/
import FrameGraph.Proofs.Classification
import FrameGraph.Proofs.Tiling

namespace FrameGraph

/-! ## Words alone -/

namespace Word

theorem leaves_whole {w : List Char} {x : Label} (hx : classify w = some ⟨x, w.length⟩) (p : Position) :
    leaves w p = [.ok ⟨.leaf x, p⟩] := by
  rw [leaves_cons hx, List.drop_length]
  rfl

end Word

section Alone

variable {s : Settings} {w : List Char}

/-- a word alone has its leaves for tokens -/
theorem tokens_of_word (hne : w ≠ []) (hw : ∀ c ∈ w, Lexer.isWordChar s c = true) :
    (CharSource.ofString (String.ofList w)).tokens s = (Word.leaves w .start).upToError := by
  obtain ⟨hmode, hdone⟩ := Lexer.after_word_of_gap hne hw (l := .start) rfl
  have hflush : (Lexer.start.after s w).flush.done.toList = Word.leaves w .start := by
    rw [Lexer.flush, hmode, hdone]
    simp [Lexer.start]
  rw [CharSource.tokens, CharSource.ofString, String.toList_ofList]
  exact congrArg TokenStream.upToError hflush

/-- a word alone that a rule matches as a whole is one token -/
theorem tokens_of_leaf (hw : ∀ c ∈ w, Lexer.isWordChar s c = true) {x : Label}
    (hx : Word.classify w = some ⟨x, w.length⟩) :
    (CharSource.ofString (String.ofList w)).tokens s = [.ok ⟨.leaf x, .start⟩] := by
  have hne : w ≠ [] := by
    rintro rfl
    cases hx
  rw [tokens_of_word hne hw, Word.leaves_whole hx]
  exact upToError_ok [⟨.leaf x, .start⟩]

end Alone

/-! ## Where leaves come from -/

theorem Tiles.exists_makes {s : Settings} {before behind : List Char} {ts : List (Located Token)}
    (h : Tiles s before behind ts) {t : Located Token} (ht : t ∈ ts) : ∃ rest w, Makes s rest t.item w := by
  induction h with
  | nil => cases ht
  | cons _ hmakes _ ih =>
    rcases List.mem_cons.1 ht with rfl | ht
    · exact ⟨_, _, hmakes⟩
    · exact ih ht

/-- tokens that are complete stay so -/
theorem Lexer.mem_flush {l : Lexer} {t : Except (Located LexError) (Located Token)} (ht : t ∈ l.done.toList) :
    t ∈ l.flush.done.toList := by
  unfold flush
  split
  · rw [Array.toList_appendList]
    exact List.mem_append_left _ ht
  · exact ht

/-- the tokens of a source are among those that its characters would have alone -/
theorem mem_flush_of_mem_tokens {s : Settings} {src : CharSource} {t : Located Token} (ht : .ok t ∈ src.tokens s) :
    .ok t ∈ (Lexer.start.after s src.chars).flush.done.toList := by
  have hmem := mem_finish_of_mem_tokens ht
  unfold Lexer.finish at hmem
  split at hmem
  · exact hmem
  · rw [Array.toList_push, List.mem_append] at hmem
    rcases hmem with hmem | hmem
    · exact Lexer.mem_flush hmem
    · simp at hmem

/-- every leaf of a source is the leaf of some word -/
theorem exists_classify_of_mem_tokens {s : Settings} (hs : s.Proper) {src : CharSource} {x : Label} {p : Position}
    (hx : .ok ⟨.leaf x, p⟩ ∈ src.tokens s) :
    ∃ w n, (∀ c ∈ w, Lexer.isWordChar s c = true) ∧ Word.classify w = some ⟨x, n⟩ := by
  obtain ⟨ts, hdone, htiles⟩ : Lexer.ReadsTiles s .start [] src.chars := Lexer.after_tiles hs rfl rfl
  have hmem := mem_flush_of_mem_tokens hx
  rw [hdone] at hmem
  obtain ⟨rest, w, hmakes⟩ := htiles.exists_makes (t := ⟨.leaf x, p⟩) (by simpa [Lexer.start] using hmem)
  cases hmakes with
  | leaf hne hw hclassify =>
    refine ⟨_, _, ?_, hclassify⟩
    rw [List.forall_mem_append]
    exact ⟨hw, fun c hc => List.mem_takeWhile_imp hc⟩

/-- a leaf that is a symbol takes the whole word -/
theorem Word.whole_of_symbol {w : List Char} {x : Label} {n : Nat} (h : classify w = some ⟨x, n⟩)
    (hkind : x.kind = .symbol) : x = ⟨.symbol, .text (String.ofList w)⟩ ∧ n = w.length := by
  obtain ⟨before, r, behind, -, -, hmatch, hr, hvalue⟩ := classify_eq_some_iff.1 h
  obtain rfl : r = .symbol := by
    rw [hkind] at hr
    cases r <;> first | rfl | cases hr
  obtain ⟨-, rfl⟩ := whole_eq_some.1 hmatch
  rw [List.take_length] at hvalue
  obtain ⟨kind, value⟩ := x
  obtain rfl : kind = .symbol := hkind
  obtain rfl : Value.text (String.ofList w) = value := Option.some.inj hvalue
  exact ⟨rfl, rfl⟩

/-! ## Texts of integers -/

theorem isWordChar_of_isNumeric {s : Settings} (hq : ¬ IsNumeric s.quote) {c : Char} (hc : IsNumeric c) :
    Lexer.isWordChar s c = true := by
  have hne {d : Char} (hd : ¬ IsNumeric d) : c ≠ d := by
    rintro rfl
    exact hd hc
  have hblank : Lexer.isBlank c = false := by
    simp [Lexer.isBlank, hne (d := ' ') (by decide), hne (d := '\t') (by decide), hne (d := '\r') (by decide),
      hne (d := '\n') (by decide)]
  simp [Lexer.isWordChar, hblank, hne (d := ';') (by decide), hne (d := '(') (by decide), hne (d := ')') (by decide),
    hne hq]

/-- the digits of a number stand for the number -/
theorem Radix.positional_toDigits {r : Radix} (hr : r.val ≤ 16) (n : Nat) : positional r.val (Nat.toDigits r.val n) = n := by
  have hdigits : ∀ c ∈ Nat.toDigits r.val n, ∃ d, r.digit c = some d := by
    intro c hc
    obtain ⟨d, hd, rfl⟩ := exists_digitChar_of_mem r.two_le hc
    exact ⟨d, digit_digitChar hr hd⟩
  apply Option.some.inj
  rw [← readNatural_of_digits Nat.toDigits_ne_nil hdigits, readNatural_toDigits hr]

theorem Pattern.signed_toDigits (n : Int) : Signed (Digits.sign (n < 0)) (Nat.toDigits 10 n.natAbs) := by
  refine ⟨?_, Nat.toDigits_ne_nil, fun c hc => Digits.isDigit_of_mem hc⟩
  by_cases hn : n < 0 <;> simp [Digits.sign, signs, hn]

theorem signedValue_toDigits (n : Int) :
    Radix.signedValue 10 (Digits.sign (n < 0) ++ Nat.toDigits 10 n.natAbs) = n := by
  have hvalue : Radix.positional 10 (Nat.toDigits 10 n.natAbs) = n.natAbs :=
    Radix.positional_toDigits (r := .decimal) (by decide) _
  by_cases hn : n < 0
  · have hminus : Digits.sign (n < 0) = ['-'] := by simp [Digits.sign, hn]
    rw [hminus]
    show -(Radix.positional 10 (Nat.toDigits 10 n.natAbs) : Int) = n
    omega
  · have hnone : Digits.sign (n < 0) = [] := by simp [Digits.sign, hn]
    have hdigits : ∀ c ∈ Nat.toDigits 10 n.natAbs, ∃ d, Radix.decimal.digit c = some d :=
      fun c hc => Radix.exists_decimal_digit (Digits.isDigit_of_mem hc)
    rw [hnone, List.nil_append, Radix.signedValue_of_digits Nat.toDigits_ne_nil hdigits]
    omega

namespace Word

theorem cases_of_mem_signed {sg ds : List Char} (h : Pattern.Signed sg ds) {c : Char} (hc : c ∈ sg ++ ds) :
    c.isDigit = true ∨ c = '+' ∨ c = '-' := by
  rcases List.mem_append.1 hc with hc | hc
  · have hsg := h.sign
    simp only [Pattern.signs, List.mem_cons, List.not_mem_nil, or_false] at hsg
    rcases hsg with rfl | rfl | rfl <;> simp_all
  · exact .inl (h.digits c hc)

/-- a text without the second character of a mark has no mark -/
theorem Prefixed.eq_none {form : List Char → Option Nat} {a b : Char} {p : Char → Bool} (hform : Prefixed form a b p)
    {w : List Char} (hb : b ∉ w) : form w = none := by
  cases h : form w with
  | none => rfl
  | some n =>
    obtain ⟨rest, rfl⟩ := hform.unmatched h
    simp at hb

theorem toList_decimalText (n : Int) :
    (decimalText n).toList = Digits.sign (n < 0) ++ Nat.toDigits 10 n.natAbs := by
  rw [decimalText, toList_signedDigits]
  by_cases hn : n < 0 <;> simp [Digits.sign, hn]

/-- an integer in decimal is digits behind a sign, and nothing behind them -/
theorem classify_decimalText (n : Int) :
    classify (decimalText n).toList = some ⟨⟨.integer, .number (.integer n)⟩, (decimalText n).toList.length⟩ := by
  have hsigned := Pattern.signed_toDigits n
  have hvalue := signedValue_toDigits n
  rw [toList_decimalText]
  generalize Digits.sign (n < 0) = sg, Nat.toDigits 10 n.natAbs = ds at *
  have hletter {c : Char} (hc : ¬ (c.isDigit = true ∨ c = '+' ∨ c = '-')) : c ∉ sg ++ ds :=
    fun hmem => hc (cases_of_mem_signed hsigned hmem)
  have hend : ∀ c ∈ ([] : List Char).head?, c.isDigit = false := by simp
  have hexponent : exponentForm (sg ++ ds) = none := by simpa using exponentForm_append hsigned hend
  have hpoint : pointForm (sg ++ ds) = none := by simpa using pointForm_append hsigned hend
  have hhex : hexForm (sg ++ ds) = none := prefixed_hexForm.eq_none (hletter (by decide))
  have hbin : binForm (sg ++ ds) = none := prefixed_binForm.eq_none (hletter (by decide))
  have hdigits := signedDigits_of_signed hsigned
  refine classify_eq_some_iff.2 ⟨[.exponent, .decimal, .hex, .bin], .integer, [.symbol], rfl, ?_, hdigits, rfl, ?_⟩
  · simp [Rule.matchLength, hexponent, hpoint, hhex, hbin]
  · rw [List.take_length]
    exact congrArg (fun k => some (Value.number (.integer k))) hvalue

/-- a zero and the letter of a mark are no floating-point literal, nor are they the beginning of one -/
theorem forms_of_mark {c : Char} (hc : c = 'x' ∨ c = 'b') (ds : List Char) :
    exponentForm ('0' :: c :: ds) = none ∧ pointForm ('0' :: c :: ds) = none := by
  have hsigned : Pattern.Signed [] ['0'] := ⟨by simp [Pattern.signs], by simp, by simp⟩
  have hstop : ∀ d ∈ (c :: ds).head?, d.isDigit = false := by rcases hc with rfl | rfl <;> simp
  have hexponent := exponentForm_append hsigned hstop
  have hpoint := pointForm_append hsigned hstop
  rcases hc with rfl | rfl <;> exact ⟨hexponent, hpoint⟩

/-- digits behind their mark, all the way to the end -/
theorem Prefixed.toDigits {form : List Char → Option Nat} {c : Char} {p : Char → Bool} (hform : Prefixed form '0' c p)
    {b : Nat} (hb : 1 < b) (hp : ∀ d < b, p (Nat.digitChar d) = true) (n : Nat) :
    form ('0' :: c :: Nat.toDigits b n) = some ('0' :: c :: Nat.toDigits b n).length := by
  have hdigits : ∀ d ∈ Nat.toDigits b n, p d = true := by
    intro c hc
    obtain ⟨d, hd, rfl⟩ := exists_digitChar_of_mem hb hc
    exact hp d hd
  rw [hform.matched, run_of_all Nat.toDigits_ne_nil hdigits, Option.map_some, List.length_cons, List.length_cons, Nat.add_comm]

theorem classify_hexText (n : Nat) : classify ('0' :: 'x' :: Nat.toDigits 16 n) =
    some ⟨⟨.hex, .number (.integer n)⟩, ('0' :: 'x' :: Nat.toDigits 16 n).length⟩ := by
  have hvalue : Radix.positional 16 (Nat.toDigits 16 n) = n := Radix.positional_toDigits (r := .hexadecimal) (by decide) n
  obtain ⟨hexponent, hpoint⟩ := forms_of_mark (.inl rfl) (Nat.toDigits 16 n)
  have hhex : hexForm ('0' :: 'x' :: Nat.toDigits 16 n) = some _ := prefixed_hexForm.toDigits (by decide) (by decide) n
  refine classify_eq_some_iff.2 ⟨[.exponent, .decimal], .hex, [.bin, .integer, .symbol], rfl, ?_, hhex, rfl, ?_⟩
  · simp [Rule.matchLength, hexponent, hpoint]
  · rw [List.take_length]
    exact congrArg (fun k : Nat => some (Value.number (.integer k))) hvalue

theorem classify_binText (n : Nat) : classify ('0' :: 'b' :: Nat.toDigits 2 n) =
    some ⟨⟨.bin, .number (.integer n)⟩, ('0' :: 'b' :: Nat.toDigits 2 n).length⟩ := by
  have hvalue : Radix.positional 2 (Nat.toDigits 2 n) = n := Radix.positional_toDigits (r := .binary) (by decide) n
  obtain ⟨hexponent, hpoint⟩ := forms_of_mark (.inr rfl) (Nat.toDigits 2 n)
  have hhex : hexForm ('0' :: 'b' :: Nat.toDigits 2 n) = none := rfl
  have hbin : binForm ('0' :: 'b' :: Nat.toDigits 2 n) = some _ := prefixed_binForm.toDigits (by decide) (by decide) n
  refine classify_eq_some_iff.2 ⟨[.exponent, .decimal, .hex], .bin, [.integer, .symbol], rfl, ?_, hbin, rfl, ?_⟩
  · simp [Rule.matchLength, hexponent, hpoint, hhex]
  · rw [List.take_length]
    exact congrArg (fun k : Nat => some (Value.number (.integer k))) hvalue

end Word

/-! ## Reading back -/

/-- the text alone is one token, the leaf `x` -/
def ReadsAs (s : Settings) (text : String) (x : Label) : Prop :=
  (CharSource.ofString text).tokens s = [.ok ⟨.leaf x, .start⟩]

theorem readsAs_of_classify {s : Settings} {text : String} (htext : ∀ c ∈ text.toList, Lexer.isWordChar s c = true)
    {x : Label} (hx : Word.classify text.toList = some ⟨x, text.toList.length⟩) : ReadsAs s text x := by
  have htokens := tokens_of_leaf htext hx
  rwa [String.ofList_toList] at htokens

/-- a label that holds an integer -/
def Label.integer (kind : Kind) (n : Int) : Label := ⟨kind, .number (.integer n)⟩

/-- **Literals read back.** The text of an integer leaf of any size, and of a hexadecimal or binary leaf that is not negative, is read
as that leaf; the text of a symbol that any source has is read as that symbol, although it may be what was left of a word. -/
theorem literals_read_back {s : Settings} (hs : s.Proper) (hq : ¬ IsNumeric s.quote) :
    (∀ n : Int, ReadsAs s (Label.integer .integer n).formatted (.integer .integer n)) ∧
    (∀ n : Int, 0 ≤ n → ReadsAs s (Label.integer .hex n).formatted (.integer .hex n) ∧
      ReadsAs s (Label.integer .bin n).formatted (.integer .bin n)) ∧
    ∀ (src : CharSource) (x : Label) (p : Position), .ok ⟨.leaf x, p⟩ ∈ src.tokens s → x.kind = .symbol →
      ∃ text, x.value = .text text ∧ ReadsAs s text x := by
  have hword (base : Nat) (n : Int) : ∀ c ∈ (radixText base n).toList, Lexer.isWordChar s c = true :=
    fun c hc => isWordChar_of_isNumeric hq (isNumeric_of_mem_radixText hc)
  refine ⟨fun n => ?_, fun n hn => ?_, fun src x p hx hkind => ?_⟩
  · exact readsAs_of_classify (hword 10 n) (Word.classify_decimalText n)
  · obtain ⟨n, rfl⟩ := Int.eq_ofNat_of_zero_le hn
    have hhex : (radixText 16 n).toList = '0' :: 'x' :: Nat.toDigits 16 n := by
      simp [radixText, toList_signedDigits]
    have hbin : (radixText 2 n).toList = '0' :: 'b' :: Nat.toDigits 2 n := by
      simp [radixText, toList_signedDigits]
    constructor
    · refine readsAs_of_classify (hword 16 n) ?_
      show Word.classify (radixText 16 n).toList = some ⟨_, (radixText 16 n).toList.length⟩
      rw [hhex]
      exact Word.classify_hexText n
    · refine readsAs_of_classify (hword 2 n) ?_
      show Word.classify (radixText 2 n).toList = some ⟨_, (radixText 2 n).toList.length⟩
      rw [hbin]
      exact Word.classify_binText n
  · obtain ⟨w, n, hw, hclassify⟩ := exists_classify_of_mem_tokens hs hx
    obtain ⟨rfl, rfl⟩ := Word.whole_of_symbol hclassify hkind
    exact ⟨String.ofList w, rfl, tokens_of_leaf hw hclassify⟩

/-- integers of both signs and in all three forms, and a symbol behind a number -/
theorem literals_read_back_default :
    Settings.default.Proper ∧ ¬ IsNumeric Settings.default.quote ∧
    ReadsAs .default "-12" (.integer .integer (-12)) ∧
    ReadsAs .default "0x1a" (.integer .hex 26) ∧ ReadsAs .default "0b101" (.integer .bin 5) ∧
    .ok ⟨.leaf ⟨.symbol, .text "abc"⟩, ⟨0, 1⟩⟩ ∈ (CharSource.ofString "1abc").tokens .default ∧
    ReadsAs .default "abc" ⟨.symbol, .text "abc"⟩ := by
  have hs : Settings.default.Proper := by decide
  have hq : ¬ IsNumeric Settings.default.quote := by decide
  have hinteger : (Label.integer .integer (-12)).formatted = "-12" := by decide
  have hhex : (Label.integer .hex 26).formatted = "0x1a" := by decide
  have hbin : (Label.integer .bin 5).formatted = "0b101" := by decide
  have hmem : .ok ⟨.leaf ⟨.symbol, .text "abc"⟩, ⟨0, 1⟩⟩ ∈ (CharSource.ofString "1abc").tokens .default := by decide +kernel
  obtain ⟨hintegers, hmarked, hsymbols⟩ := literals_read_back hs hq
  obtain ⟨text, htext, hreads⟩ := hsymbols _ _ _ hmem rfl
  obtain rfl : "abc" = text := Value.text.inj htext
  exact ⟨hs, hq, hinteger ▸ hintegers (-12), hhex ▸ (hmarked 26 (by decide)).1, hbin ▸ (hmarked 5 (by decide)).2, hmem,
    hreads⟩

end FrameGraph
