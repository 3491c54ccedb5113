/-
Floating-point numbers in a text, and what is read where one of them has been written.

A finite number is written with a point, with an exponent, or with both (`Form`). Either alone is one literal, which reads back as
the number with the same bits. Both together are none: the literal with a point ends before the exponent, which is left over as a
symbol.

Results:
- `form_text`: the text of a finite number has one of the forms.
- `classify_point`, `classify_exponent`: the leaves of words of the first two forms.
- `tokens_both`: a text of the third form is two tokens.
- `tokens_text`: what is read where a finite number has been written.
- `number_reads_back`: so a finite number that a source has reads back from its text unless the text shows both.
-/
import FrameGraph.Proofs.Literals

namespace FrameGraph

namespace Binary64

/-! ## The forms of a text -/

/-- digits behind a sign, and a point among them or an exponent behind them or both -/
inductive Form : List Char → Prop where
  | point {sg ds fs : List Char} (hds : Pattern.Signed sg ds) (hfs : ∀ c ∈ fs, c.isDigit = true) :
    Form (sg ++ ds ++ '.' :: fs)
  | exponent {sg ds sg' es : List Char} (hds : Pattern.Signed sg ds) (hes : Pattern.Signed sg' es) :
    Form (sg ++ ds ++ 'e' :: (sg' ++ es))
  | both {sg ds fs sg' es : List Char} (hds : Pattern.Signed sg ds) (hfs : ∀ c ∈ fs, c.isDigit = true)
    (hes : Pattern.Signed sg' es) : Form (sg ++ ds ++ '.' :: (fs ++ 'e' :: (sg' ++ es)))

theorem form_scientific {sg : List Char} (hsg : sg ∈ Pattern.signs) (d : Scientific) : Form (sg ++ d.text) := by
  obtain ⟨digits, exponent⟩ := d
  have hne : Nat.toDigits 10 digits ≠ [] := Nat.toDigits_ne_nil
  have hds : ∀ c ∈ Nat.toDigits 10 digits, c.isDigit = true := fun c hc => Digits.isDigit_of_mem hc
  have hsign (k : Int) : (if k < 0 then ['-'] else []) = Digits.sign (k < 0) := by simp [Digits.sign]
  have hzeros (n : Nat) : ∀ c ∈ List.replicate n '0', c.isDigit = true := by
    intro c hc
    rw [(List.mem_replicate.1 hc).2]
    rfl
  simp only [Scientific.text, hsign]
  generalize Nat.toDigits 10 digits = ds at hne hds
  set leading := exponent + ds.length - 1 with hleading
  have htake (n : Nat) : ∀ c ∈ ds.take n, c.isDigit = true := fun c hc => hds c (List.mem_of_mem_take hc)
  have hdrop (n : Nat) : ∀ c ∈ ds.drop n, c.isDigit = true := fun c hc => hds c (List.mem_of_mem_drop hc)
  have hes := Pattern.signed_toDigits leading
  split_ifs with hpositional hwhole hamong hshort
  · have hsigned : Pattern.Signed sg (ds ++ List.replicate exponent.toNat '0') :=
      ⟨hsg, by simp [hne], List.forall_mem_append.2 ⟨hds, hzeros _⟩⟩
    simpa using Form.point hsigned (hzeros 1)
  · have hsigned : Pattern.Signed sg (ds.take (leading.toNat + 1)) := ⟨hsg, by simp [hne], htake _⟩
    simpa using Form.point hsigned (hdrop (leading.toNat + 1))
  · have hsigned : Pattern.Signed sg ['0'] := ⟨hsg, by simp, by simp⟩
    simpa using Form.point hsigned (List.forall_mem_append.2 ⟨hzeros (-leading - 1).toNat, hds⟩)
  · simpa using Form.exponent ⟨hsg, hne, hds⟩ hes
  · have hsigned : Pattern.Signed sg (ds.take 1) := ⟨hsg, by simp [hne], htake 1⟩
    simpa using Form.both hsigned (hdrop 1) hes

/-- the text of a finite number has one of the forms -/
theorem form_text {x : Binary64} (hx : x.isNaN = false) (hfinite : x.isInfinite = false) : Form x.text.toList := by
  have hsg : Digits.sign x.isNegative ∈ Pattern.signs := by
    cases x.isNegative <;> simp [Digits.sign, Pattern.signs]
  rw [toList_text hx, hfinite, if_neg Bool.false_ne_true]
  split_ifs
  · have hsigned : Pattern.Signed (Digits.sign x.isNegative) ['0'] := ⟨hsg, by simp, by simp⟩
    have hzero : ∀ c ∈ ['0'], c.isDigit = true := by simp
    simpa using Form.point hsigned hzero
  · exact form_scientific hsg _

end Binary64

/-! ## What is read -/

/-- a label that holds a floating-point number -/
def Label.float (x : Binary64) : Label := ⟨.number, .number (.float x)⟩

namespace Word

section Forms

variable {sg ds fs sg' es : List Char} {x : Binary64}

theorem length_append_cons (u : List Char) (c : Char) (v : List Char) : (u ++ c :: v).length = u.length + 1 + v.length := by
  rw [List.length_append, List.length_cons]
  omega

/-- digits and a point are a literal, whatever other digits follow -/
theorem classify_point (hds : Pattern.Signed sg ds) (hfs : ∀ c ∈ fs, c.isDigit = true) {rest : List Char}
    (hrest : ∀ c ∈ rest.head?, c.isDigit = false) (hx : Binary64.read (sg ++ ds ++ '.' :: fs) = some x) :
    classify (sg ++ ds ++ '.' :: (fs ++ rest)) = some ⟨.float x, (sg ++ ds ++ '.' :: fs).length⟩ := by
  have hexponent : exponentForm (sg ++ ds ++ '.' :: (fs ++ rest)) = none :=
    exponentForm_append hds (show ∀ c ∈ ('.' :: (fs ++ rest)).head?, c.isDigit = false by simp)
  have hpoint : pointForm (sg ++ ds ++ '.' :: (fs ++ rest)) = some (sg ++ ds ++ '.' :: fs).length := by
    rw [pointForm_append hds (by simp)]
    simp only [takeWhile_of_stop hfs hrest]
    rw [length_append_cons]
  have htake : (sg ++ ds ++ '.' :: (fs ++ rest)).take (sg ++ ds ++ '.' :: fs).length = sg ++ ds ++ '.' :: fs := by
    rw [← List.cons_append, ← List.append_assoc, List.take_left]
  refine classify_eq_some_iff.2 ⟨[.exponent], .decimal, [.hex, .bin, .integer, .symbol], rfl, ?_, hpoint, rfl, ?_⟩
  · exact List.forall_mem_singleton.2 hexponent
  · rw [htake, Rule.denotes, hx]
    rfl

theorem classify_exponent (hds : Pattern.Signed sg ds) (hes : Pattern.Signed sg' es)
    (hx : Binary64.read (sg ++ ds ++ 'e' :: (sg' ++ es)) = some x) :
    classify (sg ++ ds ++ 'e' :: (sg' ++ es)) = some ⟨.float x, (sg ++ ds ++ 'e' :: (sg' ++ es)).length⟩ := by
  have hexponent : exponentForm (sg ++ ds ++ 'e' :: (sg' ++ es)) = some (sg ++ ds ++ 'e' :: (sg' ++ es)).length := by
    rw [exponentForm_append hds (by simp)]
    simp only [signedDigits_of_signed hes, Option.map_some]
    rw [length_append_cons]
  refine classify_eq_some_iff.2 ⟨[], .exponent, [.decimal, .hex, .bin, .integer, .symbol], rfl, by simp, hexponent, rfl, ?_⟩
  rw [List.take_length, Rule.denotes, hx]
  rfl

/-- what begins with a letter that marks an exponent is a symbol -/
theorem classify_mark (w : List Char) :
    classify ('e' :: w) = some ⟨⟨.symbol, .text (String.ofList ('e' :: w))⟩, ('e' :: w).length⟩ := by
  have hdigits : signedDigits ('e' :: w) = none := rfl
  have hexponent : exponentForm ('e' :: w) = none := by rw [exponentForm, hdigits, Option.bind_none]
  have hpoint : pointForm ('e' :: w) = none := by rw [pointForm, hdigits, Option.bind_none]
  have hhex : hexForm ('e' :: w) = none := rfl
  have hbin : binForm ('e' :: w) = none := rfl
  refine classify_eq_some_iff.2 ⟨[.exponent, .decimal, .hex, .bin, .integer], .symbol, [], rfl, ?_, rfl, rfl, ?_⟩
  · simp [Rule.matchLength, hexponent, hpoint, hhex, hbin, hdigits]
  · rw [List.take_length]
    rfl

/-- digits and a point show no exponent -/
theorem notMem_point (hds : Pattern.Signed sg ds) (hfs : ∀ c ∈ fs, c.isDigit = true) : 'e' ∉ sg ++ ds ++ '.' :: fs := by
  intro hmem
  rw [List.mem_append, List.mem_cons] at hmem
  rcases hmem with hmem | hmem | hmem
  · exact absurd (cases_of_mem_signed hds hmem) (by decide)
  · exact absurd hmem (by decide)
  · exact absurd (hfs _ hmem) (by decide)

/-- digits and an exponent show no point -/
theorem notMem_exponent (hds : Pattern.Signed sg ds) (hes : Pattern.Signed sg' es) :
    '.' ∉ sg ++ ds ++ 'e' :: (sg' ++ es) := by
  intro hmem
  rw [List.mem_append, List.mem_cons] at hmem
  rcases hmem with hmem | hmem | hmem
  · exact absurd (cases_of_mem_signed hds hmem) (by decide)
  · exact absurd hmem (by decide)
  · exact absurd (cases_of_mem_signed hes hmem) (by decide)

end Forms

end Word

/-- digits with a point and behind them an exponent are the number before the exponent, and a symbol -/
theorem tokens_both {s : Settings} {sg ds fs sg' es : List Char} (hds : Pattern.Signed sg ds)
    (hfs : ∀ c ∈ fs, c.isDigit = true)
    (hword : ∀ c ∈ sg ++ ds ++ '.' :: (fs ++ 'e' :: (sg' ++ es)), Lexer.isWordChar s c = true) :
    ∃ y, Binary64.read (sg ++ ds ++ '.' :: fs) = some y ∧
      (CharSource.ofString (String.ofList (sg ++ ds ++ '.' :: (fs ++ 'e' :: (sg' ++ es))))).tokens s =
        [.ok ⟨.leaf (.float y), .start⟩, .ok ⟨.leaf ⟨.symbol, .text (String.ofList ('e' :: (sg' ++ es)))⟩,
          Position.start.right (sg ++ ds ++ '.' :: fs).length⟩] := by
  have hpattern : sg ++ ds ++ '.' :: fs ∈ Rule.decimal.pattern :=
    Word.mem_decimal.2 ⟨sg ++ ds, fs, Pattern.mem_signed.2 ⟨sg, ds, hds, rfl⟩, hfs, rfl⟩
  obtain ⟨y, hy⟩ := Binary64.exists_read_of_decimal hpattern
  have hstop : ∀ c ∈ ('e' :: (sg' ++ es)).head?, c.isDigit = false := by simp
  have hfirst := Word.classify_point hds hfs hstop hy
  have hdrop : (sg ++ ds ++ '.' :: (fs ++ 'e' :: (sg' ++ es))).drop (sg ++ ds ++ '.' :: fs).length = 'e' :: (sg' ++ es) := by
    rw [← List.cons_append, ← List.append_assoc, List.drop_left]
  refine ⟨y, hy, ?_⟩
  rw [tokens_of_word (by simp) hword, Word.leaves_cons hfirst, hdrop, Word.leaves_whole (Word.classify_mark _)]
  exact upToError_ok [⟨.leaf (.float y), .start⟩, ⟨.leaf ⟨.symbol, .text (String.ofList ('e' :: (sg' ++ es)))⟩,
    Position.start.right (sg ++ ds ++ '.' :: fs).length⟩]

/-- a text shows a point and an exponent -/
def ShowsBoth (text : String) : Prop := '.' ∈ text.toList ∧ 'e' ∈ text.toList

instance (text : String) : Decidable (ShowsBoth text) := by
  unfold ShowsBoth; infer_instance

/-- what is read where a number other than an infinite one has been written -/
theorem Binary64.tokens_text {s : Settings} (hq : ¬ IsNumeric s.quote) {x : Binary64} (hx : x.isNaN = false)
    (hfinite : x.isInfinite = false) :
    (¬ ShowsBoth x.text → ReadsAs s x.text (.float x)) ∧
    (ShowsBoth x.text → ∃ mantissa exponent y, x.text.toList = mantissa ++ 'e' :: exponent ∧ read mantissa = some y ∧
      (CharSource.ofString x.text).tokens s = [.ok ⟨.leaf (.float y), .start⟩,
        .ok ⟨.leaf ⟨.symbol, .text (String.ofList ('e' :: exponent))⟩, Position.start.right mantissa.length⟩]) := by
  have hform := form_text hx hfinite
  have hread := read_text hx
  have hword : ∀ c ∈ x.text.toList, Lexer.isWordChar s c = true :=
    fun c hc => isWordChar_of_isNumeric hq (isNumeric_of_mem_text hx c hc)
  obtain ⟨cs, htext⟩ : ∃ cs, x.text = String.ofList cs := ⟨x.text.toList, String.ofList_toList.symm⟩
  rw [htext, String.toList_ofList] at hform hread hword
  rw [ShowsBoth, htext, String.toList_ofList]
  cases hform with
  | @point sg ds fs hds hfs =>
    have hend : ∀ c ∈ ([] : List Char).head?, c.isDigit = false := by simp
    have hclassify := Word.classify_point hds hfs hend hread
    rw [List.append_nil] at hclassify
    exact ⟨fun _ => tokens_of_leaf hword hclassify, fun hboth => absurd hboth.2 (Word.notMem_point hds hfs)⟩
  | @exponent sg ds sg' es hds hes =>
    exact ⟨fun _ => tokens_of_leaf hword (Word.classify_exponent hds hes hread),
      fun hboth => absurd hboth.1 (Word.notMem_exponent hds hes)⟩
  | @both sg ds fs sg' es hds hfs hes =>
    obtain ⟨y, hy, htokens⟩ := tokens_both hds hfs hword
    exact ⟨fun hnot => absurd ⟨by simp, by simp⟩ hnot, fun _ => ⟨_, _, y, by simp, hy, htokens⟩⟩

/-- **Numbers read back.** A leaf of kind number holds a floating-point number. If that is finite, what is written for the leaf is
read as the leaf where it does not show both a point and an exponent; where it does, as the number before the exponent and a symbol. -/
theorem number_reads_back {src : CharSource} {l : Label} {p : Position} (hl : .ok ⟨.leaf l, p⟩ ∈ src.tokens .default)
    (hkind : l.kind = .number) :
    ∃ x, l = .float x ∧ (x.isInfinite = false →
      (ReadsAs .default l.formatted l ↔ ¬ ShowsBoth l.formatted) ∧
      (ShowsBoth l.formatted → ∃ mantissa exponent y,
        l.formatted.toList = mantissa ++ 'e' :: exponent ∧ Binary64.read mantissa = some y ∧
        (CharSource.ofString l.formatted).tokens .default = [.ok ⟨.leaf (.float y), .start⟩,
          .ok ⟨.leaf ⟨.symbol, .text (String.ofList ('e' :: exponent))⟩, Position.start.right mantissa.length⟩])) := by
  have hq : ¬ IsNumeric Settings.default.quote := by decide
  cases lexed_tokens .default src _ hl with
  | leaf hlexeme =>
    cases hlexeme with
    | @number x hx =>
      refine ⟨x, rfl, fun hfinite => ?_⟩
      obtain ⟨hone, htwo⟩ := Binary64.tokens_text hq hx hfinite
      refine ⟨⟨fun hreads hboth => ?_, hone⟩, htwo⟩
      obtain ⟨mantissa, exponent, y, -, -, htokens⟩ := htwo hboth
      have hsame := hreads.symm.trans htokens
      simp at hsame
    | integer hk =>
      obtain rfl : _ = Kind.number := hkind
      simp at hk
    | symbol => cases hkind

/-- a number whose text is `1.5e16` -/
theorem float_mem_tokens_both :
    .ok ⟨.leaf (.float ⟨0x434aa535d3d0c000⟩), .start⟩ ∈ (CharSource.ofString "15e15").tokens .default := by
  decide +kernel

/-- a number that reads back, and one that does not -/
theorem number_reads_back_thousand :
    (.ok ⟨.leaf (.float ⟨0x408f400000000000⟩), .start⟩ ∈ (CharSource.ofString "1e3").tokens .default ∧
      ReadsAs .default "1000.0" (.float ⟨0x408f400000000000⟩)) ∧
    .ok ⟨.leaf (.float ⟨0x434aa535d3d0c000⟩), .start⟩ ∈ (CharSource.ofString "15e15").tokens .default ∧
      ¬ ReadsAs .default "1.5e16" (.float ⟨0x434aa535d3d0c000⟩) := by
  have hpoint : (Label.float ⟨0x408f400000000000⟩).formatted = "1000.0" := by decide +kernel
  have hboth : (Label.float ⟨0x434aa535d3d0c000⟩).formatted = "1.5e16" := by decide +kernel
  have hmem : .ok ⟨.leaf (.float ⟨0x408f400000000000⟩), .start⟩ ∈ (CharSource.ofString "1e3").tokens .default := by
    decide +kernel
  obtain ⟨x, hx, hfinite⟩ := number_reads_back hmem rfl
  obtain ⟨y, hy, hfinite'⟩ := number_reads_back float_mem_tokens_both rfl
  obtain rfl : _ = x := Number.float.inj (Value.number.inj (congrArg Label.value hx))
  obtain rfl : _ = y := Number.float.inj (Value.number.inj (congrArg Label.value hy))
  obtain ⟨hreads, -⟩ := hfinite (by decide)
  obtain ⟨hsplits, -⟩ := hfinite' (by decide)
  rw [hpoint] at hreads
  rw [hboth] at hsplits
  exact ⟨⟨hmem, hreads.2 (by decide)⟩, float_mem_tokens_both, fun h => hsplits.1 h (by decide)⟩

/-- so not every number that a source has reads back -/
theorem number_text_splits :
    ¬ ∀ (src : CharSource) (l : Label) (p : Position), .ok ⟨.leaf l, p⟩ ∈ src.tokens .default → l.kind = .number →
      ReadsAs .default l.formatted l := by
  have htokens : (CharSource.ofString (Label.float ⟨0x434aa535d3d0c000⟩).formatted).tokens .default =
      [.ok ⟨.leaf (.float ⟨0x3ff8000000000000⟩), .start⟩, .ok ⟨.leaf ⟨.symbol, .text "e16"⟩, ⟨0, 3⟩⟩] := by
    decide +kernel
  intro hreads
  have hsame := (hreads _ _ _ float_mem_tokens_both rfl).symm.trans htokens
  simp at hsame

end FrameGraph
