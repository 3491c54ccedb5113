/-
Which texts are read as floating-point numbers, and as which.

A literal is a word for infinity or for no number, in any case, or digits with a point among them or none and an exponent behind
them or none, with at least one digit outside the exponent; a sign may stand in front (`Literal`). The strict reader takes exactly
the literals. The other reader completes a text that ends in its point by a zero: of a literal that changes the digits and the
exponent, but not the number, and nothing else becomes a literal by it except a point that stands alone behind its sign.

Results:
- `Digits.readInteger_iff`, `readExponent_eq_some_iff`, `readDecimal_eq_some_iff`: what each part of a literal is read as.
- `readStrict_eq_some_iff`: the strict reader takes exactly the literals, as the numbers that they stand for.
- `ofDecimal_mul_ten`: a zero behind the digits is made up for by the exponent.
- `literal_completed_iff`: what a zero behind a final point makes a literal.
- `read_eq_some_iff`: floating-point numbers are read from literals, and from a point alone.
- `read_pointAlone`: so not only literals are read.
-/
import FrameGraph.Proofs.Classification

namespace FrameGraph

/-! ## Digits behind a sign -/

namespace Digits

theorem splitSign_append {sg cs : List Char} (hsg : sg ∈ Pattern.signs) (hcs : ∀ c ∈ cs.head?, c ≠ '+' ∧ c ≠ '-') :
    splitSign (sg ++ cs) = (decide (sg = ['-']), cs) := by
  simp only [Pattern.signs, List.mem_cons, List.not_mem_nil, or_false] at hsg
  rcases hsg with rfl | rfl | rfl
  · exact splitSign_of_head hcs
  · rfl
  · rfl

theorem exists_sign (cs : List Char) :
    ∃ sg ∈ Pattern.signs, cs = sg ++ (splitSign cs).2 ∧ (splitSign cs).1 = decide (sg = ['-']) := by
  unfold splitSign
  split
  · exact ⟨['-'], by simp [Pattern.signs], rfl, rfl⟩
  · exact ⟨['+'], by simp [Pattern.signs], rfl, rfl⟩
  · exact ⟨[], by simp [Pattern.signs], rfl, rfl⟩

/-- exactly digits behind a sign, or without one, are read as an integer -/
theorem readInteger_iff {cs : List Char} {k : Int} :
    readInteger cs = some k ↔ ∃ sg ds, Pattern.Signed sg ds ∧ cs = sg ++ ds ∧
      (if sg = ['-'] then -(Nat.ofDigitChars 10 ds 0 : Int) else Nat.ofDigitChars 10 ds 0) = k := by
  constructor
  · intro h
    obtain ⟨sg, hsg, hcs, hminus⟩ := exists_sign cs
    simp only [readInteger, hminus, value_eq, decide_eq_true_eq] at h
    split at h
    · cases h
    next hnot =>
      simp only [Bool.or_eq_true, Bool.not_eq_true', not_or, Bool.not_eq_false, Bool.not_eq_true,
        List.isEmpty_eq_false_iff, List.all_eq_true] at hnot
      exact ⟨sg, _, ⟨hsg, hnot.1, hnot.2⟩, hcs, Option.some.inj h⟩
  · rintro ⟨sg, ds, hds, rfl, rfl⟩
    have hhead : ∀ c ∈ ds.head?, c ≠ '+' ∧ c ≠ '-' :=
      fun c hc => ne_sign_of_isDigit (hds.digits c (List.mem_of_mem_head? hc))
    have hempty : ds.isEmpty = false := List.isEmpty_eq_false_iff.2 hds.nonempty
    have hall : ds.all Char.isDigit = true := List.all_eq_true.2 hds.digits
    simp only [readInteger, splitSign_append hds.sign hhead, hempty, hall, value_eq, Bool.not_true, Bool.or_self,
      Bool.false_eq_true, if_false, decide_eq_true_eq]

end Digits

namespace Binary64

/-! ## Decimal literals -/

/-- nothing, or a mark and an integer behind it -/
inductive Exponent : List Char → Int → Prop where
  | absent : Exponent [] 0
  | marked {c : Char} {sg ds : List Char} (hc : c = 'e' ∨ c = 'E') (hds : Pattern.Signed sg ds) :
    Exponent (c :: (sg ++ ds)) (if sg = ['-'] then -(Nat.ofDigitChars 10 ds 0 : Int) else Nat.ofDigitChars 10 ds 0)

/-- digits with a point among them or none, at least one of them, and an exponent: the literal denotes its digits, times ten to
the exponent less the number of the digits behind the point -/
inductive Decimal : List Char → Nat → Int → Prop where
  | whole {ds rest : List Char} {e : Int} (hne : ds ≠ []) (hds : ∀ c ∈ ds, c.isDigit = true) (hrest : Exponent rest e) :
    Decimal (ds ++ rest) (Nat.ofDigitChars 10 ds 0) e
  | point {ds fs rest : List Char} {e : Int} (hne : ds ≠ [] ∨ fs ≠ []) (hds : ∀ c ∈ ds, c.isDigit = true)
    (hfs : ∀ c ∈ fs, c.isDigit = true) (hrest : Exponent rest e) :
    Decimal (ds ++ '.' :: (fs ++ rest)) (Nat.ofDigitChars 10 (ds ++ fs) 0) (e - fs.length)

theorem readExponent_eq_some_iff {cs : List Char} {e : Int} : readExponent cs = some e ↔ Exponent cs e := by
  constructor
  · intro h
    rcases readExponent_cases h with ⟨rfl, rfl⟩ | ⟨c, ds, rfl, hc, hds⟩
    · exact .absent
    · obtain ⟨sg, ds, hsigned, rfl, rfl⟩ := Digits.readInteger_iff.1 hds
      exact .marked hc hsigned
  · intro h
    cases h with
    | absent => rfl
    | marked hc hds =>
      rw [readExponent, if_pos hc]
      exact Digits.readInteger_iff.2 ⟨_, _, hds, rfl, rfl⟩

/-- exactly decimal literals are read, as the numbers nearest to what they denote -/
theorem readDecimal_eq_some_iff {negative : Bool} {cs : List Char} {x : Binary64} :
    readDecimal negative cs = some x ↔ ∃ n k, Decimal cs n k ∧ x = ofDecimal negative n k := by
  constructor
  · intro h
    have hwhole : ∀ c ∈ cs.takeWhile Char.isDigit, c.isDigit = true := fun c hc => List.mem_takeWhile_imp hc
    have hsplit : cs = cs.takeWhile Char.isDigit ++ cs.dropWhile Char.isDigit := List.takeWhile_append_dropWhile.symm
    unfold readDecimal at h
    dsimp only at h
    split at h
    · next ds hbehind =>
      have hfraction : ∀ c ∈ ds.takeWhile Char.isDigit, c.isDigit = true := fun c hc => List.mem_takeWhile_imp hc
      split_ifs at h with hempty
      obtain ⟨e, he, rfl⟩ := Option.map_eq_some_iff.1 h
      have hne : cs.takeWhile Char.isDigit ≠ [] ∨ ds.takeWhile Char.isDigit ≠ [] := by
        by_contra hnone
        rw [not_or, not_not, not_not] at hnone
        exact hempty (by rw [hnone.1, hnone.2]; rfl)
      have hliteral := Decimal.point hne hwhole hfraction (readExponent_eq_some_iff.1 he)
      rw [List.takeWhile_append_dropWhile, ← hbehind, ← hsplit] at hliteral
      exact ⟨_, _, hliteral, by rw [Digits.value_eq]⟩
    · next hnot =>
      rw [List.isEmpty_nil, Bool.and_true] at h
      split_ifs at h with hempty
      obtain ⟨e, he, rfl⟩ := Option.map_eq_some_iff.1 h
      have hne : cs.takeWhile Char.isDigit ≠ [] := fun hnil => hempty (by rw [hnil]; rfl)
      have hliteral := Decimal.whole hne hwhole (readExponent_eq_some_iff.1 he)
      rw [← hsplit] at hliteral
      exact ⟨_, _, hliteral, by simp [Digits.value_eq]⟩
  · rintro ⟨n, k, hliteral, rfl⟩
    cases hliteral with
    | whole hne hds hrest =>
      rw [readDecimal_whole hne hds (readExponent_eq_some_iff.2 hrest), Digits.value_eq]
    | point hne hds hfs hrest =>
      rw [readDecimal_point hne hds hfs (readExponent_eq_some_iff.2 hrest), Digits.value_eq]

theorem Decimal.first {cs : List Char} {n : Nat} {k : Int} (h : Decimal cs n k) :
    ∃ c ds, cs = c :: ds ∧ (c.isDigit = true ∨ c = '.') := by
  cases h with
  | whole hne hds =>
    obtain ⟨c, ds, rfl⟩ := List.exists_cons_of_ne_nil hne
    exact ⟨c, _, rfl, .inl (hds c List.mem_cons_self)⟩
  | @point ds fs rest _ hne hds =>
    cases ds with
    | nil => exact ⟨'.', _, rfl, .inr rfl⟩
    | cons c ds => exact ⟨c, _, rfl, .inl (hds c List.mem_cons_self)⟩

/-! ## Literals -/

/-- a literal without its sign, and the number that it stands for behind a minus sign or not -/
inductive Unsigned (negative : Bool) : List Char → Binary64 → Prop where
  | infinity {w : List Char} (hw : String.ofList (w.map Char.toLower) ∈ ["inf", "infinity"]) :
    Unsigned negative w (infinity negative)
  | nan {w : List Char} (hw : String.ofList (w.map Char.toLower) = "nan") : Unsigned negative w (nan negative)
  | decimal {w : List Char} {n : Nat} {k : Int} (hw : Decimal w n k) : Unsigned negative w (ofDecimal negative n k)

/-- a literal behind its sign or without one, and the number that it stands for -/
def Literal (cs : List Char) (x : Binary64) : Prop := ∃ sg ∈ Pattern.signs, ∃ w, cs = sg ++ w ∧ Unsigned (sg = ['-']) w x

/-- words of literals, in lower case -/
def words : List String := ["inf", "infinity", "nan"]

variable {negative : Bool} {w : List Char} {x : Binary64}

/-- words have letters only -/
theorem isLower_of_mem_words (h : String.ofList (w.map Char.toLower) ∈ words) {c : Char} (hc : c ∈ w) :
    c.toLower.isLower = true := by
  have hwords : (words.all fun v => v.toList.all Char.isLower) = true := by decide
  have hletters := List.all_eq_true.1 (List.all_eq_true.1 hwords _ h)
  rw [String.toList_ofList] at hletters
  exact hletters _ (List.mem_map_of_mem hc)

theorem Unsigned.cases_word (h : Unsigned negative w x) :
    String.ofList (w.map Char.toLower) ∈ words ∨ ∃ n k, Decimal w n k ∧ x = ofDecimal negative n k := by
  cases h with
  | infinity hw =>
    left
    simp only [List.mem_cons, List.not_mem_nil, or_false] at hw
    rcases hw with hw | hw <;> simp [words, hw]
  | nan hw => exact .inl (by simp [words, hw])
  | decimal hw => exact .inr ⟨_, _, hw, rfl⟩

/-- no literal has a second sign -/
theorem Unsigned.ne_sign (h : Unsigned negative w x) : ∀ c ∈ w.head?, c ≠ '+' ∧ c ≠ '-' := by
  intro c hc
  rcases h.cases_word with hword | ⟨n, k, hdecimal, -⟩
  · have hlower := isLower_of_mem_words hword (List.mem_of_mem_head? hc)
    constructor
    · rintro rfl
      exact absurd hlower (by decide)
    · rintro rfl
      exact absurd hlower (by decide)
  · obtain ⟨d, ds, rfl, hd⟩ := hdecimal.first
    obtain rfl : d = c := by simpa using hc
    rcases hd with hd | rfl
    · exact Digits.ne_sign_of_isDigit hd
    · decide

theorem not_isLower_of_isDigit {c : Char} (hc : c.isDigit = true) : ¬ c.isLower = true := by
  intro hlower
  have hdigit : c.val ≤ '9'.val := of_decide_eq_true (Bool.and_eq_true_iff.1 hc).2
  have hletter : 'a'.val ≤ c.val := of_decide_eq_true (Bool.and_eq_true_iff.1 hlower).1
  exact absurd (UInt32.le_trans hletter hdigit) (by decide)

/-- a decimal literal is none of the words -/
theorem Decimal.notMem_words {n : Nat} {k : Int} (h : Decimal w n k) : String.ofList (w.map Char.toLower) ∉ words := by
  intro hword
  obtain ⟨c, ds, rfl, hc⟩ := h.first
  have hlower := isLower_of_mem_words hword List.mem_cons_self
  rcases hc with hc | rfl
  · rw [toLower_of_isDigit hc] at hlower
    exact not_isLower_of_isDigit hc hlower
  · exact absurd hlower (by decide)

/-- **The strict reader takes exactly the literals**, as the numbers that they stand for. -/
theorem readStrict_eq_some_iff {cs : List Char} : readStrict cs = some x ↔ Literal cs x := by
  constructor
  · intro h
    obtain ⟨sg, hsg, hcs, hminus⟩ := Digits.exists_sign cs
    refine ⟨sg, hsg, _, hcs, ?_⟩
    simp only [readStrict, hminus] at h
    split_ifs at h with hinfinity hnan
    · obtain rfl := Option.some.inj h
      exact .infinity (by simpa using hinfinity)
    · obtain rfl := Option.some.inj h
      exact .nan hnan
    · obtain ⟨n, k, hdecimal, rfl⟩ := readDecimal_eq_some_iff.1 h
      exact .decimal hdecimal
  · rintro ⟨sg, hsg, w, rfl, h⟩
    rw [readStrict, Digits.splitSign_append hsg h.ne_sign]
    cases h with
    | infinity hw =>
      simp only [List.mem_cons, List.not_mem_nil, or_false] at hw
      exact if_pos hw
    | nan hw => simp [hw]
    | decimal hw =>
      have hword := hw.notMem_words
      simp only [words, List.mem_cons, List.not_mem_nil, or_false, not_or] at hword
      simp only [hword.1, hword.2.1, hword.2.2, or_self, if_false]
      exact readDecimal_eq_some_iff.2 ⟨_, _, hw, rfl⟩

/-! ## A zero behind the digits -/

theorem roundHalfEven_mul_right (n d : Nat) {m : Nat} (hm : 0 < m) : roundHalfEven (n * m) (d * m) = roundHalfEven n d := by
  have hdiv : n * m / (d * m) = n / d := Nat.mul_div_mul_right n d hm
  have hmod : n * m % (d * m) = n % d * m := Nat.mul_mod_mul_right m n d
  have hdouble : 2 * (n % d * m) = 2 * (n % d) * m := (Nat.mul_assoc ..).symm
  simp only [roundHalfEven, hdiv, hmod, hdouble, Nat.mul_lt_mul_right hm]

/-- what is nearest to a ratio does not depend on common factors -/
theorem nearestBits_mul_right (num den : Nat) {m : Nat} (hm : 0 < m) : nearestBits (num * m) (den * m) = nearestBits num den := by
  have hnum : num * m * Nat.pow 2 places = num * Nat.pow 2 places * m := Nat.mul_right_comm ..
  have hden (scale : Nat) : den * m * Nat.pow 2 scale = den * Nat.pow 2 scale * m := Nat.mul_right_comm ..
  rw [nearestBits, nearestBits, hnum, Nat.mul_div_mul_right _ _ hm, hden, roundHalfEven_mul_right _ _ hm]

/-- one more digit, a zero, and an exponent that is less by one -/
theorem ofDecimal_mul_ten (negative : Bool) (n : Nat) : ofDecimal negative (n * 10) (-1) = ofDecimal negative n 0 := by
  rcases Nat.eq_zero_or_pos n with rfl | hn
  · rw [Nat.zero_mul, ofDecimal, if_pos rfl, ofDecimal, if_pos rfl]
  · have hten : n * 10 ≠ 0 := by omega
    have hsmall (digits : Nat) (k : Int) (hk : -1 ≤ k) : ¬ k + (digits.log2 / 3 + 1 : Nat) < -330 := by omega
    have hleft : ofDecimal negative (n * 10) (-1) = ofRatio negative (n * 10) 10 := by
      rw [ofDecimal, if_neg hten, if_neg (by decide), if_neg (hsmall _ _ le_rfl), if_neg (by decide)]
      rfl
    have hright : ofDecimal negative n 0 = ofRatio negative n 1 := by
      rw [ofDecimal, if_neg hn.ne', if_neg (by decide), if_neg (hsmall _ _ (by decide)), if_pos le_rfl]
      exact congrArg (ofRatio negative · 1) (Nat.mul_one n)
    calc ofDecimal negative (n * 10) (-1) = ofRatio negative (n * 10) (1 * 10) := hleft
      _ = ofRatio negative n 1 := congrArg (ofMagnitude negative) (nearestBits_mul_right n 1 (by decide))
      _ = ofDecimal negative n 0 := hright.symm

/-! ## A point at the end -/

theorem Exponent.notMem_point {rest : List Char} {e : Int} (h : Exponent rest e) : '.' ∉ rest :=
  fun hmem => (isNumeric_of_readExponent (readExponent_eq_some_iff.2 h) _ hmem).2 rfl

theorem notMem_point_of_digits {ds : List Char} (hds : ∀ c ∈ ds, c.isDigit = true) : '.' ∉ ds :=
  fun hmem => Digits.ne_point_of_isDigit (hds _ hmem) rfl

/-- a literal that ends in digits behind a point has digits before the point, unless those behind it are all -/
theorem decimal_point_iff {u fs : List Char} (hfs : ∀ c ∈ fs, c.isDigit = true) {n : Nat} {k : Int} :
    Decimal (u ++ '.' :: fs) n k ↔ (u ≠ [] ∨ fs ≠ []) ∧ (∀ c ∈ u, c.isDigit = true) ∧
      n = Nat.ofDigitChars 10 (u ++ fs) 0 ∧ k = -(fs.length : Int) := by
  constructor
  · intro h
    generalize hcs : u ++ '.' :: fs = cs at h
    cases h with
    | @whole ds rest _ hne hds hrest =>
      have hmem : '.' ∈ ds ++ rest := by
        rw [← hcs]
        simp
      exact absurd hmem (List.not_mem_append (notMem_point_of_digits hds) hrest.notMem_point)
    | @point ds gs rest e hne hds hgs hrest =>
      have hbehind : '.' ∉ gs ++ rest := List.not_mem_append (notMem_point_of_digits hgs) hrest.notMem_point
      obtain ⟨rfl, -, rfl⟩ := (List.append_cons_inj_of_notMem (notMem_point_of_digits hds) hbehind).1 hcs.symm
      -- what follows the digits is no digit, and so there is nothing
      cases hrest with
      | absent =>
        rw [List.append_nil]
        exact ⟨hne, hds, rfl, by simp⟩
      | @marked c sg es hc hes =>
        have hdigit := hfs c (by simp)
        rcases hc with rfl | rfl <;> exact absurd hdigit (by decide)
  · rintro ⟨hne, hu, rfl, rfl⟩
    have hliteral := Decimal.point hne hu hfs .absent
    rwa [List.append_nil, zero_sub] at hliteral

/-- a literal with a point is no word -/
theorem Unsigned.decimal_of_mem (h : Unsigned negative w x) (hw : '.' ∈ w) :
    ∃ n k, Decimal w n k ∧ x = ofDecimal negative n k := by
  rcases h.cases_word with hword | hdecimal
  · exact absurd (isLower_of_mem_words hword hw) (by decide)
  · exact hdecimal

/-- a zero behind the point makes a literal of nothing but a point alone, and changes no literal -/
theorem unsigned_completed_iff {u : List Char} :
    Unsigned negative (u ++ ['.', '0']) x ↔ Unsigned negative (u ++ ['.']) x ∨ u = [] ∧ x = zero negative := by
  have hzero : ∀ c ∈ ['0'], c.isDigit = true := by simp
  have hnone : ∀ c ∈ ([] : List Char), c.isDigit = true := by simp
  have hvalue : Nat.ofDigitChars 10 (u ++ ['0']) 0 = Nat.ofDigitChars 10 (u ++ []) 0 * 10 := by
    rw [Nat.ofDigitChars_append, List.append_nil]
    simp [Nat.ofDigitChars_cons, Nat.mul_comm]
  have hsame : ofDecimal negative (Nat.ofDigitChars 10 (u ++ ['0']) 0) (-1) =
      ofDecimal negative (Nat.ofDigitChars 10 (u ++ []) 0) 0 := by
    rw [hvalue, ofDecimal_mul_ten]
  constructor
  · intro h
    obtain ⟨n, k, hdecimal, rfl⟩ := h.decimal_of_mem (by simp)
    obtain ⟨-, hu, rfl, rfl⟩ := (decimal_point_iff hzero).1 hdecimal
    rw [List.length_singleton, Nat.cast_one, hsame]
    by_cases hne : u = []
    · subst hne
      exact .inr ⟨rfl, rfl⟩
    · exact .inl (.decimal ((decimal_point_iff hnone).2 ⟨.inl hne, hu, rfl, rfl⟩))
  · rintro (h | ⟨rfl, rfl⟩)
    · obtain ⟨n, k, hdecimal, rfl⟩ := h.decimal_of_mem (by simp)
      obtain ⟨-, hu, rfl, rfl⟩ := (decimal_point_iff hnone).1 hdecimal
      have hcompleted : Decimal (u ++ ['.', '0']) _ (-1) := (decimal_point_iff hzero).2 ⟨.inr (by simp), hu, rfl, rfl⟩
      have hread : Unsigned negative (u ++ ['.', '0']) _ := .decimal hcompleted
      rw [hsame] at hread
      exact hread
    · exact .decimal ((decimal_point_iff hzero).2 ⟨.inr (by simp), by simp, rfl, rfl⟩)

/-- a sign stands in front of a point and of what is before the point -/
theorem exists_behind_sign {front back sg : List Char} (hsg : sg ∈ Pattern.signs) (h : front ++ '.' :: back = sg ++ w) :
    ∃ u, front = sg ++ u ∧ w = u ++ '.' :: back := by
  simp only [Pattern.signs, List.mem_cons, List.not_mem_nil, or_false] at hsg
  rcases hsg with rfl | hsg
  · exact ⟨front, rfl, h.symm⟩
  · cases front with
    | nil => rcases hsg with rfl | rfl <;> simp at h
    | cons c u => rcases hsg with rfl | rfl <;> exact ⟨u, by simp_all, by simp_all⟩

theorem literal_completed_iff {front : List Char} :
    Literal (front ++ ['.', '0']) x ↔
      Literal (front ++ ['.']) x ∨ front ∈ Pattern.signs ∧ x = zero (front = ['-']) := by
  constructor
  · rintro ⟨sg, hsg, w, hcs, h⟩
    obtain ⟨u, rfl, rfl⟩ := exists_behind_sign hsg hcs
    rcases unsigned_completed_iff.1 h with h | ⟨rfl, rfl⟩
    · exact .inl ⟨sg, hsg, u ++ ['.'], List.append_assoc .., h⟩
    · rw [List.append_nil]
      exact .inr ⟨hsg, rfl⟩
  · rintro (⟨sg, hsg, w, hcs, h⟩ | ⟨hfront, rfl⟩)
    · obtain ⟨u, rfl, rfl⟩ := exists_behind_sign hsg hcs
      exact ⟨sg, hsg, u ++ ['.', '0'], List.append_assoc .., unsigned_completed_iff.2 (.inl h)⟩
    · exact ⟨front, hfront, ['.', '0'], rfl, unsigned_completed_iff.2 (.inr ⟨rfl, rfl⟩)⟩

theorem read_of_getLast?_ne {cs : List Char} (h : cs.getLast? ≠ some '.') : read cs = readStrict cs := if_neg h

theorem read_append_point (front : List Char) : read (front ++ ['.']) = readStrict (front ++ ['.', '0']) := by
  have hlast : (front ++ ['.', '0']).getLast? ≠ some '.' := by simp
  rw [read_point, read_of_getLast?_ne hlast]

/-- **Floating-point numbers are read from literals, and from a point alone.** The strict reader takes exactly the literals, as
what they stand for. The reader that completes a point at the very end takes the literals as the same numbers, and besides them
only a point that stands alone or behind a sign, as zero; that is no literal of any number. -/
theorem read_eq_some_iff (cs : List Char) (x : Binary64) :
    (readStrict cs = some x ↔ Literal cs x) ∧
    (read cs = some x ↔ Literal cs x ∨ ∃ sg ∈ Pattern.signs, cs = sg ++ ['.'] ∧ x = zero (sg = ['-'])) ∧
    ∀ sg ∈ Pattern.signs, ∀ y, ¬ Literal (sg ++ ['.']) y := by
  refine ⟨readStrict_eq_some_iff, ?_, ?_⟩
  · by_cases hlast : cs.getLast? = some '.'
    · obtain ⟨front, rfl⟩ := List.getLast?_eq_some_iff.1 hlast
      rw [read_append_point, readStrict_eq_some_iff, literal_completed_iff]
      simp
    · have hnot : ¬ ∃ sg ∈ Pattern.signs, cs = sg ++ ['.'] ∧ x = zero (sg = ['-']) := by
        rintro ⟨sg, -, rfl, -⟩
        exact hlast (by simp)
      rw [read_of_getLast?_ne hlast, readStrict_eq_some_iff, or_iff_left hnot]
  · have hrefused : ∀ sg ∈ Pattern.signs, readStrict (sg ++ ['.']) = none := by decide
    intro sg hsg y hliteral
    have hnone := hrefused sg hsg
    rw [readStrict_eq_some_iff.2 hliteral] at hnone
    cases hnone

/-- so not only literals are read: a point alone is -/
theorem read_pointAlone : ¬ ∀ cs, (∃ x, read cs = some x) ↔ ∃ x, Literal cs x := by
  intro h
  have hread : read ['.'] = some (zero false) := by decide
  have hrefused : readStrict ['.'] = none := by decide
  obtain ⟨x, hx⟩ := (h ['.']).1 ⟨_, hread⟩
  rw [readStrict_eq_some_iff.2 hx] at hrefused
  cases hrefused

end Binary64

end FrameGraph
