/-
Texts of floating-point numbers read back as the numbers.

A text denotes a decimal if it is a literal of the form that the reader knows, with the digits and the exponent of the decimal
(`Denotes`). The text of a decimal denotes it in each of its forms: with the digits written out on both sides of the point,
with zeros in front or behind, or with an exponent.

Results:
- `readStrict_of_denotes`, `read_of_denotes`: a text that denotes a decimal is read as the number nearest to it.
- `denotes_text`: the text of a decimal denotes it, or the same number with one more digit.
- `read_text`: so every number but NaN reads back from its text, and different ones have different texts.
-/
import FrameGraph.Proofs.Lexemes
import FrameGraph.Proofs.Numerals
import FrameGraph.Proofs.Rounding

namespace FrameGraph

/-! ## Digits -/

namespace Digits

theorem value_eq (cs : List Char) : value cs = Nat.ofDigitChars 10 cs 0 := by
  simp only [value, Nat.ofDigitChars_eq_foldl, Nat.mul_comm 10]

theorem value_toDigits (n : Nat) : value (Nat.toDigits 10 n) = n := by
  rw [value_eq, Nat.ofDigitChars_ten_toDigits]

theorem value_append_zeros (cs : List Char) (n : Nat) : value (cs ++ List.replicate n '0') = value cs * 10 ^ n := by
  rw [value_eq, value_eq, Nat.ofDigitChars_append, Nat.ofDigitChars_replicate_zero, Nat.mul_comm]

theorem value_zeros_append (n : Nat) (cs : List Char) : value (List.replicate n '0' ++ cs) = value cs := by
  rw [value_eq, value_eq, Nat.ofDigitChars_append, Nat.ofDigitChars_replicate_zero, Nat.mul_zero]

theorem isDigit_of_mem {n : Nat} {c : Char} (hc : c ∈ Nat.toDigits 10 n) : c.isDigit = true :=
  Nat.isDigit_of_mem_toDigits (by decide) (by decide) hc

theorem ne_point_of_isDigit {c : Char} (hc : c.isDigit = true) : c ≠ '.' := by
  rintro rfl
  exact absurd hc (by decide)

theorem splitSign_of_head {cs : List Char} (hcs : ∀ c ∈ cs.head?, c ≠ '+' ∧ c ≠ '-') : splitSign cs = (false, cs) := by
  unfold splitSign
  split
  · exact absurd rfl (hcs '-' rfl).2
  · exact absurd rfl (hcs '+' rfl).1
  · rfl

theorem ne_sign_of_isDigit {c : Char} (hc : c.isDigit = true) : c ≠ '+' ∧ c ≠ '-' := by
  constructor
  · rintro rfl
    exact absurd hc (by decide)
  · rintro rfl
    exact absurd hc (by decide)

theorem splitSign_of_isDigit {c : Char} (hc : c.isDigit = true) (cs : List Char) :
    splitSign (c :: cs) = (false, c :: cs) := by
  apply splitSign_of_head
  intro d hd
  obtain rfl : c = d := Option.some.inj hd
  exact ne_sign_of_isDigit hc

/-- a minus sign in front of a negative number, and nothing in front of others -/
def sign (negative : Bool) : List Char := if negative then ['-'] else []

theorem splitSign_sign (negative : Bool) {cs : List Char} (hcs : ∃ c ds, cs = c :: ds ∧ c.isDigit = true) :
    splitSign (sign negative ++ cs) = (negative, cs) := by
  cases negative with
  | true => rfl
  | false =>
    obtain ⟨c, ds, rfl, hc⟩ := hcs
    exact splitSign_of_isDigit hc ds

theorem exists_cons_toDigits (n : Nat) : ∃ c ds, Nat.toDigits 10 n = c :: ds ∧ c.isDigit = true := by
  obtain ⟨c, ds, hds⟩ := List.exists_cons_of_ne_nil (Nat.toDigits_ne_nil (n := n) (b := 10))
  refine ⟨c, ds, hds, isDigit_of_mem (n := n) ?_⟩
  rw [hds]
  exact List.mem_cons_self

/-- the text of an integer reads back as the integer -/
theorem readInteger_sign (k : Int) : readInteger (sign (k < 0) ++ Nat.toDigits 10 k.natAbs) = some k := by
  have hdigits : (Nat.toDigits 10 k.natAbs).all Char.isDigit = true := List.all_eq_true.2 fun _ hc => isDigit_of_mem hc
  have hempty : (Nat.toDigits 10 k.natAbs).isEmpty = false := List.isEmpty_eq_false_iff.2 Nat.toDigits_ne_nil
  rw [readInteger, splitSign_sign _ (exists_cons_toDigits _)]
  simp only [hempty, hdigits, Bool.not_true, Bool.or_self, Bool.false_eq_true, if_false, value_toDigits]
  split_ifs with hk
  · have hneg : k < 0 := by simpa using hk
    rw [Option.some_inj]
    omega
  · have hneg : ¬ k < 0 := by simpa using hk
    rw [Option.some_inj]
    omega

/-- an integer is written with digits and a sign -/
theorem cases_of_readInteger {cs : List Char} {k : Int} (h : readInteger cs = some k) {c : Char} (hc : c ∈ cs) :
    c.isDigit = true ∨ c = '-' ∨ c = '+' := by
  unfold readInteger at h
  dsimp only at h
  have hdigits : ∀ d ∈ (splitSign cs).2, d.isDigit = true := by
    by_cases hnot : ((splitSign cs).2.isEmpty || !(splitSign cs).2.all Char.isDigit) = true
    · simp [hnot] at h
    · simp only [Bool.or_eq_true, Bool.not_eq_true', not_or, Bool.not_eq_false, List.all_eq_true] at hnot
      exact hnot.2
  unfold splitSign at hdigits
  split at hdigits
  · rcases List.mem_cons.1 hc with rfl | hc
    · exact .inr (.inl rfl)
    · exact .inl (hdigits c hc)
  · rcases List.mem_cons.1 hc with rfl | hc
    · exact .inr (.inr rfl)
    · exact .inl (hdigits c hc)
  · exact .inl (hdigits c hc)

end Digits

namespace Binary64

/-! ## Decimal literals -/

/-- the text is a literal with these digits and this exponent -/
inductive Denotes : List Char → Nat → Int → Prop where
  | bare {whole rest : List Char} {e : Int} (hne : whole ≠ []) (hwhole : ∀ c ∈ whole, c.isDigit = true)
    (hrest : readExponent rest = some e) : Denotes (whole ++ rest) (Digits.value whole) e
  | point {whole fraction rest : List Char} {e : Int} (hne : whole ≠ []) (hne' : fraction ≠ [])
    (hwhole : ∀ c ∈ whole, c.isDigit = true) (hfraction : ∀ c ∈ fraction, c.isDigit = true)
    (hrest : readExponent rest = some e) :
    Denotes (whole ++ '.' :: (fraction ++ rest)) (Digits.value (whole ++ fraction)) (e - fraction.length)

/-- what can stand where digits may end -/
theorem readExponent_cases {rest : List Char} {e : Int} (h : readExponent rest = some e) :
    rest = [] ∧ e = 0 ∨ ∃ c ds, rest = c :: ds ∧ (c = 'e' ∨ c = 'E') ∧ Digits.readInteger ds = some e := by
  cases rest with
  | nil => exact .inl ⟨rfl, (Option.some.inj h).symm⟩
  | cons c ds =>
    rw [readExponent] at h
    split_ifs at h with hc
    exact .inr ⟨c, ds, rfl, hc, h⟩

theorem takeWhile_digits {ds rest : List Char} (hds : ∀ c ∈ ds, c.isDigit = true)
    (hrest : ∀ c ∈ rest.head?, c.isDigit = false) :
    (ds ++ rest).takeWhile Char.isDigit = ds ∧ (ds ++ rest).dropWhile Char.isDigit = rest := by
  have hnone : rest.takeWhile Char.isDigit = [] ∧ rest.dropWhile Char.isDigit = rest := by
    cases rest with
    | nil => exact ⟨rfl, rfl⟩
    | cons c rest =>
      have hc := hrest c rfl
      simp [hc]
  rw [List.takeWhile_append_of_pos hds, List.dropWhile_append_of_pos hds, hnone.1, hnone.2, List.append_nil]
  exact ⟨rfl, rfl⟩

theorem head_of_readExponent {rest : List Char} {e : Int} (h : readExponent rest = some e) :
    ∀ c ∈ rest.head?, c.isDigit = false ∧ c ≠ '.' := by
  rcases readExponent_cases h with ⟨rfl, -⟩ | ⟨c, ds, rfl, hc, -⟩
  · simp
  · rintro d hd
    obtain rfl : c = d := by simpa using hd
    rcases hc with rfl | rfl <;> decide

/-- digits and an exponent are read as the number nearest to them -/
theorem readDecimal_whole {whole rest : List Char} {e : Int} (hne : whole ≠ []) (hwhole : ∀ c ∈ whole, c.isDigit = true)
    (hrest : readExponent rest = some e) (negative : Bool) :
    readDecimal negative (whole ++ rest) = some (ofDecimal negative (Digits.value whole) e) := by
  obtain ⟨htake, hdrop⟩ := takeWhile_digits hwhole fun c hc => (head_of_readExponent hrest c hc).1
  have hpoint : ∀ ds, rest ≠ '.' :: ds := by
    rintro ds rfl
    exact (head_of_readExponent hrest '.' rfl).2 rfl
  have hempty : whole.isEmpty = false := List.isEmpty_eq_false_iff.2 hne
  unfold readDecimal
  dsimp only
  rw [htake, hdrop]
  split
  · exact absurd rfl (hpoint _)
  · simp [hempty, hrest]

/-- so are digits with a point among them, of which those behind the point lower the exponent -/
theorem readDecimal_point {whole fraction rest : List Char} {e : Int} (hne : whole ≠ [] ∨ fraction ≠ [])
    (hwhole : ∀ c ∈ whole, c.isDigit = true) (hfraction : ∀ c ∈ fraction, c.isDigit = true)
    (hrest : readExponent rest = some e) (negative : Bool) :
    readDecimal negative (whole ++ '.' :: (fraction ++ rest)) =
      some (ofDecimal negative (Digits.value (whole ++ fraction)) (e - fraction.length)) := by
  have hpoint : ∀ c ∈ ('.' :: (fraction ++ rest)).head?, c.isDigit = false := by simp
  obtain ⟨htake, hdrop⟩ := takeWhile_digits hwhole hpoint
  obtain ⟨htake', hdrop'⟩ := takeWhile_digits hfraction fun c hc => (head_of_readExponent hrest c hc).1
  have hempty : (whole.isEmpty && fraction.isEmpty) = false := by
    rw [Bool.and_eq_false_iff]
    exact hne.imp List.isEmpty_eq_false_iff.2 List.isEmpty_eq_false_iff.2
  unfold readDecimal
  rw [htake, hdrop]
  simp only [htake', hdrop', hempty, hrest, Bool.false_eq_true, if_false, Option.map_some]

/-- a literal is read as the number nearest to it -/
theorem readDecimal_of_denotes {cs : List Char} {n : Nat} {k : Int} (h : Denotes cs n k) (negative : Bool) :
    readDecimal negative cs = some (ofDecimal negative n k) := by
  cases h with
  | bare hne hwhole hrest => exact readDecimal_whole hne hwhole hrest negative
  | point hne _ hwhole hfraction hrest => exact readDecimal_point (.inl hne) hwhole hfraction hrest negative

theorem Denotes.first {cs : List Char} {n : Nat} {k : Int} (h : Denotes cs n k) :
    ∃ c ds, cs = c :: ds ∧ c.isDigit = true := by
  have hfirst {whole rest : List Char} (hne : whole ≠ []) (hwhole : ∀ c ∈ whole, c.isDigit = true) :
      ∃ c ds, whole ++ rest = c :: ds ∧ c.isDigit = true := by
    obtain ⟨c, ds, rfl⟩ := List.exists_cons_of_ne_nil hne
    exact ⟨c, ds ++ rest, rfl, hwhole c List.mem_cons_self⟩
  cases h with
  | bare hne hwhole => exact hfirst hne hwhole
  | point hne _ hwhole => exact hfirst hne hwhole

/-- nothing but a decimal begins with a digit -/
theorem readStrict_of_denotes {cs : List Char} {n : Nat} {k : Int} (h : Denotes cs n k) (negative : Bool) :
    readStrict (Digits.sign negative ++ cs) = some (ofDecimal negative n k) := by
  obtain ⟨c, ds, rfl, hc⟩ := h.first
  have hletter (l : Char) (ls : List Char) (hl : l.isDigit = false) :
      String.ofList ((c :: ds).map Char.toLower) ≠ String.ofList (l :: ls) := by
    intro heq
    have hchars := String.ofList_injective heq
    rw [List.map_cons, toLower_of_isDigit hc] at hchars
    rw [(List.cons.inj hchars).1, hl] at hc
    exact Bool.false_ne_true hc
  have hinf := hletter 'i' ['n', 'f'] (by decide)
  have hinfinity := hletter 'i' ['n', 'f', 'i', 'n', 'i', 't', 'y'] (by decide)
  have hnan := hletter 'n' ['a', 'n'] (by decide)
  rw [readStrict, Digits.splitSign_sign negative h.first]
  simp only [hinf, hinfinity, hnan, or_self, if_false]
  exact readDecimal_of_denotes h negative

theorem isNumeric_of_readExponent {rest : List Char} {e : Int} (h : readExponent rest = some e) :
    ∀ c ∈ rest, IsNumeric c ∧ c ≠ '.' := by
  rcases readExponent_cases h with ⟨rfl, -⟩ | ⟨c, ds, rfl, hc, hds⟩
  · simp
  · rw [List.forall_mem_cons]
    constructor
    · rcases hc with rfl | rfl <;> decide
    · intro d hd
      rcases Digits.cases_of_readInteger hds hd with hdigit | rfl | rfl
      · exact ⟨isNumeric_of_isDigit hdigit, Digits.ne_point_of_isDigit hdigit⟩
      · decide
      · decide

theorem Denotes.isNumeric {cs : List Char} {n : Nat} {k : Int} (h : Denotes cs n k) : ∀ c ∈ cs, IsNumeric c := by
  cases h with
  | bare hne hwhole hrest =>
    rw [List.forall_mem_append]
    exact ⟨fun c hc => isNumeric_of_isDigit (hwhole c hc), fun c hc => (isNumeric_of_readExponent hrest c hc).1⟩
  | point hne hne' hwhole hfraction hrest =>
    rw [List.forall_mem_append, List.forall_mem_cons, List.forall_mem_append]
    refine ⟨fun c hc => isNumeric_of_isDigit (hwhole c hc), by decide, ?_, ?_⟩
    · exact fun c hc => isNumeric_of_isDigit (hfraction c hc)
    · exact fun c hc => (isNumeric_of_readExponent hrest c hc).1

/-- no literal ends in its point -/
theorem read_of_denotes {cs : List Char} {n : Nat} {k : Int} (h : Denotes cs n k) (negative : Bool) :
    read (Digits.sign negative ++ cs) = some (ofDecimal negative n k) := by
  have hlast {front back : List Char} (hne : back ≠ []) (hback : '.' ∉ back) :
      (front ++ back).getLast? ≠ some '.' := by
    intro heq
    rw [List.getLast?_append_of_ne_nil _ hne] at heq
    exact hback (List.mem_of_getLast? heq)
  have hend : (Digits.sign negative ++ cs).getLast? ≠ some '.' := by
    cases h with
    | bare hne hwhole hrest =>
      apply hlast (by simp [hne])
      intro hmem
      rcases List.mem_append.1 hmem with hmem | hmem
      · exact Digits.ne_point_of_isDigit (hwhole _ hmem) rfl
      · exact (isNumeric_of_readExponent hrest _ hmem).2 rfl
    | @point whole fraction rest e hne hne' hwhole hfraction hrest =>
      have hsplit : Digits.sign negative ++ (whole ++ '.' :: (fraction ++ rest)) =
          (Digits.sign negative ++ whole ++ ['.']) ++ (fraction ++ rest) := by simp
      rw [hsplit]
      apply hlast (by simp [hne'])
      intro hmem
      rcases List.mem_append.1 hmem with hmem | hmem
      · exact Digits.ne_point_of_isDigit (hfraction _ hmem) rfl
      · exact (isNumeric_of_readExponent hrest _ hmem).2 rfl
  rw [read, if_neg hend]
  exact readStrict_of_denotes h negative

/-! ## The text of a decimal -/

/-- the exponent that is written behind a mantissa -/
theorem readExponent_text (k : Int) : readExponent ('e' :: (Digits.sign (k < 0) ++ Nat.toDigits 10 k.natAbs)) = some k := by
  rw [readExponent, if_pos (.inl rfl), Digits.readInteger_sign]

/-- digits with a point among them -/
theorem denotes_split {ds rest : List Char} {i : Nat} {e : Int} (hdigit : ∀ c ∈ ds, c.isDigit = true) (hi : 0 < i)
    (hi' : i < ds.length) (hrest : readExponent rest = some e) :
    Denotes (ds.take i ++ '.' :: (ds.drop i ++ rest)) (Digits.value ds) (e - (ds.length - i : Nat)) := by
  have hne : ds.take i ≠ [] := by
    rw [← List.length_pos_iff, List.length_take]
    omega
  have hne' : ds.drop i ≠ [] := by
    rw [← List.length_pos_iff, List.length_drop]
    omega
  have hdenotes := Denotes.point hne hne' (fun c hc => hdigit c (List.mem_of_mem_take hc))
    (fun c hc => hdigit c (List.mem_of_mem_drop hc)) hrest
  rwa [List.take_append_drop, List.length_drop] at hdenotes

/-- zeros behind digits, and one of them behind the point -/
theorem denotes_zeros_behind {ds : List Char} (hne : ds ≠ []) (hdigit : ∀ c ∈ ds, c.isDigit = true) (n : Nat) :
    Denotes (ds ++ List.replicate n '0' ++ ['.', '0']) (Digits.value ds * 10 ^ (n + 1)) (-1) := by
  have hall : ∀ c ∈ ds ++ List.replicate (n + 1) '0', c.isDigit = true := by
    intro c hc
    rcases List.mem_append.1 hc with hc | hc
    · exact hdigit c hc
    · rw [(List.mem_replicate.1 hc).2]
      rfl
  have hlength : (ds ++ List.replicate (n + 1) '0').length = (ds ++ List.replicate n '0').length + 1 := by
    simp [Nat.add_assoc]
  have hpos : 0 < (ds ++ List.replicate n '0').length := List.length_pos_iff.2 (by simp [hne])
  have hdenotes := denotes_split hall hpos (by omega) (rfl : readExponent [] = some 0)
  rw [Digits.value_append_zeros, hlength, List.replicate_succ', ← List.append_assoc, List.take_left, List.drop_left,
    Nat.add_sub_cancel_left] at hdenotes
  simpa using hdenotes

/-- zeros before digits, and one of them before the point -/
theorem denotes_zeros_before {ds : List Char} (hne : ds ≠ []) (hdigit : ∀ c ∈ ds, c.isDigit = true) (n : Nat) :
    Denotes (['0', '.'] ++ List.replicate n '0' ++ ds) (Digits.value ds) (-(n + ds.length)) := by
  have hall : ∀ c ∈ List.replicate (n + 1) '0' ++ ds, c.isDigit = true := by
    intro c hc
    rcases List.mem_append.1 hc with hc | hc
    · rw [(List.mem_replicate.1 hc).2]
      rfl
    · exact hdigit c hc
  have hpos := List.length_pos_iff.2 hne
  have hlength : (List.replicate (n + 1) '0' ++ ds).length = n + 1 + ds.length := by simp
  have hdenotes := denotes_split hall Nat.one_pos (by omega) (rfl : readExponent [] = some 0)
  rw [Digits.value_zeros_append, hlength, List.replicate_succ] at hdenotes
  have hexponent : (0 : Int) - (n + 1 + ds.length - 1 : Nat) = -(n + ds.length) := by omega
  rw [hexponent] at hdenotes
  simpa using hdenotes

/-- the text of a decimal denotes a decimal of the same value -/
theorem denotes_text (d : Scientific) :
    ∃ n k, Denotes d.text n k ∧ decimal n k = decimal d.digits d.exponent := by
  obtain ⟨digits, exponent⟩ := d
  have hne : Nat.toDigits 10 digits ≠ [] := Nat.toDigits_ne_nil
  have hvalue := Digits.value_toDigits digits
  have hdigit : ∀ c ∈ Nat.toDigits 10 digits, c.isDigit = true := fun c hc => Digits.isDigit_of_mem hc
  have hsign (k : Int) : (if k < 0 then ['-'] else []) = Digits.sign (k < 0) := by simp [Digits.sign]
  simp only [Scientific.text, hsign]
  generalize Nat.toDigits 10 digits = ds at hne hvalue hdigit
  have hlength : 0 < ds.length := List.length_pos_iff.2 hne
  set leading := exponent + ds.length - 1 with hleading
  have hbehind := readExponent_text leading
  split_ifs with hpositional hwhole hamong hshort
  · refine ⟨_, _, denotes_zeros_behind hne hdigit _, ?_⟩
    obtain ⟨n, rfl⟩ := Int.eq_ofNat_of_zero_le hwhole
    rw [hvalue, decimal, decimal, zpow_neg_one, zpow_natCast, Int.toNat_natCast, pow_succ]
    push_cast
    field_simp
  · have hdenotes := denotes_split hdigit (Nat.succ_pos leading.toNat) (by omega) (rfl : readExponent [] = some 0)
    refine ⟨_, _, by simpa using hdenotes, ?_⟩
    have hexponent : -((ds.length - (leading.toNat + 1) : Nat) : Int) = exponent := by omega
    rw [hvalue, hexponent]
  · refine ⟨_, _, denotes_zeros_before hne hdigit _, ?_⟩
    have hexponent : -(((-leading - 1).toNat : Int) + ds.length) = exponent := by omega
    rw [hvalue, hexponent]
  · refine ⟨_, _, by simpa using Denotes.bare hne hdigit hbehind, ?_⟩
    have hexponent : leading = exponent := by omega
    rw [hvalue, hexponent]
  · have hdenotes := denotes_split hdigit Nat.one_pos (Nat.not_le.1 hshort) hbehind
    refine ⟨_, _, by simpa using hdenotes, ?_⟩
    have hexponent : leading - (ds.length - 1 : Nat) = exponent := by omega
    rw [hvalue, hexponent]

/-! ## The text of a number -/

variable {x : Binary64}

theorem ofMagnitude_magnitudeBits (x : Binary64) : ofMagnitude x.isNegative x.magnitudeBits = x := by
  have hpow : Nat.pow 2 63 = 2 ^ 63 := rfl
  have hlt := x.bits.toNat_lt
  have hnat : (if x.isNegative = true then Nat.pow 2 63 + x.magnitudeBits else x.magnitudeBits) = x.bits.toNat := by
    simp only [isNegative, magnitudeBits, hpow, decide_eq_true_eq]
    split_ifs <;> omega
  rw [ofMagnitude, hnat, UInt64.ofNat_toNat]

/-- what stands behind the sign -/
theorem toList_text (hx : x.isNaN = false) : x.text.toList = Digits.sign x.isNegative ++
    if x.isInfinite then ['i', 'n', 'f'] else if x.isZero then ['0', '.', '0'] else x.shortest.text := by
  simp [text, hx, Digits.sign]

theorem ordinary_of_not (hx : x.isNaN = false) (hinfinite : ¬ x.isInfinite = true) (hzero : ¬ x.isZero = true) :
    x.Ordinary := by
  simp only [isNaN, isInfinite, isZero, decide_eq_false_iff_not, beq_iff_eq] at hx hinfinite hzero
  exact ⟨hzero, by omega⟩

theorem isNumeric_of_mem_text (hx : x.isNaN = false) : ∀ c ∈ x.text.toList, IsNumeric c := by
  have hsign : ∀ c ∈ Digits.sign x.isNegative, IsNumeric c := by
    cases x.isNegative <;> exact List.all_iff_forall_prop.1 (by decide)
  rw [toList_text hx, List.forall_mem_append]
  refine ⟨hsign, ?_⟩
  split_ifs
  · exact List.all_iff_forall_prop.1 (by decide)
  · exact List.all_iff_forall_prop.1 (by decide)
  · obtain ⟨n, k, hdenotes, -⟩ := denotes_text x.shortest
    exact hdenotes.isNumeric

/-- **A number reads back from its text.** Whatever its sign and its size, what is read from the text of a number other than
NaN is the number with the same bits. -/
theorem read_text (hx : x.isNaN = false) : read x.text.toList = some x := by
  rw [toList_text hx]
  split_ifs with hinfinite hzero
  · have hbits : x.magnitudeBits = infinityBits := by simpa [isInfinite] using hinfinite
    have hinf : read (Digits.sign x.isNegative ++ ['i', 'n', 'f']) = some (infinity x.isNegative) := by
      cases x.isNegative <;> decide
    rw [hinf, infinity, ← hbits, ofMagnitude_magnitudeBits]
  · have hbits : x.magnitudeBits = 0 := by simpa [isZero] using hzero
    have hdenotes := denotes_zeros_before (List.cons_ne_nil '0' []) (List.all_iff_forall_prop.1 (by decide)) 0
    have hnearest (k : Int) : ofDecimal x.isNegative (Digits.value ['0']) k = x := by
      have hvalue : Digits.value ['0'] = 0 := rfl
      rw [ofDecimal, hvalue, if_pos rfl, zero, ← hbits, ofMagnitude_magnitudeBits]
    exact (read_of_denotes hdenotes x.isNegative).trans (congrArg some (hnearest _))
  · have hordinary := ordinary_of_not hx hinfinite hzero
    obtain ⟨n, k, hdenotes, hdecimal⟩ := denotes_text x.shortest
    have hattracts := attracts_shortest hordinary
    rw [← hdecimal] at hattracts
    rw [read_of_denotes hdenotes, ofDecimal_of_attracts hordinary hattracts, ofMagnitude_magnitudeBits]

/-- numbers with the same text are the same -/
theorem text_injective {y : Binary64} (hx : x.isNaN = false) (hy : y.isNaN = false) (h : x.text = y.text) : x = y := by
  apply Option.some.inj
  rw [← read_text hx, ← read_text hy, h]

end Binary64

end FrameGraph
