/-
What the leaf at the start of a word is.

A rule that matches always makes a leaf, so the first rule that matches decides. The leaf takes the longest beginning of the word
in the pattern of that rule, and holds what this beginning denotes: digits count by their places, a floating-point literal is
read as one, and a symbol is its own text.

Results:
- `Radix.readNatural_of_digits`: digits are read as the number that their places make, in every radix.
- `Binary64.exists_read_of_decimal`, `Binary64.exists_read_of_exponent`: every literal for a floating-point number is read as one.
- `Rule.value?_eq_denotes`, `Rule.exists_denotes`: a rule makes of a text in its pattern what the text denotes, and every such
  text denotes something.
- `Word.classify_eq_some_iff`, `Word.classify_takes_longest`: the leaf of a word is that of the first rule that matches.
-/
import FrameGraph.Frame
import FrameGraph.Proofs.FloatText
import FrameGraph.Proofs.Integers

namespace FrameGraph

/-! ## Integers -/

namespace Radix

/-- value of digits behind a sign or without one -/
def signedValue (base : Nat) : List Char → Int
  | '-' :: ds => -(positional base ds : Int)
  | '+' :: ds => positional base ds
  | ds => positional base ds

variable {r : Radix}

theorem numeral_of_digits {ds : List Char} (hne : ds ≠ []) (hds : ∀ c ∈ ds, ∃ d, r.digit c = some d) : r.Numeral ds := by
  obtain ⟨c, cs, rfl⟩ := List.exists_cons_of_ne_nil hne
  obtain ⟨hc, hcs⟩ := List.forall_mem_cons.1 hds
  exact ⟨c, cs, rfl, hc, fun x hx => .inr (hcs x hx)⟩

theorem bare_of_digits {ds : List Char} (hds : ∀ c ∈ ds, ∃ d, r.digit c = some d) : bare ds = ds := by
  apply List.filter_eq_self.2
  intro c hc
  obtain ⟨d, hd⟩ := hds c hc
  exact decide_eq_true (ne_underscore_of_digit hd)

/-- digits are read as the number that their places make -/
theorem readNatural_of_digits {ds : List Char} (hne : ds ≠ []) (hds : ∀ c ∈ ds, ∃ d, r.digit c = some d) :
    r.readNatural ds = some (positional r.val ds) :=
  readNatural_eq_some_iff.2 ⟨numeral_of_digits hne hds, by rw [bare_of_digits hds]⟩

theorem readSigned_of_digits {ds : List Char} (hne : ds ≠ []) (hds : ∀ c ∈ ds, ∃ d, r.digit c = some d) :
    r.readSigned ds = some (positional r.val ds : Int) := by
  have hsigned : r.Signed [] ds (positional r.val ds) :=
    ⟨ds, rfl, numeral_of_digits hne hds, by rw [bare_of_digits hds]; rfl⟩
  exact readSigned_eq_some_iff.2 ⟨[], List.mem_cons_self, hsigned⟩

theorem readInteger_of_digits {ds : List Char} (hne : ds ≠ []) (hds : ∀ c ∈ ds, ∃ d, r.digit c = some d) :
    r.readInteger ds = some (positional r.val ds : Int) := by
  rw [readInteger_of_ne_plus, readSigned_of_digits hne hds]
  rintro cs rfl
  obtain ⟨d, hd⟩ := hds '+' List.mem_cons_self
  exact (ne_sign_of_digit hd).1 rfl

theorem signedValue_of_digits {ds : List Char} (hne : ds ≠ []) (hds : ∀ c ∈ ds, ∃ d, r.digit c = some d) (base : Nat) :
    signedValue base ds = positional base ds := by
  obtain ⟨c, cs, rfl⟩ := List.exists_cons_of_ne_nil hne
  obtain ⟨d, hd⟩ := hds c List.mem_cons_self
  obtain ⟨hplus, hminus⟩ := ne_sign_of_digit hd
  unfold signedValue
  split <;> simp_all

/-- digits behind a sign are read as their value with the sign -/
theorem readInteger_signed {sg ds : List Char} (hsg : sg ∈ Pattern.signs) (hne : ds ≠ [])
    (hds : ∀ c ∈ ds, ∃ d, r.digit c = some d) : r.readInteger (sg ++ ds) = some (signedValue r.val (sg ++ ds)) := by
  simp only [Pattern.signs, List.mem_cons, List.not_mem_nil, or_false] at hsg
  rcases hsg with rfl | rfl | rfl
  · rw [List.nil_append, readInteger_of_digits hne hds, signedValue_of_digits hne hds]
  · exact readSigned_of_digits hne hds
  · show (r.readNatural ds).map (fun n => -(n : Int)) = _
    rw [readNatural_of_digits hne hds]
    rfl

theorem exists_decimal_digit {c : Char} (hc : c.isDigit = true) : ∃ d, decimal.digit c = some d := by
  have hrange := Pattern.isDigit_iff.1 hc
  refine ⟨c.toNat - '0'.toNat, digit_eq_some_iff.2 ⟨by rw [digitValue, if_pos hrange], ?_⟩⟩
  have hle : c.toNat ≤ '9'.toNat := UInt32.le_iff_toNat_le.1 hrange.2
  have hvals : '9'.toNat = 57 ∧ '0'.toNat = 48 ∧ decimal.val = 10 := by decide
  omega

theorem exists_hexadecimal_digit {c : Char} (hc : Word.isHexDigit c = true) : ∃ d, hexadecimal.digit c = some d := by
  have hle {a b : Char} : a ≤ b ↔ a.toNat ≤ b.toNat := UInt32.le_iff_toNat_le
  have hvals : hexadecimal.val = 16 ∧ decimal.val = 10 ∧ '0'.toNat = 48 ∧ '9'.toNat = 57 ∧ 'A'.toNat = 65 ∧
      'F'.toNat = 70 ∧ 'Z'.toNat = 90 ∧ 'a'.toNat = 97 ∧ 'f'.toNat = 102 ∧ 'z'.toNat = 122 := by decide
  simp only [Word.isHexDigit, Bool.or_eq_true, Bool.and_eq_true, decide_eq_true_eq, hle] at hc
  rcases hc with (hc | ⟨hlow, hhigh⟩) | ⟨hlow, hhigh⟩
  · obtain ⟨d, hd⟩ := exists_decimal_digit hc
    obtain ⟨hvalue, hlt⟩ := digit_eq_some_iff.1 hd
    exact ⟨d, digit_eq_some_iff.2 ⟨hvalue, by omega⟩⟩
  · refine ⟨c.toNat - 'a'.toNat + 10, digit_eq_some_iff.2 ⟨?_, by omega⟩⟩
    simp only [digitValue, hle]
    rw [if_neg (by omega), if_pos (by omega)]
  · refine ⟨c.toNat - 'A'.toNat + 10, digit_eq_some_iff.2 ⟨?_, by omega⟩⟩
    simp only [digitValue, hle]
    rw [if_neg (by omega), if_neg (by omega), if_pos (by omega)]

theorem exists_binary_digit {c : Char} (hc : Word.isBinDigit c = true) : ∃ d, binary.digit c = some d := by
  simp only [Word.isBinDigit, Bool.or_eq_true, beq_iff_eq] at hc
  rcases hc with rfl | rfl
  · exact ⟨0, by decide⟩
  · exact ⟨1, by decide⟩

end Radix

/-! ## Floating-point literals -/

namespace Digits

/-- digits behind a sign make an exponent -/
theorem exists_readInteger {sg ds : List Char} (h : Pattern.Signed sg ds) : ∃ e, readInteger (sg ++ ds) = some e := by
  have hlength : Word.signLength (sg ++ ds ++ []) = sg.length := Word.signLength_append h
  rw [List.append_nil] at hlength
  have hsplit : (splitSign (sg ++ ds)).2 = ds := by rw [Word.snd_splitSign, hlength, List.drop_left]
  have hempty : ds.isEmpty = false := List.isEmpty_eq_false_iff.2 h.nonempty
  have hall : ds.all Char.isDigit = true := List.all_eq_true.2 h.digits
  simp [readInteger, hsplit, hempty, hall]

end Digits

namespace Binary64

/-- a plus sign in front of a literal changes nothing -/
theorem read_plus {c : Char} (hc : c.isDigit = true) (cs : List Char) : read ('+' :: c :: cs) = read (c :: cs) := by
  have hstrict (ds : List Char) : readStrict ('+' :: c :: ds) = readStrict (c :: ds) := by
    have hsplit : Digits.splitSign ('+' :: c :: ds) = Digits.splitSign (c :: ds) := (Digits.splitSign_of_isDigit hc ds).symm
    rw [readStrict, readStrict, hsplit]
  have hlast : ('+' :: c :: cs).getLast? = (c :: cs).getLast? := List.getLast?_cons_cons
  rw [read, read, hlast, List.cons_append, List.cons_append, hstrict, hstrict]

/-- a decimal literal behind a sign, or without one -/
theorem exists_read_of_denotes {sg cs : List Char} (hsg : sg ∈ Pattern.signs) {n : Nat} {k : Int} (h : Denotes cs n k) :
    ∃ x, read (sg ++ cs) = some x := by
  simp only [Pattern.signs, List.mem_cons, List.not_mem_nil, or_false] at hsg
  rcases hsg with rfl | rfl | rfl
  · exact ⟨_, read_of_denotes h false⟩
  · obtain ⟨c, ds, rfl, hc⟩ := h.first
    exact ⟨_, (read_plus hc ds).trans (read_of_denotes h false)⟩
  · exact ⟨_, read_of_denotes h true⟩

/-- a point at the end of a text is read as the point and a zero -/
theorem read_point (front : List Char) : read (front ++ ['.']) = read (front ++ ['.', '0']) := by
  have hpoint : (front ++ ['.']).getLast? = some '.' := by simp
  have hzero : (front ++ ['.', '0']).getLast? ≠ some '.' := by simp
  rw [read, if_pos hpoint, read, if_neg hzero, List.append_assoc, List.singleton_append]

theorem exists_read_of_exponent {u : List Char} (hu : u ∈ Rule.exponent.pattern) : ∃ x, read u = some x := by
  obtain ⟨a, c, b, ha, hc, hb, rfl⟩ := Word.mem_exponent.1 hu
  obtain ⟨sg, ds, hsigned, rfl⟩ := Pattern.mem_signed.1 ha
  obtain ⟨sg', ds', hsigned', rfl⟩ := Pattern.mem_signed.1 hb
  obtain ⟨e, he⟩ := Digits.exists_readInteger hsigned'
  have hexponent : readExponent (c :: (sg' ++ ds')) = some e := by rw [readExponent, if_pos hc, he]
  rw [List.append_assoc]
  exact exists_read_of_denotes hsigned.sign (.bare hsigned.nonempty hsigned.digits hexponent)

theorem exists_read_of_decimal {u : List Char} (hu : u ∈ Rule.decimal.pattern) : ∃ x, read u = some x := by
  obtain ⟨a, fs, ha, hfs, rfl⟩ := Word.mem_decimal.1 hu
  obtain ⟨sg, ds, hsigned, rfl⟩ := Pattern.mem_signed.1 ha
  have hread {gs : List Char} (hne : gs ≠ []) (hgs : ∀ c ∈ gs, c.isDigit = true) :
      ∃ x, read (sg ++ ds ++ '.' :: gs) = some x := by
    have hdenotes := Denotes.point hsigned.nonempty hne hsigned.digits hgs (rfl : readExponent [] = some 0)
    rw [List.append_nil] at hdenotes
    rw [List.append_assoc]
    exact exists_read_of_denotes hsigned.sign hdenotes
  by_cases hne : fs = []
  · rw [hne, read_point]
    exact hread (by simp) (List.all_iff_forall_prop.1 (by decide))
  · exact hread hne hfs

end Binary64

/-! ## What a text denotes -/

namespace Rule

/-- the value of a text in the pattern of the rule -/
def denotes : Rule → List Char → Option Value
  | exponent, u | decimal, u => (Binary64.read u).map fun x => .number (.float x)
  | hex, u => some (.number (.integer (Radix.positional 16 (u.drop 2))))
  | bin, u => some (.number (.integer (Radix.positional 2 (u.drop 2))))
  | integer, u => some (.number (.integer (Radix.signedValue 10 u)))
  | symbol, u => some (.text (String.ofList u))

/-- a rule makes of a text in its pattern what the text denotes -/
theorem value?_eq_denotes {r : Rule} {u : List Char} (hu : u ∈ r.pattern) : r.value? u = r.denotes u := by
  cases r with
  | exponent => rfl
  | decimal => rfl
  | hex =>
    obtain ⟨ds, hne, hds, rfl⟩ := (Word.mem_prefixed Pattern.isClass_hexDigit).1 hu
    have hread : Radix.hexadecimal.readInteger ds = _ :=
      Radix.readInteger_of_digits hne fun c hc => Radix.exists_hexadecimal_digit (hds c hc)
    exact congrArg (Option.map fun n => Value.number (.integer n)) hread
  | bin =>
    obtain ⟨ds, hne, hds, rfl⟩ := (Word.mem_prefixed Pattern.isClass_binDigit).1 hu
    have hread : Radix.binary.readInteger ds = _ :=
      Radix.readInteger_of_digits hne fun c hc => Radix.exists_binary_digit (hds c hc)
    exact congrArg (Option.map fun n => Value.number (.integer n)) hread
  | integer =>
    obtain ⟨sg, ds, hsigned, rfl⟩ := Pattern.mem_signed.1 hu
    have hread : Radix.decimal.readInteger (sg ++ ds) = _ :=
      Radix.readInteger_signed hsigned.sign hsigned.nonempty fun c hc => Radix.exists_decimal_digit (hsigned.digits c hc)
    exact congrArg (Option.map fun n => Value.number (.integer n)) hread
  | symbol => rfl

/-- every text in the pattern of a rule denotes something -/
theorem exists_denotes {r : Rule} {u : List Char} (hu : u ∈ r.pattern) : ∃ v, r.denotes u = some v := by
  cases r with
  | exponent =>
    obtain ⟨x, hx⟩ := Binary64.exists_read_of_exponent hu
    exact ⟨.number (.float x), by rw [denotes, hx, Option.map_some]⟩
  | decimal =>
    obtain ⟨x, hx⟩ := Binary64.exists_read_of_decimal hu
    exact ⟨.number (.float x), by rw [denotes, hx, Option.map_some]⟩
  | hex => exact ⟨_, rfl⟩
  | bin => exact ⟨_, rfl⟩
  | integer => exact ⟨_, rfl⟩
  | symbol => exact ⟨_, rfl⟩

/-- a rule that matches makes a leaf -/
theorem leaf?_eq_none_iff {r : Rule} {w : List Char} : r.leaf? w = none ↔ r.matchLength w = none := by
  cases hmatch : r.matchLength w with
  | none => simp [leaf?, hmatch]
  | some n =>
    have hmem := mem_pattern_of_matchLength hmatch
    obtain ⟨v, hv⟩ := exists_denotes hmem
    simp [leaf?, hmatch, value?_eq_denotes hmem, hv]

theorem leaf?_eq_some_iff {r : Rule} {w : List Char} {x : Leaf} : r.leaf? w = some x ↔
    r.matchLength w = some x.length ∧ x.label.kind = r.kind ∧ r.denotes (w.take x.length) = some x.label.value := by
  constructor
  · intro hx
    obtain ⟨n, hn, hv⟩ := Option.bind_eq_some_iff.1 hx
    obtain ⟨v, hvalue, rfl⟩ := Option.map_eq_some_iff.1 hv
    exact ⟨hn, rfl, by rw [← value?_eq_denotes (mem_pattern_of_matchLength hn), hvalue]⟩
  · rintro ⟨hn, hkind, hv⟩
    rw [leaf?, hn, Option.bind_some, value?_eq_denotes (mem_pattern_of_matchLength hn), hv, Option.map_some, ← hkind]

end Rule

/-! ## The leaf of a word -/

namespace Word

/-- the leaf of a word is that of a rule that matches, with no rule before it that does -/
theorem classify_eq_some_iff {w : List Char} {x : Leaf} : classify w = some x ↔
    ∃ before r behind, Rule.all = before ++ r :: behind ∧ (∀ r' ∈ before, r'.matchLength w = none) ∧
      r.matchLength w = some x.length ∧ x.label.kind = r.kind ∧ r.denotes (w.take x.length) = some x.label.value := by
  rw [classify, List.findSome?_eq_some_iff]
  constructor
  · rintro ⟨before, r, behind, hall, hx, hnone⟩
    exact ⟨before, r, behind, hall, fun r' hr' => Rule.leaf?_eq_none_iff.1 (hnone r' hr'), Rule.leaf?_eq_some_iff.1 hx⟩
  · rintro ⟨before, r, behind, hall, hnone, hx⟩
    exact ⟨before, r, behind, hall, Rule.leaf?_eq_some_iff.2 hx, fun r' hr' => Rule.leaf?_eq_none_iff.2 (hnone r' hr')⟩

theorem classify_eq_none_iff {w : List Char} : classify w = none ↔ w = [] := by
  constructor
  · intro hnone
    by_contra hne
    obtain ⟨x, hx⟩ := exists_classify hne
    rw [hnone] at hx
    cases hx
  · rintro rfl
    rfl

end Word

theorem Text.Utf8.length_eq (u : List Char) : length u = (String.ofList u).utf8ByteSize := by
  induction u with
  | nil => rfl
  | cons c u ih =>
    have hsplit : String.ofList (c :: u) = String.singleton c ++ String.ofList u := by
      rw [String.singleton_eq_ofList, ← String.ofList_append, List.singleton_append]
    rw [hsplit, String.utf8ByteSize_append, String.utf8ByteSize_singleton, ← ih]
    rfl

/-- the rule is the first that matches a beginning of `w`, and `u` is the longest beginning that it matches -/
structure Rule.Takes (r : Rule) (w u : String) : Prop where
  begins : u.toList <+: w.toList
  matched : u.toList ∈ r.pattern
  longest : ∀ u' : String, u'.toList <+: w.toList → u'.toList ∈ r.pattern → u'.utf8ByteSize ≤ u.utf8ByteSize
  first : ∃ before behind, Rule.all = before ++ r :: behind ∧
    ∀ r' ∈ before, ∀ u' : String, u'.toList <+: w.toList → u'.toList ∉ r'.pattern

/-- a beginning with no more characters has no more bytes -/
theorem Text.Utf8.length_le_of_prefix {u v : List Char} (h : u <+: v) : length u ≤ length v := by
  obtain ⟨t, rfl⟩ := h
  rw [length_eq, length_eq, String.ofList_append, String.utf8ByteSize_append]
  exact Nat.le_add_right _ _

/-- **Words are classified by their rules.** Only the empty word has no leaf at its start. Every other word has one by the first
rule with a beginning of the word in its pattern; the leaf takes the longest such beginning, which ends between two characters,
has the kind of the rule and no parts, and carries what the beginning denotes. -/
theorem Word.classify_takes_longest (w : String) :
    (classify w.toList = none ↔ w = "") ∧
    ∀ x, classify w.toList = some x → ∃ (r : Rule) (u : String), r.Takes w u ∧
      x.length = u.length ∧ Text.Utf8.length (w.toList.take x.length) = u.utf8ByteSize ∧
      (⟨u.utf8ByteSize⟩ : String.Pos.Raw).IsValid w ∧
      x.label.kind = r.kind ∧ r.denotes u.toList = some x.label.value ∧
      ∀ h, (Frame.ofLabel x.label h).slots = .empty ∧ (Frame.ofLabel x.label h).children = #[] := by
  refine ⟨classify_eq_none_iff.trans String.toList_eq_nil_iff, ?_⟩
  intro x hx
  obtain ⟨before, r, behind, hall, hnone, hmatch, hkind, hvalue⟩ := classify_eq_some_iff.1 hx
  obtain ⟨-, hle⟩ := Rule.matchLength_bounds hmatch
  have hbytes : Text.Utf8.length (w.toList.take x.length) = (String.ofList (w.toList.take x.length)).utf8ByteSize :=
    Text.Utf8.length_eq _
  refine ⟨r, String.ofList (w.toList.take x.length), ⟨?_, ?_, ?_, before, behind, hall, ?_⟩, ?_, hbytes, ?_, hkind, ?_, ?_⟩
  · rw [String.toList_ofList]
    exact List.take_prefix _ _
  · rw [String.toList_ofList]
    exact Rule.mem_pattern_of_matchLength hmatch
  · intro u' hbegins hmatched
    have hlength := Rule.longest_of_matchLength hmatch hmatched hbegins
    have hprefix : u'.toList <+: w.toList.take x.length := by
      rw [List.prefix_take_iff]
      exact ⟨hbegins, hlength⟩
    have hsize := Text.Utf8.length_le_of_prefix hprefix
    rwa [Text.Utf8.length_eq, Text.Utf8.length_eq, String.ofList_toList] at hsize
  · exact fun r' hr' u' hbegins hmatched => Rule.matchLength_eq_none_iff.1 (hnone r' hr') _ hmatched hbegins
  · rw [String.length_ofList, List.length_take, Nat.min_eq_left hle]
  · exact String.Pos.Raw.isValid_iff_exists_take_toList.2 ⟨x.length, rfl⟩
  · rwa [String.toList_ofList]
  · exact fun h => ⟨rfl, rfl⟩

/-- digits that are not those of the radix leave an integer and a symbol -/
example : Word.classify ['0', 'b', '2'] = some ⟨⟨.integer, .number (.integer 0)⟩, 1⟩ := by decide

end FrameGraph
