/-
What the bytes of a character make, one after another, against the encoding of characters.

Between two pieces nothing is kept, so what matters are the bytes from the first one of a piece on: `reached` says what
they make, a character, the beginning of one or neither. The range that the scanner keeps for the next byte is what
carries the proofs: a code that agrees with the bytes read and has its next byte in the range is a character, and its
encoding goes on as the code says (`Begun.Sound`).

Results:
- `reached_complete_iff`: a character is complete exactly behind its encoding;
- `reached_begun_iff`: a character is begun exactly behind a proper part of an encoding;
- `Refused.no_character`, `Refused.beginning`: where a byte is refused, no character begins in front of it, and what
  begins one in front of it ends there;
- `encode_append_inj`: the characters that some bytes begin with, and the rest, are determined.
-/
import Mathlib.Data.List.Infix
import Mathlib.Tactic.NormNum
import FrameGraph.Text.Utf8

namespace FrameGraph.Text.Utf8

/-! ## Encodings by their digits -/

/-- the last `n` bytes of an encoding of the code `v`, which are its digits in base 64 -/
def continuation : Nat → Nat → List UInt8
  | 0, _ => []
  | n + 1, v => UInt8.ofNat (v / 64 ^ n % 64 + 0x80) :: continuation n v

theorem toNat_continuation (w : Nat) : (UInt8.ofNat (w % 64 + 0x80)).toNat = w % 64 + 0x80 := by
  rw [UInt8.toNat_ofNat']
  omega

theorem encodeChar_one {c : Char} (h : c.toNat < 0x80) : String.utf8EncodeChar c = [UInt8.ofNat c.toNat] := by
  have h1 : c.toNat ≤ 0x7F := by omega
  simp only [String.utf8EncodeChar, Char.toNat_val, h1, ↓reduceIte]

theorem encodeChar_two {c : Char} (h : 0x80 ≤ c.toNat) (h' : c.toNat < 0x800) :
    String.utf8EncodeChar c = UInt8.ofNat (c.toNat / 64 + 0xC0) :: continuation 1 c.toNat := by
  have hlead : c.toNat / 64 % 0x20 = c.toNat / 64 := by omega
  have h1 : ¬ c.toNat ≤ 0x7F := by omega
  have h2 : c.toNat ≤ 0x7FF := by omega
  simp [String.utf8EncodeChar, h1, h2, continuation, hlead]

theorem encodeChar_three {c : Char} (h : 0x800 ≤ c.toNat) (h' : c.toNat < 0x10000) :
    String.utf8EncodeChar c = UInt8.ofNat (c.toNat / 64 ^ 2 + 0xE0) :: continuation 2 c.toNat := by
  have hlead : c.toNat / 4096 % 0x10 = c.toNat / 4096 := by omega
  have h1 : ¬ c.toNat ≤ 0x7F := by omega
  have h2 : ¬ c.toNat ≤ 0x7FF := by omega
  have h3 : c.toNat ≤ 0xFFFF := by omega
  simp [String.utf8EncodeChar, h1, h2, h3, continuation, hlead]

theorem encodeChar_four {c : Char} (h : 0x10000 ≤ c.toNat) :
    String.utf8EncodeChar c = UInt8.ofNat (c.toNat / 64 ^ 3 + 0xF0) :: continuation 3 c.toNat := by
  have hscalar : c.toNat.isValidChar := c.valid
  have hlead : c.toNat / 262144 % 0x08 = c.toNat / 262144 := by
    unfold Nat.isValidChar at hscalar
    omega
  have h1 : ¬ c.toNat ≤ 0x7F := by omega
  have h2 : ¬ c.toNat ≤ 0x7FF := by omega
  have h3 : ¬ c.toNat ≤ 0xFFFF := by omega
  simp [String.utf8EncodeChar, h1, h2, h3, continuation, hlead]

/-! ## What the bytes of a piece make -/

/-- one more byte, in the same piece -/
def Advance.next : Advance → UInt8 → Advance
  | .begun p, b => p.extend b
  | .complete _, _ => .refused
  | .refused, _ => .refused

/-- what bytes make that are read from a place where a character may begin -/
def reached : List UInt8 → Advance
  | [] => .refused
  | b :: bs => bs.foldl Advance.next (lead b)

/-- a code that agrees with what was read of a character and has its next byte in the range left for it -/
structure Begun.Fits (p : Begun) (v : Nat) : Prop where
  code : v / 64 ^ (p.owed - 1) / 64 = p.code
  lowest : p.lowest.toNat ≤ v / 64 ^ (p.owed - 1) % 64 + 0x80
  highest : v / 64 ^ (p.owed - 1) % 64 + 0x80 ≤ p.highest.toNat

/-- whatever fits to what was read is a character and is encoded so -/
structure Begun.Sound (p : Begun) : Prop where
  owed : 0 < p.owed
  lowest : 0x80 ≤ p.lowest.toNat
  ordered : p.lowest.toNat ≤ p.highest.toNat
  highest : p.highest.toNat ≤ 0xBF
  encoding : ∀ v, p.Fits v → v.isValidChar ∧ String.utf8EncodeChar (Char.ofNat v) = p.bytes ++ continuation p.owed v

/-- what bytes make agrees with the encoding of characters -/
def Advance.Explains (bs : List UInt8) : Advance → Prop
  | .complete c => String.utf8EncodeChar c = bs
  | .begun p => p.bytes = bs ∧ p.Sound
  | .refused => True

theorem Begun.Sound.exists_fits {p : Begun} (hp : p.Sound) : ∃ v, p.Fits v := by
  obtain ⟨-, hlowest, hordered, hhighest, -⟩ := hp
  have hpow : 0 < 64 ^ (p.owed - 1) := by positivity
  refine ⟨(p.code * 64 + (p.lowest.toNat - 0x80)) * 64 ^ (p.owed - 1), ?_, ?_, ?_⟩ <;>
    rw [Nat.mul_div_cancel _ hpow] <;> omega

theorem continuation_next {n : Nat} (h : 0 < n) {v : Nat} {b : UInt8} (hb : b.toNat = v / 64 ^ (n - 1) % 64 + 0x80) :
    continuation n v = b :: continuation (n - 1) v := by
  obtain ⟨n, rfl⟩ : ∃ m, n = m + 1 := ⟨n - 1, by omega⟩
  have hbyte : UInt8.ofNat (v / 64 ^ n % 64 + 0x80) = b := by
    rw [← UInt8.toNat_inj, toNat_continuation, hb, Nat.add_sub_cancel]
  rw [continuation, hbyte, Nat.add_sub_cancel]

/-- a code that goes on with a byte that may be next fits, and the byte is the next one of its encoding -/
theorem Begun.Sound.fits {p : Begun} (hp : p.Sound) {b : UInt8} (hb : p.lowest ≤ b ∧ b ≤ p.highest) {v : Nat}
    (hv : v / 64 ^ (p.owed - 1) = p.code * 64 + (b.toNat - 0x80)) :
    p.Fits v ∧ continuation p.owed v = b :: continuation (p.owed - 1) v := by
  obtain ⟨howed, hlowest, -, hhighest, -⟩ := hp
  rw [UInt8.le_iff_toNat_le, UInt8.le_iff_toNat_le] at hb
  have hdigit : b.toNat = v / 64 ^ (p.owed - 1) % 64 + 0x80 := by omega
  exact ⟨⟨by omega, by omega, by omega⟩, continuation_next howed hdigit⟩

/-- **Inside a character nothing is taken that is not its encoding.** -/
theorem Begun.Sound.explains {p : Begun} (hp : p.Sound) (b : UInt8) : (p.extend b).Explains (p.bytes ++ [b]) := by
  unfold Begun.extend
  split_ifs with hb hlast
  · have howed : p.owed = 1 := by have := hp.owed; omega
    obtain ⟨hfits, hnext⟩ := hp.fits hb (v := p.code * 64 + (b.toNat - 0x80)) (by rw [howed]; simp)
    obtain ⟨-, hchar⟩ := hp.encoding _ hfits
    rw [hnext, howed] at hchar
    exact hchar
  · refine ⟨rfl, ?_⟩
    constructor
    case encoding =>
      intro v hv
      -- the digits in front of the last ones are those of the code itself
      have hdigits : v / 64 ^ (p.owed - 1) = p.code * 64 + (b.toNat - 0x80) := by
        have hcode := hv.code
        have hlength : p.owed - 1 - 1 + 1 = p.owed - 1 := by omega
        rwa [Nat.div_div_eq_div_mul, ← Nat.pow_succ, Nat.succ_eq_add_one, hlength] at hcode
      obtain ⟨hfits, hnext⟩ := hp.fits hb hdigits
      obtain ⟨hvalid, hchar⟩ := hp.encoding _ hfits
      exact ⟨hvalid, by rw [hchar, hnext, List.append_assoc]; rfl⟩
    all_goals simp <;> omega
  · trivial

/-- the next byte of whatever fits is taken -/
theorem Begun.Fits.extend {p : Begun} {v : Nat} (hv : p.Fits v) (howed : 0 < p.owed) :
    ∃ b, continuation p.owed v = b :: continuation (p.owed - 1) v ∧
      if p.owed ≤ 1 then p.extend b = .complete (Char.ofNat v)
      else ∃ q, p.extend b = .begun q ∧ q.owed = p.owed - 1 ∧ q.Fits v := by
  obtain ⟨b, hb⟩ : ∃ b : UInt8, b.toNat = v / 64 ^ (p.owed - 1) % 64 + 0x80 := ⟨_, toNat_continuation _⟩
  refine ⟨b, continuation_next howed hb, ?_⟩
  have hrange : p.lowest ≤ b ∧ b ≤ p.highest := by
    rw [UInt8.le_iff_toNat_le, UInt8.le_iff_toNat_le, hb]
    exact ⟨hv.lowest, hv.highest⟩
  have hcode : p.code * 64 + (b.toNat - 0x80) = v / 64 ^ (p.owed - 1) := by
    have := hv.code
    omega
  unfold Begun.extend
  rw [if_pos hrange, hcode]
  split_ifs with hlast
  · have hzero : p.owed - 1 = 0 := by omega
    simp [hzero]
  · refine ⟨_, rfl, rfl, ?_, ?_, ?_⟩
    · have hlength : p.owed - 1 - 1 + 1 = p.owed - 1 := by omega
      rw [Nat.div_div_eq_div_mul, ← Nat.pow_succ, Nat.succ_eq_add_one, hlength]
    · simp
    · have := Nat.mod_lt (v / 64 ^ (p.owed - 1 - 1)) (by decide : 0 < 64)
      simp only [UInt8.reduceToNat]
      omega

/-- what fits is read to its end -/
theorem Begun.Fits.complete {n : Nat} {p : Begun} {v : Nat} (hv : p.Fits v) (howed : p.owed = n + 1) :
    (continuation p.owed v).foldl Advance.next (.begun p) = .complete (Char.ofNat v) := by
  induction n generalizing p with
  | zero =>
    obtain ⟨b, hnext, hextend⟩ := hv.extend (by omega)
    rw [if_pos (by omega)] at hextend
    rw [hnext, howed]
    exact hextend
  | succ n ih =>
    obtain ⟨b, hnext, hextend⟩ := hv.extend (by omega)
    rw [if_neg (by omega)] at hextend
    obtain ⟨q, hq, hqowed, hfits⟩ := hextend
    rw [hnext, ← hqowed, List.foldl_cons, Advance.next, hq]
    exact ih hfits (by omega)

/-! ## The first byte of a character -/

theorem toNat_ofNat_of_valid {v : Nat} (h : v.isValidChar) : (Char.ofNat v).toNat = v := by
  rw [Char.ofNat, dif_pos h]
  rfl

section

variable {b : UInt8} {n mark least bound : Nat} {p : Begun}

/-- `b` begins the characters of codes from `least` to below `bound`, which have `n` bytes behind it -/
structure Opens (b : UInt8) (n mark least bound : Nat) (p : Begun) : Prop where
  bytes : p.bytes = [b]
  owed : p.owed = n
  lowest : 0x80 ≤ p.lowest.toNat
  ordered : p.lowest.toNat ≤ p.highest.toNat
  highest : p.highest.toNat ≤ 0xBF
  fits : ∀ v, p.Fits v ↔ v.isValidChar ∧ least ≤ v ∧ v < bound ∧ v / 64 ^ n + mark = b.toNat

theorem toNat_ite (b key x y : UInt8) :
    b.toNat = key.toNat ∧ (if b = key then x else y).toNat = x.toNat ∨
      b.toNat ≠ key.toNat ∧ (if b = key then x else y).toNat = y.toNat := by
  rw [Ne, UInt8.toNat_inj]
  by_cases h : b = key
  · exact .inl ⟨h, by rw [if_pos h]⟩
  · exact .inr ⟨h, by rw [if_neg h]⟩

theorem lead_one (h : b.toNat < 0x80) : lead b = .complete (Char.ofNat b.toNat) := by
  rw [lead, if_pos (UInt8.lt_iff_toNat_lt.2 h)]

theorem lead_two (h : 0xC2 ≤ b.toNat ∧ b.toNat ≤ 0xDF) :
    lead b = .begun ⟨[b], b.toNat - 0xC0, 1, 0x80, 0xBF⟩ := by
  simp only [lead, UInt8.lt_iff_toNat_lt, UInt8.le_iff_toNat_le, UInt8.reduceToNat]
  rw [if_neg (by omega), if_pos h]

theorem lead_three (h : 0xE0 ≤ b.toNat ∧ b.toNat ≤ 0xEF) :
    lead b = .begun ⟨[b], b.toNat - 0xE0, 2, if b = 0xE0 then 0xA0 else 0x80, if b = 0xED then 0x9F else 0xBF⟩ := by
  simp only [lead, UInt8.lt_iff_toNat_lt, UInt8.le_iff_toNat_le, UInt8.reduceToNat]
  rw [if_neg (by omega), if_neg (by omega), if_pos h]

theorem lead_four (h : 0xF0 ≤ b.toNat ∧ b.toNat ≤ 0xF4) :
    lead b = .begun ⟨[b], b.toNat - 0xF0, 3, if b = 0xF0 then 0x90 else 0x80, if b = 0xF4 then 0x8F else 0xBF⟩ := by
  simp only [lead, UInt8.lt_iff_toNat_lt, UInt8.le_iff_toNat_le, UInt8.reduceToNat]
  rw [if_neg (by omega), if_neg (by omega), if_neg (by omega), if_pos h]

theorem lead_cases (b : UInt8) : b.toNat < 0x80 ∨ (0xC2 ≤ b.toNat ∧ b.toNat ≤ 0xDF) ∨
    (0xE0 ≤ b.toNat ∧ b.toNat ≤ 0xEF) ∨ (0xF0 ≤ b.toNat ∧ b.toNat ≤ 0xF4) ∨ lead b = .refused := by
  simp only [lead, UInt8.lt_iff_toNat_lt, UInt8.le_iff_toNat_le, UInt8.reduceToNat]
  split_ifs <;> simp [*]

theorem opens_two (h : 0xC2 ≤ b.toNat ∧ b.toNat ≤ 0xDF) :
    Opens b 1 0xC0 0x80 0x800 ⟨[b], b.toNat - 0xC0, 1, 0x80, 0xBF⟩ := by
  constructor
  case fits =>
    intro v
    constructor
    · rintro ⟨hcode, -, -⟩
      simp only [Nat.reduceSub, Nat.reducePow, Nat.isValidChar] at *
      omega
    · rintro ⟨-, -, -, hb⟩
      constructor <;> simp only [Nat.reduceSub, Nat.reducePow, UInt8.reduceToNat] at * <;> omega
  all_goals simp

theorem opens_three (h : 0xE0 ≤ b.toNat ∧ b.toNat ≤ 0xEF) :
    Opens b 2 0xE0 0x800 0x10000
      ⟨[b], b.toNat - 0xE0, 2, if b = 0xE0 then 0xA0 else 0x80, if b = 0xED then 0x9F else 0xBF⟩ := by
  have hlow := toNat_ite b 0xE0 0xA0 0x80
  have hhigh := toNat_ite b 0xED 0x9F 0xBF
  simp only [UInt8.reduceToNat] at hlow hhigh
  constructor
  case fits =>
    intro v
    constructor
    · rintro ⟨hcode, hlowest, hhighest⟩
      simp only [Nat.reduceSub, Nat.reducePow, Nat.isValidChar] at *
      omega
    · rintro ⟨hvalid, hleast, -, hb⟩
      constructor <;> simp only [Nat.reduceSub, Nat.reducePow, Nat.isValidChar] at * <;> omega
  all_goals simp only <;> omega

theorem opens_four (h : 0xF0 ≤ b.toNat ∧ b.toNat ≤ 0xF4) :
    Opens b 3 0xF0 0x10000 0x110000
      ⟨[b], b.toNat - 0xF0, 3, if b = 0xF0 then 0x90 else 0x80, if b = 0xF4 then 0x8F else 0xBF⟩ := by
  have hlow := toNat_ite b 0xF0 0x90 0x80
  have hhigh := toNat_ite b 0xF4 0x8F 0xBF
  simp only [UInt8.reduceToNat] at hlow hhigh
  constructor
  case fits =>
    intro v
    constructor
    · rintro ⟨hcode, hlowest, hhighest⟩
      simp only [Nat.reduceSub, Nat.reducePow, Nat.isValidChar] at *
      omega
    · rintro ⟨-, hleast, hbound, hb⟩
      constructor <;> simp only [Nat.reduceSub, Nat.reducePow] at * <;> omega
  all_goals simp only <;> omega

/-- what is read behind the first byte of a character is sound, if the characters it begins are encoded so -/
theorem Opens.explains (hp : Opens b n mark least bound p) (hn : 0 < n)
    (hencode : ∀ c : Char, least ≤ c.toNat → c.toNat < bound →
      String.utf8EncodeChar c = UInt8.ofNat (c.toNat / 64 ^ n + mark) :: continuation n c.toNat) :
    (Advance.begun p).Explains [b] := by
  refine ⟨hp.bytes, by rw [hp.owed]; exact hn, hp.lowest, hp.ordered, hp.highest, ?_⟩
  intro v hv
  obtain ⟨hvalid, hleast, hbound, hb⟩ := (hp.fits v).1 hv
  have hchar := toNat_ofNat_of_valid hvalid
  refine ⟨hvalid, ?_⟩
  rw [hencode _ (by rwa [hchar]) (by rwa [hchar]), hchar, hb, UInt8.ofNat_toNat, hp.bytes, hp.owed]
  rfl

/-- **Where a character may begin nothing is taken that begins none.** -/
theorem explains_lead (b : UInt8) : (lead b).Explains [b] := by
  rcases lead_cases b with hone | htwo | hthree | hfour | hrefused
  · rw [lead_one hone, Advance.Explains, encodeChar_one] <;>
      rw [toNat_ofNat_of_valid (.inl (by omega))]
    · rw [UInt8.ofNat_toNat]
    · exact hone
  · rw [lead_two htwo]
    exact (opens_two htwo).explains (by decide) fun c => encodeChar_two
  · rw [lead_three hthree]
    exact (opens_three hthree).explains (by decide) fun c => encodeChar_three
  · rw [lead_four hfour]
    exact (opens_four hfour).explains (by decide) fun c hleast _ => encodeChar_four hleast
  · rw [hrefused]
    trivial

/-- a character whose first byte is taken is read to its end -/
theorem Opens.reached (hp : Opens b n mark least bound p) (hn : 0 < n) (hlead : lead b = .begun p) {c : Char}
    (hleast : least ≤ c.toNat) (hbound : c.toNat < bound) (hb : b = UInt8.ofNat (c.toNat / 64 ^ n + mark))
    (hmark : c.toNat / 64 ^ n + mark < 0x100) : reached (b :: continuation n c.toNat) = .complete c := by
  have hfits : p.Fits c.toNat := by
    refine (hp.fits _).2 ⟨c.valid, hleast, hbound, ?_⟩
    rw [hb, UInt8.toNat_ofNat', Nat.mod_eq_of_lt hmark]
  have hcomplete := hfits.complete (n := n - 1) (by rw [hp.owed]; omega)
  rwa [hp.owed, Char.ofNat_toNat, ← hlead] at hcomplete

end

/-- **A character is read from its encoding.** -/
theorem reached_encodeChar (c : Char) : reached (String.utf8EncodeChar c) = .complete c := by
  have hvalid : c.toNat.isValidChar := c.valid
  unfold Nat.isValidChar at hvalid
  have hbyte {n : Nat} (h : n < 0x100) : (UInt8.ofNat n).toNat = n := by
    rw [UInt8.toNat_ofNat', Nat.mod_eq_of_lt h]
  rcases Nat.lt_or_ge c.toNat 0x80 with hone | hone
  · rw [encodeChar_one hone, reached, lead_one] <;> rw [hbyte (by omega)]
    · rw [Char.ofNat_toNat]
      rfl
    · exact hone
  rcases Nat.lt_or_ge c.toNat 0x800 with htwo | htwo
  · rw [encodeChar_two hone htwo]
    have hb : 0xC2 ≤ (UInt8.ofNat (c.toNat / 64 + 0xC0)).toNat ∧ (UInt8.ofNat (c.toNat / 64 + 0xC0)).toNat ≤ 0xDF := by
      rw [hbyte (by omega)]
      omega
    exact (opens_two hb).reached (by decide) (lead_two hb) hone htwo rfl (by omega)
  rcases Nat.lt_or_ge c.toNat 0x10000 with hthree | hthree
  · rw [encodeChar_three htwo hthree]
    have hb : 0xE0 ≤ (UInt8.ofNat (c.toNat / 64 ^ 2 + 0xE0)).toNat ∧
        (UInt8.ofNat (c.toNat / 64 ^ 2 + 0xE0)).toNat ≤ 0xEF := by
      rw [hbyte (by omega)]
      omega
    exact (opens_three hb).reached (by decide) (lead_three hb) htwo hthree rfl (by omega)
  · rw [encodeChar_four hthree]
    have hb : 0xF0 ≤ (UInt8.ofNat (c.toNat / 64 ^ 3 + 0xF0)).toNat ∧
        (UInt8.ofNat (c.toNat / 64 ^ 3 + 0xF0)).toNat ≤ 0xF4 := by
      rw [hbyte (by omega)]
      omega
    exact (opens_four hb).reached (by decide) (lead_four hb) hthree (by omega) rfl (by omega)

/-! ## Beginnings of characters -/

section

variable {bs more : List UInt8} {c : Char} {p : Begun}

/-- a part of the encoding of some character from its first byte on, which is not empty and not all of it -/
def Beginning (bs : List UInt8) : Prop :=
  bs ≠ [] ∧ ∃ c, bs <+: String.utf8EncodeChar c ∧ bs ≠ String.utf8EncodeChar c

theorem reached_snoc (h : bs ≠ []) (b : UInt8) : reached (bs ++ [b]) = (reached bs).next b := by
  obtain ⟨b', bs, rfl⟩ := List.exists_cons_of_ne_nil h
  rw [List.cons_append, reached, reached, List.foldl_append]
  rfl

theorem foldl_refused (bs : List UInt8) : bs.foldl Advance.next .refused = .refused := by
  induction bs with
  | nil => rfl
  | cons b bs ih => exact ih

/-- behind a complete character and behind a refused byte nothing goes on -/
theorem reached_append (h : bs ≠ []) (hmore : more ≠ []) (hbs : ∀ p, reached bs ≠ .begun p) :
    reached (bs ++ more) = .refused := by
  obtain ⟨b, bs, rfl⟩ := List.exists_cons_of_ne_nil h
  obtain ⟨b', more, rfl⟩ := List.exists_cons_of_ne_nil hmore
  rw [List.cons_append, reached, List.foldl_append, List.foldl_cons]
  change more.foldl Advance.next ((reached (b :: bs)).next b') = .refused
  cases hreached : reached (b :: bs) with
  | begun p => exact absurd hreached (hbs p)
  | complete c => exact foldl_refused more
  | refused => exact foldl_refused more

/-- what the bytes of a piece make agrees with the encoding of characters -/
theorem explains_reached (bs : List UInt8) : (reached bs).Explains bs := by
  induction bs using List.reverseRecOn with
  | nil => trivial
  | append_singleton bs b ih =>
    rcases List.eq_nil_or_concat bs with rfl | ⟨front, last, rfl⟩
    · exact explains_lead b
    · have hfront : front.concat last ≠ [] := by simp
      rw [reached_snoc hfront]
      -- only behind the beginning of a character can a byte be taken
      cases hreached : reached (front.concat last) with
      | complete c => trivial
      | refused => trivial
      | begun p =>
        obtain ⟨hbytes, hp⟩ : (Advance.begun p).Explains (front.concat last) := hreached ▸ ih
        rw [← hbytes]
        exact hp.explains b

theorem encodeChar_ne_nil (c : Char) : String.utf8EncodeChar c ≠ [] := by
  intro h
  have hlength := congrArg List.length h
  rw [String.length_utf8EncodeChar] at hlength
  exact absurd hlength c.utf8Size_pos.ne'

/-- **Characters are complete behind their encodings, and nowhere else.** -/
theorem reached_complete_iff : reached bs = .complete c ↔ bs = String.utf8EncodeChar c := by
  constructor
  · intro h
    have hexplains := explains_reached bs
    rw [h] at hexplains
    exact hexplains.symm
  · rintro rfl
    exact reached_encodeChar c

/-- **Characters are begun behind the proper parts of their encodings, and nowhere else.** -/
theorem reached_begun_iff : (∃ p, reached bs = .begun p) ↔ Beginning bs := by
  constructor
  · rintro ⟨p, h⟩
    have hne : bs ≠ [] := by
      rintro rfl
      cases h
    obtain ⟨hbytes, hp⟩ : (Advance.begun p).Explains bs := h ▸ explains_reached bs
    obtain ⟨v, hv⟩ := hp.exists_fits
    obtain ⟨-, hchar⟩ := hp.encoding v hv
    rw [hbytes] at hchar
    refine ⟨hne, Char.ofNat v, ⟨_, hchar.symm⟩, ?_⟩
    intro hall
    have hcomplete := reached_complete_iff.2 hall
    rw [h] at hcomplete
    cases hcomplete
  · rintro ⟨hne, c, ⟨more, hc⟩, hproper⟩
    by_contra hnone
    have hmore : more ≠ [] := by
      rintro rfl
      exact hproper (by simpa using hc)
    have hrefused := reached_append hne hmore fun p hp => hnone ⟨p, hp⟩
    rw [hc, reached_encodeChar] at hrefused
    cases hrefused

theorem bytes_of_begun (h : reached bs = .begun p) : p.bytes = bs := by
  have hexplains := explains_reached bs
  rw [h] at hexplains
  exact hexplains.1

/-- nothing that begins a character has a character in it -/
theorem Beginning.no_character (h : Beginning bs) (c : Char) : ¬ String.utf8EncodeChar c <+: bs := by
  rintro ⟨more, rfl⟩
  obtain ⟨p, hp⟩ := reached_begun_iff.2 h
  have hchar := reached_encodeChar c
  by_cases hmore : more = []
  · rw [hmore, List.append_nil, hchar] at hp
    cases hp
  · rw [reached_append (encodeChar_ne_nil c) hmore (by simp [hchar])] at hp
    cases hp

end

/-! ## Bytes have one reading -/

theorem eq_of_encodeChar_append {c d : Char} {more : List UInt8}
    (h : String.utf8EncodeChar d = String.utf8EncodeChar c ++ more) : c = d ∧ more = [] := by
  by_cases hmore : more = []
  · rw [hmore, List.append_nil] at h
    have hreached := reached_encodeChar d
    rw [h, reached_encodeChar, Advance.complete.injEq] at hreached
    exact ⟨hreached, hmore⟩
  · have hbeginning : Beginning (String.utf8EncodeChar c) :=
      ⟨encodeChar_ne_nil c, d, ⟨more, h.symm⟩, fun heq => hmore (by simpa [heq] using h)⟩
    exact absurd (List.prefix_refl _) (hbeginning.no_character c)

theorem encodeChar_append_inj {c d : Char} {more more' : List UInt8}
    (h : String.utf8EncodeChar c ++ more = String.utf8EncodeChar d ++ more') : c = d ∧ more = more' := by
  rcases List.append_eq_append_iff.1 h with ⟨between, hd, hmore⟩ | ⟨between, hc, hmore⟩
  · obtain ⟨hchar, hnil⟩ := eq_of_encodeChar_append hd
    exact ⟨hchar, by rw [hmore, hnil, List.nil_append]⟩
  · obtain ⟨hchar, hnil⟩ := eq_of_encodeChar_append hc
    exact ⟨hchar.symm, by rw [hmore, hnil, List.nil_append]⟩

/-- **What is decoded is determined.** Bytes are the encoding of characters and a rest that begins with no character in
one way only. -/
theorem encode_append_inj {cs ds : List Char} {rest rest' : List UInt8}
    (hrest : ∀ c, ¬ String.utf8EncodeChar c <+: rest) (hrest' : ∀ c, ¬ String.utf8EncodeChar c <+: rest')
    (h : encode cs ++ rest = encode ds ++ rest') : cs = ds ∧ rest = rest' := by
  induction cs generalizing ds with
  | nil =>
    cases ds with
    | nil => exact ⟨rfl, h⟩
    | cons d ds =>
      rw [encode, List.flatMap_nil, List.nil_append, encode, List.flatMap_cons, List.append_assoc] at h
      exact absurd ⟨_, h.symm⟩ (hrest d)
  | cons c cs ih =>
    rw [encode, List.flatMap_cons, List.append_assoc] at h
    cases ds with
    | nil => exact absurd ⟨_, h⟩ (hrest' c)
    | cons d ds =>
      rw [encode, List.flatMap_cons, List.append_assoc] at h
      obtain ⟨rfl, hbehind⟩ := encodeChar_append_inj h
      obtain ⟨rfl, rfl⟩ := ih hbehind
      exact ⟨rfl, rfl⟩

/-! ## A refused byte -/

/-- `b` is refused behind `front`, which is nothing or the beginning of a character -/
structure Refused (front : List UInt8) (b : UInt8) : Prop where
  begins : front = [] ∨ Beginning front
  refused : reached (front ++ [b]) = .refused

section

variable {front bs more : List UInt8} {b : UInt8}

/-- what leads to a character, or is one, does not go past a refused byte -/
theorem Refused.prefix_front (h : Refused front b) (hbs : reached bs ≠ .refused) (hle : bs <+: front ++ b :: more) :
    bs <+: front := by
  have hfront : front <+: front ++ b :: more := List.prefix_append _ _
  rcases List.prefix_or_prefix_of_prefix hle hfront with hshort | ⟨behind, rfl⟩
  · exact hshort
  rw [List.prefix_append_right_inj] at hle
  rcases List.prefix_cons_iff.1 hle with rfl | ⟨later, rfl, -⟩
  · rw [List.append_nil]
  · refine absurd ?_ hbs
    by_cases hlater : later = []
    · rw [hlater]
      exact h.refused
    · have hne : front ++ [b] ≠ [] := by simp
      have hall := reached_append hne hlater (by simp [h.refused])
      rwa [List.append_assoc] at hall

/-- no character begins in front of a refused byte -/
theorem Refused.no_character (h : Refused front b) (more : List UInt8) (c : Char) :
    ¬ String.utf8EncodeChar c <+: front ++ b :: more := by
  intro hle
  have hshort := h.prefix_front (by simp [reached_encodeChar]) hle
  rcases h.begins with rfl | hbeginning
  · exact encodeChar_ne_nil c (List.prefix_nil.1 hshort)
  · exact hbeginning.no_character c hshort

/-- what begins a character in front of a refused byte ends there -/
theorem Refused.beginning (h : Refused front b) (hbs : Beginning bs) (hle : bs <+: front ++ b :: more) :
    bs <+: front := by
  obtain ⟨p, hp⟩ := reached_begun_iff.2 hbs
  exact h.prefix_front (by simp [hp]) hle

end

end FrameGraph.Text.Utf8
