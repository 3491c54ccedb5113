/-
Decoding is exact, up to the first bytes that are no character and in what is said of them.

A source is cut by the scanner byte by byte. Up to the first stray sequence the pieces are characters, and their
encodings are all of the bytes read but those of a character still begun; from there on nothing changes what was decoded.
Where a byte is refused, or the source breaks off, the bytes behind the last character are known by what they begin
(`Reports`).

Results:
- `decode_exact`: the bytes of a source are the encoding of the characters decoded and a rest that begins with no
  character; each character has the position behind those before it; the error is the one that the rest and the end of
  the source call for; blocks of any size decode to the same; the bytes of a text decode to the text;
- `scanned`: what the scanner has, after any bytes;
- `decodeBlocks_eq`: decoding block by block.
-/
import FrameGraph.Source
import FrameGraph.Proofs.Utf8

namespace FrameGraph

open Text.Utf8

/-! ## What is said of bytes that are no character -/

/-- what is reported of bytes that begin with no character: the longest beginning of a character in front, or the first
byte if there is none -/
def Reports (rest bad : List UInt8) : Prop :=
  (Beginning bad ∧ bad <+: rest ∧ ∀ bs, Beginning bs → bs <+: rest → bs.length ≤ bad.length) ∨
    ((∀ bs, Beginning bs → ¬ bs <+: rest) ∧ ∃ b more, rest = b :: more ∧ bad = [b])

/-- the error that decoding ends in, before bytes `rest` that begin with no character and the end or the failure of the
source behind them -/
def EndsIn (rest : List UInt8) : Option String → Option DecodeError → Prop
  | none, fault => (fault = none ↔ rest = []) ∧ (rest ≠ [] → ∃ bad, fault = some (.invalidUtf8 bad) ∧ Reports rest bad)
  | some m, fault => ((rest = [] ∨ Beginning rest) → fault = some (.io m)) ∧
      (¬ (rest = [] ∨ Beginning rest) → ∃ bad, fault = some (.invalidUtf8 bad) ∧ Reports rest bad)

/-- a character that is begun where the source ends is reported as it is -/
theorem reports_self {bs : List UInt8} (h : Beginning bs) : Reports bs bs :=
  .inl ⟨h, List.prefix_refl bs, fun _ _ hle => hle.length_le⟩

namespace Text.Utf8

/-- the stray sequence in front of a refused byte -/
def strayOf (front : List UInt8) (b : UInt8) : List UInt8 := if front = [] then [b] else front

theorem Refused.reports {front : List UInt8} {b : UInt8} (h : Refused front b) (more : List UInt8) :
    Reports (front ++ b :: more) (strayOf front b) := by
  rcases h.begins with rfl | hbeginning
  · refine .inr ⟨fun bs hbs hle => hbs.1 (List.prefix_nil.1 (h.beginning hbs hle)), b, more, rfl, rfl⟩
  · rw [strayOf, if_neg hbeginning.1]
    exact .inl ⟨hbeginning, List.prefix_append _ _, fun bs hbs hle => (h.beginning hbs hle).length_le⟩

/-- bytes with a refused one among them begin no character -/
theorem Refused.not_beginning {front : List UInt8} {b : UInt8} (h : Refused front b) (more : List UInt8) :
    ¬ Beginning (front ++ b :: more) := by
  intro hbeginning
  have hlength := (h.beginning hbeginning (List.prefix_refl _)).length_le
  simp at hlength

/-! ## Pieces up to the first stray sequence -/

theorem leadingChars_append (cs : List Char) (ps : List Piece) :
    leadingChars (cs.map .char ++ ps) = cs ++ leadingChars ps := by
  induction cs with
  | nil => rfl
  | cons c cs ih => simpa [leadingChars, Piece.char?] using ih

theorem firstStray_append (cs : List Char) (ps : List Piece) : firstStray (cs.map .char ++ ps) = firstStray ps := by
  induction cs with
  | nil => rfl
  | cons c cs ih => exact ih

theorem leadingChars_chars (cs : List Char) : leadingChars (cs.map .char) = cs := by
  simpa [leadingChars] using leadingChars_append cs []

theorem firstStray_chars (cs : List Char) : firstStray (cs.map .char) = none := by
  simpa [firstStray] using firstStray_append cs []

theorem leadingChars_stray (cs : List Char) (bad : List UInt8) (ps : List Piece) :
    leadingChars (cs.map .char ++ .stray bad :: ps) = cs := by
  rw [leadingChars_append]
  exact List.append_nil cs

theorem firstStray_stray (cs : List Char) (bad : List UInt8) (ps : List Piece) :
    firstStray (cs.map .char ++ .stray bad :: ps) = some bad := by
  rw [firstStray_append]
  rfl

/-- pieces are characters, at least up to the first stray sequence -/
theorem pieces_cases (ps : List Piece) :
    (∃ cs : List Char, ps = cs.map .char) ∨
      ∃ (cs : List Char) (bad : _) (more : _), ps = cs.map .char ++ .stray bad :: more := by
  induction ps with
  | nil => exact .inl ⟨[], rfl⟩
  | cons p ps ih =>
    cases p with
    | stray bad => exact .inr ⟨[], bad, ps, rfl⟩
    | char c =>
      rcases ih with ⟨cs, rfl⟩ | ⟨cs, bad, more, rfl⟩
      · exact .inl ⟨c :: cs, rfl⟩
      · exact .inr ⟨c :: cs, bad, more, rfl⟩

/-! ## The scanner -/

/-- pieces that are there do not matter for what comes, and stay -/
theorem opening_append (ps qs : Array Piece) (begun : Option Begun) (b : UInt8) :
    Scan.opening ⟨ps ++ qs, begun⟩ b =
      ⟨ps ++ (Scan.opening ⟨qs, begun⟩ b).pieces, (Scan.opening ⟨qs, begun⟩ b).begun⟩ := by
  unfold Scan.opening
  cases lead b <;> simp

theorem step_append (ps qs : Array Piece) (begun : Option Begun) (b : UInt8) :
    Scan.step ⟨ps ++ qs, begun⟩ b = ⟨ps ++ (Scan.step ⟨qs, begun⟩ b).pieces, (Scan.step ⟨qs, begun⟩ b).begun⟩ := by
  cases begun with
  | none => exact opening_append ps qs none b
  | some p =>
    simp only [Scan.step]
    cases p.extend b with
    | complete c => simp
    | begun q => rfl
    | refused =>
      simp only [← Array.append_push]
      exact opening_append ps (qs.push (.stray p.bytes)) none b

theorem foldl_append (ps qs : Array Piece) (begun : Option Begun) (bs : List UInt8) :
    bs.foldl Scan.step ⟨ps ++ qs, begun⟩ =
      ⟨ps ++ (bs.foldl Scan.step ⟨qs, begun⟩).pieces, (bs.foldl Scan.step ⟨qs, begun⟩).begun⟩ := by
  induction bs generalizing qs begun with
  | nil => rfl
  | cons b bs ih =>
    rw [List.foldl_cons, List.foldl_cons, step_append]
    exact ih _ _

theorem pieces_opening (sc : Scan) (b : UInt8) : ∃ ps, (sc.opening b).pieces.toList = sc.pieces.toList ++ ps := by
  have happend := opening_append sc.pieces #[] sc.begun b
  rw [Array.append_empty] at happend
  exact ⟨_, by rw [happend, Array.toList_append]⟩

theorem pieces_step (sc : Scan) (b : UInt8) : ∃ ps, (sc.step b).pieces.toList = sc.pieces.toList ++ ps := by
  have happend := step_append sc.pieces #[] sc.begun b
  rw [Array.append_empty] at happend
  exact ⟨_, by rw [happend, Array.toList_append]⟩

/-- what the scanner has after some bytes: characters, and the beginning of one; or characters and a stray sequence, and
whatever it makes of the bytes from the refused one on -/
inductive Scanned : List UInt8 → Scan → Prop
  | clean (cs : List Char) {sc : Scan} (hpieces : sc.pieces.toList = cs.map .char)
      (hbegun : ∀ p, sc.begun = some p → reached p.bytes = .begun p) : Scanned (encode cs ++ sc.unfinished) sc
  | stray (cs : List Char) {front : List UInt8} {b : UInt8} (more : List UInt8) {sc : Scan} (ps : List Piece)
      (hrefused : Refused front b) (hpieces : sc.pieces.toList = cs.map .char ++ .stray (strayOf front b) :: ps) :
      Scanned (encode cs ++ (front ++ b :: more)) sc

theorem encode_snoc (cs : List Char) (c : Char) : encode (cs ++ [c]) = encode cs ++ String.utf8EncodeChar c := by
  simp [encode]

theorem Scanned.complete {cs : List Char} {ps : Array Piece} (hpieces : ps.toList = cs.map .char) (c : Char) :
    Scanned (encode cs ++ String.utf8EncodeChar c) ⟨ps.push (.char c), none⟩ := by
  have hclean : Scanned _ ⟨ps.push (.char c), none⟩ := .clean (cs ++ [c]) (by simp [hpieces]) (by simp)
  rwa [encode_snoc, Scan.unfinished, List.append_nil] at hclean

theorem Scanned.begun {cs : List Char} {ps : Array Piece} (hpieces : ps.toList = cs.map .char) {bs : List UInt8}
    {p : Begun} (hp : reached bs = .begun p) : Scanned (encode cs ++ bs) ⟨ps, some p⟩ := by
  have hbytes := bytes_of_begun hp
  have hclean : Scanned _ ⟨ps, some p⟩ := .clean cs hpieces (by simp [hbytes, hp])
  rw [← hbytes]
  exact hclean

/-- **One byte keeps what is known of the scanner.** -/
theorem Scanned.step {bs : List UInt8} {sc : Scan} (h : Scanned bs sc) (b : UInt8) :
    Scanned (bs ++ [b]) (sc.step b) := by
  cases h with
  | stray cs more ps hrefused hpieces =>
    obtain ⟨later, hlater⟩ := pieces_step sc b
    have hstray := Scanned.stray cs (more ++ [b]) _ hrefused (by rw [hlater, hpieces, List.append_assoc]; rfl)
    simpa using hstray
  | clean cs hpieces hbegun =>
    rw [List.append_assoc]
    cases hsc : sc.begun with
    | none =>
      rw [Scan.unfinished, Scan.step, hsc]
      simp only [List.nil_append, Scan.opening]
      have hreached : reached [b] = lead b := rfl
      cases hlead : lead b with
      | complete c =>
        rw [reached_complete_iff.1 (hreached.trans hlead)]
        exact .complete hpieces c
      | begun p => exact .begun hpieces (hreached.trans hlead)
      | refused => exact .stray cs [] [] ⟨.inl rfl, hreached.trans hlead⟩ (by simp [hpieces, strayOf])
    | some p =>
      have hp := hbegun p hsc
      have hbeginning : Beginning p.bytes := reached_begun_iff.1 ⟨p, hp⟩
      rw [Scan.unfinished, Scan.step, hsc]
      simp only
      have hreached : reached (p.bytes ++ [b]) = p.extend b := by
        rw [reached_snoc hbeginning.1, hp]
        rfl
      cases hextend : p.extend b with
      | complete c =>
        rw [reached_complete_iff.1 (hreached.trans hextend)]
        exact .complete hpieces c
      | begun q => exact .begun hpieces (hreached.trans hextend)
      | refused =>
        obtain ⟨ps, hps⟩ := pieces_opening ⟨sc.pieces.push (.stray p.bytes), none⟩ b
        refine .stray cs [] ps ⟨.inr hbeginning, hreached.trans hextend⟩ ?_
        rw [hps, strayOf, if_neg hbeginning.1]
        simp [hpieces]

/-- **Any bytes.** -/
theorem scanned (bs : List UInt8) : Scanned bs (scan bs) := by
  induction bs using List.reverseRecOn with
  | nil =>
    have hempty : Scanned _ .empty := .clean [] rfl (by simp [Scan.empty])
    exact hempty
  | append_singleton bs b ih =>
    rw [scan, List.foldl_append]
    exact ih.step b

end Text.Utf8

/-! ## Decoding -/

/-- what is decoded where a source ends or fails and the scanner has `sc` -/
def Text.Utf8.Scan.close (sc : Scan) (failure : Option String) : CharSource :=
  let fault :=
    match firstStray sc.pieces.toList, failure with
    | some stray, _ => some (.invalidUtf8 stray)
    | none, some m => some (.io m)
    | none, none => if sc.unfinished.isEmpty then none else some (.invalidUtf8 sc.unfinished)
  ⟨leadingChars sc.pieces.toList, fault⟩

namespace Text.Utf8

theorem chars_close (sc : Scan) (failure : Option String) :
    (sc.close failure).chars = leadingChars sc.pieces.toList := rfl

theorem fault_of_stray {sc : Scan} {bad : List UInt8} (h : firstStray sc.pieces.toList = some bad)
    (failure : Option String) : (sc.close failure).fault = some (.invalidUtf8 bad) := by
  simp [Scan.close, h]

theorem fault_of_failure {sc : Scan} (h : firstStray sc.pieces.toList = none) (m : String) :
    (sc.close (some m)).fault = some (.io m) := by
  simp [Scan.close, h]

theorem fault_of_end {sc : Scan} (h : firstStray sc.pieces.toList = none) :
    (sc.close none).fault = if sc.unfinished = [] then none else some (.invalidUtf8 sc.unfinished) := by
  simp [Scan.close, h]

/-- **What is decoded of any bytes, before an end or a failure.** -/
theorem Scanned.close {bs : List UInt8} {sc : Scan} (h : Scanned bs sc) (failure : Option String) :
    ∃ rest, bs = encode (sc.close failure).chars ++ rest ∧ (∀ c, ¬ String.utf8EncodeChar c <+: rest) ∧
      EndsIn rest failure (sc.close failure).fault := by
  cases h with
  | clean cs hpieces hbegun =>
    have hunfinished : sc.unfinished = [] ∨ Beginning sc.unfinished := by
      rw [Scan.unfinished]
      cases hsc : sc.begun with
      | none => exact .inl rfl
      | some p => exact .inr (reached_begun_iff.1 ⟨p, hbegun p hsc⟩)
    have hfirst : firstStray sc.pieces.toList = none := by rw [hpieces, firstStray_chars]
    refine ⟨sc.unfinished, by rw [chars_close, hpieces, leadingChars_chars], fun c => ?_, ?_⟩
    · rcases hunfinished with hnil | hbeginning
      · rw [hnil, List.prefix_nil]
        exact encodeChar_ne_nil c
      · exact hbeginning.no_character c
    cases failure with
    | none =>
      rw [fault_of_end hfirst]
      rcases hunfinished with hnil | hbeginning
      · exact ⟨by simp [hnil], fun hne => absurd hnil hne⟩
      · rw [if_neg hbeginning.1]
        exact ⟨by simp [hbeginning.1], fun _ => ⟨_, rfl, reports_self hbeginning⟩⟩
    | some m => exact ⟨fun _ => fault_of_failure hfirst m, fun hnone => absurd hunfinished hnone⟩
  | stray cs more ps hrefused hpieces =>
    have hfault := fault_of_stray (by rw [hpieces, firstStray_stray]) failure
    have hreports := hrefused.reports more
    refine ⟨_, by rw [chars_close, hpieces, leadingChars_stray], hrefused.no_character more, ?_⟩
    rw [hfault]
    cases failure with
    | none => exact ⟨by simp, fun _ => ⟨_, rfl, hreports⟩⟩
    | some m =>
      refine ⟨fun hbegins => ?_, fun _ => ⟨_, rfl, hreports⟩⟩
      rcases hbegins with hnil | hbeginning
      · simp at hnil
      · exact absurd hbeginning (hrefused.not_beginning more)

end Text.Utf8

/-! ## Decoding block by block -/

/-- decode a source that comes in blocks. The characters of a block are there before the next block is fetched, nothing
is fetched behind an error, and between two blocks only the beginning of a character is kept -/
def decodeBlocks (failure : Option String) : Option Begun → List (List UInt8) → CharSource
  | begun, [] => Scan.close ⟨#[], begun⟩ failure
  | begun, block :: blocks =>
    let sc := block.foldl Scan.step ⟨#[], begun⟩
    match firstStray sc.pieces.toList with
    | some stray => ⟨leadingChars sc.pieces.toList, some (.invalidUtf8 stray)⟩
    | none =>
      let later := decodeBlocks failure sc.begun blocks
      ⟨leadingChars sc.pieces.toList ++ later.chars, later.fault⟩

namespace Text.Utf8

theorem close_chars {ps : Array Piece} {cs : List Char} (hps : ps.toList = cs.map .char) (qs : Array Piece)
    (begun : Option Begun) (failure : Option String) :
    Scan.close ⟨ps ++ qs, begun⟩ failure =
      ⟨cs ++ (Scan.close ⟨qs, begun⟩ failure).chars, (Scan.close ⟨qs, begun⟩ failure).fault⟩ := by
  simp only [Scan.close, Array.toList_append, hps, leadingChars_append, firstStray_append]
  rfl

/-- **Blocks do not matter.** Decoding block by block gives what decoding of all bytes at once gives, wherever
characters and stray sequences are split. -/
theorem decodeBlocks_eq (failure : Option String) (begun : Option Begun) (blocks : List (List UInt8)) :
    decodeBlocks failure begun blocks = (blocks.flatten.foldl Scan.step ⟨#[], begun⟩).close failure := by
  induction blocks generalizing begun with
  | nil => rfl
  | cons block blocks ih =>
    rw [List.flatten_cons, List.foldl_append, decodeBlocks]
    obtain ⟨ps, later, hsc⟩ : ∃ ps later, block.foldl Scan.step ⟨#[], begun⟩ = ⟨ps, later⟩ := ⟨_, _, rfl⟩
    have hbehind := foldl_append ps #[] later blocks.flatten
    rw [Array.append_empty] at hbehind
    rw [hsc, hbehind]
    simp only
    rcases pieces_cases ps.toList with ⟨cs, hps⟩ | ⟨cs, bad, more, hps⟩
    · rw [close_chars hps, hps, firstStray_chars, leadingChars_chars, ← ih]
    · simp only [Scan.close, Array.toList_append, hps, List.append_assoc, List.cons_append, firstStray_stray,
        leadingChars_stray]

end Text.Utf8

/-! ## Positions -/

theorem located_from (cs : List Char) (p : Position) (acc : Array (Located Char)) :
    (cs.foldl (fun (acc, p) c => (acc.push ⟨c, p⟩, p.after c)) (acc, p)).1.toList =
      acc.toList ++ cs.mapIdx fun i c => ⟨c, p.afterAll (cs.take i)⟩ := by
  induction cs generalizing p acc with
  | nil => simp
  | cons c cs ih =>
    rw [List.foldl_cons, ih, List.mapIdx_cons]
    simp [Position.afterAll]

/-- each character has the position behind those before it -/
theorem CharSource.located_eq (src : CharSource) :
    src.located = src.chars.mapIdx fun i c => ⟨c, Position.start.afterAll (src.chars.take i)⟩ :=
  located_from src.chars Position.start #[]

/-! ## Sources -/

/-- the bytes of a text -/
theorem data_toUTF8 (text : String) : text.toUTF8.data.toList = encode text.toList := by
  rw [String.toUTF8, ← String.utf8Encode_toList, List.utf8Encode, List.toList_data_toByteArray]
  rfl

/-- the bytes of a text decode to the text -/
theorem ByteSource.decode_encode (cs : List Char) : (ByteSource.ofBytes (encode cs)).decode = ⟨cs, none⟩ := by
  obtain ⟨rest, hbytes, hrest, hfault, -⟩ := (scanned (encode cs)).close none
  have hnone : ∀ c, ¬ String.utf8EncodeChar c <+: [] := fun c hle => encodeChar_ne_nil c (List.prefix_nil.1 hle)
  obtain ⟨hchars, hnil⟩ := encode_append_inj hnone hrest ((List.append_nil _).trans hbytes)
  calc (ByteSource.ofBytes (encode cs)).decode
      = ⟨((scan (encode cs)).close none).chars, ((scan (encode cs)).close none).fault⟩ := rfl
    _ = ⟨cs, none⟩ := by rw [← hchars, hfault.2 hnil.symm]

/-- **Decoding is exact.** For every source of bytes, also one that fails behind them: the bytes are the encoding of the
characters decoded and a rest, which begins with no character; each character has the position that all characters before
it lead to; without a failure there is an error only if something is left, and it names the longest beginning of a
character in front of the rest, or the first byte if there is none; a failure is reported where nothing is left or what
is left is the beginning of a character. Blocks in which the bytes come do not matter, and the bytes of a text decode to
the text. -/
theorem ByteSource.decode_exact (s : ByteSource) :
    (∃ rest, s.bytes = encode s.decode.chars ++ rest ∧ (∀ c, ¬ String.utf8EncodeChar c <+: rest) ∧
      EndsIn rest s.failure s.decode.fault) ∧
    s.decode.located = s.decode.chars.mapIdx (fun i c => ⟨c, Position.start.afterAll (s.decode.chars.take i)⟩) ∧
    (∀ blocks, blocks.flatten = s.bytes → decodeBlocks s.failure none blocks = s.decode) ∧
    ∀ text : String, s = .ofBytes text.toUTF8.data.toList → s.decode = .ofString text := by
  refine ⟨(scanned s.bytes).close s.failure, s.decode.located_eq, ?_, ?_⟩
  · intro blocks hblocks
    rw [decodeBlocks_eq, hblocks]
    rfl
  · rintro text rfl
    rw [data_toUTF8, decode_encode]
    rfl

/-- a surrogate is refused at its second byte, and a character that a failure cuts short is not reported -/
example : (ByteSource.ofBytes [0x61, 0xED, 0xA0, 0x80]).decode = ⟨['a'], some (.invalidUtf8 [0xED])⟩ ∧
    (ByteSource.failingAfter [0x61, 0xE2, 0x82, 0xAC] 3 "gone").decode = ⟨['a'], some (.io "gone")⟩ := by
  decide

end FrameGraph
