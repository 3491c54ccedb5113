/-
Printing into a sink that refuses.

A sink with room for some bytes is given the listings one by one and keeps of each what there is room for. So what it has in the end
are the first bytes of what a sink without a limit would have (`replay_room`): the first listing that does not fit fills it, and this
is the end of the reading, whatever stands behind. Where flushing fails, the first listing is also the last.

Results:
- `print_fits`, `print_overflows`: a text is written as far as there is room.
- `replay_room`: the listings of expressions are written as far as there is room, and reading goes on as long as they fit.
- `replay_unflushed`: where flushing fails, nothing is written behind the first listing.
- `printAll_refused`: a sink that refuses has the beginning of the whole output.
-/
import FrameGraph.Proofs.Deliveries

namespace FrameGraph

namespace Sink

variable {text : String} {n : Nat}

/-- a text that fits is written as a whole, and the room for it is used up -/
theorem print_fits (h : text.toUTF8.size ≤ n) (written : ByteArray) (flushable : Bool) :
    (⟨written, some n, flushable⟩ : Sink).print text =
      (⟨written ++ text.toUTF8, some (n - text.toUTF8.size), flushable⟩, if flushable then none else some .unflushed) := by
  simp only [print, write, if_pos h, flush]

/-- of a text that does not fit, the first bytes are written -/
theorem print_overflows (h : n < text.toUTF8.size) (written : ByteArray) (flushable : Bool) :
    (⟨written, some n, flushable⟩ : Sink).print text =
      (⟨written ++ text.toUTF8.extract 0 n, some 0, flushable⟩, some .full) := by
  simp only [print, write, if_neg (Nat.not_le.2 h)]

/-- all of what has no more than `n` bytes are the first `n` bytes of it -/
theorem extract_of_size_le {b : ByteArray} (h : b.size ≤ n) : b.extract 0 n = b := by
  have hall : b.extract 0 (max n b.size) = b := ByteArray.extract_zero_max_size
  rwa [max_eq_left h] at hall

theorem extract_min_size (b : ByteArray) (n : Nat) : b.extract 0 (min n b.size) = b.extract 0 n := by
  by_cases h : n ≤ b.size
  · rw [min_eq_left h]
  · have hle : b.size ≤ n := Nat.le_of_lt (Nat.not_le.1 h)
    rw [min_eq_right hle, ByteArray.extract_zero_size, extract_of_size_le hle]

end Sink

namespace Listing

open Grammar Reading Sink

theorem toUTF8_texts_cons (a : Arena) (h : Handle) (vs : List (Arena × Handle)) :
    (texts ((a, h) :: vs)).toUTF8 = (text a h ++ "\n").toUTF8 ++ (texts vs).toUTF8 := by
  simp [texts, ByteArray.append_assoc]

/-- **Listings are written as far as there is room**, and reading goes on as long as they fit. -/
theorem replay_room (failure : Option Failure) (count : Nat) (written : ByteArray) (n : Nat) (a : Arena) (es : List Expr) :
    let r := replay visitor failure count ⟨written, some n, true⟩ a es
    let out := (texts (deliveries a es)).toUTF8
    r.state.written = written ++ out.extract 0 n ∧
      r.ending = if out.size ≤ n then finalEnding failure (count + es.length) else .stopped .full := by
  induction es generalizing count written n a with
  | nil =>
    intro r out
    have hout : out = .empty := rfl
    have hsize : out.size ≤ n := Nat.zero_le n
    refine ⟨?_, ?_⟩
    · rw [extract_of_size_le hsize, hout, ByteArray.append_empty]
      cases failure <;> rfl
    · rw [if_pos hsize]
      cases failure <;> rfl
  | cons e es ih =>
    intro r out
    set first := (text (a.plant e) a.next ++ "\n").toUTF8 with hfirst
    set later := (texts (deliveries (a.plant e) es)).toUTF8 with hlater
    have hout : out = first ++ later := toUTF8_texts_cons (a.plant e) a.next (deliveries (a.plant e) es)
    by_cases hfits : first.size ≤ n
    · -- the listing fits, and what is behind it is given the room that is left
      have hr : r = replay visitor failure (count + 1) ⟨written ++ first, some (n - first.size), true⟩ (a.plant e) es := by
        simp only [r, replay, visitor, print_fits hfits, if_true, hfirst]
      obtain ⟨hwritten, hending⟩ := ih (count + 1) (written ++ first) (n - first.size) (a.plant e)
      have hsize : out.size ≤ n ↔ later.size ≤ n - first.size := by
        rw [hout, ByteArray.size_append]
        omega
      refine ⟨?_, ?_⟩
      · rw [hr, hwritten, hout, ByteArray.extract_append, Nat.zero_sub, extract_of_size_le hfits, ByteArray.append_assoc]
      · rw [hr, hending, List.length_cons, Nat.add_assoc, Nat.add_comm 1]
        simp only [hsize, hlater]
    · have hfull : n < first.size := Nat.not_le.1 hfits
      have hr : r = ⟨a.plant e, ⟨written ++ first.extract 0 n, some 0, true⟩, .stopped .full⟩ := by
        simp only [r, replay, visitor, print_overflows hfull, hfirst]
      have hsize : ¬ out.size ≤ n := by
        rw [hout, ByteArray.size_append]
        omega
      refine ⟨?_, ?_⟩
      · rw [hr, hout, ByteArray.extract_append, Nat.zero_sub, Nat.sub_eq_zero_of_le hfull.le, ByteArray.extract_same, ByteArray.append_empty]
      · rw [hr, if_neg hsize]

/-- what is printed for the first of some expressions, nothing if there are none -/
def firstOutput (a : Arena) : List Expr → ByteArray
  | [] => .empty
  | e :: _ => (text (a.plant e) a.next ++ "\n").toUTF8

/-- the whole output starts with that for the first expression -/
theorem extract_firstOutput (a : Arena) (es : List Expr) (n : Nat) :
    (texts (deliveries a es)).toUTF8.extract 0 (min n (firstOutput a es).size) = (firstOutput a es).extract 0 n := by
  cases es with
  | nil => rw [← extract_min_size (firstOutput a [])]; rfl
  | cons e es =>
    have hsplit : (texts (deliveries a (e :: es))).toUTF8 =
        firstOutput a (e :: es) ++ (texts (deliveries (a.plant e) es)).toUTF8 := toUTF8_texts_cons ..
    rw [hsplit, ByteArray.extract_append, Nat.zero_sub, Nat.sub_eq_zero_of_le (min_le_right ..), ByteArray.extract_same,
      ByteArray.append_empty, extract_min_size]

/-- something is printed for every expression -/
theorem toUTF8_texts_eq_empty_iff (a : Arena) (es : List Expr) : (texts (deliveries a es)).toUTF8 = .empty ↔ es = [] := by
  cases es with
  | nil => exact iff_of_true rfl rfl
  | cons e es =>
    refine iff_of_false ?_ (List.cons_ne_nil e es)
    intro hempty
    have hsize := congrArg ByteArray.size ((toUTF8_texts_cons ..).symm.trans hempty)
    simp at hsize

/-- where flushing fails, the first listing is the last, be it written as a whole or in part -/
theorem replay_unflushed (failure : Option Failure) (count : Nat) (written : ByteArray) (n : Nat) (a : Arena) (es : List Expr) :
    let r := replay visitor failure count ⟨written, some n, false⟩ a es
    r.state.written = written ++ (firstOutput a es).extract 0 n ∧
      (es = [] → r.ending = finalEnding failure count) ∧ (es ≠ [] → ∃ stop, r.ending = .stopped stop) := by
  intro r
  cases es with
  | nil =>
    refine ⟨?_, fun _ => ?_, fun hne => absurd rfl hne⟩
    · rw [extract_of_size_le (Nat.zero_le n), firstOutput, ByteArray.append_empty]
      cases failure <;> rfl
    · cases failure <;> rfl
  | cons e es =>
    by_cases hfits : (firstOutput a (e :: es)).size ≤ n
    · have hr : r = ⟨a.plant e, ⟨written ++ firstOutput a (e :: es), some (n - (firstOutput a (e :: es)).size), false⟩,
          .stopped .unflushed⟩ := by
        simp only [r, replay, visitor, print_fits (show (text (a.plant e) a.next ++ "\n").toUTF8.size ≤ n from hfits)]
        rfl
      rw [hr, extract_of_size_le hfits]
      exact ⟨rfl, fun h => absurd h (List.cons_ne_nil e es), fun _ => ⟨_, rfl⟩⟩
    · have hr : r = ⟨a.plant e, ⟨written ++ (firstOutput a (e :: es)).extract 0 n, some 0, false⟩, .stopped .full⟩ := by
        simp only [r, replay, visitor,
          print_overflows (show n < (text (a.plant e) a.next ++ "\n").toUTF8.size from Nat.not_le.1 hfits)]
        rfl
      rw [hr]
      exact ⟨rfl, fun h => absurd h (List.cons_ne_nil e es), fun _ => ⟨_, rfl⟩⟩

/-! ## Sources -/

/-- number of bytes that are printed for the first expression of a source, with the newline; none if there is no expression -/
def firstSize (s : Settings) (src : ByteSource) : Nat :=
  match Reader.next s.maxDepth .empty (src.decode.tokens s) with
  | ⟨a, .expression h, _⟩ => (text a h ++ "\n").toUTF8.size
  | _ => 0

section Source

variable {s : Settings} {src : ByteSource} {es : List Expr} {failure : Option Failure}

/-- the first expression is what the first call of the reader returns -/
theorem firstSize_eq (h : parseAll s.maxDepth (src.decode.tokens s) = ⟨es, failure⟩) :
    firstSize s src = (firstOutput .empty es).size := by
  cases hparse : parse s.maxDepth [] (src.decode.tokens s) with
  | ended =>
    rw [parseAll_ended hparse] at h
    obtain ⟨rfl, -⟩ := ParsedAll.mk.inj h
    rw [firstSize, next_of_parse hparse]
    rfl
  | expression e rest =>
    rw [parseAll_expression hparse] at h
    obtain ⟨rfl, -⟩ := ParsedAll.mk.inj h
    rw [firstSize, next_of_parse hparse]
    rfl
  | failed stack err rest =>
    rw [parseAll_failed hparse] at h
    obtain ⟨rfl, -⟩ := ParsedAll.mk.inj h
    rw [firstSize, next_of_parse hparse]
    rfl

/-- printing makes a visit to each expression of the source -/
theorem printAll_eq_replay (h : parseAll s.maxDepth (src.decode.tokens s) = ⟨es, failure⟩) (sink : Sink) :
    printAll s src sink = replay visitor failure 0 sink .empty es := by
  rw [printAll, each, visiting, onward_eq_replay, h]

/-- a sink that takes everything has all of the output -/
theorem printAll_unlimited (h : parseAll s.maxDepth (src.decode.tokens s) = ⟨es, failure⟩) :
    printAll s src .unlimited = ⟨finalArena failure .empty es, .taking (texts (deliveries .empty es)).toUTF8,
      finalEnding failure es.length⟩ := by
  have htaking := printAll_of_parseAll h .empty
  rwa [ByteArray.empty_append] at htaking

end Source

/-- **A sink that refuses has the beginning of the output.** Let `whole` be the printing of a source into a sink that takes
everything. A sink with room for `n` bytes has all of its output and the same end if there is room for it; if not, it has the first
`n` bytes, and the end is that the sink is full, whatever the source has behind them. If flushing fails too, it has the first `n`
bytes of the first listing and its newline, and the end is an error of writing exactly if there is something to write. -/
theorem printAll_refused (s : Settings) (src : ByteSource) (n : Nat) :
    let whole := printAll s src .unlimited
    let out := whole.state.written
    let limited := printAll s src (.limited n)
    let unflushed := printAll s src { Sink.limited n with flushable := false }
    (out.size ≤ n → limited.state.written = out ∧ limited.ending = whole.ending) ∧
    (n < out.size → limited.state.written = out.extract 0 n ∧ limited.ending = .stopped .full) ∧
    unflushed.state.written = out.extract 0 (min n (firstSize s src)) ∧
    ((∃ stop, unflushed.ending = .stopped stop) ↔ out ≠ .empty) ∧
    (out = .empty → unflushed.ending = whole.ending) := by
  intro whole out limited unflushed
  obtain ⟨es, failure, hall⟩ : ∃ es failure, parseAll s.maxDepth (src.decode.tokens s) = ⟨es, failure⟩ := ⟨_, _, rfl⟩
  have hwhole := printAll_unlimited hall
  have hout : out = (texts (deliveries .empty es)).toUTF8 := congrArg (fun r => r.state.written) hwhole
  have hending : whole.ending = finalEnding failure es.length := congrArg Reading.ending hwhole
  have hlimited : limited = replay visitor failure 0 ⟨.empty, some n, true⟩ .empty es := printAll_eq_replay hall _
  have hunflushed : unflushed = replay visitor failure 0 ⟨.empty, some n, false⟩ .empty es := printAll_eq_replay hall _
  obtain ⟨hroom, hend⟩ := replay_room failure 0 .empty n .empty es
  rw [← hlimited, ← hout, ByteArray.empty_append] at hroom
  rw [← hlimited, ← hout, Nat.zero_add, ← hending] at hend
  obtain ⟨hfirst, hnothing, hstopped⟩ := replay_unflushed failure 0 .empty n .empty es
  rw [← hunflushed, ByteArray.empty_append] at hfirst
  rw [← hunflushed] at hnothing hstopped
  have hempty : out = .empty ↔ es = [] := hout ▸ toUTF8_texts_eq_empty_iff .empty es
  refine ⟨?_, ?_, ?_, ⟨?_, ?_⟩, ?_⟩
  · intro hfits
    rw [if_pos hfits] at hend
    exact ⟨hroom.trans (extract_of_size_le hfits), hend⟩
  · intro hfull
    rw [if_neg (Nat.not_le.2 hfull)] at hend
    exact ⟨hroom, hend⟩
  · rw [hfirst, hout, firstSize_eq hall, extract_firstOutput]
  · rintro ⟨stop, hstop⟩ hnone
    rw [hnothing (hempty.1 hnone)] at hstop
    exact finalEnding_ne_stopped failure 0 stop hstop
  · exact fun hne => hstopped fun hnil => hne (hempty.2 hnil)
  · intro hnone
    obtain rfl := hempty.1 hnone
    rw [hnothing rfl, hending]
    rfl

/-- an expression in front of an open list, printed into sinks without room and with just enough of it -/
theorem printAll_refused_openList :
    let src : ByteSource := .ofBytes [0x78, 0x20, 0x28, 0x79]
    let whole := printAll .default src .unlimited
    let size := whole.state.written.size
    whole.ending = .unreadable ⟨.structural .openList, ⟨0, 2⟩⟩ ∧ 0 < size ∧ size ≤ size ∧
    (printAll .default src (.limited 0)).ending = .stopped .full ∧
    (printAll .default src (.limited size)).state.written = whole.state.written ∧
    (printAll .default src (.limited size)).ending = whole.ending ∧
    whole.state.written ≠ .empty ∧
    ∃ stop, (printAll .default src { Sink.limited size with flushable := false }).ending = .stopped stop := by
  intro src whole size
  have htokens : src.decode.tokens .default = [.ok ⟨.leaf ⟨.symbol, .text "x"⟩, ⟨0, 0⟩⟩, .ok ⟨.opening, ⟨0, 2⟩⟩,
      .ok ⟨.leaf ⟨.symbol, .text "y"⟩, ⟨0, 3⟩⟩] := by decide
  obtain ⟨stack, hall⟩ : ∃ stack, parseAll Settings.default.maxDepth (src.decode.tokens .default) =
      ⟨[.leaf ⟨.symbol, .text "x"⟩], some ⟨stack, ⟨.structural .openList, ⟨0, 2⟩⟩⟩⟩ := by
    rw [htokens, parseAll_expression rfl, parseAll_failed rfl]
    exact ⟨_, rfl⟩
  have hending : whole.ending = .unreadable ⟨.structural .openList, ⟨0, 2⟩⟩ :=
    congrArg Reading.ending (printAll_unlimited hall)
  have hne : whole.state.written ≠ .empty := by
    rw [show whole.state.written = _ from congrArg (fun r => r.state.written) (printAll_unlimited hall)]
    exact fun hempty => List.cons_ne_nil _ _ ((toUTF8_texts_eq_empty_iff _ _).1 hempty)
  have hpos : 0 < size := Nat.pos_of_ne_zero fun hzero => hne (ByteArray.size_eq_zero_iff.1 hzero)
  obtain ⟨-, hfull, -, -, -⟩ := printAll_refused .default src 0
  obtain ⟨hfits, -, -, hstopped, -⟩ := printAll_refused .default src size
  exact ⟨hending, hpos, le_rfl, (hfull hpos).2, (hfits le_rfl).1, (hfits le_rfl).2, hne, hstopped.2 hne⟩

end Listing

end FrameGraph
