/-
Readings to the end, and listings of what they deliver.

`Grammar.parseAll` reads tokens to their end, or to the first error, with no arena in sight: the expressions, and the
constructs that the error leaves open. A reading with a visitor plants these expressions behind the frames of its arena,
one after the other, with a visit to each (`replay`), so a visitor decides how far a reading goes, but not what it reads.
Planting changes no frame that is there and a planted expression has no link to what comes later, so the listing of an
expression is the same at the time of its visit and ever after.

Results:
- `onward_eq_replay`: a reading visits the expressions of its tokens, in their order.
- `closed_plant`: to plant an expression leaves no link that dangles, if there was none.
- `deliveries_keep`: every arena that is visited is closed and is the front of every later one.
- `listing_extend`: frames behind those of a closed arena change no listing.
- `printAll_eq_listings`: what is printed of a source is the listings of its expressions, in their order.
-/
import FrameGraph.Listing.Print
import FrameGraph.Proofs.Agreement
import FrameGraph.Proofs.Written

namespace FrameGraph

/-! ## Reading to the end -/

namespace Grammar

/-- an error and the constructs that it leaves open -/
structure Failure where
  stack : List Opened
  error : Located ReadError

/-- what reading to the end comes to: expressions, and the failure behind them, if there is one -/
structure ParsedAll where
  exprs : List Expr
  failure : Option Failure

theorem next_of_parse {d : Nat} {ts : TokenStream} {p : Parsed} (h : parse d [] ts = p) (a : Arena) :
    Reader.next d a ts = p.call a := by
  rw [next_eq_parse, h]

theorem length_rest_lt_of_parse {d : Nat} {ts rest : TokenStream} {e : Expr} (h : parse d [] ts = .expression e rest) :
    rest.length < ts.length :=
  Reader.length_rest_lt_of_next (next_of_parse h .empty) Outcome.noConfusion

/-- read on to the end -/
def parseAll (d : Nat) (ts : TokenStream) : ParsedAll :=
  match _parsed : parse d [] ts with
  | .ended => ⟨[], none⟩
  | .expression e rest =>
    let later := parseAll d rest
    ⟨e :: later.exprs, later.failure⟩
  | .failed stack err _ => ⟨[], some ⟨stack, err⟩⟩
termination_by ts.length
decreasing_by exact length_rest_lt_of_parse _parsed

theorem parseAll_ended {d : Nat} {ts : TokenStream} (h : parse d [] ts = .ended) : parseAll d ts = ⟨[], none⟩ := by
  rw [parseAll]
  split <;> simp_all

theorem parseAll_failed {d : Nat} {ts rest : TokenStream} {stack : List Opened} {err : Located ReadError}
    (h : parse d [] ts = .failed stack err rest) : parseAll d ts = ⟨[], some ⟨stack, err⟩⟩ := by
  rw [parseAll]
  split <;> simp_all

theorem parseAll_expression {d : Nat} {ts rest : TokenStream} {e : Expr} (h : parse d [] ts = .expression e rest) :
    parseAll d ts = ⟨e :: (parseAll d rest).exprs, (parseAll d rest).failure⟩ := by
  rw [parseAll]
  split <;> simp_all

end Grammar

namespace Reading

open Grammar

variable {σ ε : Type}

/-- visit expressions, each planted behind those before it, up to the visit that stops; then comes the failure, if any -/
def replay (visitor : Visitor σ ε) (failure : Option Failure) (count : Nat) (s : σ) (a : Arena) :
    List Expr → Reading σ ε
  | [] =>
    match failure with
    | none => ⟨a, s, .all count⟩
    | some failed => ⟨opened a failed.stack, s, .unreadable failed.error⟩
  | e :: es =>
    match visitor s (a.plant e) a.next with
    | (s, none) => replay visitor failure (count + 1) s (a.plant e) es
    | (s, some stop) => ⟨a.plant e, s, .stopped stop⟩

theorem onward_failed {d count : Nat} {visit : Visit σ ε} {s : σ} {a b : Arena} {ts rest : TokenStream}
    {err : Located ReadError} (h : Reader.next d a ts = ⟨b, .failed err, rest⟩) :
    onward d visit count s a ts = ⟨b, s, .unreadable err⟩ := by
  rw [onward]
  split
  all_goals simp_all

theorem onward_stopped {d count : Nat} {visit : Visit σ ε} {s : σ} {a b : Arena} {ts rest : TokenStream} {h : Handle}
    (hcall : Reader.next d a ts = ⟨b, .expression h, rest⟩) {stop : ε} (hv : (visit s b h).2.2 = some stop) :
    onward d visit count s a ts = ⟨(visit s b h).2.1, (visit s b h).1, .stopped stop⟩ := by
  rw [onward]
  split
  · simp_all
  · simp_all
  next c x rest' hc =>
    obtain ⟨rfl, hx, rfl⟩ : c = b ∧ Outcome.expression x = .expression h ∧ rest' = rest := by
      simpa [hcall, eq_comm] using hc
    obtain rfl := Outcome.expression.inj hx
    split
    next hvis => simp [hvis] at hv
    next hvis => simp_all

/-- a reading visits the expressions of its tokens, whatever its visitor does -/
theorem onward_eq_replay (d : Nat) (visitor : Visitor σ ε) (count : Nat) (s : σ) (a : Arena) (ts : TokenStream) :
    onward d visitor.visit count s a ts =
      replay visitor (parseAll d ts).failure count s a (parseAll d ts).exprs := by
  induction ts using parseAll.induct d generalizing count s a with
  | case1 ts hparse =>
    rw [onward_ended (next_of_parse hparse a), parseAll_ended hparse]
    rfl
  | case2 ts e rest hparse ih =>
    have hcall : Reader.next d a ts = ⟨a.plant e, .expression a.next, rest⟩ := next_of_parse hparse a
    rw [parseAll_expression hparse, replay]
    rcases hv : visitor s (a.plant e) a.next with ⟨s', _ | stop⟩
    · rw [onward_expression hcall (by simp [Visitor.visit, hv]), ih]
      simp [Visitor.visit, hv]
    · have hstop : (visitor.visit s (a.plant e) a.next).2.2 = some stop := by simp [Visitor.visit, hv]
      rw [onward_stopped hcall hstop]
      simp [Visitor.visit, hv]
  | case3 ts stack err rest hparse =>
    rw [onward_failed (next_of_parse hparse a), parseAll_failed hparse]
    rfl

/-- the arena and the handle at each visit to expressions that are planted one behind the other -/
def deliveries (a : Arena) : List Expr → List (Arena × Handle)
  | [] => []
  | e :: es => (a.plant e, a.next) :: deliveries (a.plant e) es

/-- the arena that a reading leaves which nothing stops -/
def finalArena (failure : Option Failure) (a : Arena) (es : List Expr) : Arena :=
  match failure with
  | none => a.plantAll es
  | some failed => opened (a.plantAll es) failed.stack

/-- the end of a reading of `count` expressions which nothing stops -/
def finalEnding (failure : Option Failure) (count : Nat) : Ending ε :=
  match failure with
  | none => .all count
  | some failed => .unreadable failed.error

theorem finalEnding_ne_stopped (failure : Option Failure) (count : Nat) (stop : ε) :
    finalEnding failure count ≠ .stopped stop := by
  cases failure <;> simp [finalEnding]

/-- visits that go on in all states that they lead to are made to all expressions -/
theorem replay_eq {visitor : Visitor σ ε} {good : σ → Prop}
    (hgood : ∀ s a h, good s → (visitor s a h).2 = none ∧ good (visitor s a h).1)
    (failure : Option Failure) (count : Nat) {s : σ} (hs : good s) (a : Arena) (es : List Expr) :
    replay visitor failure count s a es =
      ⟨finalArena failure a es, (deliveries a es).foldl (fun s v => (visitor s v.1 v.2).1) s,
        finalEnding failure (count + es.length)⟩ := by
  induction es generalizing count s a with
  | nil => cases failure <;> simp [replay, deliveries, finalArena, finalEnding, Arena.plantAll, Expr.framesAll]
  | cons e es ih =>
    obtain ⟨hnone, hnext⟩ := hgood s (a.plant e) a.next hs
    rw [replay]
    rcases hv : visitor s (a.plant e) a.next with ⟨s', _ | stop⟩
    · rw [hv] at hnext
      simp only [ih (count + 1) hnext, deliveries, List.foldl_cons, hv, finalArena, Arena.plantAll_cons, List.length_cons,
        Nat.add_assoc, Nat.add_comm 1]
    · simp [hv] at hnone

end Reading

/-! ## Planted expressions -/

/-- slots and children of a frame are among the first `n` handles -/
def Frame.LinksBelow (n : Nat) (f : Frame) : Prop :=
  (∀ e ∈ f.slots.entries, e.2.index < n) ∧ ∀ c ∈ f.children, c.index < n

theorem Frame.LinksBelow.mono {n m : Nat} {f : Frame} (h : f.LinksBelow n) (hnm : n ≤ m) : f.LinksBelow m :=
  ⟨fun e he => (h.1 e he).trans_le hnm, fun c hc => (h.2 c hc).trans_le hnm⟩

namespace Expr

theorem size_pos (e : Expr) : 0 < e.size := by
  cases e with
  | leaf l => exact Nat.one_pos
  | quote op e => rw [size_quote]; omega
  | list es => rw [size_list]; omega

theorem handles_lt {n : Nat} {es : List Expr} {h : Handle} (hh : h ∈ handles n es) :
    h.index < n + room (tokensAll es) := by
  induction es generalizing n with
  | nil => simp [handles] at hh
  | cons e es ih =>
    rw [tokensAll, room_append]
    rcases List.mem_cons.1 hh with rfl | hh
    · have hpos : 0 < room e.tokens := e.size_pos
      show n < _
      omega
    · have hlt := ih hh
      simp only [size] at hlt
      omega

theorem linksBelow_framesAll_of {es : List Expr}
    (h : ∀ e ∈ es, ∀ n, ∀ f ∈ e.frames n, f.LinksBelow (n + e.size)) (n : Nat) :
    ∀ f ∈ framesAll n es, f.LinksBelow (n + room (tokensAll es)) := by
  induction es generalizing n with
  | nil => simp [framesAll]
  | cons e es ih =>
    obtain ⟨hfirst, hrest⟩ := List.forall_mem_cons.1 h
    rw [tokensAll, room_append, ← Nat.add_assoc]
    intro f hf
    rcases List.mem_append.1 hf with hf | hf
    · exact (hfirst n f hf).mono (Nat.le_add_right _ _)
    · exact ih hrest (n + e.size) f hf

/-- the frames of an expression link to frames of the expression only -/
theorem linksBelow_frames (e : Expr) (n : Nat) : ∀ f ∈ e.frames n, f.LinksBelow (n + e.size) := by
  induction e generalizing n with
  | leaf l => simp [frames, Frame.LinksBelow, Frame.ofLabel, Slots.empty]
  | quote op e ih =>
    rw [size_quote, ← Nat.add_assoc]
    refine List.forall_mem_cons.2 ⟨?_, ih (n + 1)⟩
    simp [Frame.LinksBelow, Slots.empty, e.size_pos]
  | list es ih =>
    rw [size_list, ← Nat.add_assoc]
    refine List.forall_mem_cons.2 ⟨⟨by simp [Slots.empty], fun c hc => ?_⟩, linksBelow_framesAll_of ih (n + 1)⟩
    exact handles_lt (by simpa using hc)

end Expr

namespace Arena

variable {a : Arena}

theorem closed_iff : a.Closed ↔ ∀ f ∈ a.frames, f.LinksBelow a.size := by
  simp only [Closed, Frame.LinksBelow, contains, decide_eq_true_iff]

theorem Closed.extend (ha : a.Closed) {fs : List Frame} (hfs : ∀ f ∈ fs, f.LinksBelow (a.size + fs.length)) :
    (a.extend fs).Closed := by
  rw [closed_iff] at ha ⊢
  intro f hf
  rw [size_extend]
  rcases Array.mem_append.1 hf with hf | hf
  · exact (ha f hf).mono (Nat.le_add_right _ _)
  · exact hfs f (by simpa using hf)

theorem closed_empty : empty.Closed := by simp [Closed, empty]

/-- an expression has no link to anything but itself -/
theorem closed_plant (ha : a.Closed) (e : Expr) : (a.plant e).Closed := by
  apply ha.extend
  intro f hf
  rw [Expr.length_frames]
  exact e.linksBelow_frames a.size f hf

theorem contains_plant (a : Arena) (e : Expr) : (a.plant e).contains a.next = true := by
  have hpos := e.size_pos
  simp only [contains, next, plant, size_extend, Expr.length_frames, decide_eq_true_iff]
  omega

/-- what stands behind the frames of a closed arena changes no listing -/
theorem listing_extend (ha : a.Closed) {h : Handle} (hh : a.contains h = true) (fs : List Frame) :
    (a.extend fs).listing h = a.listing h := by
  apply listing_eq_of_agree
  intro k hk
  rw [face?, frame?_extend_of_contains (ha.contains_of_reaches hh hk)]
  rfl

/-- the listing of a frame that is there is its text, if no link dangles -/
theorem listing_eq_text (ha : a.Closed) {h : Handle} (hh : a.contains h = true) :
    a.listing h = .ok (Listing.text a h) := by
  obtain ⟨es, hes⟩ := Listing.exists_root_trail ha hh
  have hlisting := hes.listing_eq
  unfold listing at hlisting ⊢
  split at hlisting
  · cases hlisting
  · rfl

end Arena

namespace Reading

open Grammar

/-- an arena that is visited is closed and has the expression, and all that comes later stands behind its frames -/
theorem deliveries_keep {a : Arena} (ha : a.Closed) (es : List Expr) {v : Arena × Handle} (hv : v ∈ deliveries a es) :
    v.1.Closed ∧ v.1.contains v.2 = true ∧ ∃ fs, a.plantAll es = v.1.extend fs := by
  induction es generalizing a with
  | nil => simp [deliveries] at hv
  | cons e es ih =>
    rw [Arena.plantAll_cons]
    rcases List.mem_cons.1 hv with rfl | hv
    · exact ⟨Arena.closed_plant ha e, a.contains_plant e, _, rfl⟩
    · exact ih (Arena.closed_plant ha e) hv

theorem exists_finalArena_eq (failure : Option Failure) (a : Arena) (es : List Expr) :
    ∃ fs, finalArena failure a es = (a.plantAll es).extend fs := by
  rcases failure with _ | failed
  · exact ⟨[], (Arena.extend_nil _).symm⟩
  · exact ⟨_, rfl⟩

/-- the listing of an expression is the same when it is visited and in the end -/
theorem listing_final {a : Arena} (ha : a.Closed) (failure : Option Failure) (es : List Expr)
    {v : Arena × Handle} (hv : v ∈ deliveries a es) :
    v.1.listing v.2 = .ok (Listing.text v.1 v.2) ∧
      (finalArena failure a es).listing v.2 = .ok (Listing.text v.1 v.2) := by
  obtain ⟨hclosed, hthere, fs, hfs⟩ := deliveries_keep ha es hv
  obtain ⟨gs, hgs⟩ := exists_finalArena_eq failure a es
  have htext := Arena.listing_eq_text hclosed hthere
  refine ⟨htext, ?_⟩
  rw [hgs, hfs, Arena.extend_extend, Arena.listing_extend hclosed hthere, htext]

/-! ## Printing -/

/-- note each expression, with the arena at the time of the visit -/
def note {ε : Type} : Visitor (List (Arena × Handle)) ε := fun vs a h => (vs ++ [(a, h)], none)

theorem foldl_note {ε : Type} (done vs : List (Arena × Handle)) :
    vs.foldl (fun s v => ((note : Visitor _ ε) s v.1 v.2).1) done = done ++ vs := by
  induction vs generalizing done with
  | nil => simp
  | cons v vs ih =>
    rw [List.foldl_cons, ih]
    simp [note]

theorem each_note {ε : Type} (d : Nat) (a : Arena) (ts : TokenStream) :
    each d (note : Visitor _ ε) [] a ts =
      let all := parseAll d ts
      ⟨finalArena all.failure a all.exprs, deliveries a all.exprs, finalEnding all.failure all.exprs.length⟩ := by
  have hgood (s : List (Arena × Handle)) (a : Arena) (h : Handle) (_ : True) :
      ((note : Visitor _ ε) s a h).2 = none ∧ True := ⟨rfl, trivial⟩
  rw [each, visiting, onward_eq_replay, replay_eq hgood _ _ trivial, foldl_note, Nat.zero_add, List.nil_append]

end Reading

/-- takes everything, behind what it has -/
def Sink.taking (written : ByteArray) : Sink := ⟨written, none, true⟩

theorem Sink.print_taking (written : ByteArray) (text : String) :
    (taking written).print text = (taking (written ++ text.toUTF8), none) := rfl

namespace Listing

open Reading

/-- the listings of expressions, with a newline behind each -/
def texts (vs : List (Arena × Handle)) : String := String.join (vs.map fun v => text v.1 v.2 ++ "\n")

theorem foldl_visitor (written : ByteArray) (vs : List (Arena × Handle)) :
    vs.foldl (fun s v => (visitor s v.1 v.2).1) (.taking written) = .taking (written ++ (texts vs).toUTF8) := by
  induction vs generalizing written with
  | nil => simp [texts]
  | cons v vs ih =>
    rw [List.foldl_cons, visitor, Sink.print_taking, ih]
    simp [texts, ByteArray.append_assoc]

theorem printAll_taking (s : Settings) (src : ByteSource) (written : ByteArray) :
    printAll s src (.taking written) =
      let all := Grammar.parseAll s.maxDepth (src.decode.tokens s)
      ⟨finalArena all.failure .empty all.exprs, .taking (written ++ (texts (deliveries .empty all.exprs)).toUTF8),
        finalEnding all.failure all.exprs.length⟩ := by
  have hgood (sink : Sink) (a : Arena) (h : Handle) (hs : ∃ w, sink = .taking w) :
      (visitor sink a h).2 = none ∧ ∃ w, (visitor sink a h).1 = .taking w := by
    obtain ⟨w, rfl⟩ := hs
    exact ⟨rfl, _, rfl⟩
  rw [printAll, each, visiting, onward_eq_replay, replay_eq hgood _ _ ⟨written, rfl⟩, foldl_visitor, Nat.zero_add]

theorem printAll_of_parseAll {s : Settings} {src : ByteSource} {es : List Expr} {failure : Option Grammar.Failure}
    (h : Grammar.parseAll s.maxDepth (src.decode.tokens s) = ⟨es, failure⟩) (written : ByteArray) :
    printAll s src (.taking written) =
      ⟨finalArena failure .empty es, .taking (written ++ (texts (deliveries .empty es)).toUTF8),
        finalEnding failure es.length⟩ := by
  rw [printAll_taking, h]

/-- **Printing as one reads is printing all in the end.** A sink that takes everything is given, for every source, the
listings of the expressions that a reading visits up to its end or its first error, in their order and with a newline
behind each; the listing of an expression is the same when it is visited and in the arena that is left in the end, also
with the frames of an expression that failed. Printing ends as the reading does. -/
theorem printAll_eq_listings (s : Settings) (src : ByteSource) (written : ByteArray) :
    let r : Reading (List (Arena × Handle)) WriteError := Reading.each s.maxDepth note [] .empty (src.decode.tokens s)
    let p := printAll s src (.taking written)
    p.ending = r.ending ∧ (∀ stop, p.ending ≠ .stopped stop) ∧ p.arena = r.arena ∧
    ∃ dumps : List String,
      List.Forall₂ (fun v text => v.1.listing v.2 = .ok text ∧ r.arena.listing v.2 = .ok text) r.state dumps ∧
      p.state = .taking (written ++ (String.join (dumps.map (· ++ "\n"))).toUTF8) := by
  intro r p
  obtain ⟨es, failure, hall⟩ : ∃ es failure, Grammar.parseAll s.maxDepth (src.decode.tokens s) = ⟨es, failure⟩ :=
    ⟨_, _, rfl⟩
  have hr : r = ⟨finalArena failure .empty es, deliveries .empty es, finalEnding failure es.length⟩ := by
    simpa only [hall] using each_note s.maxDepth .empty (src.decode.tokens s)
  have hp : p = ⟨finalArena failure .empty es, .taking (written ++ (texts (deliveries .empty es)).toUTF8),
      finalEnding failure es.length⟩ := by
    simpa only [hall] using printAll_taking s src written
  rw [hr, hp]
  refine ⟨rfl, finalEnding_ne_stopped failure es.length, rfl, (deliveries .empty es).map fun v => text v.1 v.2, ?_, ?_⟩
  · rw [List.forall₂_map_right_iff, List.forall₂_same]
    intro v hv
    exact listing_final Arena.closed_empty failure es hv
  · simp [texts, Function.comp_def]

end Listing

end FrameGraph
