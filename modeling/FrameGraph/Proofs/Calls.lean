/-
Calls of the reader one after the other, on one arena and one stream of tokens.

A `Turn` is a call with the arena and the tokens that it finds; every turn finds what the one before it leaves, also where
that one failed. A call puts frames behind those that are there, whatever becomes of it, and an expression that it reads
reaches no other frames; so nothing that a later turn does, and nothing that an earlier one has left, is seen from it.
Where the frames of a call stand makes no difference but in their handles (`Arena.behind`).

Results:
- `next_appends`: a call puts a frame behind those that are there for every token that it takes and that does not close a
  list, in the order of the tokens, and none for the item that it fails at.
- `calls_eq_turns`: the calls of a reader that stops where it cannot go on are the turns up to there.
- `turns_reach`: an expression reaches only the frames of its own call, also after later turns.
- `next_behind`, `turns_behind`: behind the frames of another arena everything is as it was, with all handles shifted.
- `turns_isolated`: so turns change no frame that is there, and reach none but their own.
-/
import FrameGraph.Proofs.Outline
import FrameGraph.Proofs.Reader

namespace FrameGraph

/-! ## Shifted frames -/

/-- the slots with all handles `n` places further on -/
def Slots.shift (n : Nat) (s : Slots) : Slots :=
  ⟨s.entries.map fun e => (e.1, e.2.shift n), List.pairwise_map.2 s.ascending⟩

/-- the frame with all handles `n` places further on -/
def Frame.shift (n : Nat) (f : Frame) : Frame :=
  ⟨f.label, f.slots.shift n, f.children.map (Handle.shift n), f.identity.shift n⟩

theorem Frame.shift_bare (n : Nat) (l : Label) (children : Array Handle) (identity : Handle) :
    Frame.shift n ⟨l, .empty, children, identity⟩ =
      ⟨l, .empty, children.map (Handle.shift n), identity.shift n⟩ := rfl

namespace Arena

/-- the frames of `b` behind those of `a`, shifted by as many places -/
def behind (a b : Arena) : Arena := a.extend (b.frames.toList.map (Frame.shift a.size))

theorem behind_empty (a : Arena) : a.behind empty = a := a.extend_nil

theorem size_behind (a b : Arena) : (a.behind b).size = a.size + b.size := by
  rw [behind, size_extend, List.length_map]
  rfl

/-- frames behind those of `b` are shifted with them -/
theorem extend_behind (a b : Arena) (fs : List Frame) :
    (a.behind b).extend (fs.map (Frame.shift a.size)) = a.behind (b.extend fs) := by
  rw [behind, extend_extend, behind, ← List.map_append]
  simp [extend]

end Arena

/-- the outcome with its handle, if it has one, `n` places further on -/
def Outcome.shift (n : Nat) : Outcome → Outcome
  | .ended => .ended
  | .expression h => .expression (h.shift n)
  | .failed e => .failed e

/-- the same call behind the frames of `a` -/
def Call.behind (a : Arena) (c : Call) : Call := ⟨a.behind c.arena, c.outcome.shift a.size, c.rest⟩

namespace Expr

theorem handles_shift (m n : Nat) (es : List Expr) : handles (m + n) es = (handles n es).map (Handle.shift m) := by
  induction es generalizing n with
  | nil => rfl
  | cons e es ih => simp [handles, Handle.shift, Nat.add_assoc, ih]

theorem framesAll_shift_of {m : Nat} {es : List Expr}
    (h : ∀ e ∈ es, ∀ n, e.frames (m + n) = (e.frames n).map (Frame.shift m)) (n : Nat) :
    framesAll (m + n) es = (framesAll n es).map (Frame.shift m) := by
  induction es generalizing n with
  | nil => rfl
  | cons e es ih =>
    obtain ⟨hfirst, hrest⟩ := List.forall_mem_cons.1 h
    rw [framesAll, framesAll, List.map_append, hfirst, Nat.add_assoc, ih hrest]

/-- an expression that is laid out further on has the same frames, shifted -/
theorem frames_shift (m n : Nat) (e : Expr) : e.frames (m + n) = (e.frames n).map (Frame.shift m) := by
  induction e generalizing n with
  | leaf l => simp [frames, Frame.ofLabel, Frame.shift_bare, Handle.shift]
  | quote op e ih => simp [frames, Nat.add_assoc, ih, Frame.shift_bare, Handle.shift]
  | list es ih => simp [frames, Nat.add_assoc, framesAll_shift_of ih, handles_shift, Frame.shift_bare, Handle.shift]

theorem framesAll_shift (m n : Nat) (es : List Expr) : framesAll (m + n) es = (framesAll n es).map (Frame.shift m) :=
  framesAll_shift_of (fun e _ n => e.frames_shift m n) n

end Expr

namespace Grammar

open FrameGraph.Expr

theorem openedFrames_shift (m n : Nat) (o : Opened) : openedFrames (m + n) o = (openedFrames n o).map (Frame.shift m) := by
  cases o with
  | list p done => simp [openedFrames, Nat.add_assoc, framesAll_shift, handles_shift, Frame.shift_bare, Handle.shift]
  | quote p op => simp [openedFrames, Frame.ofLabel, Frame.shift_bare, Handle.shift]

theorem stackFrames_shift (m n : Nat) (stack : List Opened) :
    stackFrames (m + n) stack = (stackFrames n stack).map (Frame.shift m) := by
  induction stack with
  | nil => rfl
  | cons o below ih =>
    rw [stackFrames, stackFrames, ih, List.map_append, List.length_map, Nat.add_assoc, openedFrames_shift]

/-! ## Labels of frames left open -/

theorem labels_openedFrames (n : Nat) (o : Opened) :
    (openedFrames n o).map Frame.label = match o with
      | .list _ done => Reader.listLabel :: labels (tokensAll done)
      | .quote _ op => [op] := by
  cases o with
  | list p done => simp [openedFrames, labels_framesAll]
  | quote p op => rfl

/-- the frames of open constructs carry the labels of the tokens that lead to them -/
theorem labels_stackFrames {stack : List Opened} {p : List (Located Token)} (h : LeavesOpen stack p) (n : Nat) :
    (stackFrames n stack).map Frame.label = labels (p.map Located.item) := by
  induction h with
  | nil => rfl
  | list hbelow ht hq ih =>
    rw [stackFrames, List.map_append, ih, labels_openedFrames, List.map_append, labels_append, List.map_cons, hq, ht]
    rfl
  | quote hbelow ht ih =>
    rw [stackFrames, List.map_append, ih, labels_openedFrames, List.map_append, labels_append, List.map_singleton, ht]
    rfl

end Grammar

namespace Reader

open Grammar

/-! ## A single call -/

/-- the item that a call with this outcome takes last, to fail at it -/
inductive StopsAt : Outcome → TokenStream → Prop where
  | ended : StopsAt .ended []
  | expression {h : Handle} : StopsAt (.expression h) []
  | stray {t : Located Token} (ht : t.item = .closing) :
    StopsAt (.failed ⟨.structural .unexpectedClose, t.position⟩) [.ok t]
  | deep {t : Located Token} (ht : t.item.Opens) : StopsAt (.failed ⟨.structural .nestingTooDeep, t.position⟩) [.ok t]
  | lexical {e : Located LexError} : StopsAt (.failed ⟨.lexical e.item, e.position⟩) [.error e]
  | cutShort {err : Located ReadError} (h : err.item.isPrematureEnd = true) : StopsAt (.failed err) []

theorem stopsAt_of_halts {d : Nat} {stack : List Opened} {tail rest : TokenStream} {err : Located ReadError}
    (h : Halts d stack tail err rest) : ∃ last, tail = last ++ rest ∧ StopsAt (.failed err) last := by
  cases h with
  | stray ht => exact ⟨_, rfl, .stray ht⟩
  | deep ht => exact ⟨_, rfl, .deep ht⟩
  | lexical => exact ⟨_, rfl, .lexical⟩
  | @ended o below hs =>
    refine ⟨[], rfl, .cutShort ?_⟩
    cases o <;> rfl

/-- the call takes the tokens `p` and then the item that it fails at, if it fails at one, and puts a frame for each of the
tokens `p` that takes one behind the frames of `a`, in their order -/
def Appends (a : Arena) (ts : TokenStream) (c : Call) : Prop :=
  ∃ (p : List (Located Token)) (last : TokenStream) (fs : List Frame), ts = p.map .ok ++ (last ++ c.rest) ∧
    StopsAt c.outcome last ∧ c.arena = a.extend fs ∧ fs.map Frame.label = Expr.labels (p.map Located.item)

theorem next_appends (d : Nat) (a : Arena) (ts : TokenStream) : Appends a ts (next d a ts) := by
  rw [next_eq_parse]
  cases hp : parse d [] ts with
  | ended =>
    obtain rfl := parse_ended_iff.1 hp
    exact ⟨[], [], [], rfl, .ended, a.extend_nil.symm, rfl⟩
  | expression e rest =>
    obtain ⟨p, hts, hpe, -⟩ := parse_expression_iff.1 hp
    exact ⟨p, [], e.frames a.size, hts, .expression, rfl, by rw [hpe, e.labels_frames]⟩
  | failed stack err rest =>
    obtain ⟨p, tail, hts, hopen, -, hhalts⟩ := parse_failed_iff.1 hp
    obtain ⟨last, rfl, hstops⟩ := stopsAt_of_halts hhalts
    exact ⟨p, last, stackFrames a.size stack, hts, hstops, rfl, labels_stackFrames hopen a.size⟩

/-- an expression reaches only frames that its call has put there, in whatever arena that goes on from there -/
theorem next_reaches {d : Nat} {a : Arena} {ts : TokenStream} {h : Handle} (hcall : (next d a ts).outcome = .expression h)
    (fs : List Frame) {k : Handle} (hk : ((next d a ts).arena.extend fs).Reaches h k) :
    a.size ≤ k.index ∧ k.index < (next d a ts).arena.size := by
  obtain ⟨rfl, e, -, harena⟩ := next_expression_iff.1 ⟨hcall, rfl⟩
  rw [harena] at hk ⊢
  have hshows : ((a.plant e).extend fs).Shows a.size (e.frames a.size) := by
    rw [Arena.plant, Arena.extend_extend]
    exact (a.shows_extend _).left
  have hwithin := (Listing.reaches_iff_of_shows hshows k).1 hk
  rwa [Arena.plant, Arena.size_extend, Expr.length_frames]

/-! ## Turns -/

/-- a call, with the arena and the tokens that it finds -/
structure Turn where
  before : Arena
  tokens : TokenStream
  call : Call

/-- calls one after the other, each on the arena and the tokens that the one before it leaves -/
def turns (d : Nat) : Nat → Arena → TokenStream → List Turn
  | 0, _, _ => []
  | n + 1, a, ts =>
    let c := next d a ts
    ⟨a, ts, c⟩ :: turns d n c.arena c.rest

/-- a reader that stops where it cannot go on makes the turns up to there -/
theorem calls_eq_turns {α : Type} (d : Nat) (answer : Arena → Outcome → α) (n : Nat) (a : Arena) (ts : TokenStream) :
    let run := turns d n a ts
    calls d answer n a ts =
      (run.takeWhile (fun t => Outcome.canGoOn t.call.outcome) ++
        (run.find? fun t => !Outcome.canGoOn t.call.outcome).toList).map
        fun t => answer t.call.arena t.call.outcome := by
  induction n generalizing a ts with
  | zero => rfl
  | succ n ih =>
    simp only [calls, turns]
    cases hgo : Outcome.canGoOn (next d a ts).outcome with
    | true => simp [hgo, ih]
    | false => simp [hgo]

/-- a turn is a call on what it finds, and those behind it are the turns on what it leaves -/
theorem turns_split {d n : Nat} {a : Arena} {ts : TokenStream} {earlier later : List Turn} {t : Turn}
    (h : turns d n a ts = earlier ++ t :: later) :
    t.call = next d t.before t.tokens ∧ ∃ m, later = turns d m t.call.arena t.call.rest := by
  induction n generalizing a ts earlier with
  | zero => simp [turns] at h
  | succ n ih =>
    rw [turns] at h
    cases earlier with
    | nil =>
      obtain ⟨rfl, rfl⟩ := List.cons.inj h
      exact ⟨rfl, n, rfl⟩
    | cons u earlier => exact ih (List.cons.inj h).2

/-- what turns find and leave are the frames that they started from, and frames behind them -/
theorem turns_extend {d n : Nat} {a : Arena} {ts : TokenStream} {t : Turn} (ht : t ∈ turns d n a ts) :
    (∃ fs, t.before = a.extend fs) ∧ ∃ fs, t.call.arena = a.extend fs := by
  induction n generalizing a ts with
  | zero => simp [turns] at ht
  | succ n ih =>
    obtain ⟨-, -, fs, -, -, harena, -⟩ := next_appends d a ts
    rw [turns] at ht
    rcases List.mem_cons.1 ht with rfl | ht
    · exact ⟨⟨[], a.extend_nil.symm⟩, fs, harena⟩
    · obtain ⟨⟨gs, hbefore⟩, ks, hafter⟩ := ih ht
      rw [harena, Arena.extend_extend] at hbefore hafter
      exact ⟨⟨_, hbefore⟩, _, hafter⟩

/-- a turn is a call on tokens that the turns before it left -/
theorem turns_suffix {d n : Nat} {a : Arena} {ts : TokenStream} {t : Turn} (ht : t ∈ turns d n a ts) :
    t.call = next d t.before t.tokens ∧ t.tokens <:+ ts := by
  induction n generalizing a ts with
  | zero => simp [turns] at ht
  | succ n ih =>
    rw [turns] at ht
    rcases List.mem_cons.1 ht with rfl | ht
    · exact ⟨rfl, List.suffix_rfl⟩
    · obtain ⟨p, last, -, hts, -⟩ := next_appends d a ts
      obtain ⟨hcall, hsuffix⟩ := ih ht
      refine ⟨hcall, hsuffix.trans ⟨p.map .ok ++ last, ?_⟩⟩
      rw [List.append_assoc]
      exact hts.symm

/-- what an expression reaches was put there by its own call, also after every later turn -/
theorem turns_reach {d n : Nat} {a : Arena} {ts : TokenStream} {earlier later : List Turn} {t u : Turn} {h k : Handle}
    (hrun : turns d n a ts = earlier ++ t :: later) (hexpr : t.call.outcome = .expression h) (hu : u ∈ t :: later)
    (hk : u.call.arena.Reaches h k) : t.before.size ≤ k.index ∧ k.index < t.call.arena.size := by
  obtain ⟨hcall, m, hlater⟩ := turns_split hrun
  obtain ⟨fs, hfs⟩ : ∃ fs, u.call.arena = t.call.arena.extend fs := by
    rcases List.mem_cons.1 hu with rfl | hu
    · exact ⟨[], (Arena.extend_nil _).symm⟩
    · exact (turns_extend (hlater ▸ hu)).2
  rw [hfs, hcall] at hk
  rw [hcall] at hexpr ⊢
  exact next_reaches hexpr fs hk

/-! ## Calls behind another arena -/

/-- the same turn behind the frames of `a` -/
def Turn.behind (a : Arena) (t : Turn) : Turn := ⟨a.behind t.before, t.tokens, t.call.behind a⟩

theorem next_behind (d : Nat) (a b : Arena) (ts : TokenStream) :
    next d (a.behind b) ts = (next d b ts).behind a := by
  rw [next_eq_parse, next_eq_parse]
  cases parse d [] ts with
  | ended => rfl
  | expression e rest =>
    have hplant : (a.behind b).plant e = a.behind (b.plant e) := by
      rw [Arena.plant, Arena.size_behind, Expr.frames_shift, Arena.extend_behind]
      rfl
    have hnext : (a.behind b).next = b.next.shift a.size := by
      rw [Arena.next_eq, Arena.size_behind]
      rfl
    rw [Parsed.call, hplant, hnext]
    rfl
  | failed stack err rest =>
    have hopened : opened (a.behind b) stack = a.behind (opened b stack) := by
      rw [opened, Arena.size_behind, stackFrames_shift, Arena.extend_behind]
      rfl
    rw [Parsed.call, hopened]
    rfl

theorem turns_behind (d n : Nat) (a b : Arena) (ts : TokenStream) :
    turns d n (a.behind b) ts = (turns d n b ts).map (Turn.behind a) := by
  induction n generalizing b ts with
  | zero => rfl
  | succ n ih =>
    have hcall := next_behind d a b ts
    have hon := ih (next d b ts).arena (next d b ts).rest
    simp only [turns, List.map_cons, hcall]
    exact congrArg _ hon

/-- **Calls of the reader are isolated and can be relocated.** Of any number of calls one after the other, on any arena and
any tokens, each puts a frame for every token that it takes and that takes one behind the frames that it finds, in the
order of the tokens, and changes nothing else, whatever it comes to. An expression reaches only frames that its own call
put there, then and after every later call, and so none that a failed call left behind. All calls are those on the empty
arena, with the frames of the arena before theirs and every handle shifted by their number. -/
theorem turns_isolated (d n : Nat) (a : Arena) (ts : TokenStream) :
    let run := turns d n a ts
    (∀ t ∈ run, Appends t.before t.tokens t.call) ∧
    (∀ (earlier later : List Turn) (t : Turn) (h : Handle), run = earlier ++ t :: later →
      t.call.outcome = .expression h → ∀ u ∈ t :: later, ∀ k, u.call.arena.Reaches h k →
      t.before.size ≤ k.index ∧ k.index < t.call.arena.size) ∧
    (∀ (earlier between later : List Turn) (t u : Turn) (err : Located ReadError) (h k : Handle),
      run = earlier ++ t :: (between ++ u :: later) → t.call.outcome = .failed err →
      t.before.size ≤ k.index → k.index < t.call.arena.size →
      u.call.outcome = .expression h → ¬ u.call.arena.Reaches h k) ∧
    run = (turns d n .empty ts).map (Turn.behind a) := by
  intro run
  refine ⟨?_, fun _ _ _ _ hrun hexpr _ hu _ hk => turns_reach hrun hexpr hu hk, ?_, ?_⟩
  · intro t ht
    obtain ⟨earlier, later, hrun⟩ := List.append_of_mem ht
    rw [(turns_split hrun).1]
    exact next_appends d t.before t.tokens
  · intro earlier between later t u err h k hrun _ _ hbelow hexpr hreaches
    -- what `u` reaches stands behind all that `u` finds, the frames that `t` left among it
    have hrun' : run = (earlier ++ t :: between) ++ u :: later := by simpa using hrun
    have habove := (turns_reach hrun' hexpr List.mem_cons_self hreaches).1
    obtain ⟨-, m, hlater⟩ := turns_split hrun
    have hu : u ∈ turns d m t.call.arena t.call.rest := hlater ▸ List.mem_append_right _ List.mem_cons_self
    obtain ⟨fs, hfs⟩ := (turns_extend hu).1
    rw [hfs, Arena.size_extend] at habove
    omega
  · have hrun := turns_behind d n a .empty ts
    rwa [a.behind_empty] at hrun

end Reader

end FrameGraph
