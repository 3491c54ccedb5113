/-
Readings of texts that are cut at the end of a line.

An expression is read without a look at what stands behind it, and what is read depends on no position. So tokens that
are read to their end can be followed by any others: the reading goes on with them from the arena and the state that it
has (`onward_append`), and positions that are moved are moved in its error and nowhere else (`onward_behind`). With the
tokens of texts that are cut at a newline (`tokens_lines`, `tokens_ahead`) this is what becomes of two texts that are read
as one, and of a text that is followed by anything at all.

Results:
- `Grammar.parse_ahead`, `Grammar.parse_relocate`: the same of one expression, with no arena in sight.
- `onward_append`, `onward_behind`: readings one after the other, and readings further down.
- `all_lines`: two texts, one behind a newline, are read as if they were read one after the other.
- `delivered_final`: what is delivered of a text, and printed of it, stays whatever stands behind its last line.
-/
import FrameGraph.Proofs.Deliveries
import FrameGraph.Proofs.LineEnds
import FrameGraph.Proofs.Lines

namespace FrameGraph

/-! ## Expressions -/

def Opened.relocate (f : Position → Position) : Opened → Opened
  | .list p done => .list (f p) done
  | .quote p op => .quote (f p) op

namespace Grammar

/-- an expression is read without a look at what stands behind it -/
theorem parse_ahead {d : Nat} {ts rest : TokenStream} {e : Expr} (h : parse d [] ts = .expression e rest)
    (us : TokenStream) : parse d [] (ts ++ us) = .expression e (rest ++ us) := by
  obtain ⟨p, rfl, hp, hd⟩ := parse_expression_iff.1 h
  exact parse_expression_iff.2 ⟨p, List.append_assoc .., hp, hd⟩

/-! ### Positions do not matter -/

variable (f : Position → Position)

def Stage.relocate : Stage → Stage
  | .inside stack => .inside (stack.map (Opened.relocate f))
  | .complete e => .complete e

def Parsed.relocate : Parsed → Parsed
  | .ended => .ended
  | .expression e rest => .expression e (TokenStream.relocate f rest)
  | .failed stack err rest => .failed (stack.map (Opened.relocate f)) (err.relocate f) (TokenStream.relocate f rest)

theorem give_relocate (e : Expr) (stack : List Opened) :
    give e (stack.map (Opened.relocate f)) = (give e stack).relocate f := by
  induction stack generalizing e with
  | nil => rfl
  | cons o below ih =>
    cases o with
    | list p done => rfl
    | quote p op => exact ih _

theorem deepen_relocate (d : Nat) (stack : List Opened) (o : Opened) (p : Position) :
    deepen d (stack.map (Opened.relocate f)) (o.relocate f) (f p) =
      ((deepen d stack o p).map (Stage.relocate f)).mapError (Located.relocate f) := by
  unfold deepen
  rw [List.length_map]
  split_ifs <;> rfl

theorem feed_relocate (d : Nat) (stack : List Opened) (t : Located Token) :
    feed d (stack.map (Opened.relocate f)) (t.relocate f) =
      ((feed d stack t).map (Stage.relocate f)).mapError (Located.relocate f) := by
  obtain ⟨item, p⟩ := t
  cases item with
  | leaf l =>
    simp only [feed, Located.relocate, give_relocate]
    rfl
  | closing =>
    rcases stack with _ | ⟨⟨p, done⟩ | ⟨p, op⟩, below⟩
    · rfl
    · simp only [feed, Located.relocate, List.map_cons, Opened.relocate, give_relocate]
      rfl
    · rfl
  | quote op => exact deepen_relocate f d stack (.quote p op) p
  | opening => exact deepen_relocate f d stack (.list p []) p

/-- **What is read does not depend on positions**, and where a reading fails the positions are those of the tokens. -/
theorem parse_relocate (d : Nat) (stack : List Opened) (ts : TokenStream) :
    parse d (stack.map (Opened.relocate f)) (TokenStream.relocate f ts) = (parse d stack ts).relocate f := by
  induction ts generalizing stack with
  | nil =>
    cases stack with
    | nil => rfl
    | cons o below => cases o <;> rfl
  | cons t ts ih =>
    cases t with
    | error e => rfl
    | ok t =>
      have hcons : TokenStream.relocate f (.ok t :: ts) = .ok (t.relocate f) :: TokenStream.relocate f ts := rfl
      rw [hcons, parse, parse, feed_relocate]
      rcases feed d stack t with err | ⟨stack⟩ | ⟨e⟩
      · rfl
      · exact ih stack
      · rfl

theorem opened_relocate (a : Arena) (stack : List Opened) :
    opened a (stack.map (Opened.relocate f)) = opened a stack := by
  have hframes (n : Nat) : stackFrames n (stack.map (Opened.relocate f)) = stackFrames n stack := by
    induction stack with
    | nil => rfl
    | cons o below ih =>
      rw [List.map_cons, stackFrames, stackFrames, ih]
      cases o <;> rfl
  rw [opened, opened, hframes]

end Grammar

/-! ## Readings -/

/-- the end of a reading that begins behind `n` expressions, with its error at another position -/
def Ending.behind {ε : Type} (n : Nat) (f : Position → Position) : Ending ε → Ending ε
  | .all m => .all (n + m)
  | .unreadable e => .unreadable (e.relocate f)
  | .stopped e => .stopped e

namespace Reading

open Grammar

variable {σ ε : Type} {d : Nat} {visit : Visit σ ε}

/-- go on where a reading came to its end -/
def andThen (r : Reading σ ε) (next : Nat → σ → Arena → Reading σ ε) : Reading σ ε :=
  match r.ending with
  | .all n => next n r.state r.arena
  | _ => r

/-- a reading visits the expression that its tokens begin with, and goes on unless the visit stops it -/
theorem onward_of_parse (d : Nat) (visit : Visit σ ε) {ts rest : TokenStream} {e : Expr}
    (hparse : parse d [] ts = .expression e rest) (n : Nat) (st : σ) (a : Arena) :
    onward d visit n st a ts =
      let left := visit st (a.plant e) a.next
      match left.2.2 with
      | none => onward d visit (n + 1) left.1 left.2.1 rest
      | some stop => ⟨left.2.1, left.1, .stopped stop⟩ := by
  have hcall : Reader.next d a ts = ⟨a.plant e, .expression a.next, rest⟩ := next_of_parse hparse a
  cases hv : (visit st (a.plant e) a.next).2.2 with
  | none => simp only [onward_expression hcall hv, hv]
  | some stop => simp only [onward_stopped hcall hv, hv]

/-- **Readings one after the other.** -/
theorem onward_append {ts : TokenStream} (h : (parseAll d ts).failure = none) (visit : Visit σ ε) (n : Nat) (st : σ)
    (a : Arena) (us : TokenStream) :
    onward d visit n st a (ts ++ us) =
      (onward d visit n st a ts).andThen fun n st a => onward d visit n st a us := by
  induction ts using parseAll.induct d generalizing n st a with
  | case1 ts hparse =>
    obtain rfl := parse_ended_iff.1 hparse
    rw [onward_ended (next_of_parse hparse a)]
    rfl
  | case2 ts e rest hparse ih =>
    rw [parseAll_expression hparse] at h
    rw [onward_of_parse d visit (parse_ahead hparse us), onward_of_parse d visit hparse]
    simp only
    split
    · exact ih h ..
    · rfl
  | case3 ts stack err rest hparse =>
    rw [parseAll_failed hparse] at h
    cases h

/-- **Readings further down**, and behind others. -/
theorem onward_behind (f : Position → Position) (visit : Visit σ ε) (m n : Nat) (st : σ) (a : Arena)
    (ts : TokenStream) :
    onward d visit (m + n) st a (TokenStream.relocate f ts) =
      { onward d visit n st a ts with ending := (onward d visit n st a ts).ending.behind m f } := by
  have hparse (ts : TokenStream) : parse d [] (TokenStream.relocate f ts) = (parse d [] ts).relocate f :=
    parse_relocate f d [] ts
  induction ts using parseAll.induct d generalizing n st a with
  | case1 ts h =>
    have h' := hparse ts
    rw [h] at h'
    rw [onward_ended (next_of_parse h a), onward_ended (next_of_parse h' a)]
    rfl
  | case2 ts e rest h ih =>
    have h' := hparse ts
    rw [h] at h'
    rw [onward_of_parse d visit h, onward_of_parse d visit h']
    simp only
    split
    · exact ih (n + 1) ..
    · rfl
  | case3 ts stack err rest h =>
    have h' := hparse ts
    rw [h] at h'
    rw [onward_failed (next_of_parse h a), onward_failed (next_of_parse h' a), opened_relocate]
    rfl

/-- a reading that comes to the end has met no error -/
theorem failure_of_all {n k : Nat} {st : σ} {a : Arena} {ts : TokenStream}
    (h : (onward d visit n st a ts).ending = .all k) : (parseAll d ts).failure = none := by
  induction ts using parseAll.induct d generalizing n st a with
  | case1 ts hparse => rw [parseAll_ended hparse]
  | case2 ts e rest hparse ih =>
    rw [parseAll_expression hparse]
    rw [onward_of_parse d visit hparse] at h
    simp only at h
    split at h
    · exact ih h
    · cases h
  | case3 ts stack err rest hparse =>
    rw [onward_failed (next_of_parse hparse a)] at h
    cases h

/-! ### Two texts -/

/-- handles that are there do not matter for what is read, and stay -/
theorem onward_collect (d n : Nat) (hs : Array Handle) (a : Arena) (ts : TokenStream) :
    onward d collect.visit n hs a ts =
      { onward d collect.visit n #[] a ts with state := hs ++ (onward d collect.visit n #[] a ts).state } := by
  induction ts using parseAll.induct d generalizing n hs a with
  | case1 ts hparse =>
    simp only [onward_ended (next_of_parse hparse a), Array.append_empty]
  | case2 ts e rest hparse ih =>
    simp only [onward_of_parse d collect.visit hparse, Visitor.visit, collect]
    rw [ih (n + 1) (hs.push a.next), ih (n + 1) (#[].push a.next)]
    simp
  | case3 ts stack err rest hparse =>
    simp only [onward_failed (next_of_parse hparse a), Array.append_empty]

/-- **Reading composes at line ends.** If a text is read to its end into an arena, then this text, a newline and a
second one are read as the first and then the second into the arena that the first has left: the arena is the same, the
handles are those of both, and an error is the one of the second text, in the same column and as many lines further down
as there are newlines before it. -/
theorem all_lines (a : Arena) (text text' : String) {n : Nat} (h : (all a (.ofString text)).ending = .all n) :
    let first := all a (.ofString text)
    let second := all first.arena (.ofString text')
    let joint := all a (.ofString (text ++ "\n" ++ text'))
    joint.arena = second.arena ∧ joint.state = first.state ++ second.state ∧
    (∀ m, second.ending = .all m → joint.ending = .all (n + m)) ∧
    (∀ e, second.ending = .unreadable e → joint.ending = .unreadable
      ⟨e.item, ⟨e.position.line + UInt32.ofNat (1 + text.toList.count '\n'), e.position.column⟩⟩) := by
  intro first second joint
  have hq : Settings.default.quote ≠ '\n' := by decide
  have htokens : (CharSource.ofString (text ++ "\n" ++ text')).tokens .default =
      (CharSource.ofString text).tokens .default ++
        TokenStream.relocate (.down (text.toList.count '\n' + 1)) ((CharSource.ofString text').tokens .default) := by
    have hlines := tokens_lines hq text.toList text'.toList
    simpa [CharSource.ofString] using hlines
  have hjoint : joint = { second with
      state := first.state ++ second.state
      ending := second.ending.behind n (.down (text.toList.count '\n' + 1)) } := by
    show onward _ collect.visit 0 #[] a _ = _
    rw [htokens, onward_append (failure_of_all h)]
    show andThen first _ = _
    have hsecond := onward_collect Settings.default.maxDepth 0 first.state first.arena
      ((CharSource.ofString text').tokens .default)
    have hbehind := onward_behind (d := Settings.default.maxDepth) (.down (text.toList.count '\n' + 1)) collect.visit n 0
      first.state first.arena ((CharSource.ofString text').tokens .default)
    rw [hsecond] at hbehind
    rw [andThen, show first.ending = .all n from h]
    exact hbehind
  rw [hjoint]
  refine ⟨rfl, rfl, fun m hm => by rw [hm]; rfl, fun e he => ?_⟩
  rw [he, Nat.add_comm 1]
  rfl

/-- a text that ends in a comment, and one with a list that is left open -/
theorem all_lines_openList :
    let text := " (a ;x\n\x60b)12 ; end"
    let first := all .empty (.ofString text)
    first.ending = .all 2 ∧
    (all first.arena (.ofString "x\n (y")).ending = .unreadable ⟨.structural .openList, ⟨1, 1⟩⟩ ∧
    (all .empty (.ofString (text ++ "\n" ++ "x\n (y"))).ending = .unreadable ⟨.structural .openList, ⟨3, 1⟩⟩ := by
  intro text first
  have hfirst : first.ending = .all 2 := by
    obtain ⟨p, hp, htokens⟩ := tokens_of_writes (by decide) writes_nestedPair
    have hnesting : ∀ e ∈ Expr.nestedPair, e.nesting ≤ Settings.default.maxDepth := by decide
    show (onward _ collect.visit 0 #[] .empty ((CharSource.ofString text).tokens .default)).ending = _
    rw [htokens, onward_tokensAll (fun _ _ _ => rfl) hnesting hp]
    rfl
  have hsecond (a : Arena) : (all a (.ofString "x\n (y")).ending = .unreadable ⟨.structural .openList, ⟨1, 1⟩⟩ := by
    have htokens : (CharSource.ofString "x\n (y").tokens .default = [.ok ⟨.leaf ⟨.symbol, .text "x"⟩, ⟨0, 0⟩⟩,
      .ok ⟨.opening, ⟨1, 1⟩⟩, .ok ⟨.leaf ⟨.symbol, .text "y"⟩, ⟨1, 2⟩⟩] := by decide
    show (onward _ collect.visit 0 #[] a _).ending = _
    rw [htokens, onward_of_parse _ _ rfl]
    show (onward _ collect.visit 1 _ _ _).ending = _
    rw [onward_failed (next_of_parse rfl _)]
    rfl
  obtain ⟨-, -, -, hjoint⟩ := all_lines .empty text "x\n (y" hfirst
  have hcount : text.toList.count '\n' = 1 := by decide
  rw [hcount] at hjoint
  exact ⟨hfirst, hsecond _, hjoint _ (hsecond _)⟩

end Reading

/-! ### A text with anything behind it -/

/-- a visit that also notes the expression, with the arena that it is found in -/
def Visit.noted {σ ε : Type} (visit : Visit σ ε) : Visit (σ × List (Arena × Handle)) ε := fun st a h =>
  (((visit st.1 a h).1, st.2 ++ [(a, h)]), (visit st.1 a h).2)

namespace Reading

open Grammar

variable {σ ε : Type} {d : Nat} {visit : Visit σ ε}

/-- to note the expressions changes nothing in a reading -/
theorem onward_noted (d : Nat) (visit : Visit σ ε) (n : Nat) (st : σ) (vs : List (Arena × Handle)) (a : Arena)
    (ts : TokenStream) :
    let noted := onward d visit.noted n (st, vs) a ts
    onward d visit n st a ts = ⟨noted.arena, noted.state.1, noted.ending⟩ := by
  induction ts using parseAll.induct d generalizing n st vs a with
  | case1 ts hparse => simp only [onward_ended (next_of_parse hparse a)]
  | case2 ts e rest hparse ih =>
    rw [onward_of_parse d visit hparse, onward_of_parse d visit.noted hparse]
    simp only [Visit.noted]
    split
    · exact ih ..
    · rfl
  | case3 ts stack err rest hparse => simp only [onward_failed (next_of_parse hparse a)]

/-- what every visit keeps, and every failed expression, a reading keeps -/
theorem onward_keeps (d : Nat) (visit : Visit σ ε) {P : Nat → σ → Arena → Prop}
    (hopened : ∀ n st a stack, P n st a → P n st (opened a stack))
    (hvisit : ∀ n st a e, P n st a → P (n + 1) (visit st (a.plant e) a.next).1 (visit st (a.plant e) a.next).2.1)
    (n : Nat) (st : σ) (a : Arena) (h : P n st a) (ts : TokenStream) :
    let r := onward d visit n st a ts
    ∃ m, P m r.state r.arena ∧ ∀ k, r.ending = .all k → k = m := by
  induction ts using parseAll.induct d generalizing n st a with
  | case1 ts hparse =>
    rw [onward_ended (next_of_parse hparse a)]
    exact ⟨n, h, fun k hk => (Ending.all.inj hk).symm⟩
  | case2 ts e rest hparse ih =>
    rw [onward_of_parse d visit hparse]
    have hleft := hvisit n st a e h
    simp only
    split
    · exact ih _ _ _ hleft
    · exact ⟨n + 1, hleft, fun k hk => by cases hk⟩
  | case3 ts stack err rest hparse =>
    rw [onward_failed (next_of_parse hparse a)]
    exact ⟨n, hopened n st a stack h, fun k hk => by cases hk⟩

/-- what was noted stays, and there are as many notes as the reading counts -/
theorem noted_count (d : Nat) (visit : Visit σ ε) {n : Nat} (st : σ) {vs : List (Arena × Handle)} (hvs : vs.length = n)
    (a : Arena) (ts : TokenStream) :
    let r := onward d visit.noted n (st, vs) a ts
    vs <+: r.state.2 ∧ ∀ k, r.ending = .all k → r.state.2.length = k := by
  intro r
  obtain ⟨m, ⟨hfront, hlength⟩, hall⟩ := onward_keeps d visit.noted
    (P := fun n st _ => vs <+: st.2 ∧ st.2.length = n) (fun _ _ _ _ h => h)
    (fun n st a e h => ⟨h.1.trans (List.prefix_append _ _), by simp [Visit.noted, h.2]⟩)
    n (st, vs) a ⟨List.prefix_rfl, hvs⟩ ts
  exact ⟨hfront, fun k hk => by rw [hlength, hall k hk]⟩

/-- the listing of an expression is the same wherever its frames are at the front -/
theorem listing_plant (b : Arena) (e : Expr) (fs : List Frame) :
    ((b.plant e).extend fs).listing b.next = (b.plant e).listing b.next ∧
      ∃ dump, (b.plant e).listing b.next = .ok dump := by
  have hshows (fs : List Frame) : ((b.plant e).extend fs).Shows b.size (e.frames b.size) := by
    rw [Arena.plant, Arena.extend_extend]
    exact (Arena.shows_extend b (e.frames b.size ++ fs)).left
  have hlisting := Listing.listing_of_shows (hshows [])
  rw [Arena.extend_nil] at hlisting
  exact ⟨(Listing.listing_of_shows (hshows fs)).trans hlisting.symm, _, hlisting⟩

/-- a note is of an expression right behind an arena, and where visits leave the arena as it is, it stays so -/
theorem noted_planted (visit : Visit σ ε) (n : Nat) (st : σ) (a : Arena) (ts : TokenStream) :
    let r := onward d visit.noted n (st, []) a ts
    ∀ v ∈ r.state.2, ∃ (b : Arena) (e : Expr), v = (b.plant e, b.next) ∧
      ((∀ st a h, (visit st a h).2.1 = a) → ∃ fs, r.arena = (b.plant e).extend fs) := by
  intro r
  have hextend {b a : Arena} (gs : List Frame) : (∃ fs, a = b.extend fs) → ∃ fs, a.extend gs = b.extend fs := by
    rintro ⟨fs, rfl⟩
    exact ⟨fs ++ gs, Arena.extend_extend ..⟩
  obtain ⟨-, hplanted, -⟩ := onward_keeps d visit.noted
    (P := fun _ st a => ∀ v ∈ st.2, ∃ (b : Arena) (e : Expr), v = (b.plant e, b.next) ∧
      ((∀ st a h, (visit st a h).2.1 = a) → ∃ fs, a = (b.plant e).extend fs))
    (fun n st a stack h v hv => by
      obtain ⟨b, e, hbe, hb⟩ := h v hv
      exact ⟨b, e, hbe, fun hlook => hextend _ (hb hlook)⟩)
    (fun n st a e h v hv => by
      rcases List.mem_append.1 hv with hv | hv
      · obtain ⟨b, e', hbe, hb⟩ := h v hv
        exact ⟨b, e', hbe, fun hlook => by rw [Visit.noted, hlook]; exact hextend _ (hb hlook)⟩
      · exact ⟨a, e, List.mem_singleton.1 hv, fun hlook => ⟨[], by rw [Visit.noted, hlook, Arena.extend_nil]⟩⟩)
    n (st, []) a (by simp) ts
  exact hplanted

/-- an expression can be listed when it is visited, and where visits leave the arena as it is, its listing stays -/
theorem noted_listing (visit : Visit σ ε) (n : Nat) (st : σ) (a : Arena) (ts : TokenStream) :
    let r := onward d visit.noted n (st, []) a ts
    ∀ v ∈ r.state.2, (∃ dump, v.1.listing v.2 = .ok dump) ∧
      ((∀ st a h, (visit st a h).2.1 = a) → r.arena.listing v.2 = v.1.listing v.2) := by
  intro r v hv
  obtain ⟨b, e, rfl, hb⟩ := noted_planted visit n st a ts v hv
  refine ⟨(listing_plant b e []).2, fun hlook => ?_⟩
  obtain ⟨fs, hfs⟩ := hb hlook
  rw [show r.arena = _ from hfs, (listing_plant b e fs).1]

end Reading

namespace Sink

/-- what a sink has taken stays -/
theorem written_print (sink : Sink) (text : String) :
    sink.written.data.toList <+: (sink.print text).1.written.data.toList := by
  obtain ⟨bytes, hbytes⟩ : ∃ bytes, (sink.write text.toUTF8).1.written = sink.written ++ bytes := by
    unfold write
    split
    · exact ⟨_, rfl⟩
    · split_ifs <;> exact ⟨_, rfl⟩
  have hprint : (sink.print text).1 = (sink.write text.toUTF8).1 := by
    unfold print
    split <;> simp_all
  rw [hprint, hbytes, ByteArray.data_append, Array.toList_append]
  exact List.prefix_append _ _

end Sink

namespace Listing

open Reading

/-- what is printed of tokens that are read to their end stays, whatever stands behind them -/
theorem printAll_ahead {s : Settings} {src src' : ByteSource} {us : TokenStream}
    (htokens : src'.decode.tokens s = src.decode.tokens s ++ us)
    (h : (Grammar.parseAll s.maxDepth (src.decode.tokens s)).failure = none) (sink : Sink) :
    (printAll s src sink).state.written.data.toList <+: (printAll s src' sink).state.written.data.toList := by
  have hjoint : printAll s src' sink = (printAll s src sink).andThen fun n sink a =>
      onward s.maxDepth visitor.visit n sink a us := by
    show onward _ _ _ _ _ (src'.decode.tokens s) = _
    rw [htokens, onward_append h]
    rfl
  rw [hjoint, andThen]
  split
  next n _ =>
    obtain ⟨-, hwritten, -⟩ := onward_keeps s.maxDepth visitor.visit
      (P := fun _ (out : Sink) _ => (printAll s src sink).state.written.data.toList <+: out.written.data.toList)
      (fun _ _ _ _ h => h) (fun _ out a e h => h.trans (out.written_print _))
      n (printAll s src sink).state (printAll s src sink).arena List.prefix_rfl us
    exact hwritten
  · exact List.prefix_rfl

end Listing

open Reading Listing

/-- **What was delivered stays.** Let a text be read without an error, into any arena and with any visits, and let any
bytes stand behind it and a newline: unbalanced, too deep, no UTF-8, or cut short by a failure of the source. Then the
first visits are those to the text's own expressions, with the same handles in the same arenas and so with the same
listings, which are complete and, where the visits leave the arena as it is, the same in the end. What is printed of all
begins with what is printed of the text alone, whatever the sink takes. -/
theorem delivered_final {s : Settings} (hs : s.quote ≠ '\n') {σ ε : Type} (visit : Visit σ ε) (st : σ) (a : Arena)
    (text : String) {k : Nat}
    (h : (visiting s.maxDepth visit st a ((ByteSource.ofBytes text.toUTF8.data.toList).decode.tokens s)).ending = .all k)
    (r : List UInt8) (failure : Option String) (sink : Sink) :
    let alone : ByteSource := .ofBytes text.toUTF8.data.toList
    let joint : ByteSource := ⟨text.toUTF8.data.toList ++ 10 :: r, failure⟩
    let first := visiting s.maxDepth visit.noted (st, []) a (alone.decode.tokens s)
    let whole := visiting s.maxDepth visit.noted (st, []) a (joint.decode.tokens s)
    first.state.2.length = k ∧ whole.state.2.take k = first.state.2 ∧
    (∀ v ∈ first.state.2, ∃ dump, v.1.listing v.2 = .ok dump ∧
      ((∀ st a h, (visit st a h).2.1 = a) → first.arena.listing v.2 = .ok dump ∧ whole.arena.listing v.2 = .ok dump)) ∧
    (printAll s alone sink).state.written.data.toList <+: (printAll s joint sink).state.written.data.toList := by
  intro alone joint first whole
  obtain ⟨us, hus⟩ := ByteSource.tokens_ahead_of_text hs text r failure
  have hfailure := failure_of_all h
  have hfirst : first.ending = .all k := by
    rw [visiting, onward_noted s.maxDepth visit 0 st []] at h
    exact h
  have hlength : first.state.2.length = k :=
    (noted_count s.maxDepth visit st List.length_nil a (alone.decode.tokens s)).2 k hfirst
  -- where the reading of the text ends, the reading of all goes on, and keeps what was noted
  have hfront : first.state.2 <+: whole.state.2 := by
    have hwhole : whole = first.andThen fun n st a => onward s.maxDepth visit.noted n st a us := by
      show onward _ _ _ _ _ (joint.decode.tokens s) = _
      rw [hus, onward_append hfailure]
      rfl
    rw [hwhole, andThen, hfirst]
    exact (noted_count s.maxDepth visit first.state.1 hlength first.arena us).1
  refine ⟨hlength, ?_, fun v hv => ?_, printAll_ahead hus hfailure sink⟩
  · rw [← hlength]
    exact (List.prefix_iff_eq_take.1 hfront).symm
  · obtain ⟨⟨dump, hdump⟩, hstays⟩ := noted_listing visit 0 st a (alone.decode.tokens s) v hv
    obtain ⟨-, hstays'⟩ := noted_listing visit 0 st a (joint.decode.tokens s) v (hfront.subset hv)
    exact ⟨dump, hdump, fun hlook => ⟨(hstays hlook).trans hdump, (hstays' hlook).trans hdump⟩⟩

/-- a list and a quoted leaf under a limit of one, with a list too deep, a byte of no UTF-8 and a failure behind them -/
theorem delivered_final_cut :
    let s : Settings := ⟨';', 1⟩
    let text := "(a) ;b"
    let alone : ByteSource := .ofBytes text.toUTF8.data.toList
    let joint : ByteSource := ⟨text.toUTF8.data.toList ++ 10 :: [0x28, 0x28, 0xFF], some "gone"⟩
    s.quote ≠ '\n' ∧ (visiting s.maxDepth collect.visit #[] .empty (alone.decode.tokens s)).ending = .all 2 ∧
    let first := visiting s.maxDepth collect.visit.noted (#[], []) .empty (alone.decode.tokens s)
    let whole := visiting s.maxDepth collect.visit.noted (#[], []) .empty (joint.decode.tokens s)
    first.state.2.length = 2 ∧ whole.state.2.take 2 = first.state.2 ∧
    (printAll s alone .unlimited).state.written.data.toList <+: (printAll s joint .unlimited).state.written.data.toList := by
  intro s text alone joint
  have hquote : s.quote ≠ '\n' := by decide
  have hread : (visiting s.maxDepth collect.visit #[] .empty (alone.decode.tokens s)).ending = .all 2 := by
    have htokens : alone.decode.tokens s = [.ok ⟨.opening, ⟨0, 0⟩⟩, .ok ⟨.leaf ⟨.symbol, .text "a"⟩, ⟨0, 1⟩⟩,
        .ok ⟨.closing, ⟨0, 2⟩⟩, .ok ⟨.quote ⟨.op, .text ";"⟩, ⟨0, 4⟩⟩, .ok ⟨.leaf ⟨.symbol, .text "b"⟩, ⟨0, 5⟩⟩] := by
      have hdecode : alone.decode = ⟨text.toList, none⟩ := by
        show (ByteSource.ofBytes text.toUTF8.data.toList).decode = _
        rw [data_toUTF8, ByteSource.decode_encode]
      rw [hdecode]
      decide
    rw [htokens, visiting, onward_of_parse _ _ rfl]
    show (onward _ collect.visit 1 _ _ _).ending = _
    rw [onward_of_parse _ _ rfl]
    show (onward _ collect.visit 2 _ _ _).ending = _
    rw [onward_ended rfl]
  obtain ⟨hlength, hfirst, -, hprinted⟩ := delivered_final hquote collect.visit #[] .empty text hread [0x28, 0x28, 0xFF]
    (some "gone") .unlimited
  exact ⟨hquote, hread, hlength, hfirst, hprinted⟩

end FrameGraph
