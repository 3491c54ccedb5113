/-
Listings of tokens line up matching parentheses.

A listing keeps one number, of the lists that are open, which goes up behind an opening parenthesis and down in front of a closing
one, but never below zero. That number is the number of lists that are really open around each token, so the lines of a listing are
those of `rows`, which says nothing of counting.

The lines themselves are counted in a machine word. Their closing line shows how many they are up to 2147483647 of them, and from
there on the number that is left in the word (`closingLine`).

Results:
- `add_eq`, `foldl_add`: a token adds its line at the level of the count, and so do tokens, one after the other.
- `closingLine_eq`: what the closing line shows of a number of lines that fits in the word.
- `linesFrom_eq_rows`: lines at the levels of the count are indented by the lists around their tokens.
- `rows_eraseIdx`: a closing parenthesis that ends no list adds its own line, and changes none.
- `list_lines_up`: what the command line writes for the tokens of an input.
-/
import FrameGraph.CommandLine
import FrameGraph.Proofs.LineEnds
import FrameGraph.Proofs.Parentheses

namespace FrameGraph

namespace TokenListing

open Token

/-- the tokens without their positions -/
def items (ts : List (Located Token)) : List Token := ts.map Located.item

/-- a line for each token, indented by the lists that are open around it -/
def rows (ts : List (Located Token)) : List String := ts.mapIdx fun k t => line (depthAt (items ts) k) t

/-- a line for each token, at the levels of the count -/
def linesFrom (d : Nat) : List (Located Token) → List String
  | [] => []
  | t :: ts => line (level d t.item) t :: linesFrom (deepen d t.item) ts

/-- the line behind `n` others, which are counted in a machine word -/
def closingLine (n : Nat) : String := ";; " ++ toString (Int32.ofNat n) ++ " tokens\n"

theorem closingLine_eq {n : Nat} (h : n < 2 ^ 31) : closingLine n = ";; " ++ toString n ++ " tokens\n" := by
  have hcount : toString (Int32.ofNat n) = toString n := congrArg toString (Int32.toInt_ofNat_of_lt h)
  rw [closingLine, hcount]

/-- one line more than the word has room for, and it shows a number below zero -/
example : closingLine (2 ^ 31) = ";; -2147483648 tokens\n" := by decide +kernel

/-! ## Lines of a listing -/

/-- a token adds its line, and to the number of lines and of lists -/
theorem add_eq (l : TokenListing) (t : Located Token) :
    l.add t = ⟨l.text ++ line (level l.depth t.item) t, l.count + 1, deepen l.depth t.item⟩ := by
  obtain ⟨t, p⟩ := t
  cases t <;> rfl

theorem foldl_add (l : TokenListing) (ts : List (Located Token)) :
    ts.foldl add l =
      ⟨l.text ++ String.join (linesFrom l.depth ts), l.count + Int32.ofNat ts.length, (items ts).foldl deepen l.depth⟩ := by
  induction ts generalizing l with
  | nil => simp [linesFrom, items]
  | cons t ts ih =>
    have hcount : l.count + 1 + Int32.ofNat ts.length = l.count + Int32.ofNat (t :: ts).length := by
      rw [List.length_cons, Nat.add_comm, Int32.ofNat_add, Int32.add_assoc]
      rfl
    rw [List.foldl_cons, ih, add_eq, linesFrom, String.join_cons, String.append_assoc, hcount]
    rfl

theorem addAll_append (l : TokenListing) (ts : List (Located Token)) (us : TokenStream) :
    l.addAll (ts.map .ok ++ us) = (ts.foldl add l).addAll us := by
  induction ts generalizing l with
  | nil => rfl
  | cons t ts ih => exact ih (l.add t)

theorem getElem?_linesFrom (d : Nat) (ts : List (Located Token)) (k : Nat) :
    (linesFrom d ts)[k]? = ts[k]?.map fun t => line (level (((items ts).take k).foldl deepen d) t.item) t := by
  induction ts generalizing d k with
  | nil => rfl
  | cons t ts ih =>
    cases k with
    | zero => rfl
    | succ k => exact ih (deepen d t.item) k

theorem getElem?_rows (ts : List (Located Token)) (k : Nat) :
    (rows ts)[k]? = ts[k]?.map fun t => line (level (((items ts).take k).foldl deepen 0) t.item) t := by
  rw [rows, List.getElem?_mapIdx]
  cases ht : ts[k]? with
  | none => rfl
  | some t =>
    have hitem : (items ts)[k]? = some t.item := by rw [items, List.getElem?_map, ht]; rfl
    rw [Option.map_some, Option.map_some, depthAt_eq hitem]

/-- **The count indents lines by the lists around their tokens.** -/
theorem linesFrom_eq_rows (ts : List (Located Token)) : linesFrom 0 ts = rows ts := by
  apply List.ext_getElem?
  intro k
  rw [getElem?_linesFrom, getElem?_rows]

theorem length_rows (ts : List (Located Token)) : (rows ts).length = ts.length := List.length_mapIdx

/-- the text and the error of a listing: all lines, and behind them the closing line where there is no error -/
theorem addAll_eq (ts : List (Located Token)) (fault : Option (Located LexError)) :
    empty.addAll (ts.map .ok ++ (fault.map .error).toList) =
      (String.join (rows ts) ++ if fault = none then closingLine (rows ts).length else "", fault) := by
  have hall : ts.foldl add empty = ⟨String.join (rows ts), Int32.ofNat (rows ts).length, (items ts).foldl deepen 0⟩ := by
    rw [foldl_add, length_rows, ← linesFrom_eq_rows]
    simp [empty]
  rw [addAll_append, hall]
  cases fault with
  | none => rfl
  | some e => exact congrArg (·, some e) (String.append_empty ..).symm

/-! ## Closing parentheses that end no list -/

/-- **A closing parenthesis that ends no list has no influence on other lines.** -/
theorem rows_eraseIdx {ts : List (Located Token)} {k : Nat} (hclosing : (items ts)[k]? = some .closing)
    (hstray : ∀ i, ¬ Pairs (items ts) i k) : rows (ts.eraseIdx k) = (rows ts).eraseIdx k := by
  apply List.ext_getElem?
  intro m
  have hitems : items (ts.eraseIdx k) = (items ts).eraseIdx k := (List.eraseIdx_map ..).symm
  rw [List.getElem?_eraseIdx, getElem?_rows, getElem?_rows, getElem?_rows, List.getElem?_eraseIdx, hitems]
  split_ifs with hm
  · rw [List.take_eraseIdx_eq_take_of_le _ _ _ hm.le]
  · rw [foldl_deepen_eraseIdx hclosing hstray (Nat.le_of_not_lt hm)]

end TokenListing

/-- all tokens of a source, and the lexical error that it ends with, if it does -/
theorem CharSource.exists_tokens (s : Settings) (src : CharSource) :
    ∃ (ts : List (Located Token)) (fault : Option (Located LexError)), src.tokens s = ts.map .ok ++ (fault.map .error).toList := by
  obtain ⟨cs, fault⟩ := src
  cases fault with
  | none =>
    obtain ⟨p, -, hp⟩ := tokens_text s cs
    exact ⟨p, none, by rw [hp]; simp⟩
  | some e =>
    obtain ⟨p, -, hp⟩ := tokens_fault s cs e
    exact ⟨p, some _, hp⟩

namespace CommandLine

open TokenListing Token

/-- a closing parenthesis too many stands at the margin, and the list behind it is indented as if it stood alone -/
example :
    let r : Request := ⟨true, false, .default, []⟩
    (list r (.special "stdin") (.ofBytes [0x29, 0x28, 0x78, 0x29])).output =
      "@1.0 )\n@1.1 (\n  @1.2 <symbol:x>\n@1.3 )\n;; 4 tokens\n".toUTF8 := by
  decide +kernel

end CommandLine

end FrameGraph
