/-
Inputs of a run are independent of each other.

Every input is listed in an arena of its own, so what one comes to depends on others only through standard input, of which a path
that stands for it leaves less to the next. If there is at most one such path, every path comes to what it comes to alone, and a
run on some paths and others behind them writes what the two runs write.

Results:
- `report_of_file`: what a file comes to does not depend on standard input, and leaves it alone.
- `reports_eq_map`: with standard input at most once, all paths are reported on as if alone.
- `runOn_eq`: the whole result of a run, from what each path comes to alone.
- `inputs_independent`: so outputs, lines about errors and numbers of errors are joined, and one failed input fails the run.
-/
import FrameGraph.CommandLine
import Mathlib.Tactic

namespace FrameGraph.CommandLine

/-! ## What is written -/

/-- outputs, one behind the other -/
def joined (outputs : List ByteArray) : ByteArray := outputs.foldl (· ++ ·) .empty

/-- messages of errors, a line for each -/
def lines (errors : List InputError) : String := String.join (errors.map fun e => e.message ++ "\n")

/-- the last line of a run in which inputs failed -/
def closing (failed total : Nat) : String :=
  if failed = 0 then "" else s!"Error: {failed} of {total} inputs failed\n"

theorem joined_append (xs ys : List ByteArray) : joined (xs ++ ys) = joined xs ++ joined ys := by
  have : Std.Associative (α := ByteArray) (· ++ ·) := ⟨fun _ _ _ => ByteArray.append_assoc⟩
  calc joined (xs ++ ys) = ys.foldl (· ++ ·) (joined xs) := List.foldl_append
    _ = ys.foldl (· ++ ·) (joined xs ++ .empty) := by rw [ByteArray.append_empty]
    _ = joined xs ++ joined ys := List.foldl_assoc

theorem joined_singleton (x : ByteArray) : joined [x] = x := ByteArray.empty_append

theorem lines_append (xs ys : List InputError) : lines (xs ++ ys) = lines xs ++ lines ys := by
  rw [lines, List.map_append, String.join_append]
  rfl

theorem foldl_message (errors : List InputError) : errors.foldl (fun err e => err ++ e.message ++ "\n") "" = lines errors := by
  simp only [lines, String.join, List.foldl_map, String.append_assoc]

theorem verdict_eq (failed total : Nat) : verdict failed total = (closing failed total, if failed = 0 then 0 else 1) := by
  rw [verdict, closing]
  split_ifs
  · rfl
  · simp [toString, String.append_assoc]

/-! ## Inputs alone -/

section Alone

variable (r : Request) (files : Files) (stdin : ByteSource)

/-- what a path comes to if there is no other -/
def alone (p : Path) : Report := (report r files stdin p).1

/-- the errors of those among the paths that fail alone -/
def failures (ps : List Path) : List InputError := ps.filterMap fun p => (alone r files stdin p).error

/-- the run on these paths, else as asked -/
def runOn (ps : List Path) : Result := run { r with paths := ps } files stdin

variable {r files stdin}

theorem reports_cons (p : Path) (ps : List Path) :
    reports r files stdin (p :: ps) = alone r files stdin p :: reports r files (report r files stdin p).2 ps := rfl

/-- a file neither takes anything from standard input nor depends on it -/
theorem report_of_file (stdin other : ByteSource) {p : Path} (hp : isStdin p = false) :
    report r files other p = (alone r files stdin p, other) := by
  simp only [alone, report, hp]
  cases files p <;> rfl

theorem reports_of_files (stdin other : ByteSource) {ps : List Path} (hps : ∀ p ∈ ps, isStdin p = false) :
    reports r files other ps = ps.map (alone r files stdin) := by
  induction ps with
  | nil => rfl
  | cons p ps ih =>
    obtain ⟨hp, hps⟩ := List.forall_mem_cons.1 hps
    rw [reports_cons, alone, report_of_file stdin other hp, ih hps, List.map_cons]

/-- with standard input at most once, no path finds less of it than if it were alone -/
theorem reports_eq_map {ps : List Path} (h : ps.countP isStdin ≤ 1) :
    reports r files stdin ps = ps.map (alone r files stdin) := by
  induction ps with
  | nil => rfl
  | cons p ps ih =>
    rw [List.countP_cons] at h
    rw [reports_cons, List.map_cons]
    cases hp : isStdin p with
    | false => rw [report_of_file stdin stdin hp, ih (by omega)]
    | true =>
      -- what `p` leaves of standard input is asked for by no path behind it
      have hnone : ps.countP isStdin = 0 := by
        rw [if_pos hp] at h
        omega
      have hfiles : ∀ q ∈ ps, isStdin q = false := fun q hq => Bool.eq_false_iff.2 (List.countP_eq_zero.1 hnone q hq)
      rw [reports_of_files stdin _ hfiles]

/-- the result of a run is made of what the paths come to alone -/
theorem runOn_eq (hdemo : r.demo = false) {ps : List Path} (h : ps.countP isStdin ≤ 1) :
    runOn r files stdin ps =
      ⟨joined (ps.map fun p => (alone r files stdin p).output),
        lines (failures r files stdin ps) ++ closing (failures r files stdin ps).length ps.length,
        if (failures r files stdin ps).length = 0 then 0 else 1⟩ := by
  have hreports : reports { r with paths := ps } files stdin ps = ps.map (alone r files stdin) := reports_eq_map h
  have hfailures : (ps.map (alone r files stdin)).filterMap Report.error = failures r files stdin ps := List.filterMap_map ..
  have houtput : (ps.map (alone r files stdin)).foldl (fun out x => out ++ x.output) .empty =
      joined (ps.map fun p => (alone r files stdin p).output) := by
    simp only [joined, List.foldl_map]
  simp only [runOn, run, hreports, hfailures, verdict_eq, foldl_message]
  rw [hdemo, if_neg Bool.false_ne_true, houtput]

/-- a run on a single path keeps what the path comes to, also if it ends with an error -/
theorem stdout_singleton (hdemo : r.demo = false) (p : Path) :
    (runOn r files stdin [p]).stdout = (alone r files stdin p).output := by
  rw [runOn_eq hdemo List.countP_le_length]
  exact joined_singleton _

/-- and it fails if the path does -/
theorem exitCode_singleton (hdemo : r.demo = false) (p : Path) :
    (runOn r files stdin [p]).exitCode = 1 ↔ (alone r files stdin p).error ≠ none := by
  have hone : [p].countP isStdin ≤ 1 := List.countP_le_length
  rw [runOn_eq hdemo hone]
  cases he : (alone r files stdin p).error <;> simp [failures, he]

theorem exitCode_eq_one_iff (hdemo : r.demo = false) {ps : List Path} (h : ps.countP isStdin ≤ 1) :
    (runOn r files stdin ps).exitCode = 1 ↔ ∃ p ∈ ps, (runOn r files stdin [p]).exitCode = 1 := by
  simp only [exitCode_singleton hdemo, runOn_eq hdemo h]
  simp [failures, List.filterMap_eq_nil_iff]

end Alone

/-- **Inputs are independent.** Without the sample, and with standard input at most once among all paths, a run writes what the runs
on the first paths and on the others write: outputs and lines about errors are joined, and the closing line adds the numbers up.
The run fails if one of its inputs does, and nothing that any of them writes alone is lost, even if it fails. -/
theorem inputs_independent (r : Request) (files : Files) (stdin : ByteSource) (hdemo : r.demo = false) {p q : List Path}
    (h : (p ++ q).countP isStdin ≤ 1) :
    let on := runOn r files stdin
    let failed := failures r files stdin
    (on (p ++ q)).stdout = (on p).stdout ++ (on q).stdout ∧
    (on p).stderr = lines (failed p) ++ closing (failed p).length p.length ∧
    (on q).stderr = lines (failed q) ++ closing (failed q).length q.length ∧
    (on (p ++ q)).stderr =
      lines (failed p) ++ lines (failed q) ++ closing ((failed p).length + (failed q).length) (p ++ q).length ∧
    (on (p ++ q)).exitCode = (if (failed p).length + (failed q).length = 0 then 0 else 1) ∧
    ((on (p ++ q)).exitCode = 1 ↔ ∃ x ∈ p ++ q, (on [x]).exitCode = 1) ∧
    (on (p ++ q)).stdout = joined ((p ++ q).map fun x => (on [x]).stdout) ∧
    ∀ x, (on [x]).stdout = (alone r files stdin x).output ∧ ((on [x]).exitCode = 1 ↔ (alone r files stdin x).error ≠ none) := by
  have hboth := h
  rw [List.countP_append] at hboth
  have hp : p.countP isStdin ≤ 1 := by omega
  have hq : q.countP isStdin ≤ 1 := by omega
  have hfailures : failures r files stdin (p ++ q) = failures r files stdin p ++ failures r files stdin q :=
    List.filterMap_append
  refine ⟨?_, ?_, ?_, ?_, ?_, exitCode_eq_one_iff hdemo h, ?_, fun x => ⟨stdout_singleton hdemo x, exitCode_singleton hdemo x⟩⟩
  · rw [runOn_eq hdemo h, runOn_eq hdemo hp, runOn_eq hdemo hq, List.map_append, joined_append]
  · rw [runOn_eq hdemo hp]
  · rw [runOn_eq hdemo hq]
  · rw [runOn_eq hdemo h, hfailures, lines_append, List.length_append]
  · rw [runOn_eq hdemo h, hfailures, List.length_append]
  · simp only [stdout_singleton hdemo]
    rw [runOn_eq hdemo h]

/-- an input that fails behind some output, one that cannot be opened, and behind them one that is listed -/
theorem inputs_independent_failures :
    let files : Files := fun p => if p.bytes = [0x61] then .ok (.ofBytes [0x78]) else .error .notFound
    let on := runOn ⟨true, false, .default, []⟩ files (.ofBytes [0x28, 0x79, 0x20, 0xFF])
    let p : List Path := [⟨[Arguments.dash]⟩, ⟨[0x62]⟩]
    let q : List Path := [⟨[0x61]⟩]
    (p ++ q).countP isStdin ≤ 1 ∧
    (on p).stdout = "@1.0 (\n  @1.1 <symbol:y>\n".toUTF8 ∧ (on q).stdout = "@1.0 <symbol:x>\n;; 1 tokens\n".toUTF8 ∧
    (on (p ++ q)).stdout = (on p).stdout ++ (on q).stdout ∧
    (on (p ++ q)).stderr = "lexical error: invalid UTF-8 sequence [ff] after from (stdin)@1.2\n" ++
      "\"b\": No such file or directory (os error 2)\n" ++ "Error: 2 of 3 inputs failed\n" := by
  intro files on p q
  have h : (p ++ q).countP isStdin ≤ 1 := by decide
  obtain ⟨hstdout, -, -, hstderr, -⟩ :=
    inputs_independent ⟨true, false, .default, []⟩ files (.ofBytes [0x28, 0x79, 0x20, 0xFF]) rfl h
  refine ⟨h, by decide +kernel, by decide +kernel, hstdout, hstderr.trans ?_⟩
  decide +kernel

end FrameGraph.CommandLine
