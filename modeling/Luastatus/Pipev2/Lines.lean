import Luastatus.Lib.Lines
import Luastatus.Lua.Value

/-!
# The read loop of the pipev2 plugin

`run` reads the standard output of the child process with `getdelim` and makes one call for each
chunk.  `getdelim` is the library's: it delivers the stream chunk by chunk, each with its
delimiter, and the last one without if the stream does not end with one.

The loop passes `r - 1` bytes of every chunk on, whatever the last byte is, so the calls report
the lines of the stream exactly if the stream is empty or ends with the delimiter
(`run_lines_iff`).  What is lost otherwise is the last byte of the stream, and nothing else
(`run_lines_dropLast`).
-/

namespace Luastatus.Pipev2

open Text (Byte Bytes lit ch)
open Lines (lines untilDelim)

/-! ## The calls -/

/-- A call of the widget's callback that `run` makes. -/
inductive Call where
  /-- `make_call_simple`. -/
  | simple (what : Bytes)
  /-- `make_call_line`. -/
  | line (line : Bytes)
deriving DecidableEq, Repr

/-- The table a call passes to the callback. -/
def Call.arg {F : Type} : Call → Lua.Val F
  | simple what => .table none (Lua.Table.ofFields [(lit "what", .string what)])
  | line l =>
      .table none
        (Lua.Table.ofFields [(lit "what", .string (lit "line")), (lit "line", .string l)])

/-- The line a callback argument reports. -/
def reportedLine {F : Type} : Lua.Val F → Option Bytes
  | .table _ get =>
      match get (.str (lit "what")), get (.str (lit "line")) with
      | .string what, .string l => if what = lit "line" then some l else none
      | _, _ => none
  | _ => none

/-- The options of a widget, without the command. -/
structure Options where
  delimiter : Byte := ch '\n'
  pipeStdin : Bool := false
  greet : Bool := false
  bye : Bool := false

/-! ## The loop -/

/-- What a call of `getdelim` leaves: the returned number, the line buffer and the stream. -/
structure Getdelim where
  r : Int
  buf : Bytes
  rest : Bytes

/-- `getdelim`: the next chunk, or `-1` at the end of the stream. -/
def getdelim (delimiter : Byte) (stream : Bytes) : Getdelim :=
  if stream = [] then ⟨-1, [], []⟩
  else
    let (chunk, rest) := untilDelim delimiter stream
    ⟨chunk.length, chunk, rest⟩

theorem getdelim_nil (d : Byte) : getdelim d [] = ⟨-1, [], []⟩ := rfl

theorem getdelim_of_ne_nil (d : Byte) {s : Bytes} (h : s ≠ []) :
    getdelim d s = ⟨(untilDelim d s).1.length, (untilDelim d s).1, (untilDelim d s).2⟩ := by
  rw [getdelim, if_neg h]

theorem getdelim_rest_length_lt {d : Byte} {s : Bytes} (h : ¬ (getdelim d s).r ≤ 0) :
    (getdelim d s).rest.length < s.length := by
  by_cases hs : s = []
  · subst hs
    exact absurd (by rw [getdelim_nil]; decide) h
  · rw [getdelim_of_ne_nil d hs]
    exact Lines.untilDelim_snd_length_lt hs

/-- The loop of `run`. -/
def readLoop (delimiter : Byte) (stream : Bytes) : List Call :=
  let g := getdelim delimiter stream
  if g.r ≤ 0 then []
  else .line (g.buf.take (g.r - 1).toNat) :: readLoop delimiter g.rest
termination_by stream.length
decreasing_by exact getdelim_rest_length_lt ‹_›

/-- `run` after the process is spawned: the calls it makes for what the child writes.  After the
last of them it returns, or sleeps for ever if `bye` is set. -/
def run (p : Options) (stream : Bytes) : List Call :=
  (if p.greet then [.simple (lit "hello")] else []) ++ readLoop p.delimiter stream ++
    if p.bye then [.simple (lit "bye")] else []

/-- The lines that a run passes to the callback. -/
def reportedLines (p : Options) (stream : Bytes) : List Bytes :=
  (run p stream).filterMap fun c => reportedLine (c.arg (F := Unit))

/-! ## What the loop reports -/

theorem reportedLine_simple (what : Bytes) :
    reportedLine ((Call.simple what).arg (F := Unit)) = none := rfl

theorem reportedLine_line (l : Bytes) :
    reportedLine ((Call.line l).arg (F := Unit)) = some l := rfl

/-- The lines that the calls of the loop report. -/
def loopLines (d : Byte) (s : Bytes) : List Bytes :=
  (readLoop d s).filterMap fun c => reportedLine (c.arg (F := Unit))

/-- The calls before and after the loop report no line. -/
theorem reportedLines_eq (p : Options) (s : Bytes) :
    reportedLines p s = loopLines p.delimiter s := by
  have hsimple (b : Bool) (what : Bytes) :
      (if b then [Call.simple what] else []).filterMap
        (fun c => reportedLine (c.arg (F := Unit))) = [] := by
    cases b <;> simp [reportedLine_simple]
  rw [reportedLines, run, List.filterMap_append, List.filterMap_append, hsimple, hsimple,
    List.nil_append, List.append_nil, loopLines]

theorem loopLines_nil (d : Byte) : loopLines d [] = [] := by
  rw [loopLines, readLoop, getdelim_nil]
  rfl

/-- One round of the loop. -/
theorem loopLines_of_ne_nil {d : Byte} {s : Bytes} (h : s ≠ []) :
    loopLines d s = (untilDelim d s).1.dropLast :: loopLines d (untilDelim d s).2 := by
  have hpos : 0 < (untilDelim d s).1.length :=
    List.length_pos_iff.mpr (Lines.untilDelim_fst_ne_nil h)
  have hlen : (((untilDelim d s).1.length : Int) - 1).toNat = (untilDelim d s).1.length - 1 := by
    omega
  rw [loopLines, readLoop, getdelim_of_ne_nil d h, if_neg (by simp only; omega),
    List.filterMap_cons_some (b := (untilDelim d s).1.take ((untilDelim d s).1.length - 1))
      (by rw [reportedLine_line, hlen]),
    ← List.dropLast_eq_take, loopLines]

theorem loopLines_of_not_mem {d : Byte} {s : Bytes} (h : d ∉ s) (hne : s ≠ []) :
    loopLines d s = [s.dropLast] := by
  rw [loopLines_of_ne_nil hne, Lines.untilDelim_of_not_mem h, loopLines_nil]

theorem loopLines_append_cons {d : Byte} {l : Bytes} (h : d ∉ l) (r : Bytes) :
    loopLines d (l ++ d :: r) = l :: loopLines d r := by
  rw [loopLines_of_ne_nil (by simp), Lines.untilDelim_append_cons h, List.dropLast_concat]

/-- The delimited chunks are reported as they are.  A rest without the delimiter loses its last
byte. -/
theorem run_lines_dropLast (p : Options) {ls : List Bytes} {rest : Bytes}
    (hls : ∀ l ∈ ls, p.delimiter ∉ l) (hrest : p.delimiter ∉ rest) :
    reportedLines p (ls.flatMap (· ++ [p.delimiter]) ++ rest) =
      ls ++ if rest = [] then [] else [rest.dropLast] := by
  rw [reportedLines_eq]
  induction ls with
  | nil =>
      by_cases h : rest = []
      · rw [if_pos h, h]
        exact loopLines_nil p.delimiter
      · rw [if_neg h]
        exact loopLines_of_not_mem hrest h
  | cons l ls ih =>
      rw [List.flatMap_cons, List.append_assoc, List.append_assoc, List.singleton_append,
        loopLines_append_cons (hls l List.mem_cons_self),
        ih fun l' hl' => hls l' (List.mem_cons_of_mem l hl'), List.cons_append]

theorem loopLines_eq_lines_iff (d : Byte) (s : Bytes) :
    loopLines d s = lines d s ↔ s = [] ∨ s.getLast? = some d := by
  induction s using Lines.delim_induction d with
  | rest s hs =>
      by_cases hne : s = []
      · subst hne
        rw [loopLines_nil, Lines.lines_of_not_mem hs]
        simp
      · have hlast : s.getLast? ≠ some d := fun h => hs (List.mem_of_getLast? h)
        have hdrop : s.dropLast ≠ s := by
          intro h
          have hlen := congrArg List.length h
          rw [List.length_dropLast] at hlen
          have := List.length_pos_iff.mpr hne
          omega
        rw [loopLines_of_not_mem hs hne, Lines.lines_of_not_mem hs, if_neg hne]
        simp [hne, hlast, hdrop]
  | chunk l r hl ih =>
      have hlast : (l ++ d :: r).getLast? = some d ↔ r = [] ∨ r.getLast? = some d := by
        cases r with
        | nil => simp
        | cons x xs => simp [List.getLast?_append, List.getLast?_cons_cons]
      rw [loopLines_append_cons hl, Lines.lines_append_cons hl, hlast, ← ih]
      simp

/-- The run reports the lines of the stream if and only if the stream does not end in the middle
of a line. -/
theorem run_lines_iff (p : Options) (s : Bytes) :
    reportedLines p s = lines p.delimiter s ↔ s = [] ∨ s.getLast? = some p.delimiter := by
  rw [reportedLines_eq]
  exact loopLines_eq_lines_iff p.delimiter s

/-- A child that prints `ab` and exits: the widget is told of the line `a`. -/
theorem run_lines_ab :
    reportedLines {} (lit "ab") = [lit "a"] ∧ lines (ch '\n') (lit "ab") = [lit "ab"] ∧
      ¬ ∀ (p : Options) (s : Bytes), reportedLines p s = lines p.delimiter s := by
  have hab : reportedLines {} (lit "ab") = [lit "a"] := by
    rw [reportedLines_eq, loopLines_of_not_mem (by decide) (by decide)]
    rfl
  have hlines : lines (ch '\n') (lit "ab") = [lit "ab"] := by decide
  refine ⟨hab, hlines, fun h => ?_⟩
  have hsame := h {} (lit "ab")
  rw [hab, hlines] at hsame
  exact absurd hsame (by decide)

end Luastatus.Pipev2
