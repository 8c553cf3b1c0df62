import Luastatus.Lua.Fields
import Mathlib.Tactic.Linarith

/-!
# The CPU usage

`get_usage` reads one line of `/proc/stat`, keeps its figures in the table `cur`, and compares them
with the ones that the call before left in the table `prev`.  The caller swaps the two tables after
each call.

The line is chosen by its position, and the growth of each part is clamped on its own.
`getUsage_isRate_iff` says when the result is a rate, and `getUsage_right_iff` when it is the one of
the CPU that was asked for.
-/

namespace Luastatus.CpuUsageLinux

open Text (Byte Bytes isSpace ch lit)
open Lua Lua.Pattern

/-! ## The code -/

/-- `wrap0` -/
def wrap0 (x : LuaNum) : LuaNum := if x.lt (.fin 0) then .fin 0 else x

/-- `cpu%d*%s+(%S+)%s+(%S+)...` -/
def linePattern : List Item :=
  text (lit "cpu") ++ .star .digit ::
    (List.replicate 10 [.plus .space, .openCapture, .plus .nonSpace, .closeCapture]).flatten

/-- The fields that are assigned what the pattern captures. -/
def fieldNames : List String :=
  ["user", "nice", "system", "idle", "iowait", "irq", "softirq", "steal", "guest", "guest_nice"]

/-- A multiple assignment.  Fields without a value become `nil`. -/
def assignFields (t : Table LuaNum) : List String → List (Val LuaNum) → Table LuaNum
  | [], _ => t
  | name :: names, vals =>
      assignFields (setField t name (vals.headD .nil)) names vals.tail

/-- An assignment whose value may not be computable. -/
def assign (t : Table LuaNum) (name : String) (x : Except LuaError LuaNum) :
    Except (LuaError × Table LuaNum) (Table LuaNum) :=
  match x with
  | .ok x => .ok (setField t name (.number x))
  | .error e => .error (e, t)

/-- A number plus some fields. -/
def sumFrom (t : Table LuaNum) (x : LuaNum) : List String → Except LuaError LuaNum
  | [] => .ok x
  | name :: names => do sumFrom t (← arith (· + ·) (.number x) (field t name)) names

/-- The sum of two fields and some others. -/
def sum (t : Table LuaNum) (name name' : String) (names : List String) :
    Except LuaError LuaNum := do
  sumFrom t (← arith (· + ·) (field t name) (field t name')) names

/-- The assignments of `get_usage_impl` that compute. -/
def compute (cur : Table LuaNum) : Except (LuaError × Table LuaNum) (Table LuaNum) := do
  let cur ← assign cur "user" (arith (· - ·) (field cur "user") (field cur "guest"))
  let cur ← assign cur "nice" (arith (· - ·) (field cur "nice") (field cur "guest_nice"))
  let cur ← assign cur "IdleAll" (sum cur "idle" "iowait" [])
  let cur ← assign cur "SysAll" (sum cur "system" "irq" ["softirq"])
  let cur ← assign cur "VirtAll" (sum cur "guest" "guest_nice" [])
  assign cur "Total" (sum cur "user" "nice" ["SysAll", "IdleAll", "steal", "VirtAll"])

/-- The growth of a field, clamped at zero. -/
def growth (cur prev : Table LuaNum) (name : String) : Except LuaError LuaNum := do
  return wrap0 (← arith (· - ·) (field cur name) (field prev name))

/-- The number that `get_usage_impl` returns. -/
def usage (cur prev : Table LuaNum) : Except LuaError LuaNum := do
  let user ← growth cur prev "user"
  let nice ← growth cur prev "nice"
  let sysAll ← growth cur prev "SysAll"
  let steal ← growth cur prev "steal"
  let guest ← growth cur prev "guest"
  let total ← growth cur prev "Total"
  return (user + nice + sysAll + steal + guest) / total

/-- Whether a value is `nil`. -/
def isNil : Val LuaNum → Bool
  | .nil => true
  | _ => false

/-- The two tables of the caller. -/
structure Tables where
  cur : Table LuaNum
  prev : Table LuaNum

/-- `get_usage_impl`, given the lines of the file or why it cannot be opened.  The result is `none`
for `nil`. -/
def getUsageImpl (f : Except Bytes (List Bytes)) (t : Tables) (cpu : Nat) :
    Except LuaError (Option LuaNum) × Tables :=
  match f with
  | .error msg => (.error (.error msg), t)
  | .ok lines =>
      match lines[cpu]? with
      | none => (.ok none, ⟨Table.empty, Table.empty⟩)
      | some line =>
          let captures := (matchAnywhere linePattern line).getD []
          let cur := assignFields t.cur fieldNames (captures.map .string)
          if isNil (field cur "user") then
            (.error (.error (lit "Line has unexpected format")), { t with cur })
          else
            match compute cur with
            | .error (e, cur) => (.error e, { t with cur })
            | .ok cur =>
                if isNil (field t.prev "user") then (.ok none, { t with cur })
                else ((usage cur t.prev).map some, { t with cur })

/-- `cur, prev = prev, cur` -/
def Tables.swap (t : Tables) : Tables := ⟨t.prev, t.cur⟩

/-- A call and the swap after it. -/
def call (cpu : Nat) (t : Tables) (lines : List Bytes) : Except LuaError (Option LuaNum) × Tables :=
  let (result, t) := getUsageImpl (.ok lines) t cpu
  (result, t.swap)

/-- The tables after some calls.  They are empty at first. -/
def run (cpu : Nat) (files : List (List Bytes)) : Tables :=
  files.foldl (fun t lines => (call cpu t lines).2) ⟨Table.empty, Table.empty⟩

/-! ## Lines of CPUs -/

/-- A line of a CPU, or of all of them. -/
structure CpuLine where
  label : Bytes
  user : Field
  nice : Field
  system : Field
  idle : Field
  iowait : Field
  irq : Field
  softirq : Field
  steal : Field
  guest : Field
  guestNice : Field
  trail : Bytes
  label_digit : ∀ b ∈ label, CharClass.digit.test b = true
  trail_space : ∀ b ∈ trail.head?, isSpace b = true

namespace CpuLine

/-- The fields in their order. -/
def fields (c : CpuLine) : List Field :=
  [c.user, c.nice, c.system, c.idle, c.iowait, c.irq, c.softirq, c.steal, c.guest, c.guestNice]

/-- The line itself. -/
def line (c : CpuLine) : Bytes :=
  lit "cpu" ++ (c.label ++ (c.fields.flatMap Field.bytes ++ c.trail))

end CpuLine

/-! ## What is computed from a line -/

/-- The figures of a line. -/
structure Figures where
  user : ℚ
  nice : ℚ
  sysAll : ℚ
  idleAll : ℚ
  steal : ℚ
  guest : ℚ
  guestNice : ℚ

/-- The time of the guests is part of the one of the users. -/
def CpuLine.figures (c : CpuLine) : Figures where
  user := c.user.value - c.guest.value
  nice := c.nice.value - c.guestNice.value
  sysAll := c.system.value + c.irq.value + c.softirq.value
  idleAll := c.idle.value + c.iowait.value
  steal := c.steal.value
  guest := c.guest.value
  guestNice := c.guestNice.value

namespace Figures

/-- All of the time. -/
def total (x : Figures) : ℚ :=
  x.user + x.nice + x.sysAll + x.idleAll + x.steal + (x.guest + x.guestNice)

/-- How much the busy parts grew, without those that shrank. -/
def gains (prev cur : Figures) : ℚ :=
  max 0 (cur.user - prev.user) + max 0 (cur.nice - prev.nice) + max 0 (cur.sysAll - prev.sysAll) +
    max 0 (cur.steal - prev.steal) + max 0 (cur.guest - prev.guest)

/-- How much the busy parts shrank, without those that grew. -/
def losses (prev cur : Figures) : ℚ :=
  max 0 (prev.user - cur.user) + max 0 (prev.nice - cur.nice) + max 0 (prev.sysAll - cur.sysAll) +
    max 0 (prev.steal - cur.steal) + max 0 (prev.guest - cur.guest)

/-- The usage rate between two lines. -/
def rate (prev cur : Figures) : LuaNum :=
  .fin (gains prev cur) / .fin (max 0 (cur.total - prev.total))

end Figures

/-! ## Reading a line -/

section Match

variable {t : Bytes}

theorem outside_fields {fs : List Field} (ht : ∀ b ∈ t.head?, isSpace b = true) :
    ∀ b ∈ (fs.flatMap Field.bytes ++ t).head?, isSpace b = true :=
  Field.head_fields (fun _ => id) ht

theorem doMatch_fields (fs : List Field) (ht : ∀ b ∈ t.head?, isSpace b = true)
    (caps : List Capture) :
    doMatch (List.replicate fs.length
        [.plus .space, .openCapture, .plus .nonSpace, .closeCapture]).flatten
      (fs.flatMap Field.bytes ++ t) caps =
        some ((fs.reverse.map fun f => .closed f.digits) ++ caps) := by
  induction fs generalizing caps with
  | nil => rfl
  | cons f fs ih =>
      have hrest := ih (.closed f.digits :: caps)
      rw [List.flatMap_cons, List.append_assoc, List.reverse_cons, List.map_append,
        List.append_assoc]
      exact f.doMatch_capture f.digits_nonSpace (outside_nonSpace (outside_fields ht)) hrest

end Match

theorem captured_closed (strings : List Bytes) :
    captured ((strings.reverse.map Capture.closed)) = strings := by
  rw [captured, ← List.map_reverse, List.reverse_reverse, List.filterMap_map]
  exact List.filterMap_some

theorem matchAnywhere_line (c : CpuLine) :
    matchAnywhere linePattern c.line = some (c.fields.map Field.digits) := by
  have hlabel : Run .digit c.label (c.fields.flatMap Field.bytes ++ c.trail) :=
    ⟨c.label_digit, outside_digit (outside_fields c.trail_space)⟩
  have hfields := doMatch_fields c.fields c.trail_space []
  have hmatch : doMatch linePattern c.line [] =
      some ((c.fields.reverse.map fun f => .closed f.digits) ++ []) := by
    rw [linePattern, CpuLine.line, doMatch_text]
    exact doMatch_star hlabel hfields
  refine matchAnywhere_of_matchAnchored ?_
  rw [matchAnchored, hmatch, List.append_nil, Option.map_some]
  have hdigits := captured_closed (c.fields.map Field.digits)
  rw [← List.map_reverse, List.map_map] at hdigits
  exact congrArg some hdigits

theorem matchAnywhere_other {l : Bytes} (h : ¬ lit "cpu" <:+: l) :
    matchAnywhere linePattern l = none := matchAnywhere_text_eq_none h

/-! ## Computing the figures -/

theorem holds_setField {t : Table LuaNum} {name name' : String} {q q' : ℚ} :
    Holds (setField t name (.number (.fin q))) name' q' ↔
      if lit name' = lit name then q = q' else Holds t name' q' := by
  rw [Holds, field_setField]
  split
  · simp [tonumberOf]
  · rfl

theorem arith_sub {t t' : Table LuaNum} {name name' : String} {x y : ℚ} (hx : Holds t name x)
    (hy : Holds t' name' y) :
    arith (· - ·) (field t name) (field t' name') = .ok (.fin (x - y)) := by
  rw [arith_eq hx hy, LuaNum.fin_sub]

theorem sumFrom_eq {t : Table LuaNum} {names : List String} {qs : List ℚ}
    (h : List.Forall₂ (Holds t) names qs) (x : ℚ) :
    sumFrom t (.fin x) names = .ok (.fin (qs.foldl (· + ·) x)) := by
  induction h generalizing x with
  | nil => rfl
  | cons hq hqs ih =>
      rw [sumFrom, arith_eq (x := .fin x) rfl hq, LuaNum.fin_add]
      exact ih _

theorem sum_eq {t : Table LuaNum} {name name' : String} {x y : ℚ} {names : List String}
    {qs : List ℚ}
    (hx : Holds t name x) (hy : Holds t name' y) (h : List.Forall₂ (Holds t) names qs) :
    sum t name name' names = .ok (.fin (qs.foldl (· + ·) (x + y))) := by
  rw [sum, arith_eq hx hy, LuaNum.fin_add]
  exact sumFrom_eq h _

/-- The fields that are read hold the digits of the line. -/
def Raw (t : Table LuaNum) (c : CpuLine) : Prop :=
  List.Forall₂ (fun name (f : Field) => field t name = .string f.digits) fieldNames c.fields

theorem raw_assignFields (t : Table LuaNum) (c : CpuLine) :
    Raw (assignFields t fieldNames (c.fields.map fun f => .string f.digits)) c := by
  simp +decide [Raw, assignFields, fieldNames, CpuLine.fields, field_setField]

/-- They stand for the numbers of the line. -/
structure RawFigures (t : Table LuaNum) (c : CpuLine) : Prop where
  user : Holds t "user" c.user.value
  nice : Holds t "nice" c.nice.value
  system : Holds t "system" c.system.value
  idle : Holds t "idle" c.idle.value
  iowait : Holds t "iowait" c.iowait.value
  irq : Holds t "irq" c.irq.value
  softirq : Holds t "softirq" c.softirq.value
  steal : Holds t "steal" c.steal.value
  guest : Holds t "guest" c.guest.value
  guestNice : Holds t "guest_nice" c.guestNice.value

theorem Raw.figures {t : Table LuaNum} {c : CpuLine} (h : Raw t c) : RawFigures t c := by
  have holds {name : String} {f : Field} (h : field t name = .string f.digits) :
      Holds t name f.value := by
    rw [Holds, h]
    exact f.tonumber_digits
  simp only [Raw, fieldNames, CpuLine.fields, List.forall₂_cons, List.Forall₂.nil, and_true] at h
  obtain ⟨h1, h2, h3, h4, h5, h6, h7, h8, h9, h10⟩ := h
  exact ⟨holds h1, holds h2, holds h3, holds h4, holds h5, holds h6, holds h7, holds h8, holds h9,
    holds h10⟩

/-- What the table holds after a call: the figures of a line, or nothing. -/
def Remembers (t : Table LuaNum) : Option Figures → Prop
  | none => field t "user" = .nil
  | some x =>
      Holds t "user" x.user ∧ Holds t "nice" x.nice ∧ Holds t "SysAll" x.sysAll ∧
        Holds t "steal" x.steal ∧ Holds t "guest" x.guest ∧ Holds t "Total" x.total

theorem assign_eq {t : Table LuaNum} {name : String} {x : Except LuaError LuaNum} {q : ℚ}
    (h : x = .ok (.fin q)) : assign t name x = .ok (setField t name (.number (.fin q))) := by
  rw [h]
  rfl

/-- Computing the figures of a line succeeds. -/
theorem compute_eq {t : Table LuaNum} {c : CpuLine} (h : RawFigures t c) :
    ∃ t', compute t = .ok t' ∧ Remembers t' (some c.figures) := by
  let x := c.figures
  let t1 := setField t "user" (.number (.fin x.user))
  let t2 := setField t1 "nice" (.number (.fin x.nice))
  let t3 := setField t2 "IdleAll" (.number (.fin x.idleAll))
  let t4 := setField t3 "SysAll" (.number (.fin x.sysAll))
  let t5 := setField t4 "VirtAll" (.number (.fin (x.guest + x.guestNice)))
  let t6 := setField t5 "Total" (.number (.fin x.total))
  have hsteal : Holds t "steal" x.steal := h.steal
  have hguest : Holds t "guest" x.guest := h.guest
  have hguestNice : Holds t "guest_nice" x.guestNice := h.guestNice
  have h1 : assign t "user" (arith (· - ·) (field t "user") (field t "guest")) = .ok t1 :=
    assign_eq (arith_sub h.user h.guest)
  have h2 : assign t1 "nice" (arith (· - ·) (field t1 "nice") (field t1 "guest_nice")) =
      .ok t2 := by
    refine assign_eq (arith_sub ?_ ?_)
    · exact h.nice.setField _ _ (by decide)
    · exact h.guestNice.setField _ _ (by decide)
  have h3 : assign t2 "IdleAll" (sum t2 "idle" "iowait" []) = .ok t3 := by
    refine assign_eq (sum_eq ?_ ?_ .nil)
    · exact (h.idle.setField _ _ (by decide)).setField _ _ (by decide)
    · exact (h.iowait.setField _ _ (by decide)).setField _ _ (by decide)
  have h4 : assign t3 "SysAll" (sum t3 "system" "irq" ["softirq"]) = .ok t4 := by
    refine assign_eq (sum_eq ?_ ?_ (.cons ?_ .nil))
    · simp +decide only [t1, t2, t3, holds_setField, h.system, if_false]
    · simp +decide only [t1, t2, t3, holds_setField, h.irq, if_false]
    · simp +decide only [t1, t2, t3, holds_setField, h.softirq, if_false]
  have h5 : assign t4 "VirtAll" (sum t4 "guest" "guest_nice" []) = .ok t5 := by
    refine assign_eq (sum_eq ?_ ?_ .nil)
    · simp +decide only [t1, t2, t3, t4, holds_setField, hguest, if_false]
    · simp +decide only [t1, t2, t3, t4, holds_setField, hguestNice, if_false]
  have h6 : assign t5 "Total" (sum t5 "user" "nice" ["SysAll", "IdleAll", "steal", "VirtAll"]) =
      .ok t6 := by
    refine assign_eq (sum_eq ?_ ?_ (.cons ?_ (.cons ?_ (.cons ?_ (.cons ?_ .nil)))))
    · simp +decide only [t1, t2, t3, t4, t5, holds_setField, if_false, if_true]
    · simp +decide only [t1, t2, t3, t4, t5, holds_setField, if_false, if_true]
    · simp +decide only [t1, t2, t3, t4, t5, holds_setField, if_false, if_true]
    · simp +decide only [t1, t2, t3, t4, t5, holds_setField, if_false, if_true]
    · simp +decide only [t1, t2, t3, t4, t5, holds_setField, hsteal, if_false]
    · simp +decide only [t1, t2, t3, t4, t5, holds_setField, if_false, if_true]
  refine ⟨t6, ?_, ?_⟩
  · rw [compute, h1]
    change (assign t1 _ _ >>= _) = _
    rw [h2]
    change (assign t2 _ _ >>= _) = _
    rw [h3]
    change (assign t3 _ _ >>= _) = _
    rw [h4]
    change (assign t4 _ _ >>= _) = _
    rw [h5]
    exact h6
  · simp +decide only [Remembers, t1, t2, t3, t4, t5, t6, x, holds_setField, hsteal, hguest,
      if_false, if_true, and_self]

/-! ## One call -/

theorem wrap0_fin (q : ℚ) : wrap0 (.fin q) = .fin (max 0 q) := by
  rw [wrap0, LuaNum.lt_fin]
  rcases lt_or_ge q 0 with h | h
  · rw [if_pos (decide_eq_true h), max_eq_left h.le]
  · rw [if_neg (by simpa using h), max_eq_right h]

theorem growth_eq {cur prev : Table LuaNum} {name : String} {x y : ℚ} (hy : Holds cur name y)
    (hx : Holds prev name x) : growth cur prev name = .ok (.fin (max 0 (y - x))) := by
  rw [growth, arith_sub hy hx, ← wrap0_fin]
  rfl

theorem usage_eq {cur prev : Table LuaNum} {x y : Figures} (hy : Remembers cur (some y))
    (hx : Remembers prev (some x)) : usage cur prev = .ok (x.rate y) := by
  obtain ⟨hy1, hy2, hy3, hy4, hy5, hy6⟩ := hy
  obtain ⟨hx1, hx2, hx3, hx4, hx5, hx6⟩ := hx
  rw [usage, growth_eq hy1 hx1, growth_eq hy2 hx2, growth_eq hy3 hx3, growth_eq hy4 hx4,
    growth_eq hy5 hx5, growth_eq hy6 hx6]
  rfl

theorem isNil_of_holds {t : Table LuaNum} {name : String} {q : ℚ} (h : Holds t name q) :
    isNil (field t name) = false := by
  rw [Holds] at h
  cases hv : field t name with
  | nil =>
      rw [hv] at h
      cases h
  | _ => rfl

theorem Remembers.isNil {t : Table LuaNum} {o : Option Figures} (h : Remembers t o) :
    isNil (field t "user") = o.isNone := by
  cases o with
  | none => rw [show field t "user" = .nil from h]; rfl
  | some x => exact isNil_of_holds h.1

section Call

variable {cpu : Nat} {t : Tables} {lines : List Bytes}

/-- A call that reads the line of a CPU keeps its figures, and returns the rate since the figures of
the call before. -/
theorem call_line {c : CpuLine} (h : lines[cpu]? = some c.line) :
    Remembers (call cpu t lines).2.prev (some c.figures) ∧
      ∀ o, Remembers t.prev o → (call cpu t lines).1 = .ok (o.map fun x => x.rate c.figures) := by
  have hraw := (raw_assignFields t.cur c).figures
  have hstrings : (c.fields.map Field.digits).map Val.string =
      c.fields.map fun f => (.string f.digits : Val LuaNum) := List.map_map
  obtain ⟨cur, hcompute, hcur⟩ := compute_eq hraw
  have hcall : call cpu t lines =
      if isNil (field t.prev "user") then (.ok none, ⟨t.prev, cur⟩)
      else ((usage cur t.prev).map some, ⟨t.prev, cur⟩) := by
    rw [call, getUsageImpl]
    simp only [h, matchAnywhere_line, Option.getD_some, hstrings, isNil_of_holds hraw.user,
      hcompute, Bool.false_eq_true, if_false]
    split
    · rfl
    · rfl
  constructor
  · rw [hcall]
    split
    · exact hcur
    · exact hcur
  · intro o ho
    rw [hcall, ho.isNil]
    cases o with
    | none => rfl
    | some x => rw [usage_eq hcur ho]; rfl

/-- A call that finds no line forgets everything. -/
theorem call_missing (h : lines[cpu]? = none) :
    (call cpu t lines).1 = .ok none ∧ Remembers (call cpu t lines).2.prev none := by
  rw [call, getUsageImpl]
  simp only [h]
  exact ⟨trivial, rfl⟩

/-- A call that reads another line fails, and forgets everything. -/
theorem call_other {l : Bytes} (h : lines[cpu]? = some l) (hl : ¬ lit "cpu" <:+: l) :
    (call cpu t lines).1 = .error (.error (lit "Line has unexpected format")) ∧
      Remembers (call cpu t lines).2.prev none := by
  have huser : isNil (field (assignFields t.cur fieldNames []) "user") = true := by
    simp +decide [assignFields, fieldNames, field_setField, isNil]
  have hcall : call cpu t lines =
      (.error (.error (lit "Line has unexpected format")),
        ⟨t.prev, assignFields t.cur fieldNames []⟩) := by
    rw [call, getUsageImpl]
    simp only [h, matchAnywhere_other hl, Option.getD_none, List.map_nil, huser, if_true]
    rfl
  rw [hcall]
  refine ⟨rfl, ?_⟩
  simp +decide [Remembers, assignFields, fieldNames, field_setField]

end Call

theorem run_concat (cpu : Nat) (files : List (List Bytes)) (lines : List Bytes) :
    run cpu (files ++ [lines]) = (call cpu (run cpu files) lines).2 := by
  rw [run, List.foldl_append]
  rfl

/-! ## Whether the result is a rate -/

/-- A file in which the line for the CPU can be read. -/
structure Sample (cpu : Nat) where
  lines : List Bytes
  line : CpuLine
  get : lines[cpu]? = some line.line
  guest_le : line.guest.value ≤ line.user.value
  guestNice_le : line.guestNice.value ≤ line.nice.value

/-- The result of a call after others. -/
def result (cpu : Nat) (before : List (List Bytes)) (lines : List Bytes) :
    Except LuaError (Option LuaNum) := (call cpu (run cpu before) lines).1

/-- The first call returns `nil`, and any other one `nil` or a number from 0 to 1. -/
def IsRate {cpu : Nat} (before : List (Sample cpu)) (s : Sample cpu) : Prop :=
  result cpu (before.map Sample.lines) s.lines = .ok none ∨
    before ≠ [] ∧ ∃ r : ℚ, result cpu (before.map Sample.lines) s.lines = .ok (some (.fin r)) ∧
      0 ≤ r ∧ r ≤ 1

/-- The total grew, and what the busy parts lost is made up for by the parts that are not busy. -/
def Figures.Steady (prev cur : Figures) : Prop :=
  prev.total < cur.total ∧
    prev.losses cur ≤ (cur.idleAll - prev.idleAll) + (cur.guestNice - prev.guestNice)

theorem Figures.gains_eq (prev cur : Figures) :
    prev.gains cur = prev.losses cur + (cur.total - prev.total) -
      ((cur.idleAll - prev.idleAll) + (cur.guestNice - prev.guestNice)) := by
  have hmax (x y : ℚ) : max 0 (y - x) = max 0 (x - y) + (y - x) := by
    rcases le_total x y with h | h
    · rw [max_eq_right (by linarith), max_eq_left (by linarith)]; ring
    · rw [max_eq_left (by linarith), max_eq_right (by linarith)]; ring
  rw [Figures.gains, Figures.losses, Figures.total, Figures.total, hmax prev.user, hmax prev.nice,
    hmax prev.sysAll, hmax prev.steal, hmax prev.guest]
  ring

theorem Figures.gains_nonneg (prev cur : Figures) : 0 ≤ prev.gains cur := by
  rw [Figures.gains]
  positivity

/-- A rate is a number from 0 to 1 if and only if the figures are steady. -/
theorem Figures.rate_iff (prev cur : Figures) :
    (∃ r : ℚ, prev.rate cur = .fin r ∧ 0 ≤ r ∧ r ≤ 1) ↔ prev.Steady cur := by
  rw [Figures.rate, Figures.Steady]
  rcases lt_or_ge prev.total cur.total with h | h
  · have hpos : 0 < cur.total - prev.total := by linarith
    have hgains := prev.gains_eq cur
    rw [max_eq_right hpos.le, LuaNum.fin_div _ hpos.ne']
    constructor
    · rintro ⟨r, hr, -, hle⟩
      cases hr
      rw [div_le_one hpos] at hle
      exact ⟨h, by linarith⟩
    · rintro ⟨-, hle⟩
      refine ⟨_, rfl, div_nonneg (prev.gains_nonneg cur) hpos.le, ?_⟩
      rw [div_le_one hpos]
      linarith
  · rw [max_eq_left (by linarith)]
    refine iff_of_false ?_ fun hs => absurd hs.1 (not_lt.mpr h)
    rintro ⟨r, hr, -⟩
    rw [LuaNum.fin_div_zero] at hr
    split at hr
    · cases hr
    · cases hr

theorem Figures.rate_self (x : Figures) : x.rate x = .nan := by
  simp [Figures.rate, Figures.gains, LuaNum.fin_div_zero]

theorem remembers_last {cpu : Nat} (before : List (Sample cpu)) :
    Remembers (run cpu (before.map Sample.lines)).prev
      (before.getLast?.map fun p => p.line.figures) := by
  rcases List.eq_nil_or_concat before with rfl | ⟨before, p, rfl⟩
  · rfl
  · rw [List.concat_eq_append, List.map_append, List.map_singleton, run_concat,
      List.getLast?_concat]
    exact (call_line p.get).1

/-- The result of a call is a rate if and only if the figures of the call before, if there is one,
and of this one are steady. -/
theorem getUsage_isRate_iff {cpu : Nat} (before : List (Sample cpu)) (s : Sample cpu) :
    IsRate before s ↔ ∀ p ∈ before.getLast?, p.line.figures.Steady s.line.figures := by
  have hresult := (call_line s.get).2 _ (remembers_last before)
  rw [IsRate, result, hresult]
  rcases List.eq_nil_or_concat before with rfl | ⟨before, p, rfl⟩
  · exact iff_of_true (.inl rfl) (by rintro p ⟨⟩)
  · rw [List.concat_eq_append, List.getLast?_concat]
    simp only [Option.map_some, Option.mem_def, Option.some.injEq, forall_eq']
    rw [← Figures.rate_iff]
    simp

/-- A line of a CPU whose figures are all the same. -/
def CpuLine.uniform (label : Bytes) (n : Nat)
    (h : ∀ b ∈ label, CharClass.digit.test b = true) : CpuLine where
  label := label
  user := .spaced n
  nice := .spaced n
  system := .spaced n
  idle := .spaced n
  iowait := .spaced n
  irq := .spaced n
  softirq := .spaced n
  steal := .spaced n
  guest := .spaced n
  guestNice := .spaced n
  trail := []
  label_digit := h
  trail_space := by simp

/-- A file with one line. -/
def idle : Sample 0 where
  lines := [(CpuLine.uniform [] 1 (by simp)).line]
  line := CpuLine.uniform [] 1 (by simp)
  get := rfl
  guest_le := Nat.le_refl _
  guestNice_le := Nat.le_refl _

/-- Two identical snapshots: the result is not a number. -/
theorem getUsage_idle : ¬ IsRate [idle] idle := by
  have hresult := (call_line idle.get).2 _ (remembers_last [idle])
  rw [IsRate, result, hresult]
  rintro (h | ⟨-, r, h, -⟩)
  · cases h
  · injection h with h
    injection h with h
    cases idle.line.figures.rate_self.symm.trans h

/-! ## Whether it is the CPU that was asked for -/

/-- The line of a CPU that is online. -/
structure Online where
  number : Nat
  line : CpuLine
  label_eq : line.label = Text.decimal number

/-- What `/proc/stat` shows at a time. -/
structure Snapshot where
  total : CpuLine
  cpus : List Online
  others : List Bytes
  total_label : total.label = []
  sorted : (cpus.map Online.number).Pairwise (· < ·)
  others_no_cpu : ∀ l ∈ others, ¬ lit "cpu" <:+: l

namespace Snapshot

/-- The lines of the file. -/
def lines (s : Snapshot) : List Bytes :=
  s.total.line :: (s.cpus.map (fun c => c.line.line) ++ s.others)

/-- The figures of the CPU with a number, counted from zero. -/
def figures (s : Snapshot) (j : Nat) : Option Figures :=
  (s.cpus.find? fun c => c.number = j).map fun c => c.line.figures

/-- The CPUs that are online. -/
def numbers (s : Snapshot) : List Nat := s.cpus.map Online.number

/-- Too few CPUs are online for the place of the CPU's line to be one of a CPU. -/
def Few (s : Snapshot) (j : Nat) : Prop := s.numbers.length ≤ j

/-- Another line stands in that place. -/
def Stray (s : Snapshot) (j : Nat) : Prop := s.Few j ∧ j < s.numbers.length + s.others.length

/-- The figures in that place, if it is a line of a CPU. -/
def read (s : Snapshot) (j : Nat) : Option Figures := s.cpus[j]?.map fun c => c.line.figures

/-- The same CPUs are online, and there are as many other lines. -/
structure Alike (s s' : Snapshot) : Prop where
  numbers : s'.numbers = s.numbers
  others : s'.others.length = s.others.length

end Snapshot

/-- The rate between two lines, if both are there. -/
def rateBetween : Option Figures → Option Figures → Option LuaNum
  | some x, some y => some (x.rate y)
  | _, _ => none

/-- The call for the CPU `cpu<j>` returns the rate between its lines in the last snapshot and in
this one, or `nil` if one of them does not have it. -/
def Right (j : Nat) (before : List Snapshot) (s : Snapshot) : Prop :=
  result (j + 1) (before.map Snapshot.lines) s.lines =
    .ok (rateBetween (before.getLast?.bind (·.figures j)) (s.figures j))

/-- The lines are found from one snapshot to the next: either all CPUs up to the one with the number
are online in both, or one of the two has too few, and one does not have the CPU. -/
def Follows (j : Nat) (p s : Snapshot) : Prop :=
  ((∀ i ≤ j, i ∈ p.numbers) ∧ ∀ i ≤ j, i ∈ s.numbers) ∨
    (p.Few j ∨ s.Few j) ∧ (j ∉ p.numbers ∨ j ∉ s.numbers)

theorem add_le_of_sorted {ns : List Nat} (h : ns.Pairwise (· < ·)) {i d : Nat}
    (hi : i + d < ns.length) : ns[i] + d ≤ ns[i + d] := by
  induction d with
  | zero => exact Nat.le_refl _
  | succ d ih =>
      have hlt := List.pairwise_iff_getElem.mp h (i + d) (i + (d + 1)) (by omega) hi (by omega)
      have := ih (by omega)
      omega

theorem le_of_sorted {ns : List Nat} (h : ns.Pairwise (· < ·)) {i : Nat} (hi : i < ns.length) :
    i ≤ ns[i] := by
  have hadd := add_le_of_sorted h (i := 0) (d := i) (by omega)
  simp only [Nat.zero_add] at hadd
  omega

/-- In an increasing list, a number stands at its own place if all smaller ones are there. -/
theorem getElem?_of_sorted {ns : List Nat} (h : ns.Pairwise (· < ·)) {j : Nat}
    (hmem : ∀ i ≤ j, i ∈ ns) : ns[j]? = some j := by
  induction j using Nat.strong_induction_on with
  | _ j ih =>
      obtain ⟨m, hm, hget⟩ := List.mem_iff_getElem.mp (hmem j le_rfl)
      have hle := le_of_sorted h hm
      rcases Nat.lt_or_ge m j with hlt | hge
      · have hself := ih m hlt fun i hi => hmem i (by omega)
        rw [List.getElem?_eq_getElem hm, hget] at hself
        injection hself with hself
        omega
      · obtain rfl : m = j := by omega
        rw [List.getElem?_eq_getElem hm, hget]

/-- And only then. -/
theorem mem_of_sorted {ns : List Nat} (h : ns.Pairwise (· < ·)) {j : Nat}
    (hget : ns[j]? = some j) : ∀ i ≤ j, i ∈ ns := by
  intro i hi
  obtain ⟨hj, hself⟩ := List.getElem?_eq_some_iff.mp hget
  have hle := le_of_sorted h (i := i) (by omega)
  have hadd := add_le_of_sorted h (i := i) (d := j - i) (by omega)
  simp only [show i + (j - i) = j by omega] at hadd
  have hi : ns[i] = i := by omega
  exact hi ▸ List.getElem_mem (by omega)

theorem Snapshot.figures_eq {s : Snapshot} {i : Nat} (hi : i < s.cpus.length) {j : Nat}
    (hj : s.cpus[i].number = j) : s.figures j = some s.cpus[i].line.figures := by
  have hnodup : (s.cpus.map Online.number).Nodup := s.sorted.imp fun h => Nat.ne_of_lt h
  obtain ⟨c, hc⟩ : ∃ c, s.cpus.find? (fun c => c.number = j) = some c :=
    Option.isSome_iff_exists.mp
      (List.find?_isSome.mpr ⟨s.cpus[i], List.getElem_mem hi, by simpa using hj⟩)
  have hnumber : c.number = j := by simpa using List.find?_some hc
  have heq := List.inj_on_of_nodup_map hnodup (List.mem_of_find?_eq_some hc)
    (List.getElem_mem hi) (hnumber.trans hj.symm)
  rw [Snapshot.figures, hc, heq]
  rfl

namespace Snapshot

theorem lines_getElem? {s : Snapshot} {j : Nat} {c : Online} (h : s.cpus[j]? = some c) :
    s.lines[j + 1]? = some c.line.line := by
  obtain ⟨hj, rfl⟩ := List.getElem?_eq_some_iff.mp h
  rw [lines, List.getElem?_cons_succ, List.getElem?_append_left (by simpa using hj),
    List.getElem?_map, List.getElem?_eq_getElem hj]
  rfl

theorem length_lines (s : Snapshot) :
    s.lines.length = s.numbers.length + s.others.length + 1 := by
  simp [lines, numbers]

theorem lines_stray {s : Snapshot} {j : Nat} (h : s.Stray j) :
    ∃ l ∈ s.others, s.lines[j + 1]? = some l := by
  obtain ⟨hfew, hlt⟩ := h
  simp only [Few, numbers, List.length_map] at hfew hlt
  have hothers : j - s.cpus.length < s.others.length := by omega
  refine ⟨_, List.getElem_mem hothers, ?_⟩
  rw [lines, List.getElem?_cons_succ, List.getElem?_append_right (by simpa using hfew),
    List.length_map, List.getElem?_eq_getElem hothers]

theorem read_eq_none {s : Snapshot} {j : Nat} : s.read j = none ↔ s.Few j := by
  simp [read, Few, numbers]

theorem figures_eq_none {s : Snapshot} {j : Nat} : s.figures j = none ↔ j ∉ s.numbers := by
  simp [figures, numbers]

/-- If all CPUs up to one are online, the line in its place is its own. -/
theorem read_eq_figures {s : Snapshot} {j : Nat} (h : ∀ i ≤ j, i ∈ s.numbers) :
    s.read j = s.figures j := by
  have hget : (s.cpus.map Online.number)[j]? = some j := getElem?_of_sorted s.sorted h
  rw [List.getElem?_map, Option.map_eq_some_iff] at hget
  obtain ⟨c, hc, hnumber⟩ := hget
  obtain ⟨hj, rfl⟩ := List.getElem?_eq_some_iff.mp hc
  rw [figures_eq hj hnumber, read, hc]
  rfl

theorem remembers (s : Snapshot) (j : Nat) (t : Tables) :
    Remembers (call (j + 1) t s.lines).2.prev (s.read j) := by
  cases hplace : s.cpus[j]? with
  | some c =>
      rw [read, hplace]
      exact (call_line (lines_getElem? hplace)).1
  | none =>
      have hnone : s.read j = none := by rw [read, hplace]; rfl
      rw [hnone]
      by_cases hstray : s.Stray j
      · obtain ⟨l, hl, hline⟩ := lines_stray hstray
        exact (call_other hline (s.others_no_cpu l hl)).2
      · have hge : s.lines.length ≤ j + 1 := by
          have hfew := read_eq_none.mp hnone
          have hlt : ¬ j < s.numbers.length + s.others.length := fun hlt => hstray ⟨hfew, hlt⟩
          rw [length_lines]
          omega
        exact (call_missing (List.getElem?_eq_none hge)).2

end Snapshot

/-- A call fails if a stray line stands in the place of the CPU's, and returns the rate between the
lines in that place otherwise. -/
theorem result_eq (j : Nat) (before : List Snapshot) (s : Snapshot) [Decidable (s.Stray j)] :
    result (j + 1) (before.map Snapshot.lines) s.lines =
      if s.Stray j then .error (.error (lit "Line has unexpected format"))
      else .ok (rateBetween (before.getLast?.bind (·.read j)) (s.read j)) := by
  split
  · rename_i h
    obtain ⟨l, hl, hline⟩ := Snapshot.lines_stray h
    exact (call_other hline (s.others_no_cpu l hl)).1
  · rename_i h
    have hprev : Remembers (run (j + 1) (before.map Snapshot.lines)).prev
        (before.getLast?.bind (·.read j)) := by
      rcases List.eq_nil_or_concat before with rfl | ⟨before, p, rfl⟩
      · rfl
      · rw [List.concat_eq_append, List.map_append, List.map_singleton, run_concat,
          List.getLast?_concat]
        exact p.remembers j _
    generalize before.getLast?.bind (·.read j) = o at hprev ⊢
    rw [result]
    cases hplace : s.cpus[j]? with
    | some c =>
        rw [(call_line (Snapshot.lines_getElem? hplace)).2 _ hprev, Snapshot.read, hplace]
        cases o with
        | none => rfl
        | some x => rfl
    | none =>
        have hnone : s.read j = none := by rw [Snapshot.read, hplace]; rfl
        have hge : s.lines.length ≤ j + 1 := by
          have hfew := Snapshot.read_eq_none.mp hnone
          have hlt : ¬ j < s.numbers.length + s.others.length := fun hlt => h ⟨hfew, hlt⟩
          rw [Snapshot.length_lines]
          omega
        rw [(call_missing (List.getElem?_eq_none hge)).1, hnone]
        cases o with
        | none => rfl
        | some x => rfl

open Classical in
/-- When a call is right, in terms of the figures. -/
theorem right_iff {j : Nat} {before : List Snapshot} {s : Snapshot} :
    Right j before s ↔ ¬ s.Stray j ∧
      rateBetween (before.getLast?.bind (·.read j)) (s.read j) =
        rateBetween (before.getLast?.bind (·.figures j)) (s.figures j) := by
  rw [Right, result_eq]
  by_cases h : s.Stray j
  · simp [h]
  · simp [h]

/-! ## Other figures -/

/-- A line of a CPU that was busy and idle for some time. -/
def CpuLine.busy (label : Bytes) (user idle : Nat)
    (h : ∀ b ∈ label, CharClass.digit.test b = true) : CpuLine where
  label := label
  user := .spaced user
  nice := .spaced 0
  system := .spaced 0
  idle := .spaced idle
  iowait := .spaced 0
  irq := .spaced 0
  softirq := .spaced 0
  steal := .spaced 0
  guest := .spaced 0
  guestNice := .spaced 0
  trail := []
  label_digit := h
  trail_space := by simp

/-- Its figures. -/
def busyFigures (x : Nat × Nat) : Figures := ⟨x.1, 0, 0, x.2, 0, 0, 0⟩

/-- A CPU that is online, with such a line. -/
def Online.busy (f : Nat → Nat × Nat) (c : Online) : Online where
  number := c.number
  line := .busy (Text.decimal c.number) (f c.number).1 (f c.number).2
    fun _ hb => test_digit.mpr (Text.mem_decimal hb)
  label_eq := rfl

theorem Online.busy_figures (f : Nat → Nat × Nat) (c : Online) :
    (c.busy f).line.figures = busyFigures (f c.number) := by
  simp [Online.busy, CpuLine.busy, CpuLine.figures, busyFigures, Field.spaced]

namespace Snapshot

/-- The snapshot with such lines for the CPUs. -/
def busy (s : Snapshot) (f : Nat → Nat × Nat) : Snapshot where
  total := s.total
  cpus := s.cpus.map (Online.busy f)
  others := s.others
  total_label := s.total_label
  sorted := by
    rw [List.map_map]
    exact s.sorted
  others_no_cpu := s.others_no_cpu

theorem Alike.refl {s : Snapshot} : s.Alike s := ⟨rfl, rfl⟩

theorem alike_busy (s : Snapshot) (f : Nat → Nat × Nat) : s.Alike (s.busy f) where
  numbers := by
    rw [numbers, busy, List.map_map]
    rfl
  others := rfl

theorem read_busy (s : Snapshot) (f : Nat → Nat × Nat) (j : Nat) :
    (s.busy f).read j = s.numbers[j]?.map fun n => busyFigures (f n) := by
  rw [read, busy, numbers, List.getElem?_map, List.getElem?_map, Option.map_map, Option.map_map]
  exact Option.map_congr fun c _ => c.busy_figures f

theorem figures_busy {s : Snapshot} {f : Nat → Nat × Nat} {j : Nat} (h : j ∈ s.numbers) :
    (s.busy f).figures j = some (busyFigures (f j)) := by
  rw [figures, busy, List.find?_map, Option.map_map]
  have hfun : ((fun c : Online => decide (c.number = j)) ∘ Online.busy f) =
      fun c => decide (c.number = j) := rfl
  rw [hfun]
  cases hfind : s.cpus.find? fun c => c.number = j with
  | none => exact absurd h (figures_eq_none.mp (by rw [figures, hfind]; rfl))
  | some c =>
      have hnumber : c.number = j := by simpa using List.find?_some hfind
      rw [Option.map_some, Function.comp_apply, c.busy_figures f, hnumber]

theorem Alike.stray {s s' : Snapshot} (h : s.Alike s') {j : Nat} : s'.Stray j ↔ s.Stray j := by
  rw [Stray, Few, h.numbers, h.others]
  rfl

end Snapshot

theorem Follows.alike {j : Nat} {p p' s s' : Snapshot} (h : Follows j p s) (hp : p.Alike p')
    (hs : s.Alike s') : Follows j p' s' := by
  rw [Follows, Snapshot.Few, Snapshot.Few, hp.numbers, hs.numbers]
  exact h

/-- The rate is the right one if the lines are found. -/
theorem Follows.rateBetween_eq {j : Nat} {p s : Snapshot} (h : Follows j p s) :
    rateBetween (p.read j) (s.read j) = rateBetween (p.figures j) (s.figures j) := by
  have hnone {x y : Option Figures} (hxy : x = none ∨ y = none) : rateBetween x y = none := by
    rcases hxy with rfl | rfl
    · rfl
    · cases x <;> rfl
  rcases h with ⟨hp, hs⟩ | ⟨hfew, hoffline⟩
  · rw [Snapshot.read_eq_figures hp, Snapshot.read_eq_figures hs]
  · rw [hnone (hfew.imp Snapshot.read_eq_none.mpr Snapshot.read_eq_none.mpr),
      hnone (hoffline.imp Snapshot.figures_eq_none.mpr Snapshot.figures_eq_none.mpr)]

theorem rate_busyFigures (x y : Nat × Nat) :
    (busyFigures x).rate (busyFigures y) =
      .fin (max 0 (y.1 - x.1)) / .fin (max 0 (y.1 + y.2 - (x.1 + x.2))) := by
  simp [Figures.rate, Figures.gains, Figures.total, busyFigures]

theorem isSome_rateBetween {x y : Option Figures} :
    (rateBetween x y).isSome ↔ x ≠ none ∧ y ≠ none := by
  cases x <;> cases y <;> simp [rateBetween]

/-- If the rate is the right one for all figures, the lines are found. -/
theorem follows_of_forall {j : Nat} {p s : Snapshot}
    (h : ∀ p' s', p.Alike p' → s.Alike s' →
      rateBetween (p'.read j) (s'.read j) = rateBetween (p'.figures j) (s'.figures j)) :
    Follows j p s := by
  have hsome : ¬ (p.Few j ∨ s.Few j) ↔ j ∈ p.numbers ∧ j ∈ s.numbers := by
    have heq := congrArg Option.isSome (h p s .refl .refl)
    rw [Bool.eq_iff_iff, isSome_rateBetween, isSome_rateBetween, ne_eq, ne_eq, ne_eq, ne_eq,
      Snapshot.read_eq_none, Snapshot.read_eq_none, Snapshot.figures_eq_none,
      Snapshot.figures_eq_none, not_not, not_not] at heq
    rw [not_or]
    exact heq
  by_cases hfew : p.Few j ∨ s.Few j
  · refine .inr ⟨hfew, ?_⟩
    by_contra hboth
    rw [not_or, not_not, not_not] at hboth
    exact hsome.mpr hboth hfew
  · obtain ⟨hp, hs⟩ := hsome.mp hfew
    rw [not_or, Snapshot.Few, Snapshot.Few, Nat.not_le, Nat.not_le] at hfew
    have hbusy (f g : Nat → Nat × Nat) :
        (busyFigures (f p.numbers[j])).rate (busyFigures (g s.numbers[j])) =
          (busyFigures (f j)).rate (busyFigures (g j)) := by
      have heq := h (p.busy f) (s.busy g) (p.alike_busy f) (s.alike_busy g)
      rw [p.read_busy, s.read_busy, Snapshot.figures_busy hp, Snapshot.figures_busy hs,
        List.getElem?_eq_getElem hfew.1, List.getElem?_eq_getElem hfew.2] at heq
      exact Option.some.inj heq
    -- Otherwise the CPU in the place is busy, and the one that was asked for idle.
    have hcur : s.numbers[j] = j := by
      by_contra hne
      have heq := hbusy (fun _ => (0, 0)) fun n => if n = j then (0, 1) else (1, 0)
      rw [if_neg hne, if_pos rfl, rate_busyFigures, rate_busyFigures] at heq
      norm_num [LuaNum.fin_div] at heq
    -- Otherwise the CPU in the place was idle before, and so the rest of its time is less.
    have hprev : p.numbers[j] = j := by
      by_contra hne
      have heq := hbusy (fun n => if n = j then (0, 0) else (0, 1)) fun _ => (1, 1)
      rw [if_neg hne, if_pos rfl, rate_busyFigures, rate_busyFigures] at heq
      norm_num [LuaNum.fin_div] at heq
    refine .inl ⟨mem_of_sorted p.sorted ?_, mem_of_sorted s.sorted ?_⟩
    · exact (List.getElem?_eq_getElem hfew.1).trans (congrArg some hprev)
    · exact (List.getElem?_eq_getElem hfew.2).trans (congrArg some hcur)

/-- A call after others is right, whatever the figures in the lines are, if and only if no stray
line stands in the place of the CPU's, and the lines are found from the snapshot before to this
one. -/
theorem getUsage_right_iff {j : Nat} {before : List Snapshot} {s : Snapshot} :
    (∀ before' s', List.Forall₂ Snapshot.Alike before before' → s.Alike s' → Right j before' s') ↔
      ¬ s.Stray j ∧ ∀ p ∈ before.getLast?, Follows j p s := by
  constructor
  · intro h
    have hself := right_iff.mp (h before s (List.forall₂_same.mpr fun _ _ => .refl) .refl)
    refine ⟨hself.1, fun p hp => follows_of_forall fun p' s' hp' hs' => ?_⟩
    obtain ⟨before, rfl⟩ := List.getLast?_eq_some_iff.mp hp
    have hright := right_iff.mp (h (before ++ [p']) s'
      (List.rel_append (List.forall₂_same.mpr fun _ _ => .refl) (.cons hp' .nil)) hs')
    simpa using hright.2
  · rintro ⟨hstray, hfollows⟩ before' s' hbefore hs
    refine right_iff.mpr ⟨fun h => hstray (hs.stray.mp h), ?_⟩
    rcases List.eq_nil_or_concat before with rfl | ⟨before, p, rfl⟩
    · cases hbefore
      rfl
    · rw [List.concat_eq_append] at hfollows hbefore
      rcases List.eq_nil_or_concat before' with rfl | ⟨before', p', rfl⟩
      · cases before <;> cases hbefore
      · rw [List.concat_eq_append] at hbefore ⊢
        have hreverse := List.rel_reverse hbefore
        rw [List.reverse_append, List.reverse_append] at hreverse
        cases hreverse with
        | cons hp _ =>
            have hlast := (hfollows p (by simp)).alike hp hs
            simpa using hlast.rateBetween_eq

/-- A snapshot with one CPU that is online. -/
def oneCpu (number : Nat) : Snapshot where
  total := CpuLine.uniform [] 1 (by simp)
  cpus := [⟨number, CpuLine.uniform (Text.decimal number) 1
    (fun b hb => test_digit.mpr (Text.mem_decimal hb)), rfl⟩]
  others := [lit "intr 1"]
  total_label := rfl
  sorted := by simp
  others_no_cpu := by decide

theorem getUsage_right_iff_cpu0 : Right 0 [oneCpu 0] (oneCpu 0) := by
  refine getUsage_right_iff.mpr ⟨?_, fun p hp => .inl ?_⟩ _ _ (.cons .refl .nil) .refl
  · simp [Snapshot.Stray, Snapshot.Few, Snapshot.numbers, oneCpu]
  · obtain rfl : oneCpu 0 = p := by simpa using hp
    simp [Snapshot.numbers, oneCpu]

/-- With only `cpu1` online, the calls for `cpu0` measure it instead of returning `nil`. -/
theorem getUsage_cpu1 : ¬ Right 0 [oneCpu 1] (oneCpu 1) := by
  have hline : (oneCpu 1).lines[1]? = some (CpuLine.uniform (Text.decimal 1) 1
      (fun b hb => test_digit.mpr (Text.mem_decimal hb))).line := rfl
  have hprev : Remembers (run 1 ([oneCpu 1].map Snapshot.lines)).prev _ := (call_line hline).1
  rw [Right, result, (call_line hline).2 _ hprev]
  intro h
  cases h

end Luastatus.CpuUsageLinux
