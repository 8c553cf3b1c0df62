import Luastatus.Lib.Strtol

/-!
# Lua patterns

A pattern is a list of items: single characters of a class, repetitions of them, and the two ends of
a capture.  `doMatch` tries the items one after the other, as `lstrlib.c` does: a greedy repetition
takes as many characters as it can and gives one back whenever what follows does not match, a lazy
one begins with none.

A repetition over a run of characters takes the whole run if the rest matches behind it
(`doMatch_plus`), so a text whose parts are delimited by the classes themselves is matched part by
part.
-/

namespace Lua.Pattern

open Text (Byte Bytes isSpace ch)

/-- A character class. -/
inductive CharClass where
  /-- `.` -/
  | any
  | char (b : Byte)
  /-- `%s` -/
  | space
  /-- `%S` -/
  | nonSpace
  /-- `%d` -/
  | digit
deriving DecidableEq, Repr

/-- Whether a character is in the class, in the C locale. -/
def CharClass.test : CharClass → Byte → Bool
  | any, _ => true
  | char b, b' => b = b'
  | space, b => isSpace b
  | nonSpace, b => !isSpace b
  | digit, b => ch '0' ≤ b && b ≤ ch '9'

/-- An item of a pattern. -/
inductive Item where
  | one (c : CharClass)
  /-- `*` -/
  | star (c : CharClass)
  /-- `+` -/
  | plus (c : CharClass)
  /-- `-` -/
  | lazy (c : CharClass)
  /-- `(` -/
  | openCapture
  /-- `)` -/
  | closeCapture
  /-- `$` at the end. -/
  | atEnd
deriving DecidableEq, Repr

/-- A capture: closed, or open with what follows its beginning. -/
inductive Capture where
  | opened (start : Bytes)
  | closed (s : Bytes)
deriving DecidableEq, Repr

/-- Close the last capture that is open, in front of the given rest.  The newest one comes first. -/
def closeLast (rest : Bytes) : List Capture → List Capture
  | [] => []
  | .opened start :: caps => .closed (start.take (start.length - rest.length)) :: caps
  | .closed s :: caps => .closed s :: closeLast rest caps

/-- The numbers from `n` down to 0. -/
def countdown (n : Nat) : List Nat := (List.range (n + 1)).reverse

/-- `match` of `lstrlib.c`: the captures if the items match at the beginning of the subject. -/
def doMatch : List Item → Bytes → List Capture → Option (List Capture)
  | [], _, caps => some caps
  | .one c :: p, s, caps =>
      match s with
      | [] => none
      | b :: s => if c.test b then doMatch p s caps else none
  | .star c :: p, s, caps =>
      (countdown (s.takeWhile c.test).length).findSome? fun i => doMatch p (s.drop i) caps
  | .plus c :: p, s, caps =>
      match s with
      | [] => none
      | b :: s =>
          if c.test b then
            (countdown (s.takeWhile c.test).length).findSome? fun i => doMatch p (s.drop i) caps
          else none
  | .lazy c :: p, s, caps =>
      (List.range ((s.takeWhile c.test).length + 1)).findSome? fun i => doMatch p (s.drop i) caps
  | .openCapture :: p, s, caps => doMatch p s (.opened s :: caps)
  | .closeCapture :: p, s, caps => doMatch p s (closeLast s caps)
  | .atEnd :: p, s, caps => if s = [] then doMatch p s caps else none

/-- The strings of the captures, the oldest one first. -/
def captured (caps : List Capture) : List Bytes :=
  caps.reverse.filterMap fun
    | .closed s => some s
    | .opened _ => none

/-- `string.match` with `^` in front of the items. -/
def matchAnchored (p : List Item) (s : Bytes) : Option (List Bytes) :=
  (doMatch p s []).map captured

/-- `string.match` without it: the first place where the items match. -/
def matchAnywhere (p : List Item) (s : Bytes) : Option (List Bytes) :=
  s.tails.findSome? fun s => matchAnchored p s

/-- The items of a literal text. -/
def text (s : Bytes) : List Item := s.map fun b => .one (.char b)

/-! ## Matching a text part by part -/

/-- A run of characters of the class, and what follows it. -/
structure Run (c : CharClass) (u t : Bytes) : Prop where
  inside : ∀ b ∈ u, c.test b = true
  outside : ∀ b ∈ t.head?, c.test b = false

variable {c : CharClass} {p : List Item} {u t s : Bytes} {b : Byte} {caps r : List Capture}

theorem doMatch_nil : doMatch [] s caps = some caps := rfl

theorem doMatch_one_cons :
    doMatch (.one c :: p) (b :: s) caps = if c.test b then doMatch p s caps else none := rfl

theorem doMatch_star_eq :
    doMatch (.star c :: p) s caps =
      (countdown (s.takeWhile c.test).length).findSome? fun i => doMatch p (s.drop i) caps := rfl

theorem doMatch_plus_cons :
    doMatch (.plus c :: p) (b :: s) caps =
      if c.test b then doMatch (.star c :: p) s caps else none := rfl

theorem doMatch_lazy_eq :
    doMatch (.lazy c :: p) s caps =
      (List.range ((s.takeWhile c.test).length + 1)).findSome? fun i =>
        doMatch p (s.drop i) caps := rfl

theorem doMatch_openCapture :
    doMatch (.openCapture :: p) s caps = doMatch p s (.opened s :: caps) := rfl

theorem doMatch_closeCapture :
    doMatch (.closeCapture :: p) s caps = doMatch p s (closeLast s caps) := rfl

theorem Run.takeWhile (h : Run c u t) : (u ++ t).takeWhile c.test = u := by
  rw [List.takeWhile_append_of_pos h.inside]
  cases t with
  | nil => rw [List.takeWhile_nil, List.append_nil]
  | cons b t =>
      rw [List.takeWhile_cons_of_neg (by simp [h.outside b rfl]), List.append_nil]

theorem countdown_succ (n : Nat) : countdown (n + 1) = (n + 1) :: countdown n := by
  rw [countdown, List.range_succ, List.reverse_append]
  rfl

theorem countdown_eq_cons (n : Nat) : ∃ l, countdown n = n :: l := by
  cases n with
  | zero => exact ⟨[], rfl⟩
  | succ n => exact ⟨countdown n, countdown_succ n⟩

theorem doMatch_text (s t : Bytes) (p : List Item) (caps : List Capture) :
    doMatch (text s ++ p) (s ++ t) caps = doMatch p t caps := by
  induction s with
  | nil => rfl
  | cons b s ih =>
      rw [text, List.map_cons, List.cons_append, List.cons_append, doMatch_one_cons]
      simp only [CharClass.test, decide_true, if_true]
      exact ih

/-- A greedy repetition takes a whole run if the rest matches behind it. -/
theorem doMatch_star (hrun : Run c u t) (h : doMatch p t caps = some r) :
    doMatch (.star c :: p) (u ++ t) caps = some r := by
  obtain ⟨l, hl⟩ := countdown_eq_cons u.length
  rw [doMatch_star_eq, hrun.takeWhile, hl, List.findSome?_cons, List.drop_left, h]

theorem Run.tail (hrun : Run c (b :: u) t) : Run c u t :=
  ⟨fun b' hb' => hrun.inside b' (List.mem_cons_of_mem b hb'), hrun.outside⟩

theorem doMatch_plus (hu : u ≠ []) (hrun : Run c u t) (h : doMatch p t caps = some r) :
    doMatch (.plus c :: p) (u ++ t) caps = some r := by
  obtain ⟨b, u, rfl⟩ := List.exists_cons_of_ne_nil hu
  rw [List.cons_append, doMatch_plus_cons, if_pos (hrun.inside b List.mem_cons_self)]
  exact doMatch_star hrun.tail h

theorem doMatch_star_back (hrun : Run c (u ++ [b]) t) (hnone : doMatch p t caps = none)
    (h : doMatch p (b :: t) caps = some r) :
    doMatch (.star c :: p) (u ++ b :: t) caps = some r := by
  obtain ⟨l, hl⟩ := countdown_eq_cons u.length
  have happend : u ++ b :: t = (u ++ [b]) ++ t := by simp
  have hlength : (u ++ [b]).length = u.length + 1 := by simp
  rw [doMatch_star_eq, happend, hrun.takeWhile, hlength, countdown_succ, hl, List.findSome?_cons,
    List.findSome?_cons, ← hlength, List.drop_left, hnone, ← happend, List.drop_left, h]

/-- It gives the last character of the run back if the rest matches only with it. -/
theorem doMatch_plus_back (hu : u ≠ []) (hrun : Run c (u ++ [b]) t)
    (hnone : doMatch p t caps = none) (h : doMatch p (b :: t) caps = some r) :
    doMatch (.plus c :: p) (u ++ b :: t) caps = some r := by
  obtain ⟨b', u, rfl⟩ := List.exists_cons_of_ne_nil hu
  rw [List.cons_append, doMatch_plus_cons, if_pos (hrun.inside b' List.mem_cons_self)]
  exact doMatch_star_back (Run.tail hrun) hnone h

theorem closeLast_opened (u t : Bytes) (caps : List Capture) :
    closeLast t (.opened (u ++ t) :: caps) = .closed u :: caps := by
  rw [closeLast, List.length_append, Nat.add_sub_cancel_right, List.take_left]

/-- A captured run. -/
theorem doMatch_capture (hu : u ≠ []) (hrun : Run c u t)
    (h : doMatch p t (.closed u :: caps) = some r) :
    doMatch (.openCapture :: .plus c :: .closeCapture :: p) (u ++ t) caps = some r := by
  rw [doMatch_openCapture]
  refine doMatch_plus hu hrun ?_
  rw [doMatch_closeCapture, closeLast_opened]
  exact h

/-- A lazy repetition stops where the rest matches for the first time. -/
theorem doMatch_lazy (hu : ∀ b ∈ u, c.test b = true) (h : doMatch p t caps = some r)
    (hnone : ∀ v, v ≠ [] → v <:+ u → doMatch p (v ++ t) caps = none) :
    doMatch (.lazy c :: p) (u ++ t) caps = some r := by
  rw [doMatch_lazy_eq, List.takeWhile_append_of_pos hu, List.length_append, Nat.add_assoc,
    List.range_add]
  have hbefore :
      (List.range u.length).findSome? (fun i => doMatch p ((u ++ t).drop i) caps) = none := by
    refine List.findSome?_eq_none_iff.mpr fun i hi => ?_
    have hi := List.mem_range.mp hi
    rw [List.drop_append_of_le_length hi.le]
    exact hnone _ (by simpa using hi) (List.drop_suffix i u)
  rw [List.findSome?_append, hbefore, Option.none_or, List.range_succ_eq_map, List.map_cons,
    List.findSome?_cons, Nat.add_zero, List.drop_left, h]

theorem prefix_of_doMatch_text {w : Bytes} (h : doMatch (text w ++ p) s caps = some r) :
    w <+: s := by
  induction w generalizing s with
  | nil => exact List.nil_prefix
  | cons b w ih =>
      cases s with
      | nil => cases h
      | cons b' s =>
          rw [text, List.map_cons, List.cons_append, doMatch_one_cons] at h
          split at h
          · rename_i hb
            obtain rfl : b = b' := of_decide_eq_true hb
            exact List.cons_prefix_cons.mpr ⟨rfl, ih h⟩
          · cases h

/-- Items that begin with a text do not match where it does not occur. -/
theorem matchAnywhere_text_eq_none {w : Bytes} (h : ¬ w <:+: s) :
    matchAnywhere (text w ++ p) s = none := by
  refine List.findSome?_eq_none_iff.mpr fun t ht => ?_
  rw [matchAnchored, Option.map_eq_none_iff, Option.eq_none_iff_forall_ne_some]
  intro r hr
  exact h ((prefix_of_doMatch_text hr).isInfix.trans ((List.mem_tails t s).mp ht).isInfix)

theorem matchAnywhere_of_matchAnchored {strings : List Bytes}
    (h : matchAnchored p s = some strings) : matchAnywhere p s = some strings := by
  cases s with
  | nil => rw [matchAnywhere, List.tails, List.findSome?_cons, h]
  | cons b s => rw [matchAnywhere, List.tails, List.findSome?_cons, h]

end Lua.Pattern
