import Mathlib.Data.List.Basic

/-!
# Splitting a stream at a delimiter

`lines d s` is what a reader of a delimited stream is to report: every chunk that the delimiter
`d` ends, without the delimiter, and the rest after the last delimiter if it is not empty.

`untilDelim d s` is one chunk as an input routine delivers it, with its delimiter, and the stream
after it.  A stream is either free of the delimiter or a delimited chunk followed by a stream
(`delim_induction`), and both functions have one equation for each of the two cases.
-/

namespace Lines

variable {α : Type*} [DecidableEq α]

/-- The parts of a stream that the delimiter separates, without an empty last part. -/
def lines (d : α) (s : List α) : List (List α) :=
  (s.splitOn d).dropLast ++ (s.splitOn d).getLast?.toList.filter (· ≠ [])

/-- The stream up to and including the first delimiter, and what follows. -/
def untilDelim (d : α) : List α → List α × List α
  | [] => ([], [])
  | x :: xs =>
      if x = d then ([x], xs)
      else ((x :: (untilDelim d xs).1), (untilDelim d xs).2)

variable {d : α}

/-! ## The two kinds of stream -/

theorem lines_of_not_mem {s : List α} (h : d ∉ s) : lines d s = if s = [] then [] else [s] := by
  rw [lines, List.splitOn_eq_singleton h]
  by_cases hs : s = [] <;> simp [hs]

theorem lines_append_cons {l : List α} (h : d ∉ l) (r : List α) :
    lines d (l ++ d :: r) = l :: lines d r := by
  have hne : r.splitOn d ≠ [] := List.splitOn_ne_nil d r
  have hlast : (l :: r.splitOn d).getLast? = (r.splitOn d).getLast? := by
    rw [List.getLast?_cons, List.getLast?_eq_some_getLast hne, Option.getD_some]
  rw [lines, List.splitOn_append_cons_self_of_not_mem h, List.dropLast_cons_of_ne_nil hne, hlast,
    List.cons_append, lines]

theorem untilDelim_of_not_mem {s : List α} (h : d ∉ s) : untilDelim d s = (s, []) := by
  induction s with
  | nil => rfl
  | cons x xs ih =>
      have hx : x ≠ d := fun he => h (he ▸ List.mem_cons_self)
      rw [untilDelim, if_neg hx, ih fun hm => h (List.mem_cons_of_mem x hm)]

theorem untilDelim_append_cons {l : List α} (h : d ∉ l) (r : List α) :
    untilDelim d (l ++ d :: r) = (l ++ [d], r) := by
  induction l with
  | nil => rw [List.nil_append, untilDelim, if_pos rfl, List.nil_append]
  | cons x xs ih =>
      have hx : x ≠ d := fun he => h (he ▸ List.mem_cons_self)
      rw [List.cons_append, untilDelim, if_neg hx, ih fun hm => h (List.mem_cons_of_mem x hm),
        List.cons_append]

/-- A chunk is a part of the stream: nothing is lost and nothing added. -/
theorem untilDelim_append (s : List α) : (untilDelim d s).1 ++ (untilDelim d s).2 = s := by
  induction s with
  | nil => rfl
  | cons x xs ih =>
      rw [untilDelim]
      split
      · rfl
      · rw [List.cons_append, ih]

theorem untilDelim_fst_ne_nil {s : List α} (h : s ≠ []) : (untilDelim d s).1 ≠ [] := by
  cases s with
  | nil => exact absurd rfl h
  | cons x xs =>
      rw [untilDelim]
      split <;> simp

theorem untilDelim_snd_length_lt {s : List α} (h : s ≠ []) :
    (untilDelim d s).2.length < s.length := by
  have hlen := congrArg List.length (untilDelim_append (d := d) s)
  have hpos := List.length_pos_iff.mpr (untilDelim_fst_ne_nil (d := d) h)
  rw [List.length_append] at hlen
  omega

/-- Induction over the chunks of a stream. -/
theorem delim_induction (d : α) {P : List α → Prop} (rest : ∀ s, d ∉ s → P s)
    (chunk : ∀ l r, d ∉ l → P r → P (l ++ d :: r)) (s : List α) : P s := by
  by_cases h : d ∈ s
  · obtain ⟨l, r, hs, hl⟩ := List.eq_append_cons_of_mem h
    have hlt : r.length < s.length := by simp [hs]; omega
    exact hs ▸ chunk l r hl (delim_induction d rest chunk r)
  · exact rest s h
termination_by s.length

end Lines
