import Luastatus.Barlib.Texts

/-!
# Arrays of strings and joined strings

A widget may return an array of strings instead of the string with the non-empty ones of them joined
by the separator.  In `set()` the two take different ways: of an array each string is cleaned alone,
and the separator goes before a string that is not empty if what has been written so far is not.

So the separator is lost behind strings that are not empty but of which nothing is left, as long as
nothing else has been written.  `lostSeparators` is what is lost, and it is nothing if and only if
`KeepsSeparators`.
-/

namespace Luastatus.Barlib

open Text (Bytes ch)
open LibLs Lua Join

variable {F : Type} {n : Nat}

/-- Returning one value or the other gives the widget the same buffer. -/
def SameBuffer (D : Drawing F) (written : Bool) (p : Priv n) (w : Fin n) (a b : Arg F) : Prop :=
  ∃ q q' status status', D.set written p w a = .ok (q, status) ∧
    D.set written p w b = .ok (q', status') ∧ q.bufs w = q'.bufs w

theorem sameBuffer_iff {D : Drawing F} {R : Rendering F} (hR : D.Renders R) {written : Bool}
    {p : Priv n} {w : Fin n} {a b : Arg F} {t t' : Bytes} (ha : R.text w a = some t)
    (hb : R.text w b = some t') : SameBuffer D written p w a b ↔ t = t' := by
  obtain ⟨q, status, hset, hbuf⟩ := set_bufs_of_some hR written p ha
  obtain ⟨q', status', hset', hbuf'⟩ := set_bufs_of_some hR written p hb
  constructor
  · rintro ⟨q₁, q₁', s₁, s₁', h₁, h₁', he⟩
    rw [hset] at h₁
    rw [hset'] at h₁'
    cases h₁
    cases h₁'
    rw [← hbuf, he, hbuf']
  · rintro rfl
    exact ⟨q, q', status, status', hset, hset', hbuf.trans hbuf'.symm⟩

/-! ## What is lost -/

/-- A string of which nothing is left without its newlines. -/
def Blank (s : Bytes) : Prop := ∀ b ∈ s, b = ch '\n'

instance : DecidablePred Blank := fun s => inferInstanceAs (Decidable (∀ b ∈ s, b = ch '\n'))

/-- The strings that are not empty. -/
def nonempty (strings : List Bytes) : List Bytes := strings.filter (· ≠ [])

/-- From the first string on of which something is left. -/
def visible (strings : List Bytes) : List Bytes :=
  (nonempty strings).dropWhile fun s => decide (Blank s)

/-- The blank strings before it. -/
def blanks (strings : List Bytes) : List Bytes :=
  (nonempty strings).takeWhile fun s => decide (Blank s)

/-- The separators between the blank strings, and behind them if another string follows. -/
def lostSeparators (sep : Bytes) (strings : List Bytes) : Bytes :=
  (List.replicate ((blanks strings).length - if visible strings = [] then 1 else 0) sep).flatten

/-- There is no separator to lose, or the first string that is not empty is not blank. -/
def KeepsSeparators (sep : Bytes) (strings : List Bytes) : Prop :=
  sep = [] ∨ (nonempty strings).length ≤ 1 ∨ ∃ s, (nonempty strings).head? = some s ∧ ¬ Blank s

variable {sep : Bytes} {strings : List Bytes}

theorem blanks_append_visible (strings : List Bytes) :
    blanks strings ++ visible strings = nonempty strings := List.takeWhile_append_dropWhile

theorem blank_of_mem_blanks {s : Bytes} (h : s ∈ blanks strings) : Blank s :=
  of_decide_eq_true (List.mem_takeWhile_imp (p := fun s => decide (Blank s)) h)

theorem lostSeparators_eq_nil_iff :
    lostSeparators sep strings = [] ↔ KeepsSeparators sep strings := by
  have hlen : (blanks strings).length + (visible strings).length = (nonempty strings).length := by
    rw [← blanks_append_visible strings, List.length_append]
  have hflat : ∀ k, (List.replicate k sep).flatten = [] ↔ k = 0 ∨ sep = [] := by
    intro k
    rw [List.flatten_eq_nil_iff]
    simp only [List.mem_replicate]
    cases k <;> simp
  rw [lostSeparators, hflat, KeepsSeparators]
  cases hparts : nonempty strings with
  | nil =>
      have : blanks strings = [] := by rw [blanks, hparts, List.takeWhile_nil]
      simp [this]
  | cons s rest =>
      rw [hparts, List.length_cons] at hlen
      by_cases hs : Blank s
      · -- a blank string in front: a separator is lost unless it is the only string
        have hblanks : 0 < (blanks strings).length := by
          rw [blanks, hparts, List.takeWhile_cons_of_pos (by simpa using hs)]
          exact Nat.succ_pos _
        simp only [List.length_cons, List.head?_cons, Option.some.injEq, exists_eq_left', hs,
          not_true_eq_false, or_false]
        rw [or_comm]
        refine or_congr_right ?_
        split
        · rename_i hvisible
          rw [hvisible, List.length_nil] at hlen
          omega
        · rename_i hvisible
          have := List.length_pos_iff.mpr hvisible
          omega
      · have : blanks strings = [] := by
          rw [blanks, hparts, List.takeWhile_cons_of_neg (by simpa using hs)]
        simp [this, hs]

/-! ## The text of an array -/

theorem joinStrings_cons_nil {clean : Bytes → Bytes} (hnil : clean [] = []) (buf : Bytes)
    (l : List Bytes) : joinStrings clean sep buf ([] :: l) = joinStrings clean sep buf l := by
  rw [joinStrings, List.foldl_cons, if_neg (by simp), hnil, List.append_nil, joinStrings]

/-- Empty strings do not count. -/
theorem joinStrings_nonempty {clean : Bytes → Bytes} (hnil : clean [] = []) (l : List Bytes) :
    ∀ buf, joinStrings clean sep buf l = joinStrings clean sep buf (nonempty l) := by
  induction l with
  | nil => exact fun _ => rfl
  | cons s l ih =>
      intro buf
      by_cases hs : s = []
      · rw [hs, joinStrings_cons_nil hnil, ih, nonempty, nonempty,
          List.filter_cons_of_neg (by simp)]
      · rw [nonempty, List.filter_cons_of_pos (by simpa using hs)]
        exact ih _

/-- Behind what has been written every string gets its separator. -/
theorem joinStrings_of_ne_nil {clean : Bytes → Bytes} {l : List Bytes} (hl : ∀ s ∈ l, s ≠ []) :
    ∀ buf, buf ≠ [] →
      joinStrings clean sep buf l = buf ++ (l.map clean).flatMap (sep ++ ·) := by
  induction l with
  | nil => exact fun buf _ => (List.append_nil buf).symm
  | cons s l ih =>
      intro buf hbuf
      have hs := hl s List.mem_cons_self
      have hrest := ih (fun s' h => hl s' (List.mem_cons_of_mem s h)) (buf ++ sep ++ clean s)
        (by simp [hbuf])
      rw [joinStrings, List.foldl_cons, if_pos ⟨hbuf, hs⟩]
      change joinStrings clean sep (buf ++ sep ++ clean s) l = _
      rw [hrest, List.map_cons, List.flatMap_cons]
      simp only [List.append_assoc]

/-- What is shown of an array: the cleaned strings from the first visible one on, joined. -/
theorem joinStrings_eq {clean : Bytes → Bytes} (hclean : ∀ s, clean s = [] ↔ Blank s)
    (strings : List Bytes) :
    joinStrings clean sep [] strings = sep.intercalate ((visible strings).map clean) := by
  have hnil : clean [] = [] := (hclean []).mpr (by simp [Blank])
  have hne : ∀ s ∈ nonempty strings, s ≠ [] := fun s hs => by
    simpa using (List.mem_filter.mp hs).2
  rw [joinStrings_nonempty hnil, visible]
  generalize nonempty strings = l at hne
  induction l with
  | nil => rfl
  | cons s l ih =>
      have hl : ∀ s' ∈ l, s' ≠ [] := fun s' h => hne s' (List.mem_cons_of_mem s h)
      rw [joinStrings, List.foldl_cons, if_neg (by simp), List.nil_append]
      change joinStrings clean sep (clean s) l = _
      by_cases hs : Blank s
      · rw [(hclean s).mpr hs, ih hl, List.dropWhile_cons_of_pos (by simpa using hs)]
      · rw [joinStrings_of_ne_nil hl _ fun h => hs ((hclean s).mp h),
          List.dropWhile_cons_of_neg (by simpa using hs), List.map_cons, intercalate_cons]

/-- Joining with blank strings in front. -/
theorem intercalate_blanks {α : Type} {f : Bytes → List α} (hf : ∀ s, Blank s → f s = [])
    (sep' : List α) (strings : List Bytes) :
    sep'.intercalate ((nonempty strings).map f) =
      (List.replicate ((blanks strings).length - if visible strings = [] then 1 else 0)
        sep').flatten ++ sep'.intercalate ((visible strings).map f) := by
  have hblank : ∀ s ∈ blanks strings, f s = [] := fun s hs => hf s (blank_of_mem_blanks hs)
  rw [← blanks_append_visible strings, List.map_append]
  generalize blanks strings = bs at hblank
  have hmap : bs.map f = List.replicate bs.length [] :=
    List.map_eq_replicate_iff.mpr hblank
  rw [hmap]
  generalize bs.length = k
  cases hv : (visible strings).map f with
  | nil =>
      have hnil : visible strings = [] := List.map_eq_nil_iff.mp hv
      rw [if_pos hnil, List.append_nil, List.intercalate_nil, List.append_nil]
      cases k with
      | zero => rfl
      | succ k =>
          rw [List.replicate_succ, intercalate_cons, List.nil_append, Nat.add_sub_cancel]
          simp [List.flatMap_replicate]
  | cons t ts =>
      have hne : visible strings ≠ [] := by
        rintro he
        rw [he] at hv
        cases hv
      rw [if_neg hne, Nat.sub_zero]
      induction k with
      | zero => rfl
      | succ k ih =>
          rw [List.replicate_succ, List.cons_append, List.intercalate_cons_of_ne_nil (by simp), ih,
            List.nil_append, List.replicate_succ, List.flatten_cons, List.append_assoc]

end Luastatus.Barlib
