import Luastatus.Xkb.Pieces
import Luastatus.Xkb.Wrongly

/-!
# Symbols

`somehow_parse_symbols` cuts the symbols string of the keyboard at plus signs, and leaves out the
empty pieces and those that a list of bad entries names.  The entries are separated by commas.  An
entry names a piece that is equal to it or goes on with a parenthesis or a colon.

Neither the pieces nor the entries have a terminator of their own: a comparison is given the memory
from their start on, and their size (`badMatches_eq`).
-/

namespace Luastatus.Xkb

open Text (Byte Bytes CString ch lit)
open LibLs Cuts
open Lines (delim_induction)

/-! ## The code -/

/-- Whether `memcmp` is zero. -/
def memEq (a b : Bytes) (n : Nat) : Option Bool :=
  if n ≤ a.length ∧ n ≤ b.length then some (a.take n == b.take n) else none

/-- `bad_matches`. -/
def badMatches (bad : Bytes) (nbad : Nat) (s : Bytes) (ns : Nat) : Option Bool :=
  if ns ≥ nbad then do
    let eq ← memEq bad s nbad
    if eq then
      if ns = nbad then return true
      let c ← s[nbad]?
      return decide (c = ch '(' ∨ c = ch ':')
    else return false
  else some false

/-- `strchr`: the index of the character, or nothing for `NULL`. -/
def strchr (c : Byte) : Bytes → Option (Option Nat)
  | [] => none
  | b :: bs =>
      if b = c then some (some 0)
      else if b = 0 then some none
      else (strchr c bs).map fun r => r.map (· + 1)

theorem strchr_lt {c : Byte} {s : Bytes} {k : Nat} (h : strchr c s = some (some k)) :
    k < s.length := by
  induction s generalizing k with
  | nil => cases h
  | cons b bs ih =>
      rw [strchr] at h
      split at h
      · cases h
        exact Nat.succ_pos _
      · split at h
        · cases h
        · obtain ⟨r, hr, h⟩ := Option.map_eq_some_iff.mp h
          obtain ⟨j, rfl, rfl⟩ := Option.map_eq_some_iff.mp h
          exact Nat.succ_lt_succ (ih hr)

/-- The loop of `check_bad`, and the comparison after it. -/
def checkBadLoop (bad s : Bytes) (ns : Nat) : Option Bool :=
  match _h : strchr (ch ',') bad with
  | none => none
  | some none => do
      let n ← strlen bad
      badMatches bad n s ns
  | some (some k) => do
      let found ← badMatches bad k s ns
      if found then return true
      checkBadLoop (bad.drop (k + 1)) s ns
termination_by bad.length
decreasing_by
  have := strchr_lt _h
  rw [List.length_drop]
  omega

/-- `check_bad`. -/
def checkBad (bad s : Bytes) (ns : Nat) : Option Bool :=
  if ns = 0 then some true
  else do
    let c ← bad[0]?
    if c = 0 then return false
    checkBadLoop bad s ns

/-- `somehow_parse_symbols`: the array after it. -/
def somehowParseSymbols (symbols : Bytes) (out : StringArray) (bad : Bytes) :
    Option StringArray :=
  balanceLoop (ch '+')
    (fun s n out => do
      let isBad ← checkBad (bad ++ [0]) s n
      return if isBad then out else lsStrarrAppend out (s.take n))
    (symbols ++ [0]) 0 0 0 out

/-! ## Bad entries -/

/-- The entries of a list. -/
def badEntries (bad : Bytes) : List Bytes := if bad = [] then [] else bad.splitOn (ch ',')

/-- An entry names a piece. -/
def Matches (e s : Bytes) : Prop := s = e ∨ e ++ [ch '('] <+: s ∨ e ++ [ch ':'] <+: s

instance (e s : Bytes) : Decidable (Matches e s) :=
  inferInstanceAs (Decidable (s = e ∨ e ++ [ch '('] <+: s ∨ e ++ [ch ':'] <+: s))

/-- A piece that is kept. -/
def Kept (bad s : Bytes) : Prop := s ≠ [] ∧ ∀ e ∈ badEntries bad, ¬ Matches e s

instance (bad s : Bytes) : Decidable (Kept bad s) :=
  inferInstanceAs (Decidable (s ≠ [] ∧ ∀ e ∈ badEntries bad, ¬ Matches e s))

theorem Matches.prefix {e s : Bytes} (h : Matches e s) : e <+: s := by
  rcases h with rfl | h | h
  · exact List.prefix_refl _
  · exact (List.prefix_append e _).trans h
  · exact (List.prefix_append e _).trans h

theorem matches_append_cons_iff {e t : Bytes} {c : Byte} :
    Matches e (e ++ c :: t) ↔ c = ch '(' ∨ c = ch ':' := by
  have hne : e ++ c :: t ≠ e := by simp
  rw [Matches, List.prefix_append_right_inj, List.prefix_append_right_inj, List.cons_prefix_cons,
    List.cons_prefix_cons]
  simp [hne, eq_comm]

/-- The comparison reads inside of the piece and inside of the entry only. -/
theorem badMatches_eq (e r piece rest : Bytes) :
    badMatches (e ++ r) e.length (piece ++ rest) piece.length =
      some (decide (Matches e piece)) := by
  rw [badMatches]
  by_cases hlen : piece.length ≥ e.length
  · have hmem : memEq (e ++ r) (piece ++ rest) e.length = some (e == piece.take e.length) := by
      rw [memEq, if_pos (by simp; omega), List.take_left, List.take_append_of_le_length hlen]
    rw [if_pos hlen, hmem]
    by_cases hpre : e <+: piece
    · obtain ⟨t, rfl⟩ := hpre
      rw [List.take_left, beq_self_eq_true]
      cases t with
      | nil =>
          have hm : Matches e e := .inl rfl
          simp [hm]
      | cons c t =>
          have hread : (e ++ c :: t ++ rest)[e.length]? = some c := by simp
          simp only [Option.bind_eq_bind, Option.bind_some, if_true, hread,
            matches_append_cons_iff]
          rw [if_neg (by simp)]
          rfl
    · have hne : (e == piece.take e.length) = false :=
        beq_false_of_ne fun he => hpre (he ▸ List.take_prefix _ _)
      have hm : ¬ Matches e piece := fun h => hpre h.prefix
      rw [hne, decide_eq_false hm]
      rfl
  · have hm : ¬ Matches e piece := fun h => hlen h.prefix.length_le
    rw [if_neg hlen, decide_eq_false hm]

/-- The search goes on behind bytes that are neither the character nor NUL. -/
theorem strchr_append {c : Byte} {l : Bytes} (h : c ∉ l) (hnul : (0 : Byte) ∉ l) (r : Bytes) :
    strchr c (l ++ r) = (strchr c r).map fun k => k.map (· + l.length) := by
  induction l with
  | nil => simp
  | cons b l ih =>
      have hb : b ≠ c := fun he => h (he ▸ List.mem_cons_self)
      have hb0 : b ≠ 0 := fun he => hnul (he ▸ List.mem_cons_self)
      rw [List.cons_append, strchr, if_neg hb, if_neg hb0,
        ih (fun hm => h (List.mem_cons_of_mem b hm)) fun hm => hnul (List.mem_cons_of_mem b hm)]
      simp [Function.comp_def, Nat.add_assoc]

theorem strchr_append_cons {c : Byte} {l : Bytes} (h : c ∉ l) (hnul : (0 : Byte) ∉ l) (r : Bytes) :
    strchr c (l ++ c :: r) = some (some l.length) := by
  rw [strchr_append h hnul, strchr, if_pos rfl, Option.map_some, Option.map_some, Nat.zero_add]

theorem strchr_of_not_mem {c : Byte} (hc : c ≠ 0) {l : Bytes} (h : c ∉ l) (hnul : (0 : Byte) ∉ l) :
    strchr c (l ++ [0]) = some none := by
  rw [strchr_append h hnul, strchr, if_neg hc.symm, if_pos rfl, Option.map_some, Option.map_none]

theorem checkBadLoop_of_null {bad s : Bytes} {n ns : Nat} (h : strchr (ch ',') bad = some none)
    (hn : strlen bad = some n) : checkBadLoop bad s ns = badMatches bad n s ns := by
  rw [checkBadLoop]
  split
  · rename_i hnone
    cases h.symm.trans hnone
  · rw [hn]
    rfl
  · rename_i hsome
    cases h.symm.trans hsome

theorem checkBadLoop_of_some {bad s : Bytes} {k ns : Nat} {found : Bool}
    (h : strchr (ch ',') bad = some (some k)) (hk : badMatches bad k s ns = some found) :
    checkBadLoop bad s ns =
      if found then some true else checkBadLoop (bad.drop (k + 1)) s ns := by
  rw [checkBadLoop]
  split
  · rename_i hnone
    cases h.symm.trans hnone
  · rename_i hnull
    cases h.symm.trans hnull
  · rename_i k' hsome
    cases h.symm.trans hsome
    rw [hk]
    cases found <;> rfl

/-- The loop compares the piece with every entry. -/
theorem checkBadLoop_eq (bad piece rest : Bytes) :
    (0 : Byte) ∉ bad →
      checkBadLoop (bad ++ [0]) (piece ++ rest) piece.length =
        some (decide (∃ e ∈ bad.splitOn (ch ','), Matches e piece)) := by
  induction bad using delim_induction (ch ',') with
  | rest l hl =>
      intro hnul
      have hone : (∃ e ∈ l.splitOn (ch ','), Matches e piece) ↔ Matches l piece := by
        rw [List.splitOn_eq_singleton hl]
        simp
      rw [checkBadLoop_of_null (strchr_of_not_mem (by decide) hl hnul)
        (strlen_append_cons hnul []), badMatches_eq]
      simp only [hone]
  | chunk l r hl ih =>
      intro hnul
      have hnul' : (0 : Byte) ∉ l ∧ (0 : Byte) ∉ r := by
        rw [List.mem_append, List.mem_cons] at hnul
        exact ⟨fun h => hnul (.inl h), fun h => hnul (.inr (.inr h))⟩
      have hsplit : (∃ e ∈ (l ++ ch ',' :: r).splitOn (ch ','), Matches e piece) ↔
          Matches l piece ∨ ∃ e ∈ r.splitOn (ch ','), Matches e piece := by
        rw [List.splitOn_append_cons_self_of_not_mem hl]
        simp
      have hdrop : (l ++ ch ',' :: (r ++ [0])).drop (l.length + 1) = r ++ [0] := by simp
      rw [List.append_assoc, List.cons_append,
        checkBadLoop_of_some (strchr_append_cons hl hnul'.1 _) (badMatches_eq l _ piece rest),
        hdrop, ih hnul'.2]
      simp only [hsplit]
      by_cases hm : Matches l piece <;> simp [hm]

/-- `check_bad` tells whether a piece is left out. -/
theorem checkBad_eq (bad : CString) (piece rest : Bytes) :
    checkBad (bad.bytes ++ [0]) (piece ++ rest) piece.length =
      some (!decide (Kept bad.bytes piece)) := by
  rw [checkBad]
  by_cases hempty : piece = []
  · simp [hempty, Kept]
  · have hlen : piece.length ≠ 0 := fun h => hempty (List.eq_nil_of_length_eq_zero h)
    rw [if_neg hlen]
    cases hb : bad.bytes with
    | nil =>
        have hkept : Kept [] piece := ⟨hempty, by simp [badEntries]⟩
        simp [hkept]
    | cons b bs =>
        have hnul : (0 : Byte) ∉ b :: bs := hb ▸ bad.noNul
        have hb0 : b ≠ 0 := fun he => hnul (he ▸ List.mem_cons_self)
        have hkept : Kept (b :: bs) piece ↔
            ¬ ∃ e ∈ (b :: bs).splitOn (ch ','), Matches e piece := by
          rw [Kept, badEntries, if_neg (List.cons_ne_nil b bs)]
          simp [hempty]
        have hread : (b :: bs ++ [0])[0]? = some b := rfl
        simp only [hread, Option.bind_eq_bind, Option.bind_some, hb0, if_false]
        rw [checkBadLoop_eq _ piece rest hnul, decide_eq_decide.mpr hkept, decide_not,
          Bool.not_not]

/-! ## The pieces that are kept -/

theorem foldl_kept (bad : Bytes) (ps ss : List Bytes) :
    ps.foldl (fun out s => if Kept bad s then lsStrarrAppend out s else out) (.ofList ss) =
      .ofList (ss ++ ps.filter (fun s => decide (Kept bad s))) := by
  induction ps generalizing ss with
  | nil => rw [List.foldl_nil, List.filter_nil, List.append_nil]
  | cons p ps ih =>
      rw [List.foldl_cons]
      by_cases hp : Kept bad p
      · rw [if_pos hp, lsStrarrAppend_ofList, ih, List.filter_cons, if_pos (decide_eq_true hp),
          List.append_assoc, List.singleton_append]
      · rw [if_neg hp, ih, List.filter_cons, if_neg (by simp [hp])]

/-- `somehow_parse_symbols` appends, in their order, the pieces of the symbols string that are not
empty and that no bad entry names.  The string is cut at the plus signs before which as many
parentheses have been closed as opened. -/
theorem somehowParseSymbols_pieces (symbols : MemString) (bad : CString) (ss : List Bytes) :
    ∃ ps, somehowParseSymbols symbols.bytes (.ofList ss) bad.bytes =
        some (.ofList (ss ++ ps.filter (fun s => decide (Kept bad.bytes s)))) ∧ ps ≠ [] ∧
      [ch '+'].intercalate ps = symbols.bytes ∧
      ∀ p q, symbols.bytes = p ++ ch '+' :: q →
        (CutsAfter (ch '+') ps p ↔ p.count (ch '(') = p.count (ch ')')) := by
  refine ⟨cutAt (ch '+') Balanced symbols.bytes, ?_, cutFrom_ne_nil _ _ _, intercalate_cutAt _,
    fun p q he => cutAt_iff he⟩
  rw [← foldl_kept, somehowParseSymbols]
  refine balanceLoop_memString (by decide) (by decide) (by decide) ?_ symbols (.ofList ss)
  intro piece rest out
  rw [checkBad_eq, List.take_left]
  by_cases hk : Kept bad.bytes piece <;> simp [hk]

/-- A piece that a bad entry begins is kept, unless a parenthesis or a colon follows. -/
example : somehowParseSymbols (lit "pc+us+inet(evdev)+pcx") (.ofList []) (lit "inet,pc") =
    some (.ofList [lit "us", lit "pcx"]) := by
  decide +kernel

end Luastatus.Xkb
