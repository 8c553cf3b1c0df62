import Luastatus.Lib.Brackets
import Luastatus.Lib.CString
import Luastatus.Lib.Cuts
import Luastatus.LibLs.Strarr

/-!
# Group names

`wrongly_parse_layout` and `somehow_parse_symbols` cut a string into the names of the groups, the
one at commas and the other at plus signs.  Both count parentheses with an unsigned counter and cut
where it is zero.  It wraps below zero at a closing parenthesis that nothing has opened, and it
comes back to zero when the numbers of both agree again (`balanceLoop_eq`).

`wronglyParseLayout_pieces` says what the pieces of a layout are.
-/

namespace Luastatus.Xkb

open Text (Byte Bytes CString ch lit)
open LibLs Brackets Cuts

/-! ## The code -/

/-- A C string in memory: its size, with the terminator, is a `size_t`. -/
structure MemString extends CString where
  fits : bytes.length + 1 < 2 ^ 64

/-- The loop of both functions, at the index `i` of the memory; the piece begins at the index
`prev`.  `flush` takes the memory from there on and the size of the piece.  The result is nothing
if an access is out of bounds. -/
def balanceLoop (delim : Byte) (flush : Bytes → Nat → StringArray → Option StringArray)
    (mem : Bytes) (i prev balance : Nat) (out : StringArray) : Option StringArray :=
  match _h : mem[i]? with
  | none => none
  | some c =>
      if c = ch '(' then
        balanceLoop delim flush mem (i + 1) prev ((balance + 1) % 2 ^ 64) out
      else if c = ch ')' then
        balanceLoop delim flush mem (i + 1) prev ((balance + (2 ^ 64 - 1)) % 2 ^ 64) out
      else if c = delim then
        if balance = 0 then do
          let out ← flush (mem.drop prev) (i - prev) out
          balanceLoop delim flush mem (i + 1) (i + 1) balance out
        else balanceLoop delim flush mem (i + 1) prev balance out
      else if c = 0 then flush (mem.drop prev) (i - prev) out
      else balanceLoop delim flush mem (i + 1) prev balance out
termination_by mem.length - i
decreasing_by
  all_goals
    have := (List.getElem?_eq_some_iff.mp _h).1
    omega

/-- `wrongly_parse_layout`: the array after it. -/
def wronglyParseLayout (layout : Bytes) (out : StringArray) : Option StringArray :=
  balanceLoop (ch ',') (fun s n out => some (lsStrarrAppend out (s.take n))) (layout ++ [0]) 0 0 0
    out

/-! ## The pieces -/

/-- As many parentheses have been closed as opened. -/
def Balanced (s : Bytes) : Prop := s.count (ch '(') = s.count (ch ')')

instance : DecidablePred Balanced := fun s =>
  inferInstanceAs (Decidable (s.count (ch '(') = s.count (ch ')')))

theorem balanced_iff {s : Bytes} : Balanced s ↔ depth (ch '(') (ch ')') s = 0 := by
  rw [Balanced, depth]
  omega

/-! ## The counter -/

/-- The depth after one more byte. -/
theorem depth_concat (t : Bytes) (c : Byte) :
    depth (ch '(') (ch ')') (t ++ [c]) =
      depth (ch '(') (ch ')') t + weight (ch '(') (ch ')') c := by
  rw [depth_append, depth_cons (by decide), depth_nil, add_zero]

/-- The counter is zero if and only if the parentheses are balanced: what has been read is too
short for a depth that is another multiple of the modulus. -/
theorem counter_eq_zero_iff {t : Bytes} {balance : Nat} (hlen : t.length < 2 ^ 64)
    (h : (balance : Int) = depth (ch '(') (ch ')') t % 2 ^ 64) : balance = 0 ↔ Balanced t := by
  have hop := List.count_le_length (a := ch '(') (l := t)
  have hcl := List.count_le_length (a := ch ')') (l := t)
  rw [balanced_iff]
  rw [depth] at h ⊢
  omega

section Loop

variable {delim : Byte} {flush : Bytes → Nat → StringArray → Option StringArray}
  {g : StringArray → Bytes → StringArray}

theorem balanceLoop_of_some {mem : Bytes} {i prev balance : Nat} {out : StringArray} {c : Byte}
    (h : mem[i]? = some c) :
    balanceLoop delim flush mem i prev balance out =
      if c = ch '(' then
        balanceLoop delim flush mem (i + 1) prev ((balance + 1) % 2 ^ 64) out
      else if c = ch ')' then
        balanceLoop delim flush mem (i + 1) prev ((balance + (2 ^ 64 - 1)) % 2 ^ 64) out
      else if c = delim then
        if balance = 0 then
          flush (mem.drop prev) (i - prev) out >>= fun out =>
            balanceLoop delim flush mem (i + 1) (i + 1) balance out
        else balanceLoop delim flush mem (i + 1) prev balance out
      else if c = 0 then flush (mem.drop prev) (i - prev) out
      else balanceLoop delim flush mem (i + 1) prev balance out := by
  rw [balanceLoop]
  split
  · rename_i hnone
    cases h.symm.trans hnone
  · rename_i c' hc'
    cases h.symm.trans hc'
    rfl

/-- A byte at which the string is not cut only counts. -/
theorem balanceLoop_count {mem : Bytes} {i prev balance : Nat} {out : StringArray} {c : Byte}
    {n : Int} (hread : mem[i]? = some c) (hc : c ≠ 0) (hcut : ¬ (c = delim ∧ balance = 0))
    (hbal : (balance : Int) = n % 2 ^ 64) :
    ∃ balance' : Nat, (balance' : Int) = (n + weight (ch '(') (ch ')') c) % 2 ^ 64 ∧
      balanceLoop delim flush mem i prev balance out =
        balanceLoop delim flush mem (i + 1) prev balance' out := by
  rw [balanceLoop_of_some hread]
  by_cases hcop : c = ch '('
  · have hw : weight (ch '(') (ch ')') c = 1 := if_pos hcop
    refine ⟨(balance + 1) % 2 ^ 64, ?_, if_pos hcop⟩
    rw [hw]
    omega
  rw [if_neg hcop]
  by_cases hccl : c = ch ')'
  · have hw : weight (ch '(') (ch ')') c = -1 := by
      rw [hccl]
      exact weight_close (by decide)
    refine ⟨(balance + (2 ^ 64 - 1)) % 2 ^ 64, ?_, if_pos hccl⟩
    rw [hw]
    omega
  rw [if_neg hccl]
  have hw : weight (ch '(') (ch ')') c = 0 := weight_other hcop hccl
  refine ⟨balance, by rw [hw, add_zero, hbal], ?_⟩
  by_cases hcd : c = delim
  · rw [if_pos hcd, if_neg fun h0 => hcut ⟨hcd, h0⟩]
  · rw [if_neg hcd, if_neg hc]

/-- At a cut the piece is flushed. -/
theorem balanceLoop_cut {mem : Bytes} {i prev : Nat} {out : StringArray} (hop : delim ≠ ch '(')
    (hcl : delim ≠ ch ')') (hread : mem[i]? = some delim) :
    balanceLoop delim flush mem i prev 0 out =
      flush (mem.drop prev) (i - prev) out >>= fun out =>
        balanceLoop delim flush mem (i + 1) (i + 1) 0 out := by
  rw [balanceLoop_of_some hread, if_neg hop, if_neg hcl, if_pos rfl, if_pos rfl]

/-- The loop flushes the pieces of the string one after the other.  `done` has been flushed, and
`piece` has been read since. -/
theorem balanceLoop_eq (hop : delim ≠ ch '(') (hcl : delim ≠ ch ')') (hnul : delim ≠ 0)
    (hflush : ∀ piece rest out, flush (piece ++ rest) piece.length out = some (g out piece))
    (s : Bytes) :
    ∀ (done piece : Bytes) (balance : Nat) (out : StringArray), (0 : Byte) ∉ s →
      (done ++ piece ++ s).length < 2 ^ 64 →
      (balance : Int) = depth (ch '(') (ch ')') (done ++ piece) % 2 ^ 64 →
      balanceLoop delim flush (done ++ piece ++ (s ++ [0])) (done ++ piece).length done.length
          balance out =
        some ((cutFrom delim Balanced (done ++ piece) piece s).foldl g out) := by
  have hflush' (done piece rest : Bytes) (out : StringArray) :
      flush ((done ++ piece ++ rest).drop done.length)
        ((done ++ piece).length - done.length) out = some (g out piece) := by
    rw [List.append_assoc, List.drop_left, List.length_append, Nat.add_sub_cancel_left, hflush]
  induction s with
  | nil =>
      intro done piece balance out _ _ _
      have hread : (done ++ piece ++ ([] ++ [0]))[(done ++ piece).length]? = some 0 := by simp
      rw [balanceLoop_of_some hread, if_neg (by decide), if_neg (by decide), if_neg hnul.symm,
        if_pos rfl, hflush']
      rfl
  | cons c s ih =>
      intro done piece balance out hs hlen hbal
      have hc : c ≠ 0 := fun he => hs (he ▸ List.mem_cons_self)
      have hs' : (0 : Byte) ∉ s := List.not_mem_of_not_mem_cons hs
      have hread : (done ++ piece ++ (c :: s ++ [0]))[(done ++ piece).length]? = some c := by
        simp
      have hshort : (done ++ piece).length < 2 ^ 64 := by
        rw [List.length_append] at hlen
        omega
      have hiff := counter_eq_zero_iff hshort hbal
      have hdepth := depth_concat (done ++ piece) c
      by_cases hcut : c = delim ∧ Balanced (done ++ piece)
      · obtain ⟨rfl, hB⟩ := hcut
        obtain rfl : balance = 0 := hiff.mpr hB
        have hw : weight (ch '(') (ch ')') c = 0 := weight_other hop hcl
        have hnext := ih (done ++ piece ++ [c]) [] 0 (g out piece) hs'
          (by simpa using hlen) (by rw [List.append_nil, hdepth, hw, add_zero, hbal])
        rw [balanceLoop_cut hop hcl hread, hflush', cutFrom_of_pos hB]
        simpa [Nat.add_assoc] using hnext
      · -- the byte joins the piece
        have hcut' : ¬ (c = delim ∧ balance = 0) := by
          rintro ⟨hcd, h0⟩
          exact hcut ⟨hcd, hiff.mp h0⟩
        have hlen' : (done ++ (piece ++ [c]) ++ s).length < 2 ^ 64 := by
          simp only [List.length_append, List.length_cons, List.length_nil] at hlen ⊢
          omega
        obtain ⟨balance', hbal', hloop⟩ := balanceLoop_count hread hc hcut' hbal
        rw [← hdepth, List.append_assoc] at hbal'
        have hnext := ih done (piece ++ [c]) balance' out hs' hlen' hbal'
        rw [hloop, cutFrom_of_neg hcut]
        simpa [Nat.add_assoc] using hnext

/-- What becomes of a string in memory. -/
theorem balanceLoop_memString (hop : delim ≠ ch '(') (hcl : delim ≠ ch ')') (hnul : delim ≠ 0)
    (hflush : ∀ piece rest out, flush (piece ++ rest) piece.length out = some (g out piece))
    (s : MemString) (out : StringArray) :
    balanceLoop delim flush (s.bytes ++ [0]) 0 0 0 out =
      some ((cutAt delim Balanced s.bytes).foldl g out) := by
  have hfits : s.bytes.length < 2 ^ 64 := Nat.lt_of_succ_lt s.fits
  exact balanceLoop_eq hop hcl hnul hflush s.bytes [] [] 0 out s.noNul hfits rfl

end Loop

theorem foldl_lsStrarrAppend (ps ss : List Bytes) :
    ps.foldl lsStrarrAppend (.ofList ss) = .ofList (ss ++ ps) := by
  induction ps generalizing ss with
  | nil => rw [List.foldl_nil, List.append_nil]
  | cons p ps ih =>
      rw [List.foldl_cons, lsStrarrAppend_ofList, ih, List.append_assoc, List.singleton_append]

/-- What `wrongly_parse_layout` appends. -/
theorem wronglyParseLayout_eq (layout : MemString) (ss : List Bytes) :
    wronglyParseLayout layout.bytes (.ofList ss) =
      some (.ofList (ss ++ cutAt (ch ',') Balanced layout.bytes)) := by
  rw [wronglyParseLayout, balanceLoop_memString (g := lsStrarrAppend) (by decide) (by decide)
    (by decide) ?_ layout, foldl_lsStrarrAppend]
  intro piece rest out
  rw [List.take_left]

/-! ## The names of the groups -/

/-- A name in which the parentheses match and every comma stands inside of them. -/
structure GroupName (g : Bytes) : Prop where
  nested : Nested (ch '(') (ch ')') g
  enclosed : ∀ p q, g = p ++ ch ',' :: q → Enclosed (ch '(') (ch ')') p (ch ',') q

theorem GroupName.depth_eq_zero {g : Bytes} (h : GroupName g) :
    depth (ch '(') (ch ')') g = 0 := (h.nested.level (by decide)).zero

theorem GroupName.not_balanced {g p q : Bytes} (h : GroupName g) (hg : g = p ++ ch ',' :: q) :
    ¬ Balanced p := by
  rw [balanced_iff]
  exact (enclosed_iff (by decide) (by decide) (by decide) (hg ▸ h.nested)).mp (h.enclosed p q hg)

/-- The depth of some names with commas after them. -/
theorem depth_flatMap_names {gs : List Bytes} (h : ∀ g ∈ gs, GroupName g) :
    depth (ch '(') (ch ')') (gs.flatMap (· ++ [ch ','])) = 0 := by
  induction gs with
  | nil => rw [List.flatMap_nil, depth_nil]
  | cons g gs ih =>
      have hg := (h g List.mem_cons_self).depth_eq_zero
      rw [List.flatMap_cons, depth_append, depth_append, hg,
        ih fun g' hg' => h g' (List.mem_cons_of_mem g hg')]
      decide

/-- A layout that is made of names, joined with commas, is cut into these names. -/
theorem cutAt_names {gs : List Bytes} (hne : gs ≠ []) (h : ∀ g ∈ gs, GroupName g) :
    cutAt (ch ',') Balanced ([ch ','].intercalate gs) = gs := by
  have hfront {gs₁ gs₂ : List Bytes} {g : Bytes} (he : gs = gs₁ ++ g :: gs₂) (p : Bytes) :
      Balanced (gs₁.flatMap (· ++ [ch ',']) ++ p) ↔ Balanced p := by
    have hz : depth (ch '(') (ch ')') (gs₁.flatMap (· ++ [ch ','])) = 0 :=
      depth_flatMap_names fun g' hg' => h g' (he ▸ List.mem_append_left _ hg')
    rw [balanced_iff, balanced_iff, depth_append, hz, zero_add]
  refine cutAt_intercalate hne ?_ ?_
  · intro gs₁ g gs₂ he p q hpq
    rw [hfront he]
    exact (h g (by rw [he]; simp)).not_balanced hpq
  · intro gs₁ g gs₂ he _
    rw [hfront he, balanced_iff]
    exact (h g (by rw [he]; simp)).depth_eq_zero

/-- `wrongly_parse_layout` appends the pieces of the layout, cut at the commas before which as many
parentheses have been closed as opened.  In a layout in which the parentheses match these are the
commas that no parentheses enclose, and the pieces are the names of the groups. -/
theorem wronglyParseLayout_pieces (layout : MemString) (ss : List Bytes) :
    ∃ ps, wronglyParseLayout layout.bytes (.ofList ss) = some (.ofList (ss ++ ps)) ∧ ps ≠ [] ∧
      [ch ','].intercalate ps = layout.bytes ∧
      (∀ p q, layout.bytes = p ++ ch ',' :: q →
        (CutsAfter (ch ',') ps p ↔ p.count (ch '(') = p.count (ch ')'))) ∧
      ((∀ p q, layout.bytes = p ++ q → p.count (ch ')') ≤ p.count (ch '(')) →
        layout.bytes.count (ch '(') = layout.bytes.count (ch ')') →
        (∀ p q, layout.bytes = p ++ ch ',' :: q →
          (CutsAfter (ch ',') ps p ↔ ¬ Enclosed (ch '(') (ch ')') p (ch ',') q)) ∧
        ∀ gs, gs ≠ [] → layout.bytes = [ch ','].intercalate gs → (∀ g ∈ gs, GroupName g) →
          ps = gs) := by
  refine ⟨_, wronglyParseLayout_eq layout ss, cutFrom_ne_nil _ _ _, intercalate_cutAt _,
    fun p q he => cutAt_iff he, ?_⟩
  intro hprefix heq
  refine ⟨fun p q he => ?_, ?_⟩
  · have hnested : Nested (ch '(') (ch ')') (p ++ ch ',' :: q) := by
      rw [← he, nested_iff (by decide)]
      refine ⟨fun p q he => ?_, ?_⟩
      · have := hprefix p q he
        rw [depth]
        omega
      · rw [depth]
        omega
    rw [cutAt_iff he, enclosed_iff (by decide) (by decide) (by decide) hnested, balanced_iff,
      not_not]
  · intro gs hne he hnames
    rw [he, cutAt_names hne hnames]

/-- Two groups, the first with a variant in which a comma stands. -/
example : (wronglyParseLayout (lit "us(a,b),ru") (.ofList [])) =
    some (.ofList [lit "us(a,b)", lit "ru"]) :=
  wronglyParseLayout_eq ⟨⟨lit "us(a,b),ru", by decide⟩, by decide⟩ []

end Luastatus.Xkb
