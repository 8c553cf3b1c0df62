import Luastatus.Lib.Bytes
import Luastatus.LibLs.Panic

/-!
# Views of byte strings

A `SAFEV` is a pointer and a length; here it is the bytes.  The accessors check their bounds with
`LIBSAFE_ASSERT`, which aborts as `LS_ASSERT` does.
-/

namespace Luastatus.Libsafe

open Text (Byte Bytes)
open LibLs

/-- `SAFEV_at`. -/
def safevAt (v : Bytes) (i : Nat) : Except AssertFailure Byte := do
  lsAssert (i < v.length) "i < v.n__"
  return v.getD i 0

/-- `SAFEV_at_or`. -/
def safevAtOr (v : Bytes) (i : Nat) (alt : Byte) : Byte := v.getD i alt

/-- `SAFEV_subspan`. -/
def safevSubspan (v : Bytes) (i j : Nat) : Except AssertFailure Bytes := do
  lsAssert (i ≤ j) "i <= j"
  lsAssert (j ≤ v.length) "j <= v.n__"
  return (v.drop i).take (j - i)

/-- `SAFEV_suffix`. -/
def safevSuffix (v : Bytes) (fromIdx : Nat) : Except AssertFailure Bytes := do
  lsAssert (fromIdx ≤ v.length) "from_idx <= v.n__"
  return v.drop fromIdx

/-- `SAFEV_index_of`, nothing for `(size_t) -1`. -/
def safevIndexOf (v : Bytes) (c : Byte) : Option Nat := v.findIdx? (· == c)

/-- `SAFEV_starts_with`. -/
def safevStartsWith (v pre : Bytes) : Bool :=
  if pre.length > v.length then false
  else if pre.length = 0 then true
  else pre == v.take pre.length

/-- `SAFEV_equals`. -/
def safevEquals (v v1 : Bytes) : Bool :=
  if v.length ≠ v1.length then false
  else if v.length = 0 then true
  else v == v1

/-- `SAFEV_rstrip_once`. -/
def safevRstripOnce (v : Bytes) (c : Byte) : Except AssertFailure Bytes :=
  if v.length = 0 then .ok v
  else do
    let last ← safevAt v (v.length - 1)
    if last ≠ c then return v
    safevSubspan v 0 (v.length - 1)

variable {v cs : Bytes} {c : Byte} {i j prev : Nat}

theorem lt_length_of_drop (h : v.drop i = c :: cs) : i < v.length :=
  List.length_lt_of_drop_ne_nil (by rw [h]; exact List.cons_ne_nil c cs)

theorem drop_succ_of_drop (h : v.drop i = c :: cs) : v.drop (i + 1) = cs := by
  rw [← List.drop_drop, h]
  rfl

theorem getElem?_of_drop (h : v.drop i = c :: cs) : v[i]? = some c := by
  rw [← List.head?_drop, h]
  rfl

theorem safevAt_eq (h : v.drop i = c :: cs) : safevAt v i = .ok c := by
  rw [safevAt, lsAssert_bind_of_pos (lt_length_of_drop h), List.getD_eq_getElem?_getD,
    getElem?_of_drop h]
  rfl

/-- Peeking ahead reads the list from the index on. -/
theorem safevAtOr_add (v : Bytes) (i k : Nat) (alt : Byte) :
    safevAtOr v (i + k) alt = ((v.drop i)[k]?).getD alt := by
  rw [safevAtOr, List.getD_eq_getElem?_getD, List.getElem?_drop]

theorem safevSubspan_eq (hij : i ≤ j) (hj : j ≤ v.length) :
    safevSubspan v i j = .ok ((v.drop i).take (j - i)) := by
  rw [safevSubspan, lsAssert_bind_of_pos hij, lsAssert_bind_of_pos hj]
  rfl

theorem safevSuffix_eq (hi : i ≤ v.length) : safevSuffix v i = .ok (v.drop i) := by
  rw [safevSuffix, lsAssert_bind_of_pos hi]
  rfl

/-- A suffix that leaves something out is shorter. -/
theorem safevSuffix_length_lt {rest : Bytes} (hi : 0 < i) (h : safevSuffix v i = .ok rest) :
    rest.length < v.length := by
  by_cases hle : i ≤ v.length
  · rw [safevSuffix_eq hle] at h
    rw [← Except.ok.inj h, List.length_drop]
    omega
  · rw [safevSuffix, lsAssert_bind_of_neg hle] at h
    cases h

theorem safevIndexOf_of_not_mem (h : c ∉ v) : safevIndexOf v c = none := by
  rw [safevIndexOf, List.findIdx?_eq_none_iff]
  intro b hb
  exact beq_false_of_ne fun he => h (he ▸ hb)

theorem safevIndexOf_append_cons (h : c ∉ v) (rest : Bytes) :
    safevIndexOf (v ++ c :: rest) c = some v.length := by
  have := safevIndexOf_of_not_mem h
  rw [safevIndexOf] at this
  simp [safevIndexOf, List.findIdx?_append, List.findIdx?_cons, this]

/-! ## Comparing and stripping -/

theorem safevStartsWith_iff {v pre : Bytes} : safevStartsWith v pre = true ↔ pre <+: v := by
  rw [safevStartsWith, List.prefix_iff_eq_take]
  split
  · rename_i h
    have hne : pre ≠ v.take pre.length := by
      intro he
      have := congrArg List.length he
      rw [List.length_take] at this
      omega
    simp [hne]
  · split
    · rename_i h
      simp [List.eq_nil_of_length_eq_zero h]
    · rw [beq_iff_eq]

theorem safevEquals_iff {v v1 : Bytes} : safevEquals v v1 = true ↔ v = v1 := by
  rw [safevEquals]
  split
  · rename_i h
    have hne : v ≠ v1 := fun he => h (congrArg List.length he)
    simp [hne]
  · rename_i h
    split
    · rename_i h0
      rw [not_not, h0] at h
      simp [List.eq_nil_of_length_eq_zero h0, List.eq_nil_of_length_eq_zero h.symm]
    · rw [beq_iff_eq]

theorem safevRstripOnce_concat (v : Bytes) (c : Byte) : safevRstripOnce (v ++ [c]) c = .ok v := by
  have hlen : (v ++ [c]).length - 1 = v.length := by simp
  have hlast : (v ++ [c]).drop v.length = [c] := by simp
  rw [safevRstripOnce, if_neg (by simp), hlen, safevAt_eq hlast, ok_bind, if_neg (by simp),
    safevSubspan_eq (Nat.zero_le _) (by simp)]
  simp

theorem safevRstripOnce_of_not_mem (h : c ∉ v) : safevRstripOnce v c = .ok v := by
  rw [safevRstripOnce]
  split
  · rfl
  · rename_i hlen
    have hne : v ≠ [] := fun he => hlen (congrArg List.length he)
    have hlast : v.drop (v.length - 1) = [v.getLast hne] := List.drop_length_sub_one hne
    have hc : v.getLast hne ≠ c := fun he => h (he ▸ List.getLast_mem hne)
    rw [safevAt_eq hlast, ok_bind, if_pos hc]
    rfl

/-! A loop that copies runs of bytes keeps two indices: `i`, and `prev`, from which on the bytes are
still to be copied. -/

/-- One more byte is still to be copied. -/
theorem take_succ_of_drop (hprev : prev ≤ i) (h : v.drop i = c :: cs) :
    (v.drop prev).take (i + 1 - prev) = (v.drop prev).take (i - prev) ++ [c] := by
  have hat : (v.drop prev)[i - prev]? = some c := by
    rw [List.getElem?_drop, show prev + (i - prev) = i by omega, getElem?_of_drop h]
  rw [show i + 1 - prev = i - prev + 1 by omega, List.take_add_one, hat]
  rfl

/-- A subview and the suffix after it make up the suffix. -/
theorem subspan_append_drop (v : Bytes) (hij : i ≤ j) :
    (v.drop i).take (j - i) ++ v.drop j = v.drop i := by
  have h : v.drop j = (v.drop i).drop (j - i) := by
    rw [List.drop_drop]
    congr 1
    omega
  rw [h, List.take_append_drop]

end Luastatus.Libsafe
