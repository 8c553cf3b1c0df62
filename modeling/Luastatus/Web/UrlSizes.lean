import Luastatus.Web.Urlencode

/-!
# The sizes of URL coding

The destination of `urlencode` and of `urldecode` is allocated with the size that a pass of its own
has computed.  The two passes of the decoder do not look at a text in the same way: the sizing pass
skips the two bytes after a percent sign, whatever they are and whether they are there or not, and
the writing pass stops at the first percent sign that does not begin a triplet.

`urldecodeRun` is `urldecode` with what it leaves behind on both of its exits.  `urldecodeRun_eq`
says that it stays within the size on any input, and fills it exactly when it succeeds.
-/

namespace Luastatus.Web

open Text (Byte Bytes ch lit)
open Libsafe LibLs
open Lua (Arg)

/-! ## The decoder on any input -/

/-- The loop of `urldecode`, from index `i` on: whether it reaches the end, and `dst` and `j`
after it. -/
def urldecodeRun (src : Bytes) (i : Nat) (dst : Bytes) (j : Nat) :
    Except AssertFailure (Bool × Bytes × Nat) :=
  if i < src.length then do
    let c ← safevAt src i
    if c = ch '%' then
      if i + 2 ≥ src.length then return (false, dst, j)
      let hi := parseHexDigit (← safevAt src (i + 1))
      let lo := parseHexDigit (← safevAt src (i + 2))
      if hi < 0 ∨ lo < 0 then return (false, dst, j)
      let newC := UInt8.ofNat (hi.toNat <<< 4 ||| lo.toNat)
      let dst ← mutSafevSetAt dst j newC
      urldecodeRun src (i + 3) dst (j + 1)
    else
      let newC := if c = ch '+' then ch ' ' else c
      let dst ← mutSafevSetAt dst j newC
      urldecodeRun src (i + 1) dst (j + 1)
  else return (true, dst, j)
termination_by src.length - i

/-- A hexadecimal digit, in either case. -/
def IsHex (c : Byte) : Prop :=
  ch '0' ≤ c ∧ c ≤ ch '9' ∨ ch 'a' ≤ c ∧ c ≤ ch 'f' ∨ ch 'A' ≤ c ∧ c ≤ ch 'F'

/-- The texts in which a scan from left to right finds two hexadecimal digits after every percent
sign. -/
inductive Decodable : Bytes → Prop where
  | nil : Decodable []
  | triplet {hi lo : Byte} {s : Bytes} :
      IsHex hi → IsHex lo → Decodable s → Decodable (ch '%' :: hi :: lo :: s)
  | other {c : Byte} {s : Bytes} : c ≠ ch '%' → Decodable s → Decodable (c :: s)

/-- The number of bytes that a text is taken to be decoded to. -/
def decodedSize : Bytes → Nat
  | [] => 0
  | c :: cs => decodedSize (if c = ch '%' then cs.drop 2 else cs) + 1
termination_by s => s.length
decreasing_by
  split
  · rw [List.length_drop, List.length_cons]
    omega
  · exact Nat.lt_succ_self _

/-- Induction along the scan of the decoder. -/
theorem triplet_induction {P : Bytes → Prop} (nil : P [])
    (triplet : ∀ hi lo s, P s → P (ch '%' :: hi :: lo :: s))
    (truncated : ∀ s, s.length < 2 → P (ch '%' :: s))
    (other : ∀ c s, c ≠ ch '%' → P s → P (c :: s)) : ∀ s, P s
  | [] => nil
  | c :: s => by
      by_cases hc : c = ch '%'
      · rw [hc]
        match s with
        | [] => exact truncated [] (by decide)
        | [d] => exact truncated [d] (by simp)
        | hi :: lo :: s =>
            exact triplet hi lo s (triplet_induction nil triplet truncated other s)
      · exact other c s hc (triplet_induction nil triplet truncated other s)

theorem parseHexDigit_nonneg_iff (c : Byte) : 0 ≤ parseHexDigit c ↔ IsHex c := by
  simp only [parseHexDigit, IsHex, ← charVal_range (show (ch '0').toNat < 128 by decide)
    (show (ch '9').toNat < 128 by decide), ← charVal_range (show (ch 'a').toNat < 128 by decide)
    (show (ch 'f').toNat < 128 by decide), ← charVal_range (show (ch 'A').toNat < 128 by decide)
    (show (ch 'F').toNat < 128 by decide)]
  split
  · omega
  · split
    · omega
    · split <;> omega

/-- The sizing pass from index `i` on. -/
theorem urldecodeSizeLoop_eq (src l : Bytes) :
    ∀ i res : Nat, src.drop i = l →
      urldecodeSizeLoop src i res = .ok (res + decodedSize l) := by
  induction l using triplet_induction with
  | nil =>
      intro i res hl
      have hge : src.length ≤ i := List.drop_eq_nil_iff.mp hl
      rw [urldecodeSizeLoop, if_neg (by omega), decodedSize]
      rfl
  | triplet hi lo l ih =>
      intro i res hl
      have hrest := drop_succ_of_drop (drop_succ_of_drop (drop_succ_of_drop hl))
      rw [urldecodeSizeLoop, if_pos (lt_length_of_drop hl), safevAt_eq hl, ok_bind, if_pos rfl,
        ih _ _ hrest, decodedSize, if_pos rfl, List.drop_succ_cons, List.drop_succ_cons,
        List.drop_zero, Nat.add_comm (decodedSize l), Nat.add_assoc]
  | truncated l hlen =>
      intro i res hl
      have hlast : l.drop 2 = [] := List.drop_eq_nil_of_le (by omega)
      have hrest : src.drop (i + 3) = [] := by
        rw [← hlast, ← drop_succ_of_drop hl, List.drop_drop]
      have hge : src.length ≤ i + 3 := List.drop_eq_nil_iff.mp hrest
      rw [urldecodeSizeLoop, if_pos (lt_length_of_drop hl), safevAt_eq hl, ok_bind, if_pos rfl,
        urldecodeSizeLoop, if_neg (by omega), decodedSize, if_pos rfl, hlast, decodedSize]
      rfl
  | other c l hc ih =>
      intro i res hl
      rw [urldecodeSizeLoop, if_pos (lt_length_of_drop hl), safevAt_eq hl, ok_bind, if_neg hc,
        ih _ _ (drop_succ_of_drop hl), decodedSize, if_neg hc, Nat.add_comm (decodedSize l),
        Nat.add_assoc]

/-! ### What is left behind -/

/-- What `urldecode` reports of a run. -/
def runReport (r : Bool × Bytes × Nat) : Option (Bytes × Nat) := if r.1 then some r.2 else none

/-- `urldecodeRun` is the loop of `urldecode`. -/
theorem urldecodeLoop_eq_run (src : Bytes) (i : Nat) (dst : Bytes) (j : Nat) :
    urldecodeLoop src i dst j = (urldecodeRun src i dst j).map runReport := by
  rw [urldecodeLoop, urldecodeRun]
  by_cases hi : i < src.length
  · rw [if_pos hi, if_pos hi]
    cases safevAt src i with
    | error e => rfl
    | ok c =>
        rw [ok_bind, ok_bind]
        by_cases hc : c = ch '%'
        · rw [if_pos hc, if_pos hc]
          by_cases htail : i + 2 ≥ src.length
          · rw [if_pos htail, if_pos htail]
            rfl
          · rw [if_neg htail, if_neg htail]
            cases safevAt src (i + 1) with
            | error e => rfl
            | ok hi =>
                cases safevAt src (i + 2) with
                | error e => rfl
                | ok lo =>
                    simp only [ok_bind]
                    split
                    · rfl
                    · cases mutSafevSetAt dst j _ with
                      | error e => rfl
                      | ok dst => exact urldecodeLoop_eq_run src (i + 3) dst (j + 1)
        · rw [if_neg hc, if_neg hc]
          simp only
          cases mutSafevSetAt dst j _ with
          | error e => rfl
          | ok dst => exact urldecodeLoop_eq_run src (i + 1) dst (j + 1)
  · rw [if_neg hi, if_neg hi]
    rfl
termination_by src.length - i

theorem decodable_triplet_iff {hi lo : Byte} {s : Bytes} :
    Decodable (ch '%' :: hi :: lo :: s) ↔ IsHex hi ∧ IsHex lo ∧ Decodable s := by
  constructor
  · intro h
    cases h with
    | triplet hhi hlo hs => exact ⟨hhi, hlo, hs⟩
    | other hne _ => exact absurd rfl hne
  · rintro ⟨hhi, hlo, hs⟩
    exact .triplet hhi hlo hs

theorem decodable_cons_iff {c : Byte} (hc : c ≠ ch '%') {s : Bytes} :
    Decodable (c :: s) ↔ Decodable s := by
  constructor
  · intro h
    cases h with
    | triplet _ _ _ => exact absurd rfl hc
    | other _ hs => exact hs
  · exact .other hc

theorem not_decodable_truncated {s : Bytes} (hlen : s.length < 2) :
    ¬ Decodable (ch '%' :: s) := by
  intro h
  cases h with
  | triplet _ _ _ =>
      rw [List.length_cons, List.length_cons] at hlen
      omega
  | other hne _ => exact hne rfl

/-- What a run from some index on has written, `out`, and that it has stayed within the size. -/
structure Wrote (l written rest : Bytes) (r : Bool × Bytes × Nat) (out : Bytes) : Prop where
  dst : r.2.1 = written ++ out ++ rest.drop out.length
  count : r.2.2 = (written ++ out).length
  le_size : out.length ≤ decodedSize l
  eq_size : r.1 = true → out.length = decodedSize l
  decodable : r.1 = true ↔ Decodable l

/-- One more byte before the others. -/
theorem Wrote.cons {l l' written rest : Bytes} {b c : Byte} {r : Bool × Bytes × Nat} {out : Bytes}
    (h : Wrote l (written ++ [c]) rest r out) (hsize : decodedSize l' = decodedSize l + 1)
    (hdec : Decodable l' ↔ Decodable l) : Wrote l' written (b :: rest) r (c :: out) where
  dst := by
    rw [h.dst]
    simp
  count := by
    rw [h.count]
    simp
  le_size := by
    rw [hsize]
    exact Nat.succ_le_succ h.le_size
  eq_size := fun hok => by
    rw [hsize, List.length_cons, h.eq_size hok]
  decodable := h.decodable.trans hdec.symm

/-- Nothing is written where the scan fails. -/
theorem Wrote.fails {l : Bytes} (h : ¬ Decodable l) (written rest : Bytes) :
    Wrote l written rest (false, written ++ rest, written.length) [] where
  dst := by simp
  count := by simp
  le_size := Nat.zero_le _
  eq_size := Bool.noConfusion
  decodable := ⟨Bool.noConfusion, fun hd => absurd hd h⟩

theorem Wrote.done (written rest : Bytes) :
    Wrote [] written rest (true, written ++ rest, written.length) [] where
  dst := by simp
  count := by simp
  le_size := Nat.zero_le _
  eq_size := fun _ => by
    rw [decodedSize]
    rfl
  decodable := ⟨fun _ => .nil, fun _ => rfl⟩

/-- From index `i` on, the loop fails no assertion if the destination has room for the size of the
rest, and writes no more than that. -/
theorem urldecodeRun_eq (src l : Bytes) :
    ∀ (i : Nat) (written rest : Bytes), src.drop i = l → decodedSize l ≤ rest.length →
      ∃ r out, urldecodeRun src i (written ++ rest) written.length = .ok r ∧
        Wrote l written rest r out := by
  induction l using triplet_induction with
  | nil =>
      intro i written rest hl _
      have hge : src.length ≤ i := List.drop_eq_nil_iff.mp hl
      rw [urldecodeRun, if_neg (by omega)]
      exact ⟨_, _, rfl, .done written rest⟩
  | triplet hi lo l ih =>
      intro i written rest hl hroom
      have hl₁ := drop_succ_of_drop hl
      have hl₂ := drop_succ_of_drop hl₁
      have hlt := lt_length_of_drop hl₂
      have hsize : decodedSize (ch '%' :: hi :: lo :: l) = decodedSize l + 1 := by
        rw [decodedSize, if_pos rfl]
        rfl
      rw [urldecodeRun, if_pos (lt_length_of_drop hl), safevAt_eq hl, ok_bind, if_pos rfl,
        if_neg (by omega), safevAt_eq hl₁, ok_bind, safevAt_eq hl₂, ok_bind]
      by_cases hhex : IsHex hi ∧ IsHex lo
      · have hhi := (parseHexDigit_nonneg_iff hi).mpr hhex.1
        have hlo := (parseHexDigit_nonneg_iff lo).mpr hhex.2
        obtain ⟨b, rest, rfl⟩ := List.exists_cons_of_length_pos (l := rest) (by omega)
        rw [hsize, List.length_cons] at hroom
        simp only
        rw [if_neg (by omega), mutSafevSetAt_append rfl, ok_bind]
        obtain ⟨r, out, hrun, hw⟩ := ih (i + 3) (written ++ [_]) rest (drop_succ_of_drop hl₂)
          (Nat.le_of_succ_le_succ hroom)
        rw [List.length_append, List.length_singleton] at hrun
        exact ⟨r, _, hrun, hw.cons hsize (by simp [decodable_triplet_iff, hhex])⟩
      · have hneg : parseHexDigit hi < 0 ∨ parseHexDigit lo < 0 := by
          rw [← parseHexDigit_nonneg_iff, ← parseHexDigit_nonneg_iff] at hhex
          omega
        rw [if_pos hneg]
        refine ⟨_, _, rfl, .fails (fun h => hhex ?_) written rest⟩
        rw [decodable_triplet_iff] at h
        exact ⟨h.1, h.2.1⟩
  | truncated l hlen =>
      intro i written rest hl _
      have hend : src.length ≤ i + 2 := by
        have hlength := congrArg List.length hl
        rw [List.length_drop, List.length_cons] at hlength
        omega
      rw [urldecodeRun, if_pos (lt_length_of_drop hl), safevAt_eq hl, ok_bind, if_pos rfl,
        if_pos hend]
      exact ⟨_, _, rfl, .fails (not_decodable_truncated hlen) written rest⟩
  | other c l hc ih =>
      intro i written rest hl hroom
      have hsize : decodedSize (c :: l) = decodedSize l + 1 := by rw [decodedSize, if_neg hc]
      rw [hsize] at hroom
      obtain ⟨b, rest, rfl⟩ := List.exists_cons_of_length_pos (l := rest) (by omega)
      rw [List.length_cons] at hroom
      rw [urldecodeRun, if_pos (lt_length_of_drop hl), safevAt_eq hl, ok_bind, if_neg hc]
      simp only
      rw [mutSafevSetAt_append rfl, ok_bind]
      obtain ⟨r, out, hrun, hw⟩ := ih (i + 1) (written ++ [_]) rest (drop_succ_of_drop hl)
        (Nat.le_of_succ_le_succ hroom)
      rw [List.length_append, List.length_singleton] at hrun
      exact ⟨r, _, hrun, hw.cons hsize (decodable_cons_iff hc)⟩

/-! ## Both sides -/

theorem urldecodeSize_eq (s : Bytes) : urldecodeSize s = .ok (decodedSize s) := by
  rw [urldecodeSize, urldecodeSizeLoop_eq s s 0 0 rfl, Nat.zero_add]

/-- `urldecode` with a destination of the size that has been computed. -/
theorem urldecode_sized {s dst : Bytes} (h : dst.length = decodedSize s) :
    ∃ ok out j, urldecodeRun s 0 dst 0 = .ok (ok, out, j) ∧ j ≤ decodedSize s ∧
      (ok = true → j = decodedSize s) ∧ (ok = true ↔ Decodable s) ∧
      urldecode s dst = .ok (if ok then some out else none) := by
  obtain ⟨⟨ok, buf, j⟩, out, hrun, hw⟩ := urldecodeRun_eq s s 0 [] dst rfl (Nat.le_of_eq h.symm)
  have hj : j = out.length := hw.count
  have hdst : buf = out ++ dst.drop out.length := hw.dst
  refine ⟨ok, buf, j, hrun, hj ▸ hw.le_size, fun hok => hj ▸ hw.eq_size hok, hw.decodable, ?_⟩
  rw [urldecode, urldecodeLoop_eq_run]
  rw [List.nil_append, List.length_nil] at hrun
  rw [hrun]
  cases ok with
  | false => rfl
  | true =>
      have hfull : out.length = dst.length := (hw.eq_size rfl).trans h.symm
      have hend : j = buf.length := by
        rw [hj, hdst, List.length_append, List.length_drop]
        omega
      exact lsAssert_bind_of_pos hend _ _

/-- `urlencode` with a destination of the size that has been computed, unless that is the
`(size_t) -1` for which `l_urlencode` does not call it. -/
theorem urlencode_sized {s dst : Bytes} {plusNotation : Bool}
    (hsize : urlencodeSize s plusNotation = .ok dst.length) (hfits : dst.length < sizeMax) :
    ∃ out, urlencodeLoop s plusNotation 0 dst 0 = .ok (out, dst.length) ∧
      urlencode s dst plusNotation = .ok out := by
  rw [urlencodeSize_eq] at hsize
  have hlen : dst.length = (encoded plusNotation s).length := by
    have := Except.ok.inj hsize
    omega
  have hloop := urlencodeLoop_eq plusNotation s s 0 [] dst rfl hlen
  rw [List.nil_append, List.length_nil, List.nil_append, ← hlen] at hloop
  exact ⟨_, hloop, urlencode_eq plusNotation hlen⟩

variable {F : Type}

/-- On any string both sizing passes return, and a destination of that size is what the writing
passes need: `urlencode` writes as many bytes, `urldecode` writes no more, and as many if it
succeeds.  It succeeds if and only if the scan finds two hexadecimal digits after every percent
sign.  No access is out of bounds and no assertion fails; a size that does not fit into a `size_t`
is reported by `l_urlencode`. -/
theorem urlCoding_sizes (s : Bytes) :
    (∀ plusNotation, ∃ n, urlencodeSize s plusNotation = .ok n ∧
      (n = sizeMax → lUrlencode (F := F) s (.boolean plusNotation) = .ok .outOfMemory) ∧
      ∀ dst, dst.length = n → n < sizeMax →
        ∃ out, urlencodeLoop s plusNotation 0 dst 0 = .ok (out, n) ∧
          urlencode s dst plusNotation = .ok out) ∧
    ∃ n, urldecodeSize s = .ok n ∧ ∀ dst, dst.length = n →
      ∃ ok out j, urldecodeRun s 0 dst 0 = .ok (ok, out, j) ∧ j ≤ n ∧ (ok = true → j = n) ∧
        (ok = true ↔ Decodable s) ∧ urldecode s dst = .ok (if ok then some out else none) := by
  constructor
  · intro plusNotation
    refine ⟨_, urlencodeSize_eq plusNotation s, ?_, ?_⟩
    · intro hmax
      rw [lUrlencode_eq, if_neg (by omega)]
    · rintro dst hdst hfits
      rw [← hdst] at hfits ⊢
      exact urlencode_sized (hdst ▸ urlencodeSize_eq plusNotation s) hfits
  · exact ⟨_, urldecodeSize_eq s, fun dst hdst => urldecode_sized hdst⟩

/-- A percent sign at the end and one digit after a percent sign are sized as one byte, and refused
without a read past the end. -/
example : urldecodeSize (lit "a%4") = .ok 2 ∧ lUrldecode (lit "a%4") = .ok none ∧
    lUrldecode (lit "%") = .ok none := by
  simp [lUrldecode, urldecode, urldecodeSize, urldecodeSizeLoop, urldecodeLoop, safevAt, lsAssert,
    mutSafevSetAt, lit, ch, pure, Except.pure, bind, Except.bind]

end Luastatus.Web
