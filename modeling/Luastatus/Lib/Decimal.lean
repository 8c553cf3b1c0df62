import Luastatus.Lib.Strtol
import Mathlib.Data.List.TakeWhile

/-!
# Decimal readings

A string of digits is read in the base 10 by some functions, and in the base that its prefix tells
by others.  `decimalReading` is the integer that a string with white space and a sign is in decimal,
and `decimalValue_eq_iff` says when a number that was read by its prefix is the decimal one.
-/

namespace Text

/-! ## Digits -/

/-- The number of a list of digits in a base, continuing `acc`. -/
def ofDigitsBase (base acc : Nat) : List Nat → Nat
  | [] => acc
  | d :: ds => ofDigitsBase base (base * acc + d) ds

theorem ofDigitsBase_ten (acc : Nat) (ds : List Nat) :
    ofDigitsBase 10 acc ds = ofDigitsFrom acc ds := by
  induction ds generalizing acc with
  | nil => rfl
  | cons d ds ih => exact ih _

theorem ofDigitsBase_append (base acc : Nat) (ds : List Nat) (d : Nat) :
    ofDigitsBase base acc (ds ++ [d]) = base * ofDigitsBase base acc ds + d := by
  induction ds generalizing acc with
  | nil => rfl
  | cons e ds ih => exact ih _

/-- The digits of a base up to 10 are the decimal digits that are small enough. -/
theorem baseDigit_eq_filter {base : Nat} (h : base ≤ 10) (b : Byte) :
    baseDigit base b = (digitValue b).filter (· < base) := by
  have hle (c : Byte) : (ch '0' ≤ c ∧ c ≤ ch '9') ↔ 48 ≤ c.toNat ∧ c.toNat ≤ 57 := Iff.rfl
  rw [baseDigit, alnumValue, digitValue]
  simp only [hle]
  split
  · rfl
  · rename_i hdigit
    have ha : ch 'a' ≤ b → 97 ≤ b.toNat := id
    have hA : ch 'A' ≤ b → 65 ≤ b.toNat := id
    split
    · rename_i h
      have := ha h.1
      rw [Option.filter_some, if_neg (by simp; omega), Option.filter_none]
    · split
      · rename_i h
        have := hA h.1
        rw [Option.filter_some, if_neg (by simp; omega), Option.filter_none]
      · rfl

theorem digitValue_lt {b : Byte} {d : Nat} (h : digitValue b = some d) : d < 10 := by
  rw [digitValue] at h
  split at h
  · cases h
    omega
  · cases h

theorem mapM_cons_eq_some {b : Byte} {s : Bytes} {ds : List Nat} :
    (b :: s).mapM digitValue = some ds ↔
      ∃ d ds', digitValue b = some d ∧ s.mapM digitValue = some ds' ∧ ds = d :: ds' := by
  rw [List.mapM_cons]
  cases digitValue b with
  | none => simp
  | some d =>
      cases s.mapM digitValue with
      | none => simp
      | some ds' => simp [eq_comm]

/-- Reading a string to its end in a base up to 10. -/
theorem readDigits_eq_nil_iff {base : Nat} (hbase : base ≤ 10) {acc m : Nat} {s : Bytes} :
    readDigits base acc s = (m, []) ↔
      ∃ ds, s.mapM digitValue = some ds ∧ (∀ d ∈ ds, d < base) ∧ m = ofDigitsBase base acc ds := by
  induction s generalizing acc with
  | nil =>
      rw [readDigits, List.mapM_nil]
      constructor
      · intro h
        cases h
        exact ⟨[], rfl, by simp, rfl⟩
      · rintro ⟨ds, hds, -, rfl⟩
        cases hds
        rfl
  | cons b s ih =>
      rw [readDigits, baseDigit_eq_filter hbase]
      cases hb : digitValue b with
      | none =>
          rw [Option.filter_none]
          refine iff_of_false (fun h => ?_) ?_
          · cases congrArg Prod.snd h
          · rintro ⟨ds, hds, -⟩
            obtain ⟨d, ds', hd, -⟩ := mapM_cons_eq_some.mp hds
            cases hb.symm.trans hd
      | some d =>
          rw [Option.filter_some]
          rcases Nat.lt_or_ge d base with hd | hd
          · rw [if_pos (by simpa using hd)]
            refine ih.trans ⟨?_, ?_⟩
            · rintro ⟨ds, hds, hlt, rfl⟩
              exact ⟨d :: ds, mapM_cons_eq_some.mpr ⟨d, ds, hb, hds, rfl⟩,
                List.forall_mem_cons.mpr ⟨hd, hlt⟩, rfl⟩
            · rintro ⟨ds, hds, hlt, rfl⟩
              obtain ⟨d', ds', hd', hds', rfl⟩ := mapM_cons_eq_some.mp hds
              obtain rfl : d = d' := Option.some.inj (hb.symm.trans hd')
              exact ⟨ds', hds', (List.forall_mem_cons.mp hlt).2, rfl⟩
          · rw [if_neg (by simpa using hd)]
            refine iff_of_false (fun h => ?_) ?_
            · cases congrArg Prod.snd h
            · rintro ⟨ds, hds, hlt, -⟩
              obtain ⟨d', ds', hd', -, rfl⟩ := mapM_cons_eq_some.mp hds
              obtain rfl : d = d' := Option.some.inj (hb.symm.trans hd')
              exact absurd (hlt d List.mem_cons_self) (by omega)

theorem lt_ten_of_mapM {s : Bytes} {ds : List Nat} (h : s.mapM digitValue = some ds) :
    ∀ d ∈ ds, d < 10 := by
  induction s generalizing ds with
  | nil =>
      cases h
      simp
  | cons b s ih =>
      obtain ⟨d, ds', hd, hds, rfl⟩ := mapM_cons_eq_some.mp h
      exact List.forall_mem_cons.mpr ⟨digitValue_lt hd, ih hds⟩

theorem readDigits_digits {s : Bytes} {ds : List Nat} (h : s.mapM digitValue = some ds)
    (acc : Nat) : readDigits 10 acc s = (ofDigitsFrom acc ds, []) :=
  (readDigits_eq_nil_iff (Nat.le_refl 10)).mpr
    ⟨ds, h, lt_ten_of_mapM h, (ofDigitsBase_ten _ _).symm⟩

theorem isDigit_of_mem {s : Bytes} {ds : List Nat} (h : s.mapM digitValue = some ds) {b : Byte}
    (hb : b ∈ s) : 48 ≤ b.toNat ∧ b.toNat ≤ 57 := by
  induction s generalizing ds with
  | nil => cases hb
  | cons c s ih =>
      obtain ⟨d, ds', hd, hds, -⟩ := mapM_cons_eq_some.mp h
      rcases List.mem_cons.mp hb with rfl | hb
      · rw [digitValue] at hd
        split at hd
        · assumption
        · cases hd
      · exact ih hds hb

theorem isSpace_digit {b : Byte} (h : 48 ≤ b.toNat ∧ b.toNat ≤ 57) : isSpace b = false := by
  have h32 : b ≠ 32 := by
    rintro rfl
    exact absurd h.1 (by decide)
  have h13 : ¬ b ≤ 13 := fun hle => absurd (h.1.trans hle) (by decide)
  simp [isSpace, h32, h13]

theorem decimalValue_eq_some {s : Bytes} {n : Nat} :
    decimalValue s = some n ↔
      s ≠ [] ∧ ∃ ds, s.mapM digitValue = some ds ∧ ofDigitsFrom 0 ds = n := by
  rw [decimalValue]
  split
  · rename_i h
    exact iff_of_false (by rintro ⟨⟩) fun h' => h'.1 h
  · rename_i h
    rw [Option.map_eq_some_iff]
    exact (and_iff_right h).symm

/-! ## Octal and decimal -/

/-- Octal digits denote no more than the same decimal digits, and the same only below 8. -/
theorem ofDigitsBase_eight (ds : List Nat) :
    ofDigitsBase 8 0 ds ≤ ofDigitsFrom 0 ds ∧
      (ofDigitsBase 8 0 ds = 0 ↔ ofDigitsFrom 0 ds = 0) ∧
      ((∀ d ∈ ds, d < 8) →
        (ofDigitsBase 8 0 ds = ofDigitsFrom 0 ds ↔ ofDigitsBase 8 0 ds < 8)) := by
  induction ds using List.reverseRecOn with
  | nil => simp [ofDigitsBase, ofDigitsFrom]
  | append_singleton ds d ih =>
      obtain ⟨hle, hzero, -⟩ := ih
      rw [ofDigitsBase_append, ofDigitsFrom_append]
      refine ⟨by omega, by omega, fun hlt => ?_⟩
      have hd := hlt d (by simp)
      omega

/-- The prefix `0x`. -/
def HexPrefix (s : Bytes) : Prop :=
  s.head? = some (ch '0') ∧ (s[1]? = some (ch 'x') ∨ s[1]? = some (ch 'X'))

/-- A number that is read to the end of a string, by the prefix, is the decimal one if and only if
the string is not hexadecimal, and octal only if it is less than 8.  The decimal one is never
less. -/
theorem decimalValue_eq_iff {s : Bytes} {m : Nat} (h : readUnsigned s = some (m, [])) :
    (decimalValue s = some m ↔
      ¬ HexPrefix s ∧ (s.head? = some (ch '0') → m < 8)) ∧
    ∀ n, decimalValue s = some n → m ≤ n := by
  have hx (n : Nat) (hn : decimalValue s = some n) : ¬ HexPrefix s := by
    obtain ⟨-, ds, hds, -⟩ := decimalValue_eq_some.mp hn
    rintro ⟨-, hx | hx⟩
    · exact absurd (isDigit_of_mem hds (List.mem_of_getElem? hx)).2 (by decide)
    · exact absurd (isDigit_of_mem hds (List.mem_of_getElem? hx)).2 (by decide)
  rw [readUnsigned] at h
  split at h
  · rename_i hzero
    have hne : s ≠ [] := by
      rintro rfl
      cases hzero
    split at h
    · rename_i hhex
      have hpre : HexPrefix s := ⟨hzero, hhex.1⟩
      refine ⟨iff_of_false (fun hm => hx m hm hpre) fun h => h.1 hpre, ?_⟩
      exact fun n hn => absurd hpre (hx n hn)
    · obtain ⟨ds, hds, hlt, rfl⟩ :=
        (readDigits_eq_nil_iff (by decide)).mp (Option.some.inj h)
      obtain ⟨hle, -, heq⟩ := ofDigitsBase_eight ds
      have hdecimal : decimalValue s = some (ofDigitsFrom 0 ds) :=
        decimalValue_eq_some.mpr ⟨hne, ds, hds, rfl⟩
      rw [hdecimal]
      refine ⟨?_, fun n hn => Option.some.inj hn ▸ hle⟩
      rw [Option.some.injEq, eq_comm, heq hlt]
      exact ⟨fun h => ⟨hx _ hdecimal, fun _ => h⟩, fun h => h.2 hzero⟩
  · rename_i hzero
    split at h
    · rename_i hdigit
      have hne : s ≠ [] := by
        rintro rfl
        cases hdigit
      obtain ⟨ds, hds, -, rfl⟩ :=
        (readDigits_eq_nil_iff (Nat.le_refl 10)).mp (Option.some.inj h)
      have hdecimal : decimalValue s = some (ofDigitsBase 10 0 ds) :=
        decimalValue_eq_some.mpr ⟨hne, ds, hds, (ofDigitsBase_ten 0 ds).symm⟩
      rw [hdecimal]
      refine ⟨iff_of_true rfl ⟨hx _ hdecimal, fun h => absurd h hzero⟩, ?_⟩
      exact fun n hn => (Option.some.inj hn).le
    · cases h

/-! ## White space and a sign -/

/-- The sign and what follows the white space and the sign. -/
def signAndRest (s : Bytes) : Bool × Bytes :=
  let t := s.dropWhile isSpace
  if t.head? = some (ch '-') then (true, t.drop 1)
  else if t.head? = some (ch '+') then (false, t.drop 1)
  else (false, t)

/-- The integer that a string is in decimal, with white space and a sign in front of the digits. -/
def decimalReading (s : Bytes) : Option Int :=
  (decimalValue (signAndRest s).2).map (signed (signAndRest s).1)

theorem readSigned_eq (s : Bytes) :
    readSigned s = (readUnsigned (signAndRest s).2).map ((signAndRest s).1, ·) := by
  rw [readSigned, signAndRest]
  split
  · rfl
  · split
    · rfl
    · rfl

/-- A string with a decimal reading has no NUL byte. -/
theorem not_mem_of_decimalReading {s : Bytes} {i : Int} (h : decimalReading s = some i) :
    0 ∉ s := by
  obtain ⟨m, hm, -⟩ := Option.map_eq_some_iff.mp h
  obtain ⟨-, ds, hds, -⟩ := decimalValue_eq_some.mp hm
  have hrest : 0 ∉ (signAndRest s).2 := fun hmem =>
    absurd (isDigit_of_mem hds hmem).1 (by decide)
  have hdrop : 0 ∉ s.dropWhile isSpace := by
    intro hmem
    rw [signAndRest] at hrest
    have htail {c : Byte} (hc : (s.dropWhile isSpace).head? = some c) (hne : c ≠ 0) :
        0 ∈ (s.dropWhile isSpace).drop 1 := by
      obtain ⟨t, ht⟩ := List.head?_eq_some_iff.mp hc
      rw [ht] at hmem ⊢
      rcases List.mem_cons.mp hmem with he | hmem
      · exact absurd he.symm hne
      · exact hmem
    split at hrest
    · rename_i hc
      exact hrest (htail hc (by decide))
    · split at hrest
      · rename_i hc
        exact hrest (htail hc (by decide))
      · exact hrest hmem
  intro hmem
  rw [← List.takeWhile_append_dropWhile (p := isSpace) (l := s)] at hmem
  rcases List.mem_append.mp hmem with hmem | hmem
  · have hspace : isSpace 0 = true := List.mem_takeWhile_imp hmem
    cases hspace
  · exact hdrop hmem

end Text
