import Luastatus.Lib.Multibyte
import Luastatus.Libsafe.Safev

/-!
# Wide characters

`libwidechar` measures strings in columns, cuts them to a width, and makes them printable.  It
decodes them with `mbrtowc` and asks `wcwidth` for the widths.

The encoding of the locale is stateless: after a character the conversion state is the initial one
again, and after a failure `next` sets it.  So a state is not kept here.
-/

namespace Luastatus.Libwidechar

open Text (Byte Bytes lit)
open LibLs Libsafe
open Multibyte

/-! ## The locale -/

/-- What `mbrtowc` returns. -/
inductive Mbrtowc (W : Type) where
  /-- `(size_t) -1` -/
  | invalid
  /-- `(size_t) -2` -/
  | incomplete
  /-- The number of bytes, or 0 for the NUL character. -/
  | char (rc : Nat) (c : W)

/-- How many bytes `next` takes for a character. -/
def consumed (rc : Nat) : Nat := if rc = 0 then 1 else rc

/-- A locale: `mbrtowc` in the initial state, and `wcwidth`. -/
structure Locale (W : Type) where
  mbrtowc : Bytes → Mbrtowc W
  wcwidth : W → Int
  /-- `L'\0'` -/
  nul : W
  /-- A character is within the string. -/
  le : ∀ {v rc c}, mbrtowc v = .char rc c → consumed rc ≤ v.length
  /-- The bytes of a character do not depend on what follows. -/
  stable : ∀ {u r rc c}, mbrtowc (u ++ r) = .char rc c → consumed rc = u.length → ∀ s,
    mbrtowc (u ++ s) = .char rc c

variable {W : Type} [DecidableEq W] (l : Locale W)

/-- `my_wcwidth(c) < 0 || c == L'\0'` -/
def Locale.isBad (c : W) : Bool := l.wcwidth c < 0 || c = l.nul

/-! ## The code -/

/-- `xspan` -/
structure Xspan where
  v : Bytes
  cur : Nat

/-- `xspan_nonempty` -/
def Xspan.nonempty (x : Xspan) : Bool := x.cur ≠ x.v.length

/-- `xspan_advance` -/
def Xspan.advance (x : Xspan) (n : Nat) : Xspan := { x with cur := x.cur + n }

/-- `xspan_processed_v` -/
def Xspan.processedV (x : Xspan) : Except AssertFailure Bytes := safevSubspan x.v 0 x.cur

/-- `xspan_unprocessed_v` -/
def Xspan.unprocessedV (x : Xspan) : Except AssertFailure Bytes := safevSuffix x.v x.cur

/-- `xspan_skip_processed` -/
def Xspan.skipProcessed (x : Xspan) : Except AssertFailure Xspan := do
  return ⟨← x.unprocessedV, 0⟩

/-- `next` -/
def next (x : Xspan) : Except AssertFailure (Option (Xspan × W)) := do
  let unprocV ← x.unprocessedV
  match l.mbrtowc unprocV with
  | .invalid => return none
  | .incomplete => return none
  | .char rc c => return some (x.advance (consumed rc), c)

/-- The loop of `libwidechar_width`, at most `fuel` times.  The width is 64 bits wide. -/
def widthLoop : Nat → Xspan → Nat → Option (Except AssertFailure (Option Nat))
  | 0, _, _ => none
  | fuel + 1, x, width =>
      if x.nonempty then
        match next l x with
        | .error e => some (.error e)
        | .ok none => some (.ok none)
        | .ok (some (x, c)) =>
            if l.isBad c then some (.ok none)
            else widthLoop fuel x ((width + (l.wcwidth c).toNat) % 2 ^ 64)
      else some (.ok (some width))

/-- `libwidechar_width`: the width, nothing for -1. -/
def libwidecharWidth (v : Bytes) : Option (Except AssertFailure (Option Nat)) :=
  widthLoop l (v.length + 1) ⟨v, 0⟩ 0

/-- The loop of `libwidechar_truncate_to_width`. -/
def truncateLoop (maxWidth : Nat) :
    Nat → Xspan → Nat → Option (Except AssertFailure (Option (Nat × Nat)))
  | 0, _, _ => none
  | fuel + 1, x, width =>
      if x.nonempty then
        match next l x with
        | .error e => some (.error e)
        | .ok none => some (.ok none)
        | .ok (some (newX, c)) =>
            if l.isBad c then some (.ok none)
            else
              let w := (l.wcwidth c).toNat
              let width := (width + w) % 2 ^ 64
              if width > maxWidth then
                some (.ok (some (x.cur, (width + 2 ^ 64 - w) % 2 ^ 64)))
              else truncateLoop maxWidth fuel newX width
      else some (.ok (some (x.cur, width)))

/-- `libwidechar_truncate_to_width`: the length and the width, nothing for `(size_t) -1`. -/
def libwidecharTruncateToWidth (v : Bytes) (maxWidth : Nat) :
    Option (Except AssertFailure (Option (Nat × Nat))) :=
  truncateLoop l maxWidth (v.length + 1) ⟨v, 0⟩ 0

/-- The segment to append in front of a replacement, and where to go on. -/
def replace (x newX : Xspan) : Except AssertFailure (Bytes × Xspan) := do
  return (← x.processedV, ← newX.skipProcessed)

/-- The loop of `libwidechar_make_valid_and_printable`, with the segments that were appended. -/
def makeLoop (bad : Bytes) :
    Nat → Xspan → List Bytes → Option (Except AssertFailure (List Bytes))
  | 0, _, _ => none
  | fuel + 1, x, segments =>
      if x.nonempty then
        match next l x with
        | .error e => some (.error e)
        | .ok (some (newX, c)) =>
            if l.isBad c then
              -- valid, but non-printable
              match replace x newX with
              | .error e => some (.error e)
              | .ok (segment, x) => makeLoop bad fuel x (segments ++ [segment, bad])
            else makeLoop bad fuel newX segments
        | .ok none =>
            -- invalid
            match replace x (x.advance 1) with
            | .error e => some (.error e)
            | .ok (segment, x) => makeLoop bad fuel x (segments ++ [segment, bad])
      else
        match x.processedV with
        | .error e => some (.error e)
        | .ok segment => some (.ok (segments ++ [segment]))

/-- `libwidechar_make_valid_and_printable`: the segments that are appended. -/
def libwidecharMakeValidAndPrintable (v bad : Bytes) : Option (Except AssertFailure (List Bytes)) :=
  makeLoop l bad (v.length + 1) ⟨v, 0⟩ []

/-! ## The decoder of a locale -/

theorem consumed_pos (rc : Nat) : 0 < consumed rc := by
  rw [consumed]
  split
  · exact Nat.one_pos
  · omega

/-- The character at the beginning of a string. -/
def Locale.decode (v : Bytes) : Option (Nat × W) :=
  match l.mbrtowc v with
  | .char rc c => some (consumed rc, c)
  | _ => none

omit [DecidableEq W] in
theorem Locale.decode_eq_some {l : Locale W} {v : Bytes} {n : Nat} {c : W} :
    l.decode v = some (n, c) ↔ ∃ rc, l.mbrtowc v = .char rc c ∧ consumed rc = n := by
  rw [Locale.decode]
  cases l.mbrtowc v with
  | invalid => simp
  | incomplete => simp
  | char rc c' => simp [and_comm, eq_comm]

/-- Its decoder: a character with a width is printable and not NUL. -/
def Locale.decoder : Decoder Byte W where
  decode := l.decode
  width := fun c => if l.isBad c then none else some (l.wcwidth c).toNat
  pos := by
    intro s n c h
    obtain ⟨rc, -, rfl⟩ := Locale.decode_eq_some.mp h
    exact consumed_pos rc
  le := by
    intro s n c h
    obtain ⟨rc, hrc, rfl⟩ := Locale.decode_eq_some.mp h
    exact l.le hrc
  stable := by
    intro u r c h s
    obtain ⟨rc, hrc, hlength⟩ := Locale.decode_eq_some.mp h
    exact Locale.decode_eq_some.mpr ⟨rc, l.stable hrc hlength s, hlength⟩

section Loops

variable {l} {v bad : Bytes} {cur fuel width n w maxWidth : Nat} {c : W} {segments : List Bytes}

omit [DecidableEq W] in
theorem next_eq (h : cur ≤ v.length) :
    next l ⟨v, cur⟩ = .ok ((l.decode (v.drop cur)).map fun (n, c) => (⟨v, cur + n⟩, c)) := by
  rw [next, Xspan.unprocessedV, safevSuffix_eq h, ok_bind, Locale.decode]
  cases l.mbrtowc (v.drop cur) with
  | invalid => rfl
  | incomplete => rfl
  | char rc c => rfl

theorem next_good (h : cur ≤ v.length) (hhead : l.decoder.head (v.drop cur) = .good n w) :
    ∃ c, next l ⟨v, cur⟩ = .ok (some (⟨v, cur + n⟩, c)) ∧ l.isBad c = false ∧
      (l.wcwidth c).toNat = w := by
  obtain ⟨c, hdecode, hwidth⟩ := Decoder.head_good hhead
  have hdecode : l.decode (v.drop cur) = some (n, c) := hdecode
  refine ⟨c, by rw [next_eq h, hdecode]; rfl, ?_⟩
  cases hbad : l.isBad c with
  | true => simp [Locale.decoder, hbad] at hwidth
  | false => exact ⟨rfl, by simpa [Locale.decoder, hbad] using hwidth⟩

theorem next_unprintable (h : cur ≤ v.length)
    (hhead : l.decoder.head (v.drop cur) = .unprintable n) :
    ∃ c, next l ⟨v, cur⟩ = .ok (some (⟨v, cur + n⟩, c)) ∧ l.isBad c = true := by
  obtain ⟨c, hdecode, hwidth⟩ := Decoder.head_unprintable hhead
  have hdecode : l.decode (v.drop cur) = some (n, c) := hdecode
  refine ⟨c, by rw [next_eq h, hdecode]; rfl, ?_⟩
  cases hbad : l.isBad c with
  | true => rfl
  | false => simp [Locale.decoder, hbad] at hwidth

theorem next_undecodable (h : cur ≤ v.length)
    (hhead : l.decoder.head (v.drop cur) = .undecodable) : next l ⟨v, cur⟩ = .ok none := by
  have hdecode : l.decode (v.drop cur) = none := Decoder.head_undecodable hhead
  rw [next_eq h, hdecode]
  rfl

theorem nonempty_iff : (Xspan.mk v cur).nonempty = true ↔ cur ≠ v.length := by
  simp [Xspan.nonempty]

theorem drop_ne_nil (h : cur ≤ v.length) (hne : cur ≠ v.length) : v.drop cur ≠ [] := by
  rw [ne_eq, List.drop_eq_nil_iff]
  omega

/-- The loop adds up the widths of the characters from the cursor on. -/
theorem widthLoop_eq (h : cur ≤ v.length) (hfuel : v.length - cur < fuel)
    (hwidth : width < 2 ^ 64) :
    widthLoop l fuel ⟨v, cur⟩ width =
      some (.ok ((l.decoder.widthOf (v.drop cur)).map fun w => (width + w) % 2 ^ 64)) := by
  induction fuel generalizing cur width with
  | zero => omega
  | succ fuel ih =>
      rw [widthLoop]
      split
      · rename_i hne
        have hdrop := drop_ne_nil h (nonempty_iff.mp hne)
        cases hhead : l.decoder.head (v.drop cur) with
        | undecodable =>
            rw [next_undecodable h hhead, Decoder.widthOf_bad hdrop
              (Decoder.bad_of_undecodable hhead)]
            rfl
        | unprintable n =>
            obtain ⟨c, hnext, hbad⟩ := next_unprintable h hhead
            rw [hnext, Decoder.widthOf_bad hdrop (Decoder.bad_of_unprintable hhead)]
            simp only [hbad, if_true]
            rfl
        | good n w =>
            obtain ⟨c, hnext, hbad, hw⟩ := next_good h hhead
            have hpos := Decoder.head_pos hhead
            have hle := Decoder.head_le hhead
            rw [List.length_drop] at hle
            rw [hnext, Decoder.widthOf_good hhead, List.drop_drop]
            simp only [hbad, hw, Bool.false_eq_true, if_false]
            rw [ih (by omega) (by omega) (Nat.mod_lt _ (by decide)), Option.map_map]
            congr 3
            funext w'
            simp only [Function.comp_apply]
            omega
      · rename_i hempty
        have hcur : cur = v.length := by simpa [Xspan.nonempty] using hempty
        rw [hcur, List.drop_length, Decoder.widthOf_nil, Option.map_some, Nat.add_zero,
          Nat.mod_eq_of_lt hwidth]

/-- The loop finds the longest chain from the cursor on that still fits, if no sum is too large for
the machine. -/
theorem truncateLoop_eq (h : cur ≤ v.length) (hfuel : v.length - cur < fuel)
    (hmax : width ≤ maxWidth)
    (hfits : ∀ q w, q <+: v.drop cur → l.decoder.Chain q w → width + w < 2 ^ 64) :
    truncateLoop l maxWidth fuel ⟨v, cur⟩ width =
      some (.ok ((l.decoder.fit (maxWidth - width) (v.drop cur)).map
        fun (n, w) => (cur + n, width + w))) := by
  induction fuel generalizing cur width with
  | zero => omega
  | succ fuel ih =>
      have hwidth : width + 0 < 2 ^ 64 := hfits [] 0 List.nil_prefix .nil
      rw [truncateLoop]
      split
      · rename_i hne
        have hdrop := drop_ne_nil h (nonempty_iff.mp hne)
        cases hhead : l.decoder.head (v.drop cur) with
        | undecodable =>
            rw [next_undecodable h hhead, Decoder.fit_bad hdrop (Decoder.bad_of_undecodable hhead)]
            rfl
        | unprintable n =>
            obtain ⟨c, hnext, hbad⟩ := next_unprintable h hhead
            rw [hnext, Decoder.fit_bad hdrop (Decoder.bad_of_unprintable hhead)]
            simp only [hbad, if_true]
            rfl
        | good n w =>
            obtain ⟨c, hnext, hbad, hw⟩ := next_good h hhead
            have hpos := Decoder.head_pos hhead
            have hle := Decoder.head_le hhead
            obtain ⟨hchar, -⟩ := Decoder.exists_isChar hhead
            have hsum := hfits _ w (List.take_prefix n _) hchar.chain
            rw [List.length_drop] at hle
            rw [hnext, Decoder.fit_good hhead, List.drop_drop]
            simp only [hbad, hw, Bool.false_eq_true, if_false, Nat.mod_eq_of_lt hsum]
            split
            · rename_i hgt
              rw [if_neg (by omega)]
              simp only [Option.map_some, Nat.add_zero]
              congr 4
              omega
            · rename_i hle'
              have hrest (q : Bytes) (w' : Nat) (hq : q <+: v.drop (cur + n))
                  (hchain : l.decoder.Chain q w') : width + w + w' < 2 ^ 64 := by
                have hpre : (v.drop cur).take n ++ q <+: v.drop cur := by
                  rw [← List.drop_drop] at hq
                  have := (List.prefix_append_right_inj ((v.drop cur).take n)).mpr hq
                  rwa [List.take_append_drop] at this
                have := hfits _ _ hpre (.cons hchar hchain)
                omega
              rw [if_pos (by omega), ih (by omega) (by omega) (by omega) hrest, Option.map_map,
                Nat.sub_sub]
              congr 3
              funext p
              simp only [Function.comp_apply]
              congr 1
              · omega
              · omega
      · rename_i hempty
        have hcur : cur = v.length := by simpa [Xspan.nonempty] using hempty
        rw [hcur, List.drop_length, Decoder.fit_nil]
        rfl

theorem replace_eq (h : cur ≤ v.length) (hn : cur + n ≤ v.length) :
    replace ⟨v, cur⟩ ⟨v, cur + n⟩ = .ok (v.take cur, ⟨v.drop (cur + n), 0⟩) := by
  rw [replace, Xspan.processedV, safevSubspan_eq (Nat.zero_le cur) h, ok_bind,
    Xspan.skipProcessed, Xspan.unprocessedV, safevSuffix_eq hn]
  rfl

/-- The segments that the loop appends make up the bytes before the cursor and the clean ones from
it on. -/
theorem makeLoop_eq (h : cur ≤ v.length) (hfuel : v.length - cur < fuel) :
    ∃ appended, makeLoop l bad fuel ⟨v, cur⟩ segments = some (.ok (segments ++ appended)) ∧
      appended.flatten = v.take cur ++ l.decoder.clean bad (v.drop cur) := by
  induction fuel generalizing v cur segments with
  | zero => omega
  | succ fuel ih =>
      rw [makeLoop]
      split
      · rename_i hne
        have hne := nonempty_iff.mp hne
        have hdrop := drop_ne_nil h hne
        -- A replacement makes the rest of the string the string.
        have hskip (n : Nat) (hpos : 0 < n) (hle : cur + n ≤ v.length) :
            ∃ appended, makeLoop l bad fuel ⟨v.drop (cur + n), 0⟩ (segments ++ [v.take cur, bad]) =
                some (.ok (segments ++ appended)) ∧
              appended.flatten = v.take cur ++
                (bad ++ l.decoder.clean bad ((v.drop cur).drop n)) := by
          obtain ⟨appended, hloop, hflatten⟩ := @ih (v.drop (cur + n)) 0
            (segments ++ [v.take cur, bad]) (Nat.zero_le _) (by rw [List.length_drop]; omega)
          refine ⟨v.take cur :: bad :: appended, by rw [hloop]; simp, ?_⟩
          rw [List.flatten_cons, List.flatten_cons, hflatten, List.take_zero, List.drop_zero,
            List.nil_append, List.drop_drop]
        cases hhead : l.decoder.head (v.drop cur) with
        | undecodable =>
            obtain ⟨appended, hloop, hflatten⟩ := hskip 1 Nat.one_pos (by omega)
            refine ⟨appended, ?_, ?_⟩
            · rw [next_undecodable h hhead]
              change (match replace ⟨v, cur⟩ ⟨v, cur + 1⟩ with
                | .error e => _
                | .ok (segment, x) => _) = _
              rw [replace_eq h (by omega)]
              exact hloop
            · rw [hflatten, Decoder.clean_undecodable hdrop hhead]
        | unprintable n =>
            obtain ⟨c, hnext, hbad⟩ := next_unprintable h hhead
            have hpos := Decoder.unprintable_pos hhead
            have hle := Decoder.unprintable_le hhead
            rw [List.length_drop] at hle
            obtain ⟨appended, hloop, hflatten⟩ := hskip n hpos (by omega)
            refine ⟨appended, ?_, ?_⟩
            · rw [hnext]
              simp only [hbad, if_true, replace_eq h (show cur + n ≤ v.length by omega)]
              exact hloop
            · rw [hflatten, Decoder.clean_unprintable hdrop hhead]
        | good n w =>
            obtain ⟨c, hnext, hbad, -⟩ := next_good h hhead
            have hpos := Decoder.head_pos hhead
            have hle := Decoder.head_le hhead
            rw [List.length_drop] at hle
            obtain ⟨appended, hloop, hflatten⟩ := @ih v (cur + n) segments (by omega)
              (by omega)
            refine ⟨appended, ?_, ?_⟩
            · rw [hnext]
              simp only [hbad, Bool.false_eq_true, if_false]
              exact hloop
            · rw [hflatten, Decoder.clean_good hhead, List.take_add, List.append_assoc,
                List.drop_drop]
      · rename_i hempty
        have hcur : cur = v.length := by simpa [Xspan.nonempty] using hempty
        rw [Xspan.processedV, safevSubspan_eq (Nat.zero_le cur) h]
        refine ⟨_, rfl, ?_⟩
        rw [hcur, List.drop_length, Decoder.clean_nil]
        simp

end Loops

/-! ## Widths -/

section Widths

variable {l} {v bad : Bytes} {n w maxWidth : Nat}

/-- `libwidechar_width` adds up the widths of a chain, and fails if the string is none. -/
theorem libwidecharWidth_eq (v : Bytes) :
    libwidecharWidth l v = some (.ok ((l.decoder.widthOf v).map fun w => w % 2 ^ 64)) := by
  rw [libwidecharWidth, widthLoop_eq (Nat.zero_le _) (by omega) (by decide), List.drop_zero]
  simp only [Nat.zero_add]

/-- The sum of the widths of the characters at the beginning is a number of 64 bits. -/
def Fits (l : Locale W) (v : Bytes) : Prop :=
  ∀ q w, q <+: v → l.decoder.Chain q w → w < 2 ^ 64

theorem libwidecharTruncateToWidth_eq (h : Fits l v) (maxWidth : Nat) :
    libwidecharTruncateToWidth l v maxWidth = some (.ok (l.decoder.fit maxWidth v)) := by
  rw [libwidecharTruncateToWidth, truncateLoop_eq (Nat.zero_le _) (by omega) (Nat.zero_le _),
    List.drop_zero, Nat.sub_zero]
  · simp
  · intro q w hq hchain
    rw [Nat.zero_add]
    exact h q w hq hchain

/-- No character is wider than two columns, and no string has 2^63 bytes. -/
theorem fits_of_width_le (hle : ∀ c, l.wcwidth c ≤ 2) (hlength : v.length < 2 ^ 63) :
    Fits l v := by
  have hwidth {q : Bytes} {w : Nat} (hchain : l.decoder.Chain q w) : w ≤ 2 * q.length := by
    induction hchain with
    | nil => exact Nat.le_refl _
    | @cons u s w w' hchar _ ih =>
        obtain ⟨c, -, hw⟩ := Decoder.head_good hchar
        have hpos := Decoder.head_pos hchar
        have hc := hle c
        have htwo : w ≤ 2 := by
          cases hbad : l.isBad c with
          | true => simp [Locale.decoder, hbad] at hw
          | false =>
              have : (l.wcwidth c).toNat = w := by simpa [Locale.decoder, hbad] using hw
              omega
        rw [List.length_append]
        omega
  intro q w hq hchain
  have := hwidth hchain
  have := hq.length_le
  omega

/-- A character that is undecodable, NUL or non-printable comes before the first one that exceeds
the limit. -/
def FailsBefore (l : Locale W) (maxWidth : Nat) (v : Bytes) : Prop :=
  ∃ p r w, v = p ++ r ∧ l.decoder.Chain p w ∧ w ≤ maxWidth ∧ r ≠ [] ∧ l.decoder.Bad r

/-- The first `n` bytes are the longest prefix that ends behind a character and is not wider than
the limit, and they are `w` wide. -/
def Longest (l : Locale W) (maxWidth : Nat) (v : Bytes) (n w : Nat) : Prop :=
  n ≤ v.length ∧ l.decoder.Chain (v.take n) w ∧ w ≤ maxWidth ∧
    ∀ q w', q <+: v → l.decoder.Chain q w' → w' ≤ maxWidth → q.length ≤ n

/-- Truncation fails exactly if something bad comes first.  Otherwise it finds the longest prefix,
whose width is reported, and truncating again changes nothing.  A string with a width is returned as
a whole if and only if the limit allows it. -/
theorem libwidecharTruncateToWidth_spec (l : Locale W) {v : Bytes} (hfits : Fits l v)
    (maxWidth : Nat) :
    (libwidecharTruncateToWidth l v maxWidth = some (.ok none) ↔ FailsBefore l maxWidth v) ∧
    (¬ FailsBefore l maxWidth v → ∃ n w,
      libwidecharTruncateToWidth l v maxWidth = some (.ok (some (n, w))) ∧
      Longest l maxWidth v n w ∧
      libwidecharWidth l (v.take n) = some (.ok (some w)) ∧
      libwidecharTruncateToWidth l (v.take n) maxWidth = some (.ok (some (n, w)))) ∧
    ∀ w, libwidecharWidth l v = some (.ok (some w)) →
      ((∃ w', libwidecharTruncateToWidth l v maxWidth = some (.ok (some (v.length, w')))) ↔
        w ≤ maxWidth) := by
  rw [libwidecharTruncateToWidth_eq hfits]
  refine ⟨?_, ?_, ?_⟩
  · rw [Option.some.injEq, Except.ok.injEq, Decoder.fit_eq_none]
    rfl
  · intro hno
    cases hfit : l.decoder.fit maxWidth v with
    | none => exact absurd (Decoder.fit_eq_none.mp hfit) hno
    | some p =>
        obtain ⟨n, w⟩ := p
        obtain ⟨hlength, hchain, hle, hlongest⟩ := Decoder.fit_eq_some hfit
        have hpre : v.take n <+: v := List.take_prefix n v
        have hfits' : Fits l (v.take n) := fun q w' hq => hfits q w' (hq.trans hpre)
        refine ⟨n, w, rfl, ⟨hlength, hchain, hle, hlongest⟩, ?_, ?_⟩
        · rw [libwidecharWidth_eq, Decoder.widthOf_eq_some.mpr hchain, Option.map_some,
            Nat.mod_eq_of_lt (hfits _ w hpre hchain)]
        · rw [libwidecharTruncateToWidth_eq hfits', Decoder.fit_of_chain hchain hle,
            List.length_take_of_le hlength]
  · intro w hw
    rw [libwidecharWidth_eq, Option.some.injEq, Except.ok.injEq] at hw
    obtain ⟨w', hwidth, rfl⟩ := Option.map_eq_some_iff.mp hw
    have hchain := Decoder.widthOf_eq_some.mp hwidth
    rw [Nat.mod_eq_of_lt (hfits v w' (List.prefix_refl v) hchain), ← Decoder.fit_all_iff hchain]
    refine exists_congr fun w'' => ?_
    rw [Option.some.injEq, Except.ok.injEq]

/-- The segments that are appended make up the clean string.  It has a width if the replacement has
one, a string with a width is returned unchanged, and cleaning twice is cleaning once. -/
theorem libwidecharMakeValidAndPrintable_spec (l : Locale W) (v bad : Bytes) :
    (∃ segments, libwidecharMakeValidAndPrintable l v bad = some (.ok segments) ∧
      segments.flatten = l.decoder.clean bad v) ∧
    (∀ w, libwidecharWidth l bad = some (.ok (some w)) →
      (∃ w', libwidecharWidth l (l.decoder.clean bad v) = some (.ok (some w'))) ∧
      l.decoder.clean bad (l.decoder.clean bad v) = l.decoder.clean bad v) ∧
    ∀ w, libwidecharWidth l v = some (.ok (some w)) → l.decoder.clean bad v = v := by
  have hchain {s : Bytes} {w : Nat} (h : libwidecharWidth l s = some (.ok (some w))) :
      ∃ n, l.decoder.Chain s n := by
    rw [libwidecharWidth_eq, Option.some.injEq, Except.ok.injEq] at h
    obtain ⟨n, hn, -⟩ := Option.map_eq_some_iff.mp h
    exact ⟨n, Decoder.widthOf_eq_some.mp hn⟩
  refine ⟨?_, ?_, ?_⟩
  · obtain ⟨appended, hloop, hflatten⟩ := @makeLoop_eq W _ l v bad 0 (v.length + 1) []
      (Nat.zero_le _) (by omega)
    refine ⟨appended, hloop, ?_⟩
    rw [hflatten, List.take_zero, List.drop_zero, List.nil_append]
  · intro w hw
    obtain ⟨n, hbad⟩ := hchain hw
    obtain ⟨m, hclean⟩ := Decoder.chain_clean hbad v
    refine ⟨⟨m % 2 ^ 64, ?_⟩, Decoder.clean_of_chain hclean⟩
    rw [libwidecharWidth_eq, Decoder.widthOf_eq_some.mpr hclean]
    rfl
  · intro w hw
    obtain ⟨n, hv⟩ := hchain hw
    exact Decoder.clean_of_chain hv

end Widths

/-! ## A locale -/

/-- The C locale: the bytes below 128 are characters, and those from 32 to 126 are printable. -/
def ascii : Locale Byte where
  mbrtowc
    | [] => .incomplete
    | b :: _ => if b = 0 then .char 0 b else if b < 128 then .char 1 b else .invalid
  wcwidth b := if b = 0 then 0 else if 32 ≤ b ∧ b < 127 then 1 else -1
  nul := 0
  le := by
    intro v rc c h
    cases v with
    | nil => cases h
    | cons b v =>
        have hone : rc = 0 ∨ rc = 1 := by
          dsimp only at h
          split at h
          · cases h
            exact .inl rfl
          · split at h
            · cases h
              exact .inr rfl
            · cases h
        rcases hone with rfl | rfl
        · simp [consumed]
        · simp [consumed]
  stable := by
    intro u r rc c h hlength s
    cases u with
    | nil => exact absurd hlength (consumed_pos rc).ne'
    | cons b u => exact h

/-- Three of five characters fit. -/
theorem libwidecharTruncateToWidth_ascii :
    ∃ n w, libwidecharTruncateToWidth ascii (lit "abcde") 3 = some (.ok (some (n, w))) ∧
      Longest ascii 3 (lit "abcde") n w := by
  have hle (c : Byte) : ascii.wcwidth c ≤ 2 := by
    change (if c = 0 then (0 : Int) else if 32 ≤ c ∧ c < 127 then 1 else -1) ≤ 2
    split
    · decide
    · split
      · decide
      · decide
  have hspec := libwidecharTruncateToWidth_spec ascii (fits_of_width_le hle (by decide)) 3
    (v := lit "abcde")
  have hok : libwidecharTruncateToWidth ascii (lit "abcde") 3 = some (.ok (some (3, 3))) := by
    decide +kernel
  have hno : ¬ FailsBefore ascii 3 (lit "abcde") := by
    intro h
    have hnone := hspec.1.mpr h
    rw [hok] at hnone
    cases hnone
  obtain ⟨n, w, hresult, hlongest, -⟩ := hspec.2.1 hno
  exact ⟨n, w, hresult, hlongest⟩

end Luastatus.Libwidechar
