import Luastatus.Lib.Lines
import Luastatus.LibLs.Strarr
import Luastatus.Libsafe.Safev

/-!
# Lines of the MPD protocol

`write_quoted` writes an argument of a command between double quotes.  `parseQuoted` reads such an
argument as the server does: a backslash makes the next byte literal, and the first double quote
without one ends the argument.  Only double quotes are escaped, so a value is read back exactly if
it has no backslash (`writeQuoted_faithful_iff`).

A line of a response ends it (`OK`), fails it (`ACK`), or belongs to its body.  The body's lines of
the form `key: value` are collected in a string array, keys and values alternating; `keyValue` is
the pair of a line and `appendLineToKvStrarr_ofPairs` says that the array receives that pair.
-/

namespace Luastatus.Mpd

open Text (Byte Bytes ch lit)
open LibLs Libsafe

/-- `is_good_greeting`. -/
def isGoodGreeting (v : Bytes) : Bool := safevStartsWith v (lit "OK MPD ")

/-- `ResponseType`. -/
inductive ResponseType where
  | ok
  | ack
  | other
deriving DecidableEq, Repr

/-- `response_type`. -/
def responseType (v : Bytes) : ResponseType :=
  if safevEquals v (lit "OK") then .ok
  else if safevStartsWith v (lit "ACK ") then .ack
  else .other

/-- The loop of `write_quoted`; the bytes of the file are accumulated. -/
def writeQuotedLoop (f v : Bytes) : Except AssertFailure Bytes :=
  match safevIndexOf v (ch '"') with
  | none => .ok (f ++ v)
  | some i =>
      match safevSubspan v 0 i with
      | .error e => .error e
      | .ok curSeg =>
          match _hrest : safevSuffix v (i + 1) with
          | .error e => .error e
          | .ok rest => writeQuotedLoop (f ++ curSeg ++ [ch '\\', ch '"']) rest
termination_by v.length
decreasing_by exact safevSuffix_length_lt (Nat.succ_pos i) _hrest

/-- `write_quoted`. -/
def writeQuoted (f v : Bytes) : Except AssertFailure Bytes := do
  let f ← writeQuotedLoop (f ++ [ch '"']) v
  return f ++ [ch '"']

/-- `append_line_to_kv_strarr`. -/
def appendLineToKvStrarr (sa : StringArray) (line : Bytes) : Except AssertFailure StringArray :=
  match safevIndexOf line (ch ':') with
  | none => .ok sa
  | some i =>
      if safevAtOr line (i + 1) 0 ≠ ch ' ' then .ok sa
      else do
        let key ← safevSubspan line 0 i
        let sa := lsStrarrAppend sa key
        let value ← safevSuffix line (i + 2)
        return lsStrarrAppend sa value

/-! ## Quoted arguments -/

/-- What `write_quoted` writes for one byte. -/
def escapeByte (c : Byte) : Bytes := if c = ch '"' then [ch '\\', ch '"'] else [c]

/-- What `write_quoted` writes between the quotes. -/
def escapeQuotes (v : Bytes) : Bytes := v.flatMap escapeByte

/-- The argument after an opening quote, and what follows its closing quote. -/
def parseArg : Bytes → Option (Bytes × Bytes)
  | [] => none
  | [c] => if c = ch '"' then some ([], []) else none
  | c :: d :: cs =>
      if c = ch '"' then some ([], d :: cs)
      else if c = ch '\\' then (parseArg cs).map fun r => (d :: r.1, r.2)
      else (parseArg (d :: cs)).map fun r => (c :: r.1, r.2)

/-- A quoted argument, and what follows it. -/
def parseQuoted : Bytes → Option (Bytes × Bytes)
  | [] => none
  | c :: cs => if c = ch '"' then parseArg cs else none

variable {v w r rest : Bytes} {c d : Byte}

theorem escapeByte_of_ne (h : c ≠ ch '"') : escapeByte c = [c] := if_neg h

theorem escapeQuotes_cons (c : Byte) (v : Bytes) :
    escapeQuotes (c :: v) = escapeByte c ++ escapeQuotes v := List.flatMap_cons

theorem escapeQuotes_of_not_mem (h : ch '"' ∉ v) : escapeQuotes v = v := by
  induction v with
  | nil => rfl
  | cons c v ih =>
      rw [List.mem_cons, not_or] at h
      rw [escapeQuotes_cons, escapeByte_of_ne (Ne.symm h.1), ih h.2, List.singleton_append]

theorem writeQuotedLoop_eq (v : Bytes) :
    ∀ f, writeQuotedLoop f v = .ok (f ++ escapeQuotes v) := by
  induction v using Lines.delim_induction (ch '"') with
  | rest v h =>
      intro f
      rw [writeQuotedLoop, safevIndexOf_of_not_mem h, escapeQuotes_of_not_mem h]
  | chunk l r hl ih =>
      intro f
      have hesc : escapeQuotes (l ++ ch '"' :: r) = l ++ [ch '\\', ch '"'] ++ escapeQuotes r := by
        rw [escapeQuotes, List.flatMap_append, List.flatMap_cons]
        change escapeQuotes l ++ (escapeByte (ch '"') ++ escapeQuotes r) = _
        rw [escapeQuotes_of_not_mem hl, escapeByte, if_pos rfl, List.append_assoc]
      have hseg : safevSubspan (l ++ ch '"' :: r) 0 l.length = .ok l := by
        rw [safevSubspan_eq (Nat.zero_le _) (by simp)]
        simp
      have hsuf : safevSuffix (l ++ ch '"' :: r) (l.length + 1) = .ok r := by
        rw [safevSuffix_eq (by simp)]
        simp
      rw [writeQuotedLoop, safevIndexOf_append_cons hl]
      simp only [hseg]
      split
      · rename_i hfail
        rw [hsuf] at hfail
        cases hfail
      · rename_i rest hrest
        cases Except.ok.inj (hsuf.symm.trans hrest)
        rw [ih, hesc, List.append_assoc, List.append_assoc, List.append_assoc]

theorem writeQuoted_eq (f v : Bytes) :
    writeQuoted f v = .ok (f ++ ch '"' :: escapeQuotes v ++ [ch '"']) := by
  rw [writeQuoted, writeQuotedLoop_eq, ok_bind]
  simp [pure, Except.pure]

theorem parseArg_quote (rest : Bytes) : parseArg (ch '"' :: rest) = some ([], rest) := by
  cases rest <;> simp [parseArg]

theorem parseArg_backslash (d : Byte) (rest : Bytes) :
    parseArg (ch '\\' :: d :: rest) = (parseArg rest).map fun r => (d :: r.1, r.2) := by
  have hne : ch '\\' ≠ ch '"' := by decide
  rw [parseArg, if_neg hne, if_pos rfl]

theorem parseArg_of_ne (hq : c ≠ ch '"') (hb : c ≠ ch '\\') (rest : Bytes) :
    parseArg (c :: rest) = (parseArg rest).map fun r => (c :: r.1, r.2) := by
  cases rest with
  | nil => simp [parseArg, hq]
  | cons d ds => rw [parseArg, if_neg hq, if_neg hb]

/-- An escaped double quote is read as a double quote. -/
theorem parseArg_escapeByte (hb : c ≠ ch '\\') (rest : Bytes) :
    parseArg (escapeByte c ++ rest) = (parseArg rest).map fun r => (c :: r.1, r.2) := by
  by_cases hq : c = ch '"'
  · rw [hq, escapeByte, if_pos rfl]
    exact parseArg_backslash (ch '"') rest
  · rw [escapeByte_of_ne hq]
    exact parseArg_of_ne hq hb rest

/-- Without a backslash the argument is read back. -/
theorem parseArg_escapeQuotes (h : ch '\\' ∉ v) (rest : Bytes) :
    parseArg (escapeQuotes v ++ ch '"' :: rest) = some (v, rest) := by
  induction v with
  | nil => exact parseArg_quote rest
  | cons c v ih =>
      rw [List.mem_cons, not_or] at h
      rw [escapeQuotes_cons, List.append_assoc, parseArg_escapeByte (Ne.symm h.1), ih h.2]
      rfl

/-- `Shrinks w`: if the argument written for `w` ends at the last byte, what is read back is not
longer than `w`, and shorter if `w` has a backslash. -/
def Shrinks (w : Bytes) : Prop :=
  ∀ r, parseArg (escapeQuotes w ++ [ch '"']) = some (r, []) →
    r.length ≤ w.length ∧ (ch '\\' ∈ w → r.length < w.length)

theorem Shrinks.nil : Shrinks [] := by
  intro r hr
  rw [escapeQuotes, List.flatMap_nil, List.nil_append, parseArg_quote] at hr
  cases hr
  exact ⟨Nat.le_refl _, by simp⟩

theorem Shrinks.cons (hb : c ≠ ch '\\') (ih : Shrinks w) : Shrinks (c :: w) := by
  intro r hr
  rw [escapeQuotes_cons, List.append_assoc, parseArg_escapeByte hb, Option.map_eq_some_iff] at hr
  obtain ⟨⟨r', e⟩, hr', he⟩ := hr
  cases he
  obtain ⟨hle, hlt⟩ := ih r' hr'
  refine ⟨Nat.succ_le_succ hle, fun hm => Nat.succ_lt_succ (hlt ?_)⟩
  rcases List.mem_cons.mp hm with h | h
  · exact absurd h.symm hb
  · exact h

/-- A backslash at the end takes the closing quote. -/
theorem Shrinks.backslash : Shrinks [ch '\\'] := by
  intro r hr
  have hnone : parseArg (escapeQuotes [ch '\\'] ++ [ch '"']) = none := by decide
  rw [hnone] at hr
  cases hr

/-- A backslash elsewhere takes the next byte.  If that is the backslash of an escaped quote, the
argument ends at this quote, which is not the last byte. -/
theorem Shrinks.backslash_cons (ih : Shrinks w) : Shrinks (ch '\\' :: d :: w) := by
  intro r hr
  have hesc : escapeByte (ch '\\') = [ch '\\'] := by decide
  rw [escapeQuotes_cons, hesc, escapeQuotes_cons] at hr
  by_cases hd : d = ch '"'
  · rw [hd, escapeByte, if_pos rfl] at hr
    simp only [List.cons_append, List.nil_append] at hr
    rw [parseArg_backslash, parseArg_quote] at hr
    simp at hr
  · rw [escapeByte_of_ne hd] at hr
    simp only [List.cons_append, List.nil_append] at hr
    rw [parseArg_backslash, Option.map_eq_some_iff] at hr
    obtain ⟨⟨r', e⟩, hr', he⟩ := hr
    cases he
    have hle := (ih r' hr').1
    simp only [List.length_cons]
    omega

theorem shrinks (w : Bytes) : Shrinks w := by
  induction w using List.twoStepInduction with
  | nil => exact .nil
  | singleton c =>
      by_cases hb : c = ch '\\'
      · exact hb ▸ .backslash
      · exact .cons hb .nil
  | cons_cons c d w ih ih' =>
      by_cases hb : c = ch '\\'
      · exact hb ▸ .backslash_cons ih
      · exact .cons hb (ih' d)

/-- A value is read back exactly, the argument ending at the last byte written, if and only if it
has no backslash. -/
theorem writeQuoted_faithful_iff (v : Bytes) :
    (∃ out, writeQuoted [] v = .ok out ∧ parseQuoted out = some (v, [])) ↔ ch '\\' ∉ v := by
  rw [writeQuoted_eq]
  constructor
  · rintro ⟨out, hout, hparse⟩ hm
    cases hout
    rw [List.nil_append, List.cons_append, parseQuoted, if_pos rfl] at hparse
    exact Nat.lt_irrefl _ ((shrinks v v hparse).2 hm)
  · intro h
    refine ⟨_, rfl, ?_⟩
    rw [List.nil_append, List.cons_append, parseQuoted, if_pos rfl]
    exact parseArg_escapeQuotes h []

/-- A password that is a single backslash is sent as an argument without an end. -/
theorem writeQuoted_backslash :
    ch '\n' ∉ [ch '\\'] ∧ writeQuoted [] [ch '\\'] = .ok [ch '"', ch '\\', ch '"'] ∧
      parseQuoted [ch '"', ch '\\', ch '"'] = none ∧
      ¬ ∃ out, writeQuoted [] [ch '\\'] = .ok out ∧ parseQuoted out = some ([ch '\\'], []) := by
  have hout : writeQuoted [] [ch '\\'] = .ok [ch '"', ch '\\', ch '"'] := by
    rw [writeQuoted_eq]
    rfl
  have hparse : parseQuoted [ch '"', ch '\\', ch '"'] = none := by decide
  refine ⟨by decide, hout, hparse, ?_⟩
  rintro ⟨out, hw, hp⟩
  rw [hout] at hw
  cases hw
  rw [hparse] at hp
  cases hp

/-! ## Key/value lines -/

/-- The key and the value of a line whose first colon is followed by a space. -/
def keyValue (line : Bytes) : Option (Bytes × Bytes) :=
  match line.dropWhile (· ≠ ch ':') with
  | _ :: b :: value => if b = ch ' ' then some (line.takeWhile (· ≠ ch ':'), value) else none
  | _ => none

/-- The elements of an array of pairs. -/
def pairElems (ps : List (Bytes × Bytes)) : List Bytes := ps.flatMap fun p => [p.1, p.2]

/-- The array that holds the given keys and values, alternating. -/
def ofPairs (ps : List (Bytes × Bytes)) : StringArray := .ofList (pairElems ps)

theorem pairElems_append (ps qs : List (Bytes × Bytes)) :
    pairElems (ps ++ qs) = pairElems ps ++ pairElems qs := List.flatMap_append

theorem length_pairElems (ps : List (Bytes × Bytes)) : (pairElems ps).length = 2 * ps.length := by
  induction ps with
  | nil => rfl
  | cons p ps ih =>
      rw [pairElems, List.flatMap_cons, List.length_append]
      change 2 + (pairElems ps).length = _
      rw [ih, List.length_cons]
      omega

theorem ne_colon_of_mem (h : ch ':' ∉ v) : ∀ b ∈ v, decide (b ≠ ch ':') = true :=
  fun _ hb => decide_eq_true fun he => h (he ▸ hb)

theorem keyValue_of_not_mem (h : ch ':' ∉ v) : keyValue v = none := by
  have hdrop : v.dropWhile (· ≠ ch ':') = [] := by
    rw [← List.append_nil v, List.dropWhile_append_of_pos (ne_colon_of_mem h), List.dropWhile_nil]
  rw [keyValue, hdrop]

theorem keyValue_append_cons (h : ch ':' ∉ v) (rest : Bytes) :
    keyValue (v ++ ch ':' :: rest) =
      if rest.head? = some (ch ' ') then some (v, rest.tail) else none := by
  have hdrop : (v ++ ch ':' :: rest).dropWhile (· ≠ ch ':') = ch ':' :: rest := by
    rw [List.dropWhile_append_of_pos (ne_colon_of_mem h)]
    exact List.dropWhile_cons_of_neg (by simp)
  have htake : (v ++ ch ':' :: rest).takeWhile (· ≠ ch ':') = v := by
    rw [List.takeWhile_append_of_pos (ne_colon_of_mem h)]
    simp
  rw [keyValue, hdrop, htake]
  cases rest with
  | nil => rfl
  | cons b value => simp

/-- A line adds its pair to the array, both parts or none. -/
theorem appendLineToKvStrarr_ofPairs (ps : List (Bytes × Bytes)) (line : Bytes) :
    appendLineToKvStrarr (ofPairs ps) line = .ok (ofPairs (ps ++ (keyValue line).toList)) := by
  by_cases h : ch ':' ∈ line
  · obtain ⟨key, rest, hline, hkey⟩ := List.eq_append_cons_of_mem h
    subst hline
    have hat : safevAtOr (key ++ ch ':' :: rest) (key.length + 1) 0 = rest.headD 0 := by
      rw [safevAtOr_add, List.drop_left, List.headD_eq_head?_getD]
      simp [List.head?_eq_getElem?]
    rw [appendLineToKvStrarr, safevIndexOf_append_cons hkey, keyValue_append_cons hkey]
    simp only [hat]
    cases rest with
    | nil =>
        have : (0 : Byte) ≠ ch ' ' := by decide
        simp [this]
    | cons b value =>
        by_cases hb : b = ch ' '
        · subst hb
          rw [safevSubspan_eq (Nat.zero_le _) (by simp), safevSuffix_eq (by simp)]
          simp [ok_bind, ofPairs, lsStrarrAppend_ofList, pairElems, pure, Except.pure]
        · simp [hb]
  · rw [appendLineToKvStrarr, safevIndexOf_of_not_mem h, keyValue_of_not_mem h]
    simp

end Luastatus.Mpd
