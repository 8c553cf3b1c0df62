import Luastatus.Lib.Bytes

/-!
# The predefined entities of XML

A markup language of the XML family gives a meaning to five characters.  A text that contains them
is written with references to the five predefined entities.

`decode` replaces the references by the characters, and refuses an ampersand that starts none of
them.  `Quotable t` says that `t` may stand in an attribute between quotes of either kind: it
contains none of the characters, but for ampersands that start a reference.  `escape` writes any
text in this form (`quotable_escape`), and `decode` reads it back (`decode_escape`).
-/

namespace Xml

open Text (Byte Bytes ch lit)

inductive Entity where
  | amp
  | lt
  | gt
  | apos
  | quot
deriving DecidableEq, Repr

namespace Entity

/-- The character that the entity stands for. -/
def char : Entity → Byte
  | amp => ch '&'
  | lt => ch '<'
  | gt => ch '>'
  | apos => ch '\''
  | quot => ch '"'

def name : Entity → Bytes
  | amp => lit "amp"
  | lt => lit "lt"
  | gt => lit "gt"
  | apos => lit "apos"
  | quot => lit "quot"

/-- A reference to the entity. -/
def ref (e : Entity) : Bytes := ch '&' :: e.name ++ [ch ';']

def all : List Entity := [amp, lt, gt, apos, quot]

def ofName? (name : Bytes) : Option Entity := all.find? (·.name = name)

/-- The entity that stands for a byte. -/
def ofChar? (b : Byte) : Option Entity := all.find? (·.char = b)

theorem ofName?_name (e : Entity) : ofName? e.name = some e := by
  cases e <;> rfl

theorem ofChar?_char (e : Entity) : ofChar? e.char = some e := by
  cases e <;> rfl

theorem char_of_ofChar? {b : Byte} {e : Entity} (h : ofChar? b = some e) : e.char = b :=
  of_decide_eq_true (List.find?_some (p := fun e : Entity => decide (e.char = b)) h)

theorem char_ne_of_ofChar? {b : Byte} (h : ofChar? b = none) (e : Entity) : b ≠ e.char := by
  rintro rfl
  cases (ofChar?_char e).symm.trans h

/-- A name does not contain the byte that ends a reference. -/
theorem semicolon_notMem_name (e : Entity) : ch ';' ∉ e.name := by
  cases e <;> decide

/-- The only special character of a reference is the ampersand at its start. -/
theorem char_notMem_tail (e f : Entity) : f.char ∉ e.name ++ [ch ';'] := by
  cases e <;> cases f <;> decide

end Entity

/-! ## Decoding -/

/-- Decode a text; `pending` is what has been read of the name of a reference. -/
def decodeFrom : Option Bytes → Bytes → Option Bytes
  | none, [] => some []
  | some _, [] => none
  | none, b :: t =>
      if b = ch '&' then decodeFrom (some []) t else (decodeFrom none t).map (b :: ·)
  | some name, b :: t =>
      if b = ch ';' then
        match Entity.ofName? name with
        | some e => (decodeFrom none t).map (e.char :: ·)
        | none => none
      else decodeFrom (some (name ++ [b])) t

/-- Replace the references by the characters that they stand for. -/
def decode (t : Bytes) : Option Bytes := decodeFrom none t

theorem decodeFrom_none_cons (b : Byte) (t : Bytes) :
    decodeFrom none (b :: t) =
      if b = ch '&' then decodeFrom (some []) t else (decodeFrom none t).map (b :: ·) := rfl

theorem decodeFrom_some_cons (name : Bytes) (b : Byte) (t : Bytes) :
    decodeFrom (some name) (b :: t) =
      if b = ch ';' then (Entity.ofName? name).bind fun e => (decodeFrom none t).map (e.char :: ·)
      else decodeFrom (some (name ++ [b])) t := by
  show (if b = ch ';' then _ else _) = _
  cases Entity.ofName? name <;> rfl

theorem decode_cons {b : Byte} (hb : b ≠ ch '&') (t : Bytes) :
    decode (b :: t) = (decode t).map (b :: ·) := by
  rw [decode, decodeFrom_none_cons, if_neg hb]
  rfl

/-- The rest of a name is read up to the semicolon. -/
theorem decodeFrom_name (name rest t : Bytes) (h : ch ';' ∉ rest) :
    decodeFrom (some name) (rest ++ t) = decodeFrom (some (name ++ rest)) t := by
  induction rest generalizing name with
  | nil => rw [List.nil_append, List.append_nil]
  | cons b rest ih =>
      rw [List.cons_append, decodeFrom_some_cons, if_neg (List.ne_of_not_mem_cons h).symm,
        ih _ (List.not_mem_of_not_mem_cons h), List.append_assoc, List.singleton_append]

theorem decode_ref (e : Entity) (t : Bytes) :
    decode (e.ref ++ t) = (decode t).map (e.char :: ·) := by
  have hname : decodeFrom (some []) (e.name ++ (ch ';' :: t)) =
      decodeFrom (some e.name) (ch ';' :: t) :=
    decodeFrom_name [] e.name _ e.semicolon_notMem_name
  rw [decode, Entity.ref, List.append_assoc, List.cons_append, decodeFrom_none_cons, if_pos rfl]
  show decodeFrom (some []) (e.name ++ (ch ';' :: t)) = _
  rw [hname, decodeFrom_some_cons, if_pos rfl, Entity.ofName?_name]
  rfl

/-! ## Texts between quotes -/

/-- The text may stand between quotes. -/
inductive Quotable : Bytes → Prop where
  | nil : Quotable []
  | char (b : Byte) (t : Bytes) : (∀ e : Entity, b ≠ e.char) → Quotable t → Quotable (b :: t)
  | ref (e : Entity) (t : Bytes) : Quotable t → Quotable (e.ref ++ t)

/-- None of the special characters stands for itself. -/
theorem Quotable.notMem {t : Bytes} (h : Quotable t) {e : Entity} (he : e ≠ .amp) :
    e.char ∉ t := by
  induction h with
  | nil => exact List.not_mem_nil
  | char b t hb _ ih =>
      rw [List.mem_cons]
      rintro (hbe | hmem)
      · exact hb e hbe.symm
      · exact ih hmem
  | ref f t _ ih =>
      have hamp : e.char ≠ ch '&' := by
        cases e with
        | amp => exact absurd rfl he
        | _ => decide
      rw [Entity.ref, List.cons_append, List.cons_append, List.mem_cons, List.mem_append]
      rintro (hbe | hmem | hmem)
      · exact hamp hbe
      · exact f.char_notMem_tail e hmem
      · exact ih hmem

/-- Every ampersand starts a reference. -/
theorem Quotable.amp {t : Bytes} (h : Quotable t) {before after : Bytes}
    (ht : t = before ++ ch '&' :: after) : ∃ e : Entity, e.ref <+: ch '&' :: after := by
  induction h generalizing before with
  | nil => cases before <;> cases ht
  | char b t hb _ ih =>
      cases before with
      | nil =>
          obtain ⟨rfl, -⟩ := List.cons.inj ht
          exact absurd rfl (hb .amp)
      | cons c before => exact ih (List.cons.inj ht).2
  | ref e t _ ih =>
      cases before with
      | nil =>
          rw [← List.nil_append (ch '&' :: after), ← ht]
          exact ⟨e, List.prefix_append _ _⟩
      | cons c before =>
          have htail : e.name ++ [ch ';'] ++ t = before ++ ch '&' :: after := (List.cons.inj ht).2
          -- the ampersand is behind the reference, which has no other one
          rcases List.append_eq_append_iff.mp htail with ⟨rest, -, hrest⟩ | ⟨rest, htail', hrest⟩
          · exact ih hrest
          · cases rest with
            | nil =>
                have ht' : t = [] ++ ch '&' :: after := hrest.symm
                exact ih ht'
            | cons c rest =>
                obtain ⟨rfl, -⟩ := List.cons.inj hrest
                refine absurd ?_ (e.char_notMem_tail .amp)
                rw [htail']
                exact List.mem_append_right _ List.mem_cons_self

/-! ## Escaping -/

/-- What is written for a byte. -/
def escapeByte (b : Byte) : Bytes :=
  match Entity.ofChar? b with
  | some e => e.ref
  | none => [b]

def escape (v : Bytes) : Bytes := v.flatMap escapeByte

theorem escape_cons (b : Byte) (v : Bytes) : escape (b :: v) = escapeByte b ++ escape v :=
  List.flatMap_cons

/-- Decoding gives back what was escaped. -/
theorem decode_escape (v : Bytes) : decode (escape v) = some v := by
  induction v with
  | nil => rfl
  | cons b v ih =>
      rw [escape_cons, escapeByte]
      cases hb : Entity.ofChar? b with
      | some e =>
          dsimp only
          rw [decode_ref, ih, Entity.char_of_ofChar? hb]
          rfl
      | none =>
          dsimp only
          rw [List.singleton_append, decode_cons (Entity.char_ne_of_ofChar? hb .amp), ih]
          rfl

theorem quotable_escape (v : Bytes) : Quotable (escape v) := by
  induction v with
  | nil => exact .nil
  | cons b v ih =>
      rw [escape_cons, escapeByte]
      cases hb : Entity.ofChar? b with
      | some e => exact .ref e _ ih
      | none => exact .char b _ (Entity.char_ne_of_ofChar? hb) ih

end Xml
