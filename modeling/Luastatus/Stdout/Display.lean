import Luastatus.Libsafe.Safev
import Luastatus.Lib.Lines
import Luastatus.Barlib.Texts

/-!
# The stdout barlib

A line for each redraw, with the widgets' texts joined by the separator.  `append_sanitized` drops
the newlines of a text, so that a line stays one line.
-/

namespace Luastatus.Stdout

open Text (Byte Bytes ch lit)
open Libsafe LibLs Lua Join Barlib

/-- The options that `set()` and `redraw()` use. -/
structure Options where
  sep : Bytes := lit " | "
  error : Bytes := lit "(Error)"

/-! ## Sanitizing -/

/-- `append_sanitized`: the buffer after it. -/
def appendSanitized (buf v : Bytes) : Except AssertFailure Bytes :=
  match safevIndexOf v (ch '\n') with
  | none => .ok (buf ++ v)
  | some i =>
      match safevSubspan v 0 i with
      | .error e => .error e
      | .ok s =>
          match _hrest : safevSuffix v (i + 1) with
          | .error e => .error e
          | .ok rest => appendSanitized (buf ++ s) rest
termination_by v.length
decreasing_by exact safevSuffix_length_lt (Nat.succ_pos i) _hrest

/-- What `append_sanitized` appends. -/
def dropNewlines (v : Bytes) : Bytes := v.filter (· ≠ ch '\n')

theorem appendSanitized_eq (v : Bytes) :
    ∀ buf, appendSanitized buf v = .ok (buf ++ dropNewlines v) := by
  induction v using Lines.delim_induction (ch '\n') with
  | rest v h =>
      intro buf
      have hkeep : dropNewlines v = v :=
        List.filter_eq_self.mpr fun b hb => by simpa using fun he : b = ch '\n' => h (he ▸ hb)
      rw [appendSanitized, safevIndexOf_of_not_mem h, hkeep]
  | chunk l r h ih =>
      intro buf
      have hlen : (l ++ ch '\n' :: r).length = l.length + 1 + r.length := by simp; omega
      have hkeep : dropNewlines (l ++ ch '\n' :: r) = l ++ dropNewlines r := by
        have hl : l.filter (· ≠ ch '\n') = l :=
          List.filter_eq_self.mpr fun b hb => by simpa using fun he : b = ch '\n' => h (he ▸ hb)
        rw [dropNewlines, List.filter_append, hl, List.filter_cons_of_neg (by simp), dropNewlines]
      have hsub : safevSubspan (l ++ ch '\n' :: r) 0 l.length = .ok l := by
        rw [safevSubspan_eq (Nat.zero_le _) (by omega)]
        simp
      have hsuf : safevSuffix (l ++ ch '\n' :: r) (l.length + 1) = .ok r := by
        rw [safevSuffix_eq (by omega)]
        simp
      rw [appendSanitized, safevIndexOf_append_cons h]
      simp only [hsub]
      split
      · rename_i hfail
        rw [hsuf] at hfail
        cases hfail
      · rename_i rest hrest
        cases Except.ok.inj (hsuf.symm.trans hrest)
        rw [ih, hkeep, List.append_assoc]

/-! ## Drawing -/

/-- The line that `redraw()` writes. -/
def line (o : Options) (bufs : List Bytes) : Bytes :=
  joinFirst o.sep true [] bufs ++ [ch '\n']

variable {F : Type} {n : Nat}

/-- `redraw()`. -/
def redraw (o : Options) : Bool → Priv n → Priv n × Bool := Barlib.redraw (line o)

/-- What the barlib brings along: strings are sanitized, alone and in arrays. -/
def drawing (o : Options) : Drawing F where
  fill _ := fillTexts ⟨appendSanitized, appendSanitized⟩ o.sep
  errorText := o.error
  line := line o

/-- `set()`. -/
def set (o : Options) : Bool → Priv n → Fin n → Arg F → Except AssertFailure (Priv n × Status) :=
  (drawing o).set

/-- `set_error()`. -/
def setError (o : Options) : Bool → Priv n → Fin n → Priv n × Status :=
  Barlib.setError (line o) o.error

/-- The state that `init()` leaves. -/
def init : Priv n := ⟨fun _ => [], [], []⟩

theorem line_eq (o : Options) (bufs : List Bytes) :
    line o bufs = joinNonempty o.sep bufs ++ [ch '\n'] := by
  rw [line, joinFirst_true, List.nil_append]

theorem renders (o : Options) :
    (drawing (F := F) o).Renders ⟨fun _ => textOf dropNewlines o.sep, o.error⟩ :=
  renders_textOf (fun _ s => appendSanitized_eq s [])
    (fun _ buf s => appendSanitized_eq s buf) _ _ _

end Luastatus.Stdout
