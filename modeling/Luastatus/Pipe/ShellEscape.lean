import Luastatus.Lib.ShellWords

/-!
# Shell escaping in the pipe plugin

`shell_escape` puts a string between single quotes, and writes a single quote inside of it as
`'\''`: the end of the quotes, an escaped quote, and the beginning of quotes again.  An array is
escaped element by element, nested arrays like any other element, and the texts are joined with
spaces.

The shell reads the text of a string as this one word, and the text of an array as the strings in
it (`shellEscape_words`).  An empty array inside of another one leaves two spaces side by side,
which do not make a word.
-/

namespace Luastatus.Pipe

open Text (Byte Bytes ch lit)
open Shell

/-! ## The code -/

/-- The argument.  A table is the list of the values that `ipairs` visits. -/
inductive Arg where
  | string (s : Bytes)
  | table (items : List Arg)
  | other

/-- `x:gsub("'", "'\\''")`. -/
def gsubQuote (x : Bytes) : Bytes := x.flatMap fun c => if c = ch '\'' then lit "'\\''" else [c]

mutual

/-- `shell_escape`; an error is its message. -/
def shellEscape : Arg → Except String Bytes
  | .string x =>
      if 0 ∈ x then .error "shell argument contains NUL character"
      else .ok (lit "'" ++ gsubQuote x ++ lit "'")
  | .table items => do
      let t ← shellEscapeItems items
      return [ch ' '].intercalate t
  | .other => .error "argument type is neither string nor table"

/-- The loop of `shell_escape`: the texts in `t`. -/
def shellEscapeItems : List Arg → Except String (List Bytes)
  | [] => .ok []
  | arg :: items => do
      let text ← shellEscape arg
      let t ← shellEscapeItems items
      return text :: t

end

/-! ## What is to be read -/

mutual

/-- The strings in an argument, from left to right. -/
def strings : Arg → List Bytes
  | .string x => [x]
  | .table items => itemStrings items
  | .other => []

def itemStrings : List Arg → List Bytes
  | [] => []
  | arg :: items => strings arg ++ itemStrings items

end

/-- A string without NUL bytes, or an array of arguments of this kind. -/
inductive Escapable : Arg → Prop where
  | string {x : Bytes} : 0 ∉ x → Escapable (.string x)
  | table {items : List Arg} : (∀ arg ∈ items, Escapable arg) → Escapable (.table items)

/-! ## A string -/

theorem gsubQuote_quote (x : Bytes) :
    gsubQuote (ch '\'' :: x) = ch '\'' :: ch '\\' :: ch '\'' :: ch '\'' :: gsubQuote x := rfl

theorem gsubQuote_of_ne {c : Byte} (hc : c ≠ ch '\'') (x : Bytes) :
    gsubQuote (c :: x) = c :: gsubQuote x := by
  rw [gsubQuote, List.flatMap_cons, if_neg hc]
  rfl

/-- Inside of single quotes the shell reads the characters as they are. -/
theorem read_gsubQuote (x : Bytes) :
    ∀ w rest : Bytes, read (.single w) (gsubQuote x ++ ch '\'' :: rest) =
      read (.unquoted (some (w ++ x))) rest := by
  induction x with
  | nil =>
      intro w rest
      have hend : step (.single w) (ch '\'') = some (none, .unquoted (some w)) := rfl
      rw [gsubQuote, List.flatMap_nil, List.nil_append, read_cons_of_none hend, List.append_nil]
  | cons c x ih =>
      intro w rest
      by_cases hc : c = ch '\''
      · -- the end of the quotes, the escaped quote, and the quotes again
        have h₁ : step (.single w) (ch '\'') = some (none, .unquoted (some w)) := rfl
        have h₂ : step (.unquoted (some w)) (ch '\\') = some (none, .escaped (some w)) := rfl
        have h₃ : step (.escaped (some w)) (ch '\'') =
            some (none, .unquoted (some (w ++ [ch '\'']))) := rfl
        have h₄ : step (.unquoted (some (w ++ [ch '\'']))) (ch '\'') =
            some (none, .single (w ++ [ch '\''])) := rfl
        rw [hc, gsubQuote_quote, List.cons_append, read_cons_of_none h₁, List.cons_append,
          read_cons_of_none h₂, List.cons_append, read_cons_of_none h₃, List.cons_append,
          read_cons_of_none h₄, ih, List.append_assoc, List.singleton_append]
      · have hstep : step (.single w) c = some (none, .single (w ++ [c])) := by
          rw [step, if_neg hc]
        rw [gsubQuote_of_ne hc, List.cons_append, read_cons_of_none hstep, ih, List.append_assoc,
          List.singleton_append]

theorem yields_quoted (x : Bytes) : Yields (lit "'" ++ gsubQuote x ++ lit "'") [x] := by
  refine .of_word fun rest => ?_
  have hbegin : step (.unquoted none) (ch '\'') = some (none, .single []) := rfl
  have htext : lit "'" ++ gsubQuote x ++ lit "'" ++ rest =
      ch '\'' :: (gsubQuote x ++ ch '\'' :: rest) := by
    simp [lit]
  rw [htext, read_cons_of_none hbegin, read_gsubQuote, List.nil_append]

/-! ## Arrays -/

theorem itemStrings_eq (items : List Arg) : itemStrings items = (items.map strings).flatten := by
  induction items with
  | nil => rfl
  | cons arg items ih => rw [itemStrings, ih, List.map_cons, List.flatten_cons]

mutual

/-- The text of an argument is read as the strings in it. -/
theorem shellEscape_yields {arg : Arg} (h : Escapable arg) :
    ∃ text, shellEscape arg = .ok text ∧ Yields text (strings arg) := by
  match arg, h with
  | .string x, .string hx => exact ⟨_, if_neg hx, yields_quoted x⟩
  | .table items, .table hitems =>
      obtain ⟨t, ht, hy⟩ := shellEscapeItems_yields hitems
      refine ⟨[ch ' '].intercalate t, ?_, ?_⟩
      · rw [shellEscape, ht]
        rfl
      · rw [strings, itemStrings_eq]
        exact .intercalate hy

/-- So are the texts of the elements of an array, one by one. -/
theorem shellEscapeItems_yields {items : List Arg} (h : ∀ arg ∈ items, Escapable arg) :
    ∃ t, shellEscapeItems items = .ok t ∧ List.Forall₂ Yields t (items.map strings) := by
  match items, h with
  | [], _ => exact ⟨[], rfl, .nil⟩
  | arg :: items, h =>
      obtain ⟨text, htext, hy⟩ := shellEscape_yields (h arg List.mem_cons_self)
      obtain ⟨t, ht, hys⟩ :=
        shellEscapeItems_yields fun arg' harg => h arg' (List.mem_cons_of_mem arg harg)
      refine ⟨text :: t, ?_, .cons hy hys⟩
      rw [shellEscapeItems, htext, ht]
      rfl

end

mutual

/-- An argument that is not refused is a string without NUL bytes, or an array of such. -/
theorem escapable_of_ok {arg : Arg} {text : Bytes} (h : shellEscape arg = .ok text) :
    Escapable arg := by
  match arg with
  | .string x =>
      rw [shellEscape] at h
      split at h
      · cases h
      · exact .string ‹_›
  | .table items =>
      rw [shellEscape] at h
      cases ht : shellEscapeItems items with
      | error e =>
          rw [ht] at h
          cases h
      | ok t => exact .table (escapableItems_of_ok ht)
  | .other => cases h

theorem escapableItems_of_ok {items : List Arg} {t : List Bytes}
    (h : shellEscapeItems items = .ok t) : ∀ arg ∈ items, Escapable arg := by
  match items with
  | [] => exact List.forall_mem_nil _
  | arg :: items =>
      rw [shellEscapeItems] at h
      cases hx : shellEscape arg with
      | error e =>
          rw [hx] at h
          cases h
      | ok text =>
          cases ht : shellEscapeItems items with
          | error e =>
              rw [hx, ht] at h
              cases h
          | ok t' =>
              exact List.forall_mem_cons.mpr ⟨escapable_of_ok hx, escapableItems_of_ok ht⟩

end

/-- `shell_escape` throws an error on all other arguments, and on them only. -/
theorem shellEscape_ok_iff (arg : Arg) : (∃ text, shellEscape arg = .ok text) ↔ Escapable arg := by
  constructor
  · rintro ⟨text, h⟩
    exact escapable_of_ok h
  · intro h
    obtain ⟨text, htext, -⟩ := shellEscape_yields h
    exact ⟨text, htext⟩

/-- The text of a string is read as this one word, and the text of an array as the strings in it, in
their order. -/
theorem shellEscape_words :
    (∀ x : Bytes, 0 ∉ x → ∃ text, shellEscape (.string x) = .ok text ∧ split text = some [x]) ∧
    ∀ items : List Arg, (∀ arg ∈ items, Escapable arg) →
      ∃ text, shellEscape (.table items) = .ok text ∧
        split text = some (strings (.table items)) := by
  constructor
  · intro x hx
    obtain ⟨text, htext, hy⟩ := shellEscape_yields (.string hx)
    exact ⟨text, htext, hy.split_eq⟩
  · intro items hitems
    obtain ⟨text, htext, hy⟩ := shellEscape_yields (.table hitems)
    exact ⟨text, htext, hy.split_eq⟩

/-- An empty array between two strings. -/
theorem shellEscape_words_nested :
    ∃ text, shellEscape (.table [.string (lit "a b"), .table [], .string []]) = .ok text ∧
      split text = some [lit "a b", []] := by
  refine shellEscape_words.2 [.string (lit "a b"), .table [], .string []] ?_
  simp only [List.forall_mem_cons]
  exact ⟨.string (by decide), .table (List.forall_mem_nil _), .string List.not_mem_nil,
    List.forall_mem_nil _⟩

end Luastatus.Pipe
