import Luastatus.Lib.Bytes

/-!
# The words of a shell command

`split` reads a text as the POSIX shell reads the words of a simple command: it cuts the text at
blanks that are not quoted, and removes the quotes.  A text in which anything else has to be done is
refused: an operator, an expansion, a pattern, a comment or an assignment outside of quotes, an
expansion inside of double quotes, and quotes that are not closed.

The reader is a state machine.  `Yields t ws` says that a text is read as some words wherever it
stands between words; such texts may be joined with spaces (`Yields.intercalate`).
-/

namespace Shell

open Text (Byte Bytes ch lit)

/-- A blank. -/
def IsBlank (c : Byte) : Prop := c = ch ' ' ∨ c = 9

instance : DecidablePred IsBlank := fun c => inferInstanceAs (Decidable (c = ch ' ' ∨ c = 9))

/-- The other characters that have a meaning of their own, apart from quotes. -/
def special : Bytes := 10 :: lit "|&;<>()$\x60*?[#~=%"

/-- Where the reader stands.  A word that has begun is given by what has been read of it. -/
inductive Mode where
  | unquoted (word : Option Bytes)
  /-- After a backslash. -/
  | escaped (word : Option Bytes)
  /-- Inside of single quotes. -/
  | single (word : Bytes)
  /-- Inside of double quotes. -/
  | double (word : Bytes)
  /-- After a backslash inside of double quotes. -/
  | doubleEscaped (word : Bytes)
deriving DecidableEq, Repr

/-- One more byte of a word. -/
def addByte (word : Option Bytes) (c : Byte) : Option Bytes := some (word.getD [] ++ [c])

/-- One character: the word that ends, and where the reader stands after it. -/
def step : Mode → Byte → Option (Option Bytes × Mode)
  | .unquoted word, c =>
      if IsBlank c then some (word, .unquoted none)
      else if c = ch '\'' then some (none, .single (word.getD []))
      else if c = ch '"' then some (none, .double (word.getD []))
      else if c = ch '\\' then some (none, .escaped word)
      else if c ∈ special then none
      else some (none, .unquoted (addByte word c))
  | .escaped word, c =>
      -- an escaped newline is removed
      if c = 10 then some (none, .unquoted word) else some (none, .unquoted (addByte word c))
  | .single word, c =>
      if c = ch '\'' then some (none, .unquoted (some word))
      else some (none, .single (word ++ [c]))
  | .double word, c =>
      if c = ch '"' then some (none, .unquoted (some word))
      else if c = ch '\\' then some (none, .doubleEscaped word)
      else if c = ch '$' ∨ c = ch '\x60' then none
      else some (none, .double (word ++ [c]))
  | .doubleEscaped word, c =>
      if c = 10 then some (none, .double word)
      else if c ∈ lit "$\x60\"\\" then some (none, .double (word ++ [c]))
      else some (none, .double (word ++ [ch '\\', c]))

/-- The end of the text. -/
def finish : Mode → Option (List Bytes)
  | .unquoted word => some word.toList
  | _ => none

/-- The words of the rest of a text. -/
def read (m : Mode) : Bytes → Option (List Bytes)
  | [] => finish m
  | c :: cs => (step m c).bind fun r => (read r.2 cs).map (r.1.toList ++ ·)

/-- The words of a text. -/
def split (t : Bytes) : Option (List Bytes) := read (.unquoted none) t

/-- What may follow a word: the end of the text, or a blank. -/
def Ends (rest : Bytes) : Prop := rest = [] ∨ ∃ r, rest = ch ' ' :: r

/-- The text is read as the words. -/
def Yields (t : Bytes) (ws : List Bytes) : Prop :=
  ∀ rest, Ends rest →
    read (.unquoted none) (t ++ rest) = (read (.unquoted none) rest).map (ws ++ ·)

variable {m m' : Mode} {c : Byte} {t : Bytes} {ws : List Bytes}

theorem read_cons_of_none (h : step m c = some (none, m')) (t : Bytes) :
    read m (c :: t) = read m' t := by
  rw [read, h, Option.bind_some]
  exact Option.map_id'

theorem isBlank_space : IsBlank (ch ' ') := .inl rfl

/-- Where a word may end, it is read before the others. -/
theorem read_word (w : Bytes) {rest : Bytes} (h : Ends rest) :
    read (.unquoted (some w)) rest = (read (.unquoted none) rest).map (w :: ·) := by
  rcases h with rfl | ⟨r, rfl⟩
  · rfl
  · rw [read, read, step, if_pos isBlank_space, step, if_pos isBlank_space, Option.bind_some,
      Option.bind_some, Option.map_map]
    rfl

theorem read_space (rest : Bytes) :
    read (.unquoted none) (ch ' ' :: rest) = read (.unquoted none) rest := by
  have hstep : step (.unquoted none) (ch ' ') = some (none, .unquoted none) := by
    rw [step, if_pos isBlank_space]
  exact read_cons_of_none hstep rest

theorem Yields.nil : Yields [] [] := by
  intro rest _
  rw [List.nil_append]
  exact Option.map_id'.symm

/-- A text that is read as one word. -/
theorem Yields.of_word {w : Bytes}
    (h : ∀ rest, read (.unquoted none) (t ++ rest) = read (.unquoted (some w)) rest) :
    Yields t [w] := by
  intro rest hrest
  rw [h, read_word w hrest]
  rfl

/-- Texts that are joined with a space. -/
theorem Yields.append_space {u : Bytes} {vs : List Bytes} (ht : Yields t ws) (hu : Yields u vs) :
    Yields (t ++ ch ' ' :: u) (ws ++ vs) := by
  intro rest hrest
  have hspace : Ends (ch ' ' :: (u ++ rest)) := .inr ⟨_, rfl⟩
  rw [List.append_assoc, List.cons_append, ht _ hspace, read_space, hu rest hrest,
    Option.map_map]
  congr 1
  funext r
  rw [Function.comp_apply, List.append_assoc]

/-- Texts that are joined with spaces; a text of no words does not count. -/
theorem Yields.intercalate {ts : List Bytes} {wss : List (List Bytes)}
    (h : List.Forall₂ Yields ts wss) : Yields ([ch ' '].intercalate ts) wss.flatten := by
  induction h with
  | nil => exact .nil
  | cons ht hrest ih =>
      cases hrest with
      | nil =>
          rw [List.intercalate_singleton, List.flatten_singleton]
          exact ht
      | cons _ _ =>
          rw [List.intercalate_cons_cons, List.append_assoc, List.singleton_append,
            List.flatten_cons]
          exact ht.append_space ih

theorem Yields.split_eq (h : Yields t ws) : split t = some ws := by
  have := h [] (.inl rfl)
  rw [List.append_nil] at this
  rw [split, this, read, finish, Option.map_some, Option.toList_none, List.append_nil]

end Shell
