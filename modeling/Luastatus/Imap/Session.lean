import Luastatus.Lib.Transition
import Luastatus.Lua.Pattern

/-!
# The sessions of the imap widget

The widget logs in to a server and selects a mailbox.  Then it asks for the number of unseen
messages, waits in `IDLE` until the server tells it something, and asks again.  If anything goes
wrong, it closes the connection, and it opens another one in its next call.  What the server sends,
and when the connection fails, is up to the outside.

`Session` says what the history of a run is.  Above all, the number that the widget shows is the
newest one, and the server has not told it anything else since it was asked for the number.
-/

namespace Luastatus.Imap

open Text
open Lua.Pattern
open Transition

/-! ## Lines -/

/-- `string.format('a%04d', self.last_id)` -/
def tag (id : Nat) : Bytes :=
  ch 'a' :: (List.replicate (4 - (decimal id).length) (ch '0') ++ decimal id)

/-- `line:match('^' .. id .. ' (%w+)')` -/
def response (id line : Bytes) : Option Bytes :=
  if id ++ lit " " <+: line then
    let resp := (line.drop (id ++ lit " ").length).takeWhile fun b => (alnumValue b).isSome
    if resp = [] then none else some resp
  else none

/-- `line:match('^%*')` -/
def untagged (line : Bytes) : Bool := line.head? = some (ch '*')

/-- `^%* STATUS .* %(UNSEEN (%d+)%)%s*$` -/
def statusPattern : List Item :=
  text (lit "* STATUS ") ++ .star .any :: text (lit " (UNSEEN ") ++
    [.openCapture, .plus .digit, .closeCapture, .one (.char (ch ')')), .star .space, .atEnd]

/-- The number of unseen messages in an untagged line, in its digits. -/
def unseenIn (line : Bytes) : Option Bytes :=
  if untagged line then (matchAnchored statusPattern line).bind List.head? else none

/-! ## Tags -/

theorem decimalValue_zero_cons {s : Bytes} (h : s ≠ []) :
    decimalValue (ch '0' :: s) = decimalValue s := by
  have hzero : digitValue (ch '0') = some 0 := rfl
  rw [decimalValue, decimalValue, if_neg (List.cons_ne_nil _ _), if_neg h, List.mapM_cons, hzero]
  cases s.mapM digitValue <;> rfl

theorem decimalValue_tag (id : Nat) : decimalValue (tag id).tail = some id := by
  rw [tag, List.tail_cons]
  induction 4 - (decimal id).length with
  | zero => exact decimalValue_decimal id
  | succ k ih =>
      rw [List.replicate_succ, List.cons_append, decimalValue_zero_cons]
      · exact ih
      · exact List.append_ne_nil_of_right_ne_nil _ (decimal_ne_nil id)

theorem tag_injective : Function.Injective tag := by
  intro i j h
  have hvalue := decimalValue_tag i
  rw [h, decimalValue_tag j] at hvalue
  exact (Option.some.inj hvalue).symm

theorem space_not_mem_tag (id : Nat) : ch ' ' ∉ tag id := by
  intro h
  rw [tag, List.mem_cons, List.mem_append, List.mem_replicate] at h
  rcases h with h | ⟨-, h⟩ | h
  · exact absurd h (by decide)
  · exact absurd h (by decide)
  · exact absurd (mem_decimal h).1 (by decide)

/-- A line with a response begins with the tag of the command. -/
theorem takeWhile_of_response {id : Nat} {line : Bytes}
    (h : (response (tag id) line).isSome = true) : line.takeWhile (· ≠ ch ' ') = tag id := by
  rw [response] at h
  split at h
  case isTrue hprefix =>
    obtain ⟨rest, rfl⟩ := hprefix
    have htag : ∀ b ∈ tag id, decide (b ≠ ch ' ') = true := fun b hb =>
      decide_eq_true fun he => space_not_mem_tag id (he ▸ hb)
    rw [List.append_assoc, List.takeWhile_append_of_pos htag]
    exact List.append_nil _
  case isFalse => cases h

theorem eq_of_response {i j : Nat} {line : Bytes} (hi : (response (tag i) line).isSome = true)
    (hj : (response (tag j) line).isSome = true) : i = j :=
  tag_injective ((takeWhile_of_response hi).symm.trans (takeWhile_of_response hj))

/-! ## The widget -/

/-- The options that commands are made of. -/
structure Options where
  login : Bytes
  password : Bytes
  mailbox : Bytes

inductive Command where
  | login
  | select
  | status
  | idle
deriving DecidableEq, Repr

/-- The text of a command. -/
def Command.query (o : Options) : Command → Bytes
  | login => lit "LOGIN " ++ o.login ++ lit " " ++ o.password
  | select => lit "SELECT " ++ o.mailbox
  | status => lit "STATUS " ++ o.mailbox ++ lit " (UNSEEN)"
  | idle => lit "IDLE"

/-- What `command` sends. -/
def Command.data (o : Options) (id : Nat) (c : Command) : Bytes :=
  tag id ++ lit " " ++ c.query o ++ [13, 10]

/-- A call of `command`, with the variables of its `ondata`. -/
inductive Call where
  | login
  | select
  | status (unseen : Option Bytes) (finish : Bool)
  | idle (doneSent : Bool)
deriving DecidableEq, Repr

def Call.command : Call → Command
  | login => .login
  | select => .select
  | status _ _ => .status
  | idle _ => .idle

/-- Where the callback is. -/
inductive Pc where
  /-- Between two calls of it. -/
  | waiting
  /-- In `IMAP:open`. -/
  | opening
  | sending (c : Call)
  | receiving (id : Nat) (c : Call)
  /-- In front of `mbox:send('DONE')`. -/
  | finishing (id : Nat)
  /-- `pcall` has caught an error. -/
  | caught (timedOut : Bool)
  /-- In front of `push_period`. -/
  | pausing
  /-- In front of `tbl.cb`. -/
  | reporting (unseen : Option Bytes)
  | returning
deriving DecidableEq, Repr

/-- The widget; `R` is what its callback returns. -/
structure State (R : Type) where
  pc : Pc
  /-- `last_id` of the connection, if there is one. -/
  mbox : Option Nat
  lastContent : R

/-- What happens. -/
inductive Label (R : Type) where
  | called
  | opened
  | sent (id : Nat) (c : Command) (data : Bytes)
  /-- A line that is not a response. -/
  | data (line : Bytes)
  | doneSent
  | completed (line : Bytes)
  /-- The outside lets an operation fail; whether it is a timeout of `receive`. -/
  | failed (timedOut : Bool)
  /-- Whether there is a connection to be closed. -/
  | cleanUp (closed : Bool)
  | pushPeriod
  /-- The callback of the widget returns. -/
  | cb (unseen : Option Bytes) (r : R)
  /-- The callback of the widget throws an error. -/
  | thrown
  | returned (r : R)

/-- `ondata` -/
def onData (id : Nat) : Call → Bytes → Pc
  | .status unseen finish, line =>
      if untagged line then
        match unseenIn line with
        | some m => .receiving id (.status (some m) finish)
        | none => .receiving id (.status unseen false)
      else .receiving id (.status unseen finish)
  | .idle false, line => if untagged line then .finishing id else .receiving id (.idle false)
  | c, _ => .receiving id c

/-- Behind a command that has succeeded. -/
def afterOk : Call → Pc
  | .login => .sending .select
  | .select | .idle _ => .sending (.status none true)
  | .status unseen false => .sending (.status unseen true)
  | .status (some m) true => .reporting (some m)
  -- `assert(unseen ~= nil)`
  | .status none true => .caught false

variable {R : Type} (o : Options)

/-- A step. -/
inductive Step : State R → Label R → State R → Prop where
  | connect {s : State R} (h : s.pc = .waiting) (hm : s.mbox = none) :
      Step s .called { s with pc := .opening }
  | idle {s : State R} {n : Nat} (h : s.pc = .waiting) (hm : s.mbox = some n) :
      Step s .called { s with pc := .sending (.idle false) }
  | opened {s : State R} (h : s.pc = .opening) :
      Step s .opened { s with pc := .sending .login, mbox := some 1 }
  /-- There is no connection then: `safely_wrap_ssl` closes it. -/
  | notOpened {s : State R} (h : s.pc = .opening) :
      Step s (.failed false) { s with pc := .caught false }
  | sent {s : State R} {c : Call} {id : Nat} (h : s.pc = .sending c) (hm : s.mbox = some id) :
      Step s (.sent id c.command (c.command.data o id))
        { s with pc := .receiving id c, mbox := some (id + 1) }
  | notSent {s : State R} {c : Call} {id : Nat} (h : s.pc = .sending c) (hm : s.mbox = some id) :
      Step s (.failed false) { s with pc := .caught false, mbox := some (id + 1) }
  | data {s : State R} {id : Nat} {c : Call} {line : Bytes} (h : s.pc = .receiving id c)
      (hr : response (tag id) line = none) : Step s (.data line) { s with pc := onData id c line }
  | completed {s : State R} {id : Nat} {c : Call} {line resp : Bytes}
      (h : s.pc = .receiving id c) (hr : response (tag id) line = some resp) :
      Step s (.completed line)
        { s with pc := if resp = lit "OK" then afterOk c else .caught false }
  | notReceived {s : State R} {id : Nat} {c : Call} (h : s.pc = .receiving id c)
      (timedOut : Bool) : Step s (.failed timedOut) { s with pc := .caught timedOut }
  | doneSent {s : State R} {id : Nat} (h : s.pc = .finishing id) :
      Step s .doneSent { s with pc := .receiving id (.idle true) }
  | doneNotSent {s : State R} {id : Nat} (h : s.pc = .finishing id) :
      Step s (.failed false) { s with pc := .caught false }
  | cleanUp {s : State R} {timedOut : Bool} (h : s.pc = .caught timedOut) :
      Step s (.cleanUp s.mbox.isSome)
        { s with pc := if timedOut then .returning else .pausing, mbox := none }
  | pushPeriod {s : State R} (h : s.pc = .pausing) :
      Step s .pushPeriod { s with pc := .reporting none }
  | cb {s : State R} {unseen : Option Bytes} (h : s.pc = .reporting unseen) (r : R) :
      Step s (.cb unseen r) { s with pc := .returning, lastContent := r }
  | thrown {s : State R} {unseen : Option Bytes} (h : s.pc = .reporting unseen) :
      Step s .thrown { s with pc := .waiting }
  | returned {s : State R} (h : s.pc = .returning) :
      Step s (.returned s.lastContent) { s with pc := .waiting }

/-- The widget and its server; `r₀` is what `tbl.cb(nil)` has returned. -/
def system (r₀ : R) : System (State R) (Label R) where
  init s := s = ⟨.waiting, none, r₀⟩
  step := Step o

/-! ## What a history says -/

/-- The newest content. -/
def newestContent (h : List (Label R)) : Option R :=
  h.findSome? fun | .cb _ r => some r | _ => none

/-- The newest number of unseen messages that the server has told. -/
def newestUnseen (h : List (Label R)) : Option Bytes :=
  h.findSome? fun | .data line => unseenIn line | _ => none

/-- The newest command, with its number. -/
def newestCommand (h : List (Label R)) : Option (Nat × Command) :=
  h.findSome? fun | .sent id c _ => some (id, c) | _ => none

/-- The numbers of the commands of the connection. -/
def ids : List (Label R) → List Nat
  | [] => []
  | .opened :: _ => []
  | .sent id _ _ :: h => id :: ids h
  | _ :: h => ids h

/-- The lines that have come since the newest command. -/
def lines : List (Label R) → List Bytes
  | [] => []
  | .sent _ _ _ :: _ => []
  | .data line :: h => line :: lines h
  | _ :: h => lines h

/-- How many times `DONE` has been sent since the newest command. -/
def dones : List (Label R) → Nat
  | [] => 0
  | .sent _ _ _ :: _ => 0
  | .doneSent :: h => dones h + 1
  | _ :: h => dones h

/-- How many connections have been opened. -/
def opens (h : List (Label R)) : Nat := h.countP fun | .opened => true | _ => false

/-- How many connections have been closed. -/
def closes (h : List (Label R)) : Nat := h.countP fun | .cleanUp true => true | _ => false

/-- The newest command is `STATUS`, `n` is the newest number, and each untagged line since the
command has a number. -/
structure Shown (h : List (Label R)) (n : Bytes) : Prop where
  command : ∃ id, newestCommand h = some (id, .status)
  newest : newestUnseen h = some n
  quiet : ∀ line ∈ lines h, untagged line = true → (unseenIn line).isSome = true

/-- What holds of every run with the labels `h`, newest first, that ends in the state `s`. -/
structure Session (r₀ : R) (h : List (Label R)) (s : State R) : Prop where
  /-- There is at most one connection, and none is forgotten. -/
  connections : opens h = closes h + s.mbox.toList.length
  /-- A response is one to the newest command of the connection, and to no other. -/
  responses : ∀ h₁ h₂ line, h = h₁ ++ .completed line :: h₂ → ∃ id c,
    newestCommand h₂ = some (id, c) ∧ id ∈ ids h₂ ∧
      ∀ i ∈ ids h₂, (response (tag i) line).isSome = true ↔ i = id
  /-- The tags of a connection differ from each other. -/
  tags : ((ids h).map tag).Nodup
  /-- A number that is shown is the newest. -/
  shown : ∀ h₁ h₂ n r, h = h₁ ++ .cb (some n) r :: h₂ → Shown h₂ n
  /-- `DONE` is sent once in an `IDLE`, for an untagged line. -/
  done : ∀ h₁ h₂, h = h₁ ++ .doneSent :: h₂ → dones h₂ = 0 ∧
    (∃ id, newestCommand h₂ = some (id, .idle)) ∧ ∃ line ∈ lines h₂, untagged line = true
  /-- An `IDLE` is not over before `DONE` has been sent for an untagged line. -/
  idle : ∀ h₁ h₂ id line, h = h₁ ++ .completed line :: h₂ →
    newestCommand h₂ = some (id, .idle) → (∃ l ∈ lines h₂, untagged l = true) → dones h₂ = 1
  /-- The widget shows that something is wrong only after a period has been pushed. -/
  paused : ∀ h₁ h₂ r, h = h₁ ++ .cb none r :: h₂ → ∃ h₃, h₂ = .pushPeriod :: h₃
  /-- What is returned is what the callback of the widget has returned last. -/
  contents : ∀ h₁ h₂ r, h = h₁ ++ .returned r :: h₂ → r = (newestContent h₂).getD r₀

/-! ## The invariant -/

/-- A command that is going to be sent. -/
def Ready (h : List (Label R)) : Call → Prop
  | .status unseen _ => ∀ n, unseen = some n → newestUnseen h = some n
  | .idle doneSent => doneSent = false
  | _ => True

/-- What the variables of `ondata` say of the lines that have come. -/
def Noted (h : List (Label R)) : Call → Prop
  | .status unseen finish =>
      (∀ n, unseen = some n → newestUnseen h = some n) ∧
        (finish = true → ∀ line ∈ lines h, untagged line = true → (unseenIn line).isSome = true)
  | .idle doneSent =>
      dones h = doneSent.toNat ∧ (doneSent = false → ∀ line ∈ lines h, untagged line = false)
  | _ => True

/-- What holds at a place of the callback. -/
def At (h : List (Label R)) (mbox : Option Nat) : Pc → Prop
  | .opening => mbox = none
  | .sending c => Ready h c
  | .receiving id c => newestCommand h = some (id, c.command) ∧ id ∈ ids h ∧ Noted h c
  | .finishing id => newestCommand h = some (id, .idle) ∧ id ∈ ids h ∧ dones h = 0 ∧
      ∃ line ∈ lines h, untagged line = true
  | .reporting none => ∃ h₃, h = .pushPeriod :: h₃
  | .reporting (some n) => Shown h n
  | _ => True

/-- The numbers of the commands are below `last_id`, and no number is used twice. -/
def Numbered (h : List (Label R)) (mbox : Option Nat) : Prop :=
  (∀ n, mbox = some n → ∀ i ∈ ids h, i < n) ∧ (ids h).Nodup

/-- What holds of the state after the labels `h`. -/
structure Inv (r₀ : R) (h : List (Label R)) (s : State R) : Prop where
  place : At h s.mbox s.pc
  connections : opens h = closes h + s.mbox.toList.length
  numbered : Numbered h s.mbox
  content : s.lastContent = (newestContent h).getD r₀

section Steps

variable {o} {s s' : State R} {l : Label R} {h : List (Label R)} {r₀ : R}

theorem newestUnseen_data {line : Bytes} :
    newestUnseen (.data line :: h) = (unseenIn line).or (newestUnseen h) := by
  simp only [newestUnseen, List.findSome?_cons]
  cases unseenIn line <;> rfl

theorem At.onData {id : Nat} {c : Call} {line : Bytes} {mbox : Option Nat}
    (hi : At h mbox (.receiving id c)) :
    At (.data line :: h) mbox (Imap.onData id c line) := by
  obtain ⟨hcommand, hid, hnoted⟩ := hi
  cases c with
  | login | select => exact ⟨hcommand, hid, hnoted⟩
  | status unseen finish =>
      obtain ⟨hunseen, hquiet⟩ := hnoted
      rw [Imap.onData]
      cases hu : untagged line with
      | false =>
          have hnone : unseenIn line = none := by rw [unseenIn, hu]; rfl
          refine ⟨hcommand, hid, fun n hn => ?_, fun hf => ?_⟩
          · rw [newestUnseen_data, hnone]
            exact hunseen n hn
          · refine List.forall_mem_cons.mpr ⟨fun ht => ?_, hquiet hf⟩
            rw [hu] at ht
            cases ht
      | true =>
          rw [if_pos rfl]
          cases hm : unseenIn line with
          | some m =>
              refine ⟨hcommand, hid, fun n hn => ?_, fun hf => ?_⟩
              · rw [newestUnseen_data, hm]
                exact hn
              · refine List.forall_mem_cons.mpr ⟨fun _ => ?_, hquiet hf⟩
                rw [hm]
                rfl
          | none =>
              refine ⟨hcommand, hid, fun n hn => ?_, nofun⟩
              rw [newestUnseen_data, hm]
              exact hunseen n hn
  | idle doneSent =>
      obtain ⟨hdones, hquiet⟩ := hnoted
      cases doneSent with
      | true => exact ⟨hcommand, hid, hdones, nofun⟩
      | false =>
          rw [Imap.onData]
          cases hu : untagged line with
          | false => exact ⟨hcommand, hid, hdones, fun hd =>
              List.forall_mem_cons.mpr ⟨hu, hquiet hd⟩⟩
          | true => exact ⟨hcommand, hid, hdones, line, List.mem_cons_self, hu⟩

theorem At.afterOk {id : Nat} {c : Call} {line : Bytes} {mbox : Option Nat}
    (hi : At h mbox (.receiving id c)) : At (.completed line :: h) mbox (Imap.afterOk c) := by
  obtain ⟨hcommand, -, hnoted⟩ := hi
  cases c with
  | login => trivial
  | select | idle => exact nofun
  | status unseen finish =>
      obtain ⟨hunseen, hquiet⟩ := hnoted
      cases finish with
      | false => exact hunseen
      | true =>
          cases unseen with
          | none => trivial
          | some m => exact ⟨⟨id, hcommand⟩, hunseen m rfl, hquiet rfl⟩

theorem At.step (hi : At h s.mbox s.pc) (hst : Step o s l s') : At (l :: h) s'.mbox s'.pc := by
  cases hst with
  | connect _ hm => exact hm
  | idle => rfl
  | opened | notOpened | notSent | notReceived | doneNotSent | cb | thrown | returned => trivial
  | @sent c id hpc hm =>
      rw [hpc] at hi
      refine ⟨rfl, List.mem_cons_self, ?_⟩
      cases c with
      | login | select => trivial
      | status => exact ⟨hi, fun _ => nofun⟩
      | idle doneSent =>
          cases (hi : doneSent = false)
          exact ⟨rfl, fun _ => nofun⟩
  | data hpc hr =>
      rw [hpc] at hi
      exact hi.onData
  | @completed _ _ _ resp hpc hr =>
      rw [hpc] at hi
      by_cases hok : resp = lit "OK"
      · rw [if_pos hok]
        exact hi.afterOk
      · rw [if_neg hok]
        trivial
  | doneSent hpc =>
      rw [hpc] at hi
      obtain ⟨hcommand, hid, hdones, -⟩ := hi
      exact ⟨hcommand, hid, congrArg (· + 1) hdones, nofun⟩
  | @cleanUp timedOut hpc => cases timedOut <;> trivial
  | pushPeriod => exact ⟨h, rfl⟩

theorem connections_step (hi : At h s.mbox s.pc) (hst : Step o s l s')
    (hc : opens h = closes h + s.mbox.toList.length) :
    opens (l :: h) = closes (l :: h) + s'.mbox.toList.length := by
  rw [opens, closes] at hc
  cases hst with
  | opened hpc =>
      rw [hpc] at hi
      rw [show s.mbox = none from hi] at hc
      simpa [opens, closes] using hc
  | sent _ hm | notSent _ hm => simpa [opens, closes, hm] using hc
  | cleanUp =>
      cases hm : s.mbox with
      | none => simpa [opens, closes, hm] using hc
      | some n => simpa [opens, closes, hm] using hc
  | _ => simpa [opens, closes] using hc

theorem Numbered.step (hi : Numbered h s.mbox) (hst : Step o s l s') :
    Numbered (l :: h) s'.mbox := by
  obtain ⟨hlt, hnodup⟩ := hi
  cases hst with
  | opened => exact ⟨fun _ _ => nofun, List.nodup_nil⟩
  | @sent c id hpc hm =>
      refine ⟨fun n hn => ?_, List.nodup_cons.mpr ⟨fun hid => ?_, hnodup⟩⟩
      · cases hn
        exact List.forall_mem_cons.mpr
          ⟨Nat.lt_succ_self id, fun i hi => Nat.lt_succ_of_lt (hlt id hm i hi)⟩
      · exact Nat.lt_irrefl id (hlt id hm id hid)
  | notSent hpc hm =>
      refine ⟨fun n hn i hi => ?_, hnodup⟩
      cases hn
      exact Nat.lt_succ_of_lt (hlt _ hm i hi)
  | cleanUp => exact ⟨nofun, hnodup⟩
  | _ => exact ⟨hlt, hnodup⟩

theorem content_step (hst : Step o s l s') (hc : s.lastContent = (newestContent h).getD r₀) :
    s'.lastContent = (newestContent (l :: h)).getD r₀ := by
  cases hst with
  | cb => rfl
  | _ => exact hc

theorem Inv.step (hi : Inv r₀ h s) (hst : Step o s l s') : Inv r₀ (l :: h) s' where
  place := hi.place.step hst
  connections := connections_step hi.place hst hi.connections
  numbered := hi.numbered.step hst
  content := content_step hst hi.content

end Steps

/-! ## Runs -/

section Runs

variable {o} {s : State R} {h h₁ h₂ : List (Label R)} {r₀ : R}

theorem inv_of_hist (hs : (system o r₀).Hist h s) : Inv r₀ h s := by
  induction hs with
  | init hi =>
      rw [show _ = _ from hi]
      exact ⟨trivial, rfl, ⟨nofun, List.nodup_nil⟩, rfl⟩
  | step _ hst ih => exact ih.step hst

/-- Each label is that of a step, with the invariant in front of it. -/
theorem inv_of_append {l : Label R} (hs : (system o r₀).Hist (h₁ ++ l :: h₂) s) :
    ∃ t u, Inv r₀ h₂ t ∧ Step o t l u := by
  obtain ⟨t, u, ht, hst⟩ := hs.step_of_append
  exact ⟨t, u, inv_of_hist ht, hst⟩

/-- Where the callback is when a command is over. -/
theorem receiving_of_completed {line : Bytes}
    (hs : (system o r₀).Hist (h₁ ++ .completed line :: h₂) s) : ∃ id c,
      (response (tag id) line).isSome = true ∧ newestCommand h₂ = some (id, Call.command c) ∧
        id ∈ ids h₂ ∧ Noted h₂ c := by
  obtain ⟨t, u, hi, hst⟩ := inv_of_append hs
  have hat := hi.place
  cases hst with
  | @completed id c _ _ hpc hr =>
      rw [hpc] at hat
      exact ⟨id, c, by rw [hr]; rfl, hat⟩

theorem responses_of_hist {line : Bytes}
    (hs : (system o r₀).Hist (h₁ ++ .completed line :: h₂) s) : ∃ id c,
      newestCommand h₂ = some (id, c) ∧ id ∈ ids h₂ ∧
        ∀ i ∈ ids h₂, (response (tag i) line).isSome = true ↔ i = id := by
  obtain ⟨id, c, hr, hcommand, hid, -⟩ := receiving_of_completed hs
  refine ⟨id, c.command, hcommand, hid, fun i _ => ⟨fun hi => eq_of_response hi hr, ?_⟩⟩
  rintro rfl
  exact hr

theorem idle_of_hist {id : Nat} {line : Bytes}
    (hs : (system o r₀).Hist (h₁ ++ .completed line :: h₂) s)
    (hidle : newestCommand h₂ = some (id, .idle)) (hl : ∃ l ∈ lines h₂, untagged l = true) :
    dones h₂ = 1 := by
  obtain ⟨_, c, -, hcommand, -, hnoted⟩ := receiving_of_completed hs
  rw [hidle] at hcommand
  cases c with
  | idle doneSent =>
      cases doneSent with
      | true => exact hnoted.1
      | false =>
          obtain ⟨l, hmem, hl⟩ := hl
          rw [hnoted.2 rfl l hmem] at hl
          cases hl
  | _ => cases hcommand

theorem done_of_hist (hs : (system o r₀).Hist (h₁ ++ .doneSent :: h₂) s) : dones h₂ = 0 ∧
    (∃ id, newestCommand h₂ = some (id, .idle)) ∧ ∃ line ∈ lines h₂, untagged line = true := by
  obtain ⟨t, u, hi, hst⟩ := inv_of_append hs
  have hat := hi.place
  cases hst with
  | @doneSent id hpc =>
      rw [hpc] at hat
      obtain ⟨hcommand, -, hdones, hline⟩ := hat
      exact ⟨hdones, ⟨id, hcommand⟩, hline⟩

theorem shown_of_hist {n : Bytes} {r : R}
    (hs : (system o r₀).Hist (h₁ ++ .cb (some n) r :: h₂) s) : Shown h₂ n := by
  obtain ⟨t, u, hi, hst⟩ := inv_of_append hs
  have hat := hi.place
  cases hst with
  | cb hpc =>
      rw [hpc] at hat
      exact hat

theorem paused_of_hist {r : R} (hs : (system o r₀).Hist (h₁ ++ .cb none r :: h₂) s) :
    ∃ h₃, h₂ = .pushPeriod :: h₃ := by
  obtain ⟨t, u, hi, hst⟩ := inv_of_append hs
  have hat := hi.place
  cases hst with
  | cb hpc =>
      rw [hpc] at hat
      exact hat

theorem contents_of_hist {r : R} (hs : (system o r₀).Hist (h₁ ++ .returned r :: h₂) s) :
    r = (newestContent h₂).getD r₀ := by
  obtain ⟨t, u, hi, hst⟩ := inv_of_append hs
  cases hst with
  | returned => exact hi.content

/-- The sessions of the widget, in every run. -/
theorem session (hs : (system o r₀).Hist h s) : Session r₀ h s where
  connections := (inv_of_hist hs).connections
  responses _ _ _ he := responses_of_hist (he ▸ hs)
  tags := (inv_of_hist hs).numbered.2.map tag_injective
  shown _ _ _ _ he := shown_of_hist (he ▸ hs)
  done _ _ he := done_of_hist (he ▸ hs)
  idle _ _ _ _ he := idle_of_hist (he ▸ hs)
  paused _ _ _ he := paused_of_hist (he ▸ hs)
  contents _ _ _ he := contents_of_hist (he ▸ hs)

end Runs

/-- A mail arrives while the server is asked for the number, so that it is asked again. -/
theorem session_asksAgain : ∃ (h : List (Label Unit)) (s : State Unit), ids h = [4, 3, 2, 1] ∧
    Session () (.cb (some (lit "4")) () :: h) s := by
  let o : Options := ⟨lit "me", lit "pw", lit "INBOX"⟩
  have h0 : (system o ()).Hist [] ⟨.waiting, none, ()⟩ := .init rfl
  have h1 := h0.step (.connect rfl rfl)
  have h2 := h1.step (.opened rfl)
  have h3 := h2.step (.sent rfl rfl)
  have h4 := h3.step (.completed rfl
    (show response (tag 1) (lit "a0001 OK") = some (lit "OK") by decide))
  have h5 := h4.step (.sent rfl rfl)
  have h6 := h5.step (.completed rfl
    (show response (tag 2) (lit "a0002 OK") = some (lit "OK") by decide))
  have h7 := h6.step (.sent rfl rfl)
  have h8 := h7.step (.data rfl
    (show response (tag 3) (lit "* STATUS INBOX (UNSEEN 3)") = none by decide))
  have h9 := h8.step (.data rfl (show response (tag 3) (lit "* 4 EXISTS") = none by decide))
  have h10 := h9.step (.completed rfl
    (show response (tag 3) (lit "a0003 OK") = some (lit "OK") by decide))
  have h11 := h10.step (.sent rfl rfl)
  have h12 := h11.step (.data rfl
    (show response (tag 4) (lit "* STATUS INBOX (UNSEEN 4)") = none by decide))
  have h13 := h12.step (.completed rfl
    (show response (tag 4) (lit "a0004 OK") = some (lit "OK") by decide))
  have h14 : (system o ()).Hist (.cb (some (lit "4")) () :: _) _ := h13.step (.cb rfl ())
  exact ⟨_, _, rfl, session h14⟩

end Luastatus.Imap
