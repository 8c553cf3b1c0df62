import Luastatus.Inotify.EventTypes
import Luastatus.Lib.CString
import Luastatus.Lib.Transition
import Luastatus.Lib.Words
import Luastatus.LibLs.EvloopLfuncs

/-!
# The inotify plugin

The kernel queues events; `read` takes as many whole events from the queue as fit in the buffer of
the plugin, one behind the other, and the plugin walks over them and calls its widget for each.

The buffer has room for one event with the longest name there may be, and one byte more, so that the
plugin sees if it has been filled.  `delivered` says that this never happens, and that each event of
the queue gets to the widget exactly once, in the order of the queue and with all of its data.
-/

namespace Luastatus.Inotify

open Text (Byte Bytes CString lit wordBytes readWord readWord_append length_wordBytes)
open Luastatus.LibLs
open Lua
open Transition

/-! ## The kernel -/

/-- The name of a file in a directory. -/
structure FileName extends CString where
  length_le : bytes.length ≤ 255

/-- An event in the queue. -/
structure Event where
  wd : BitVec 32
  mask : BitVec 32
  cookie : BitVec 32
  name : Option FileName

/-- The name with NUL bytes behind it, at least one, up to a multiple of the size of the header. -/
def FileName.field (n : FileName) : Bytes :=
  n.bytes ++ List.replicate ((n.bytes.length / 16 + 1) * 16 - n.bytes.length) 0

/-- The bytes behind the header. -/
def Event.nameField (e : Event) : Bytes := (e.name.map FileName.field).getD []

/-- An event as `read` stores it. -/
def Event.bytes (e : Event) : Bytes :=
  wordBytes e.wd ++ wordBytes e.mask ++ wordBytes e.cookie ++
    wordBytes (BitVec.ofNat 32 e.nameField.length) ++ e.nameField

/-! ## The plugin -/

/-- `NBUF` -/
def nbuf : Nat := 16 + 255 + 2

/-- The event that `ptr` points to. -/
def eventAt (buf : Bytes) (ptr : Nat) : InotifyEvent where
  wd := readWord buf ptr
  mask := readWord buf (ptr + 4)
  cookie := readWord buf (ptr + 8)
  len := readWord buf (ptr + 12)
  name := buf.drop (ptr + 16)

/-- Why `run` returns. -/
inductive Fatal where
  | waitFailed
  | readFailed (errnum : Nat)
  /-- "read() from the inotify file descriptor returned 0" -/
  | readNothing
  /-- "got an event with filename length > NAME_MAX+1" -/
  | nameTooLong
deriving DecidableEq, Repr

/-- Where `run` is. -/
inductive Pc (F : Type) where
  /-- In front of the call that greets. -/
  | greeting
  | fetching
  | polling (TD : TimeDelta F)
  /-- In front of the call for a timeout. -/
  | timedOut
  | reading
  /-- In the loop over the `r` bytes in the buffer. -/
  | walking (r ptr : Nat)
  | finished (why : Fatal)
deriving DecidableEq, Repr

/-- The thread of the widget, the pushed timeout and the kernel. -/
structure State (F : Type) where
  pc : Pc F
  buf : Bytes
  pushedTmo : PushedTimeout F
  queue : List Event

/-- What `ls_wait_input_on_fd` answers. -/
inductive Waited where
  | failed
  | timedOut
  | ready
deriving DecidableEq, Repr

/-- What `read` answers. -/
inductive ReadResult where
  | failed (errnum : Nat)
  | events (es : List Event)

/-- `EINTR` -/
def eintr : Nat := 4

/-- `EINVAL` -/
def einval : Nat := 22

/-- What happens. -/
inductive Label (F : Type) where
  /-- Some thread calls `push_timeout`. -/
  | pushTimeout (args : List (CallArg F))
  /-- The kernel queues an event. -/
  | queued (e : Event)
  | hello
  | timeout
  /-- The call for an event. -/
  | event (t : Table Int)
  | fetch (TD : TimeDelta F)
  | wait (TD : TimeDelta F) (r : Waited)
  | read (r : ReadResult)
  /-- The loop over the buffer ends. -/
  | walked

variable {F : Type} (O : DoubleOps F) (C : Coercions F) (greet : Bool) (tmo : F)

/-- `default_tmo` -/
def defaultTmo : TimeDelta F := lsDoubleToTD O tmo (lsTDForever O)

/-- What the kernel may answer to a wait. -/
def Waited.Possible (queue : List Event) (TD : TimeDelta F) : Waited → Prop
  | failed => True
  | timedOut => lsTDToPollMsTmo O TD ≠ -1 ∧ queue = []
  | ready => queue ≠ []

/-- The bytes that `read` stores. -/
def ReadResult.data : ReadResult → Bytes
  | failed _ => []
  | events es => es.flatMap Event.bytes

/-- What the kernel may answer to `read`, and what stays in the queue.  It stores whole events; if
not even the first one fits in the buffer, the error is `EINVAL`. -/
def ReadResult.Possible (queue : List Event) (rest : List Event) : ReadResult → Prop
  | failed errnum =>
      rest = queue ∧ (errnum = einval → ∀ e ∈ queue.head?, nbuf < e.bytes.length)
  | events es => queue = es ++ rest ∧ es ≠ [] ∧ (es.flatMap Event.bytes).length ≤ nbuf

/-- The loop, behind the wait. -/
def afterWait : Waited → Pc F
  | .failed => .finished .waitFailed
  | .timedOut => .timedOut
  | .ready => .reading

/-- The loop, behind `read`. -/
def afterRead : ReadResult → Pc F
  | .failed errnum => if errnum = eintr then .fetching else .finished (.readFailed errnum)
  | .events es =>
      let r := (es.flatMap Event.bytes).length
      if r = 0 then .finished .readNothing
      else if r = nbuf then .finished .nameTooLong
      else .walking r 0

/-- A step. -/
inductive Step : State F → Label F → State F → Prop where
  | pushTimeout {s : State F} {args : List (CallArg F)} {q : PushedTimeout F}
      (h : lsPushedTimeoutLfunc O C args = .ok q) :
      Step s (.pushTimeout args) { s with pushedTmo := q }
  /-- An error is thrown. -/
  | notPushed {s : State F} {args : List (CallArg F)} {e : LuaError}
      (h : lsPushedTimeoutLfunc O C args = .error e) : Step s (.pushTimeout args) s
  | queued {s : State F} (e : Event) : Step s (.queued e) { s with queue := s.queue ++ [e] }
  | hello {s : State F} (h : s.pc = .greeting) : Step s .hello { s with pc := .fetching }
  | timeout {s : State F} (h : s.pc = .timedOut) : Step s .timeout { s with pc := .fetching }
  | fetch {s : State F} (h : s.pc = .fetching) :
      Step s (.fetch (lsPushedTimeoutFetch O s.pushedTmo (defaultTmo O tmo)).1)
        { s with pc := .polling (lsPushedTimeoutFetch O s.pushedTmo (defaultTmo O tmo)).1
                 pushedTmo := (lsPushedTimeoutFetch O s.pushedTmo (defaultTmo O tmo)).2 }
  | wait {s : State F} {TD : TimeDelta F} {r : Waited} (h : s.pc = .polling TD)
      (hr : r.Possible O s.queue TD) : Step s (.wait TD r) { s with pc := afterWait r }
  | read {s : State F} {r : ReadResult} {rest : List Event} (h : s.pc = .reading)
      (hr : r.Possible s.queue rest) :
      Step s (.read r) { s with pc := afterRead r, buf := r.data ++ s.buf.drop r.data.length,
                                queue := rest }
  | event {s : State F} {r ptr : Nat} (h : s.pc = .walking r ptr) (hptr : ptr < r) :
      Step s (.event (pushEvent (eventAt s.buf ptr)))
        { s with pc := .walking r (ptr + (16 + (eventAt s.buf ptr).len.toNat)) }
  | walked {s : State F} {r ptr : Nat} (h : s.pc = .walking r ptr) (hptr : ¬ ptr < r) :
      Step s .walked { s with pc := .fetching }

/-- The plugin, the threads around it and the kernel. -/
def system : System (State F) (Label F) where
  init s := s.pc = (if greet then .greeting else .fetching) ∧
    s.pushedTmo = lsPushedTimeoutInit O ∧ s.queue = []
  step := Step O C tmo

/-! ## What a table says of an event -/

/-- The table that the widget gets for an event. -/
structure Describes (e : Event) (t : Table Int) : Prop where
  what : field t "what" = .string (lit "event")
  wd : field t "wd" = .number e.wd.toInt
  mask : ∃ names, field t "mask" = .table none names ∧ ∀ et ∈ eventTypes, et.out = true →
    names (.str et.name) = if e.mask &&& et.mask ≠ 0 then .boolean true else .nil
  cookie : field t "cookie" = .number e.cookie.toNat
  name : field t "name" = (e.name.map fun n => Val.string n.bytes).getD .nil

section Bytes

variable {e : Event} {n : FileName} {buf rest : Bytes} {ptr : Nat}

theorem length_field : n.field.length = (n.bytes.length / 16 + 1) * 16 := by
  rw [FileName.field, List.length_append, List.length_replicate]
  omega

/-- A C string ends where the name does. -/
theorem cstr_field : cstr (n.field ++ rest) = n.bytes := by
  have hpad : ∃ k, (n.bytes.length / 16 + 1) * 16 - n.bytes.length = k + 1 :=
    ⟨(n.bytes.length / 16 + 1) * 16 - n.bytes.length - 1, by omega⟩
  obtain ⟨k, hk⟩ := hpad
  have hbytes : ∀ b ∈ n.bytes, decide (b ≠ 0) = true := fun b hb =>
    decide_eq_true fun h => n.noNul (h ▸ hb)
  rw [cstr, FileName.field, hk, List.replicate_succ, List.append_assoc, List.cons_append,
    List.takeWhile_append_of_pos hbytes, List.takeWhile_cons_of_neg (by simp), List.append_nil]

theorem length_nameField_le : e.nameField.length ≤ 256 := by
  rw [Event.nameField]
  cases e.name with
  | none => simp
  | some n =>
      have hle := n.length_le
      rw [Option.map_some, Option.getD_some, length_field]
      omega

theorem length_nameField_mod : e.nameField.length % 16 = 0 := by
  rw [Event.nameField]
  cases e.name with
  | none => rfl
  | some n =>
      rw [Option.map_some, Option.getD_some, length_field]
      omega

theorem length_bytes : e.bytes.length = 16 + e.nameField.length := by
  simp [Event.bytes]
  omega

/-- An event is read back from where it has been stored. -/
theorem eventAt_eq (h : buf.drop ptr = e.bytes ++ rest) : eventAt buf ptr =
    { wd := e.wd, mask := e.mask, cookie := e.cookie,
      len := BitVec.ofNat 32 e.nameField.length, name := e.nameField ++ rest } := by
  simp only [Event.bytes, List.append_assoc] at h
  have hdrop {v : BitVec 32} {off : Nat} {tail : Bytes}
      (h : buf.drop off = wordBytes v ++ tail) : buf.drop (off + 4) = tail := by
    rw [← List.drop_drop, h, List.drop_left' (length_wordBytes v)]
  have hmask := hdrop h
  have hcookie := hdrop hmask
  have hlen := hdrop hcookie
  rw [eventAt, readWord_append h, readWord_append hmask, readWord_append hcookie,
    readWord_append hlen, hdrop hlen]

theorem toNat_len : (BitVec.ofNat 32 e.nameField.length).toNat = e.nameField.length := by
  have hle := length_nameField_le (e := e)
  rw [BitVec.toNat_ofNat, Nat.mod_eq_of_lt (by omega)]

/-- The widget gets all the data of the event. -/
theorem describes_pushEvent : Describes e (pushEvent
    { wd := e.wd, mask := e.mask, cookie := e.cookie,
      len := BitVec.ofNat 32 e.nameField.length, name := e.nameField ++ rest }) := by
  have hlen : BitVec.ofNat 32 e.nameField.length ≠ 0 ↔ e.nameField.length ≠ 0 := by
    rw [BitVec.toNat_ne, toNat_len]
    rfl
  rw [pushEvent]
  cases hname : e.name with
  | none =>
      have hnil : e.nameField = [] := by
        rw [Event.nameField, hname]
        rfl
      rw [if_neg fun h => hlen.mp h (by rw [hnil]; rfl)]
      refine ⟨?_, ?_, ⟨_, ?_, fun et hmem hout => pushMask_name hmem hout⟩, ?_, ?_⟩
      all_goals simp +decide [field_setField, hname]
      rfl
  | some n =>
      have hfield : e.nameField = n.field := by
        rw [Event.nameField, hname]
        rfl
      rw [if_pos (hlen.mpr (by rw [hfield, length_field]; omega)), hfield, cstr_field]
      refine ⟨?_, ?_, ⟨_, ?_, fun et hmem hout => pushMask_name hmem hout⟩, ?_, ?_⟩
      all_goals simp +decide [field_setField, hname]

end Bytes

/-! ## Runs -/

/-- An event that the kernel has queued. -/
def Label.queuedEvent : Label F → Option Event
  | queued e => some e
  | _ => none

/-- The table of a call for an event. -/
def Label.table : Label F → Option (Table Int)
  | event t => some t
  | _ => none

/-- What a step does to the pushed timeout. -/
def Label.timeoutEvent : Label F → Option (Timeouts.Event F)
  | pushTimeout args =>
      match lsPushedTimeoutLfunc O C args with
      | .ok q => some (.push q.value)
      | .error _ => none
  | fetch TD => some (.fetch TD)
  | _ => none

/-- A timeout that has been fetched. -/
def Label.fetched : Label F → Option (TimeDelta F)
  | fetch TD => some TD
  | _ => none

/-- A timeout with which the plugin has waited. -/
def Label.waited : Label F → Option (TimeDelta F)
  | wait TD _ => some TD
  | _ => none

/-- The timeout that the plugin is about to wait with. -/
def Pc.ahead : Pc F → List (TimeDelta F)
  | polling TD => [TD]
  | _ => []

/-- What a history shows, in the order in which it has happened. -/
def shown {α : Type} (f : Label F → Option α) (h : List (Label F)) : List α :=
  (h.filterMap f).reverse

@[simp] theorem shown_cons {α : Type} (f : Label F → Option α) (l : Label F)
    (h : List (Label F)) : shown f (l :: h) = shown f h ++ (f l).toList := by
  rw [shown, System.filterMap_cons_toList, List.reverse_append, shown]
  cases f l <;> rfl

/-- The events `es` have been told to the widget, and the events `left` are in the buffer. -/
structure Inv (h : List (Label F)) (s : State F) (es left : List Event) : Prop where
  queued : shown Label.queuedEvent h = es ++ left ++ s.queue
  told : List.Forall₂ Describes es (shown Label.table h)
  walking : ∀ r ptr, s.pc = .walking r ptr → ∃ rest,
    s.buf.drop ptr = left.flatMap Event.bytes ++ rest ∧
      r = ptr + (left.flatMap Event.bytes).length
  idle : (∀ r ptr, s.pc ≠ .walking r ptr) → left = []
  fatal : ∀ why, s.pc = .finished why → why ≠ .readNothing ∧ why ≠ .nameTooLong ∧
    why ≠ .readFailed einval
  reading : s.pc = .reading → s.queue ≠ []

section Steps

variable {O C greet tmo} {s s' : State F} {l : Label F} {h : List (Label F)}
  {es left : List Event}

theorem flatMap_bytes_mod (es : List Event) : (es.flatMap Event.bytes).length % 16 = 0 := by
  induction es with
  | nil => rfl
  | cons e es ih =>
      have hmod := length_nameField_mod (e := e)
      rw [List.flatMap_cons, List.length_append, length_bytes]
      omega

/-- What is read is neither nothing nor as much as the buffer has room for. -/
theorem ReadResult.Possible.afterRead {r : ReadResult} {queue rest : List Event}
    (hr : r.Possible queue rest) :
    (∃ es, r = .events es ∧ queue = es ++ rest ∧
      Inotify.afterRead (F := F) r = .walking (es.flatMap Event.bytes).length 0) ∨
    (rest = queue ∧ (Inotify.afterRead (F := F) r = .fetching ∨
      ∃ errnum, r = .failed errnum ∧
        Inotify.afterRead (F := F) r = .finished (.readFailed errnum))) := by
  cases r with
  | failed errnum =>
      refine .inr ⟨hr.1, ?_⟩
      by_cases he : errnum = eintr
      · exact .inl (if_pos he)
      · exact .inr ⟨errnum, rfl, if_neg he⟩
  | events es =>
      obtain ⟨hqueue, hne, hle⟩ := hr
      have hmod := flatMap_bytes_mod es
      have hpos : (es.flatMap Event.bytes).length ≠ 0 := by
        obtain ⟨e, es, rfl⟩ := List.exists_cons_of_ne_nil hne
        rw [List.flatMap_cons, List.length_append, length_bytes]
        omega
      refine .inl ⟨es, rfl, hqueue, ?_⟩
      rw [Inotify.afterRead, if_neg hpos, if_neg]
      intro hfull
      rw [hfull, nbuf] at hmod
      omega

/-- A step that the events have no part in. -/
theorem Inv.keep (hi : Inv h s es left) (hpc : s'.pc ≠ .reading ∧
      (∀ r ptr, s'.pc ≠ .walking r ptr) ∧ ∀ why, s'.pc = .finished why → why = .waitFailed)
    (hidle : ∀ r ptr, s.pc ≠ .walking r ptr) (hqueue : s'.queue = s.queue)
    (hl : l.queuedEvent = none ∧ l.table = none) : Inv (l :: h) s' es left where
  queued := by rw [shown_cons, hl.1, hi.queued, hqueue]; simp
  told := by rw [shown_cons, hl.2]; simpa using hi.told
  walking r ptr hw := absurd hw (hpc.2.1 r ptr)
  idle _ := hi.idle hidle
  fatal why hw := by
    rw [hpc.2.2 why hw]
    exact ⟨nofun, nofun, nofun⟩
  reading hr := absurd hr hpc.1

theorem length_bytes_le {e : Event} : e.bytes.length < nbuf := by
  have hle := length_nameField_le (e := e)
  rw [length_bytes, nbuf]
  omega

theorem Inv.read {r : ReadResult} {rest : List Event} (hi : Inv h s es left)
    (hpc : s.pc = .reading) (hr : r.Possible s.queue rest) :
    ∃ es' left', Inv (.read r :: h)
      { s with pc := afterRead r, buf := r.data ++ s.buf.drop r.data.length, queue := rest }
      es' left' := by
  have hleft : left = [] := hi.idle fun r ptr hw => by rw [hpc] at hw; cases hw
  have hqueued := hi.queued
  subst hleft
  rcases hr.afterRead (F := F) with ⟨read, rfl, hqueue, hafter⟩ | ⟨hqueue, hafter⟩
  · refine ⟨es, read, ?_, ?_, fun r ptr hw => ?_, fun hw => ?_, fun why hw => ?_, fun hw => ?_⟩
    · rw [shown_cons, hqueued, hqueue]
      simp [Label.queuedEvent]
    · simpa [Label.table] using hi.told
    · rw [hafter] at hw
      cases hw
      exact ⟨_, rfl, (Nat.zero_add _).symm⟩
    · exact absurd hafter (hw _ _)
    · rw [hafter] at hw
      cases hw
    · rw [hafter] at hw
      cases hw
  · refine ⟨es, [], ?_, ?_, fun r ptr hw => ?_, fun _ => rfl, fun why hw => ?_, fun hw => ?_⟩
    · rw [shown_cons, hqueued, hqueue]
      simp [Label.queuedEvent]
    · simpa [Label.table] using hi.told
    · rcases hafter with hafter | ⟨errnum, -, hafter⟩
      all_goals
        rw [hafter] at hw
        cases hw
    · rcases hafter with hafter | ⟨errnum, rfl, hafter⟩
      · rw [hafter] at hw
        cases hw
      · rw [hafter] at hw
        cases hw
        refine ⟨nofun, nofun, fun he => ?_⟩
        cases he
        -- The first event of the queue fits in the buffer.
        obtain ⟨e, queue, hcons⟩ := List.exists_cons_of_ne_nil (hi.reading hpc)
        have hlarge := hr.2 rfl e (by rw [hcons]; rfl)
        have hsmall := length_bytes_le (e := e)
        omega
    · rcases hafter with hafter | ⟨errnum, -, hafter⟩
      all_goals
        rw [hafter] at hw
        cases hw

theorem Inv.event {r ptr : Nat} (hi : Inv h s es left) (hpc : s.pc = .walking r ptr)
    (hptr : ptr < r) : ∃ es' left', Inv (.event (pushEvent (eventAt s.buf ptr)) :: h)
      { s with pc := .walking r (ptr + (16 + (eventAt s.buf ptr).len.toNat)) } es' left' := by
  obtain ⟨rest, hdrop, hr⟩ := hi.walking r ptr hpc
  cases left with
  | nil =>
      rw [List.flatMap_nil, List.length_nil] at hr
      omega
  | cons e left =>
      rw [List.flatMap_cons, List.append_assoc] at hdrop
      have hlen : 16 + (eventAt s.buf ptr).len.toNat = e.bytes.length := by
        rw [eventAt_eq hdrop, length_bytes]
        exact congrArg _ toNat_len
      rw [hlen]
      refine ⟨es ++ [e], left, ?_, ?_, fun r' ptr' hw => ?_, fun hw => ?_, nofun, nofun⟩
      · rw [shown_cons, hi.queued]
        simp [Label.queuedEvent]
      · rw [shown_cons]
        refine List.rel_append hi.told (.cons ?_ .nil)
        rw [eventAt_eq hdrop]
        exact describes_pushEvent
      · cases hw
        refine ⟨rest, ?_, ?_⟩
        · rw [← List.drop_drop, hdrop, List.drop_left]
        · rw [hr, List.flatMap_cons, List.length_append, Nat.add_assoc]
      · exact absurd rfl (hw _ _)

theorem Inv.step (hi : Inv h s es left) (hst : Step O C tmo s l s') :
    ∃ es' left', Inv (l :: h) s' es' left' := by
  have hpcs {pc : Pc F} (hpc : s.pc = pc) (hne : ∀ r ptr, pc ≠ .walking r ptr) :
      ∀ r ptr, s.pc ≠ .walking r ptr := hpc ▸ hne
  cases hst with
  | pushTimeout | notPushed =>
      exact ⟨es, left, by simpa [Label.queuedEvent] using hi.queued,
        by simpa [Label.table] using hi.told, hi.walking, hi.idle, hi.fatal, hi.reading⟩
  | queued e =>
      refine ⟨es, left, ?_, by simpa [Label.table] using hi.told, hi.walking, hi.idle, hi.fatal,
        fun _ => by simp⟩
      rw [shown_cons, hi.queued]
      simp [Label.queuedEvent]
  | hello hpc =>
      exact ⟨es, left, hi.keep ⟨nofun, nofun, nofun⟩ (hpcs hpc nofun) rfl ⟨rfl, rfl⟩⟩
  | timeout hpc =>
      exact ⟨es, left, hi.keep ⟨nofun, nofun, nofun⟩ (hpcs hpc nofun) rfl ⟨rfl, rfl⟩⟩
  | fetch hpc =>
      exact ⟨es, left, hi.keep ⟨nofun, nofun, nofun⟩ (hpcs hpc nofun) rfl ⟨rfl, rfl⟩⟩
  | @wait _ r hpc hr =>
      cases r with
      | failed =>
          refine ⟨es, left, hi.keep ⟨nofun, nofun, ?_⟩ (hpcs hpc nofun) rfl ⟨rfl, rfl⟩⟩
          intro why hw
          cases hw
          rfl
      | timedOut =>
          exact ⟨es, left, hi.keep ⟨nofun, nofun, nofun⟩ (hpcs hpc nofun) rfl ⟨rfl, rfl⟩⟩
      | ready =>
          refine ⟨es, left, by simpa [Label.queuedEvent] using hi.queued,
            by simpa [Label.table] using hi.told, nofun, fun _ => hi.idle (hpcs hpc nofun), nofun,
            fun _ => hr⟩
  | read hpc hr => exact hi.read hpc hr
  | event hpc hptr => exact hi.event hpc hptr
  | @walked r ptr hpc hptr =>
      obtain ⟨rest, -, hr⟩ := hi.walking r ptr hpc
      have hnil : left = [] := by
        cases left with
        | nil => rfl
        | cons e left =>
            rw [List.flatMap_cons, List.length_append, length_bytes] at hr
            omega
      exact ⟨es, left, by simpa [Label.queuedEvent] using hi.queued,
        by simpa [Label.table] using hi.told, nofun, fun _ => hnil, nofun, nofun⟩

theorem Step.ahead (hst : Step O C tmo s l s') :
    s'.pc.ahead ++ l.waited.toList = l.fetched.toList ++ s.pc.ahead := by
  cases hst with
  | pushTimeout | notPushed | queued => simp [Label.waited, Label.fetched]
  | hello hpc | timeout hpc | event hpc | walked hpc =>
      simp [Label.waited, Label.fetched, hpc, Pc.ahead]
  | fetch hpc => simp [Label.waited, Label.fetched, hpc, Pc.ahead]
  | @wait _ r hpc hr => cases r <;> simp [Label.waited, Label.fetched, hpc, Pc.ahead, afterWait]
  | read hpc hr =>
      rcases hr.afterRead (F := F) with ⟨es, -, -, hafter⟩ | ⟨-, hafter | ⟨errnum, -, hafter⟩⟩
      all_goals simp [Label.waited, Label.fetched, hpc, hafter, Pc.ahead]

theorem Step.timeouts (hO : O.Lawful) (hst : Step O C tmo s l s')
    {ts : List (Timeouts.Event F)} (hi : Timeouts.Inv O (defaultTmo O tmo) ts s.pushedTmo) :
    Timeouts.Inv O (defaultTmo O tmo) ((l.timeoutEvent O C).toList ++ ts) s'.pushedTmo := by
  cases hst with
  | pushTimeout hq =>
      simp only [Label.timeoutEvent, hq]
      exact hi.push hq
  | notPushed he =>
      simp only [Label.timeoutEvent, he]
      exact hi
  | fetch => exact hi.fetch hO
  | _ => exact hi

end Steps

section Runs

variable {O C greet tmo} {s : State F} {h : List (Label F)}

theorem inv_of_hist (hs : (system O C greet tmo).Hist h s) : ∃ es left, Inv h s es left := by
  induction hs with
  | @init s hi =>
      obtain ⟨hpc, -, hqueue⟩ := hi
      refine ⟨[], [], by rw [hqueue]; rfl, .nil, fun r ptr hw => ?_, fun _ => rfl,
        fun why hw => ?_, fun hw => ?_⟩
      all_goals
        rw [hpc] at hw
        cases greet <;> cases hw
  | step _ hst ih =>
      obtain ⟨es, left, hi⟩ := ih
      exact hi.step hst

theorem timeouts_inv (hO : O.Lawful) (hs : (system O C greet tmo).Hist h s) :
    Timeouts.Inv O (defaultTmo O tmo) (h.filterMap (Label.timeoutEvent O C)) s.pushedTmo := by
  refine hs.invariant_shown (P := fun ts s => Timeouts.Inv O (defaultTmo O tmo) ts s.pushedTmo)
    (fun s hi => ?_) fun s l t ts hi hst => Step.timeouts hO hst hi
  rw [hi.2.1]
  exact Timeouts.inv_init

theorem ahead_waited (hs : (system O C greet tmo).Hist h s) :
    s.pc.ahead ++ h.filterMap Label.waited = h.filterMap Label.fetched := by
  rw [← List.append_nil (h.filterMap Label.fetched)]
  refine hs.conserve (fun s => s.pc.ahead) (fun s hi => ?_) fun s l t hst => Step.ahead hst
  rw [hi.1]
  cases greet <;> rfl

/-- What holds of every run with the labels `h`, newest first, that ends in the state `s`. -/
structure Delivered (O : DoubleOps F) (C : Coercions F) (tmo : F) (h : List (Label F))
    (s : State F) : Prop where
  /-- The tables that the widget has got describe the events that the kernel has queued first, one
  for one.  Those after them are what is left in the buffer, from `ptr` to its end, or still in the
  queue, and nothing is left in the buffer unless the plugin is walking over it. -/
  events : ∃ es left, shown Label.queuedEvent h = es ++ left ++ s.queue ∧
    List.Forall₂ Describes es (shown Label.table h) ∧
    (∀ r ptr, s.pc = .walking r ptr → ∃ rest,
      s.buf.drop ptr = left.flatMap Event.bytes ++ rest ∧
        r = ptr + (left.flatMap Event.bytes).length) ∧
    ((∀ r ptr, s.pc ≠ .walking r ptr) → left = [])
  /-- `run` does not return because of the size of what it has read. -/
  fatal : ∀ why, s.pc = .finished why →
    why = .waitFailed ∨ ∃ errnum, errnum ≠ einval ∧ why = .readFailed errnum
  /-- Each timeout is what has been pushed last since the one before, or the default. -/
  timeouts : Timeouts.Right O (defaultTmo O tmo) (h.filterMap (Label.timeoutEvent O C))
  /-- The plugin waits once with each timeout. -/
  waits : s.pc.ahead ++ h.filterMap Label.waited = h.filterMap Label.fetched

/-- No event is lost, doubled or garbled, in any run. -/
theorem delivered (hO : O.Lawful) (hs : (system O C greet tmo).Hist h s) :
    Delivered O C tmo h s := by
  obtain ⟨es, left, hi⟩ := inv_of_hist hs
  refine ⟨⟨es, left, hi.queued, hi.told, hi.walking, hi.idle⟩, fun why hw => ?_,
    (timeouts_inv hO hs).right, ahead_waited hs⟩
  obtain ⟨hnothing, hlong, hinval⟩ := hi.fatal why hw
  cases why with
  | waitFailed => exact .inl rfl
  | readFailed errnum => exact .inr ⟨errnum, fun he => hinval (he ▸ rfl), rfl⟩
  | readNothing => exact absurd rfl hnothing
  | nameTooLong => exact absurd rfl hlong

end Runs

/-- A file with the name "x" is created. -/
def created : Event :=
  ⟨1, 0x100, 0, some { bytes := [120], noNul := by decide, length_le := by simp }⟩

theorem delivered_created : ∃ (s : State Int) (h : List (Label Int)),
    shown Label.queuedEvent h = [created] ∧ (shown Label.table h).length = 1 ∧
      Delivered wholeDoubles ⟨fun _ => [], fun _ => none⟩ (-1) h s := by
  let C : Coercions Int := ⟨fun _ => [], fun _ => none⟩
  let s : State Int := ⟨.fetching, [], lsPushedTimeoutInit wholeDoubles, []⟩
  have h0 : (system wholeDoubles C false (-1)).Hist [] s := .init ⟨rfl, rfl, rfl⟩
  have h1 := h0.step (.queued created)
  have h2 := h1.step (.fetch rfl)
  have h3 := h2.step (.wait (r := .ready) rfl nofun)
  have hread : ReadResult.Possible [created] [] (.events [created]) := ⟨rfl, nofun, by decide⟩
  have h4 := h3.step (.read rfl hread)
  have h5 := h4.step (.event rfl (show 0 < 32 by decide))
  exact ⟨_, _, rfl, rfl, delivered wholeDoubles_lawful h5⟩

end Luastatus.Inotify
