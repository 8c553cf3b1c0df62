import Luastatus.Lib.Bytes
import Luastatus.Lib.Replica
import Luastatus.Lib.Transition
import Mathlib.Logic.Function.Basic

/-!
# The mirror of a player

The mpris plugin keeps the properties of a media player in `current_data`.  It asks for all of them
when it is ready, when a timeout is over and when the player says that properties have been
invalidated.  Otherwise it mixes in what the player's signals say.  The signals wait in a queue, and
the player may change its properties at any time, also while it is being asked.

Some changes come without a signal: `Position` changes all the time, a signal may be missed, and a
player may be closed and started again.  `Known` reads off the history of which properties the
signals and queries since then have told.  `mirrored` says that the widget never gets to see an old
value of such a property if no signal about it is waiting.
-/

namespace Luastatus.Mpris

open Replica
open Text (Bytes lit)
open Transition

/-- A property as it comes from the bus, where a dictionary is a list of pairs.  `Metadata` is
one. -/
inductive Property (V : Type) where
  | metadata (entries : List (Bytes × V))
  | other (name : Bytes) (isOther : name ≠ lit "Metadata") (value : V)

/-- A value in `current_data`. -/
inductive Datum (V : Type) where
  | table (t : Bytes → Option V)
  | value (v : V)

/-- The contents of `current_data`. -/
abbrev Data (V : Type) := Bytes → Option (Datum V)

/-- The parameters of the signal `PropertiesChanged`, after the name of the interface. -/
structure Signal (V : Type) where
  changed : List (Property V)
  invalidated : List Bytes

variable {V : Type}

def Property.name : Property V → Bytes
  | metadata _ => lit "Metadata"
  | other name _ _ => name

/-- `mix_into(dst, x, false)` -/
def mixEntries (dst : Bytes → Option V) : List (Bytes × V) → Bytes → Option V
  | [] => dst
  | (k, v) :: x => mixEntries (Function.update dst k (some v)) x

/-- What is stored for a property. -/
def Property.datum : Property V → Datum V
  | metadata entries => .table (mixEntries (fun _ => none) entries)
  | other _ _ value => .value value

/-- `mix_into(dst, x, true)` -/
def mixInto (dst : Data V) : List (Property V) → Data V
  | [] => dst
  | p :: x => mixInto (Function.update dst p.name (some p.datum)) x

/-- Where the callback is. -/
inductive Pc where
  | idle
  /-- In `storage_requery`, with `current_data` empty. -/
  | querying
  /-- In front of `tbl.cb`. -/
  | reporting
deriving DecidableEq, Repr

/-- The player, the signals on their way, and the widget. -/
structure State (V : Type) where
  /-- What a query would give. -/
  props : Data V
  queue : List (Signal V)
  pc : Pc
  currentData : Data V

/-- What happens. -/
inductive Label (V : Type) where
  /-- The player changes properties, and sends the values of some of them. -/
  | change (sent withheld : List (Property V))
  /-- Properties change, appear or vanish, and there is no signal. -/
  | silent (keys : Set Bytes)
  /-- The callback gets a signal. -/
  | signal (s : Signal V)
  /-- The callback is called for another reason. -/
  | refresh
  /-- The player answers. -/
  | answer (x : List (Property V))
  /-- "cannot get properties" -/
  | failed
  /-- `tbl.cb` -/
  | cb (data : Data V)

/-- The list has all properties of the player, and only those. -/
def Lists (x : List (Property V)) (props : Data V) : Prop :=
  (∀ p ∈ x, props p.name = some p.datum) ∧ ∀ k d, props k = some d → ∃ p ∈ x, p.name = k

/-- A step. -/
inductive Step : State V → Label V → State V → Prop where
  | change {s : State V} (sent withheld : List (Property V)) :
      Step s (.change sent withheld)
        { s with props := mixInto s.props (sent ++ withheld)
                 queue := s.queue ++ [⟨sent, withheld.map Property.name⟩] }
  | silent {s : State V} {keys : Set Bytes} {props : Data V}
      (h : ∀ k, k ∉ keys → props k = s.props k) : Step s (.silent keys) { s with props }
  /-- `storage_handle_update` with invalidated properties. -/
  | invalidated {s : State V} {sig : Signal V} {queue : List (Signal V)} (h : s.pc = .idle)
      (hq : s.queue = sig :: queue) (hinv : 0 < sig.invalidated.length) :
      Step s (.signal sig) { s with queue, pc := .querying, currentData := fun _ => none }
  /-- `storage_handle_update` without them. -/
  | update {s : State V} {sig : Signal V} {queue : List (Signal V)} (h : s.pc = .idle)
      (hq : s.queue = sig :: queue) (hinv : ¬ 0 < sig.invalidated.length) :
      Step s (.signal sig)
        { s with queue, pc := .reporting, currentData := mixInto s.currentData sig.changed }
  | refresh {s : State V} (h : s.pc = .idle) :
      Step s .refresh { s with pc := .querying, currentData := fun _ => none }
  | answer {s : State V} {x : List (Property V)} (h : s.pc = .querying)
      (hx : Lists x s.props) :
      Step s (.answer x) { s with pc := .reporting, currentData := mixInto s.currentData x }
  | failed {s : State V} (h : s.pc = .querying) : Step s .failed { s with pc := .reporting }
  | cb {s : State V} (h : s.pc = .reporting) :
      Step s (.cb s.currentData) { s with pc := .idle }

/-- The system, from the moment on at which the plugin gets the signals. -/
def system (V : Type) : System (State V) (Label V) where
  init s := s.queue = [] ∧ s.pc = .idle ∧ s.currentData = fun _ => none
  step := Step

/-- Whether a query has been answered, in the step of the label. -/
def Label.answered : Label V → Option Bool
  | answer _ => some true
  | failed => some false
  | _ => none

/-- The last query has not been answered, or there has been none. -/
def Unanswered (h : List (Label V)) : Prop := (h.filterMap Label.answered).head? ≠ some true

/-- A signal says something about a property. -/
def Signal.Mentions (sig : Signal V) (k : Bytes) : Prop :=
  (∃ p ∈ sig.changed, p.name = k) ∨ k ∈ sig.invalidated

/-- The signals that wait after a history. -/
def waiting : List (Label V) → List (Signal V)
  | [] => []
  | .change sent withheld :: h => waiting h ++ [⟨sent, withheld.map Property.name⟩]
  | .signal _ :: h => (waiting h).tail
  | .silent _ :: h | .refresh :: h | .answer _ :: h | .failed :: h | .cb _ :: h => waiting h

/-- The property has not changed silently, or since then a signal has been sent that mentions it, or
a query has ended while no such signal was waiting. -/
def Known : List (Label V) → Bytes → Prop
  | [], _ => True
  | .silent keys :: h, k => k ∉ keys ∧ Known h k
  | .change sent withheld :: h, k =>
      Signal.Mentions ⟨sent, withheld.map Property.name⟩ k ∨ Known h k
  | .answer _ :: h, k | .failed :: h, k => (∀ sig ∈ waiting h, ¬ sig.Mentions k) ∨ Known h k
  | .signal _ :: h, k | .refresh :: h, k | .cb _ :: h, k => Known h k

/-! ## Signals as messages -/

/-- The last property with the name. -/
def lastNamed (x : List (Property V)) (k : Bytes) : Option (Property V) :=
  x.reverse.find? fun p => p.name = k

/-- What a signal says of the properties. -/
def Signal.message (sig : Signal V) : Message Bytes (Datum V) := fun k =>
  if k ∈ sig.invalidated then .unknown
  else ((lastNamed sig.changed k).map fun p => Note.set p.datum).getD .nothing

section Mixing

variable {x y : List (Property V)} {dst : Data V} {k : Bytes}

theorem mixInto_eq : mixInto dst x k = ((lastNamed x k).map Property.datum).or (dst k) := by
  induction x generalizing dst with
  | nil => rfl
  | cons p x ih =>
      rw [mixInto, ih, lastNamed, lastNamed, List.reverse_cons, List.find?_append]
      cases hx : x.reverse.find? fun p => p.name = k with
      | some p' => rfl
      | none =>
          by_cases hk : p.name = k
          · simp [hk, Function.update_self]
          · simp [hk, Function.update_of_ne (Ne.symm hk)]

theorem lastNamed_eq_none : lastNamed x k = none ↔ ∀ p ∈ x, p.name ≠ k := by
  simp [lastNamed]

theorem name_of_lastNamed {p : Property V} (h : lastNamed x k = some p) : p ∈ x ∧ p.name = k :=
  ⟨List.mem_reverse.mp (List.mem_of_find?_eq_some h), by simpa using List.find?_some h⟩

/-- What a query gives is what the player has. -/
theorem mixInto_of_lists {props : Data V} (h : Lists x props) :
    mixInto (fun _ => none) x = props := by
  funext k
  rw [mixInto_eq]
  cases hlast : lastNamed x k with
  | some p =>
      obtain ⟨hmem, rfl⟩ := name_of_lastNamed hlast
      exact (h.1 p hmem).symm
  | none =>
      cases hk : props k with
      | none => rfl
      | some d =>
          obtain ⟨p, hmem, hname⟩ := h.2 k d hk
          exact absurd hname (lastNamed_eq_none.mp hlast p hmem)

theorem mixInto_append : mixInto dst (x ++ y) = mixInto (mixInto dst x) y := by
  induction x generalizing dst with
  | nil => rfl
  | cons p x ih => exact ih

end Mixing

section Messages

variable {sig : Signal V} {k : Bytes} {d : Datum V} {before after : Data V}

theorem message_eq_nothing : sig.message k = .nothing ↔ ¬ sig.Mentions k := by
  rw [Signal.message, Signal.Mentions]
  by_cases hinv : k ∈ sig.invalidated
  · simp [hinv]
  · cases hlast : lastNamed sig.changed k with
    | none => simpa [hinv] using lastNamed_eq_none.mp hlast
    | some p =>
        have hp := name_of_lastNamed hlast
        simpa [hinv] using ⟨p, hp⟩

theorem message_eq_set :
    sig.message k = .set d ↔
      k ∉ sig.invalidated ∧ (lastNamed sig.changed k).map Property.datum = some d := by
  rw [Signal.message]
  by_cases hinv : k ∈ sig.invalidated
  · simp [hinv]
  · cases hlast : lastNamed sig.changed k with
    | none => simp [hinv]
    | some p => simp [hinv]

/-- A change that is what the signal says, except for what has been invalidated. -/
theorem reports_of_mixInto (h : k ∉ sig.invalidated → after k = mixInto before sig.changed k) :
    Reports sig.message before after k where
  nothing hm := by
    rw [message_eq_nothing, Signal.Mentions, not_or] at hm
    have hnone : lastNamed sig.changed k = none :=
      lastNamed_eq_none.mpr fun p hp hname => hm.1 ⟨p, hp, hname⟩
    rw [h hm.2, mixInto_eq, hnone]
    rfl
  set d hm := by
    obtain ⟨hinv, hlast⟩ := message_eq_set.mp hm
    rw [h hinv, mixInto_eq, hlast]
    rfl

/-- A signal says how the player has changed. -/
theorem reports_change (sent withheld : List (Property V)) :
    Reports (Signal.message ⟨sent, withheld.map Property.name⟩) before
      (mixInto before (sent ++ withheld)) k := by
  refine reports_of_mixInto fun hk => ?_
  have hnone : lastNamed withheld k = none := lastNamed_eq_none.mpr fun p hp hname =>
    hk (List.mem_map.mpr ⟨p, hp, hname⟩)
  rw [mixInto_append, mixInto_eq, hnone]
  rfl

end Messages

/-! ## Runs -/

/-- The messages that wait. -/
def State.messages (s : State V) : List (Message Bytes (Datum V)) := s.queue.map Signal.message

/-- What holds of the state after the labels `h`. -/
structure Inv (h : List (Label V)) (s : State V) : Prop where
  queue : s.queue = waiting h
  sound : ∀ k, Known h k → Sound s.props s.messages k
  empty : s.pc = .querying → s.currentData = fun _ => none
  current : s.pc ≠ .querying → ∀ k, Known h k →
    Current (Unanswered h) s.props s.currentData s.messages k

section Steps

variable {h : List (Label V)} {s s' : State V} {l : Label V}

theorem unanswered_cons (hl : l.answered = none) : Unanswered (l :: h) ↔ Unanswered h := by
  rw [Unanswered, Unanswered, List.filterMap_cons_none hl]

theorem messages_cons {sig : Signal V} {queue : List (Signal V)} (hq : s.queue = sig :: queue) :
    s.messages = sig.message :: queue.map Signal.message := by
  rw [State.messages, hq]
  rfl

theorem messages_sent {props : Data V} {sig : Signal V} :
    State.messages { s with props, queue := s.queue ++ [sig] } = s.messages ++ [sig.message] :=
  List.map_append

/-- No signal about the property waits. -/
theorem lastNote_of_waiting {k : Bytes} (hk : ∀ sig ∈ s.queue, ¬ sig.Mentions k) :
    lastNote s.messages k = .nothing := by
  refine lastNote_eq_nothing.mpr fun m hm => ?_
  obtain ⟨sig, hmem, rfl⟩ := List.mem_map.mp hm
  exact message_eq_nothing.mpr (hk sig hmem)

/-- What the queue says is right after a query has ended. -/
theorem Inv.sound_queried (hi : Inv h s) {k : Bytes}
    (hk : (∀ sig ∈ waiting h, ¬ sig.Mentions k) ∨ Known h k) : Sound s.props s.messages k := by
  rcases hk with hnone | hknown
  · rw [← hi.queue] at hnone
    exact sound_of_nothing (lastNote_of_waiting hnone)
  · exact hi.sound k hknown

theorem Inv.step (hi : Inv h s) (hst : Step s l s') : Inv (l :: h) s' := by
  cases hst with
  | change sent withheld =>
      have hreports (k : Bytes) : Reports _ s.props _ k := reports_change sent withheld
      refine ⟨congrArg (· ++ _) hi.queue, fun k hk => ?_, hi.empty, fun hpc k hk => ?_⟩
      · rw [messages_sent]
        rcases hk with hment | hk
        · exact sound_change (hreports k) fun hm => message_eq_nothing.mp hm hment
        · exact (hi.sound k hk).change (hreports k)
      · rw [messages_sent]
        rcases hk with hment | hk
        · exact current_change fun hm => message_eq_nothing.mp hm hment
        · exact ((hi.current hpc k hk).change (hreports k)).imp (unanswered_cons rfl).mpr
  | silent hprops =>
      refine ⟨hi.queue, fun k hk => (hi.sound k hk.2).congr (hprops k hk.1), hi.empty,
        fun hpc k hk => ?_⟩
      exact ((hi.current hpc k hk.2).congr (hprops k hk.1)).imp (unanswered_cons rfl).mpr
  | @invalidated sig queue hpc hq hinv =>
      have htail : queue = (waiting h).tail := by rw [← hi.queue, hq]; rfl
      refine ⟨htail, fun k hk => ?_, fun _ => rfl, fun hne => absurd rfl hne⟩
      have hsound := hi.sound k hk
      rw [messages_cons hq] at hsound
      exact hsound.tail
  | @update sig queue hpc hq hinv =>
      have htail : queue = (waiting h).tail := by rw [← hi.queue, hq]; rfl
      have hnone : sig.invalidated = [] :=
        List.eq_nil_of_length_eq_zero (Nat.eq_zero_of_not_pos hinv)
      have hunknown (k : Bytes) : sig.message k ≠ .unknown := by
        rw [Signal.message, hnone, if_neg List.not_mem_nil]
        cases lastNamed sig.changed k <;> nofun
      refine ⟨htail, fun k hk => ?_, nofun, fun _ k hk => ?_⟩
      all_goals
        have hsound := hi.sound k hk
        rw [messages_cons hq] at hsound
      · exact hsound.tail
      · have hcurrent := hi.current (by rw [hpc]; nofun) k hk
        rw [messages_cons hq] at hcurrent
        exact (hcurrent.apply hsound (reports_of_mixInto fun _ => rfl) (hunknown k)).imp
          (unanswered_cons rfl).mpr
  | refresh hpc => exact ⟨hi.queue, hi.sound, fun _ => rfl, fun hne => absurd rfl hne⟩
  | @answer x hpc hx =>
      refine ⟨hi.queue, fun k hk => hi.sound_queried hk, nofun, fun _ k _ => ?_⟩
      show Current _ s.props (mixInto s.currentData x) s.messages k
      rw [hi.empty hpc, mixInto_of_lists hx]
      exact current_snapshot
  | failed hpc =>
      refine ⟨hi.queue, fun k hk => hi.sound_queried hk, nofun, fun _ k _ => ?_⟩
      show Current _ s.props s.currentData s.messages k
      rw [hi.empty hpc]
      exact current_empty nofun
  | cb hpc =>
      exact ⟨hi.queue, hi.sound, nofun, fun _ k hk =>
        (hi.current (by rw [hpc]; nofun) k hk).imp (unanswered_cons rfl).mpr⟩

theorem inv_of_hist (hs : (system V).Hist h s) : Inv h s := by
  induction hs with
  | init hi =>
      obtain ⟨hq, hpc, hdata⟩ := hi
      refine ⟨hq, fun k _ => sound_of_nothing ?_, fun _ => hdata, fun _ k _ => ?_⟩
      · rw [State.messages, hq]
        rfl
      · rw [hdata]
        exact current_empty nofun
  | step _ hst ih => exact ih.step hst

end Steps

end Luastatus.Mpris
