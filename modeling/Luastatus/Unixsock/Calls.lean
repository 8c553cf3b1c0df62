import Luastatus.Unixsock.Run

/-!
# The system calls of the unixsock plugin

The functions of the server and of `run` once more, with a log of the system calls that concern
descriptors and of the calls of the widget's callback.  `iterateLog_erase` says that apart from the
log they are the functions that have none.

`run` is modelled here from `mk_server` on, up to what it does behind its `error` label: it closes
the listening descriptor, and then `server_destroy` does.
-/

namespace Luastatus.Unixsock

open Text (Bytes ch lit)
open LibLs
open Transition

/-- A call that `run` makes. -/
inductive Call where
  /-- `ls_cloexec_socket` returned a descriptor. -/
  | socket (fd : Nat)
  | unlink (ok : Bool)
  /-- `cloexec_accept` returned a descriptor. -/
  | accept (fd : Nat)
  | read (fd : Int) (result : ReadResult)
  | close (fd : Int)
  /-- `report_status`. -/
  | reportStatus (what : Bytes)
  /-- `report_line`, with a line of the client that has the given descriptor. -/
  | reportLine (fd : Int) (line : Bytes)
deriving DecidableEq, Repr

/-- What a call reports to the widget. -/
def Call.reports : Call → List Report
  | .reportStatus what => [.status what]
  | .reportLine _ line => [.line line]
  | _ => []

/-- `ls_close`: it ignores a negative number. -/
def lsClose (fd : Int) : List Call := if fd < 0 then [] else [.close fd]

/-! ## The functions of a round -/

/-- The descriptor of a client, before it is dropped. -/
def Server.clientFd (S : Server) (i : Nat) : Int := (S.clients.getD i ⟨-1, []⟩).fd

/-- `server_drop_client`. -/
def serverDropClientLog (S : Server) (i : Nat) : Except AssertFailure (Server × List Call) := do
  let S' ← serverDropClient S i
  return (S', [.close (S.clientFd i)])

/-- The body of the loop over the poll entries. -/
def readClientLog (read : Nat → ReadResult) (S : Server) (i : Nat) :
    Except AssertFailure (Server × List Call) := do
  if (S.pfds.getD (i + 1) ⟨-1, false⟩).revents = false then return (S, [])
  let called := Call.read (S.clientFd i) (read i)
  let (S, readRc) ← serverReadFromClient S i (read i)
  if readRc < 0 then
    let (S, dropped) ← serverDropClientLog S i
    return (S, called :: dropped)
  if readRc > 0 then
    let line ← serverGetFullLine S i
    let reported := Call.reportLine (S.clientFd i) line
    let (S, dropped) ← serverDropClientLog S i
    return (S, called :: reported :: dropped)
  return (S, [called])

/-- The loop over `k` poll entries from entry `i` on. -/
def readClientsLog (read : Nat → ReadResult) :
    Nat → Nat → Server → Except AssertFailure (Server × List Call)
  | 0, _, S => .ok (S, [])
  | k + 1, i, S => do
      let (S, r) ← readClientLog read S i
      let (S, rs) ← readClientsLog read k (i + 1) S
      return (S, r ++ rs)

/-- The descriptor that `server_accept_new_client` obtains. -/
def acceptCalls (canAccept : Bool) (result : AcceptResult) : List Call :=
  match canAccept, result with
  | true, .client fd => [.accept fd]
  | _, _ => []

/-- The loop of `server_destroy`. -/
def destroyCalls : List Client → List Call
  | [] => []
  | c :: cs => if c.isDropped then destroyCalls cs else .close c.fd :: destroyCalls cs

/-- What `run` does behind its `error` label: `ls_close` on its own copy of the descriptor, and
`server_destroy`. -/
def errorCalls (srvFd : Int) (S : Server) : List Call :=
  lsClose srvFd ++ .close S.srvFd :: destroyCalls S.clients

/-- The part of a round after the reads. -/
def acceptAndCompactLog (srvFd : Int) (canAccept : Bool) (S : Server) (result : AcceptResult) :
    Except AssertFailure (Option Server × List Call) := do
  let (S, acceptRc) ← acceptIf canAccept S result
  if acceptRc < 0 then
    serverDestroy S
    return (none, acceptCalls canAccept result ++ errorCalls srvFd S)
  let S ← serverCompact S
  return (some S, acceptCalls canAccept result)

/-- One round of the loop of `run`. -/
def iterateLog (srvFd : Int) (S : Server) (w : Wakeup) :
    Except AssertFailure (Option Server × List Call) := do
  let (S, pollRc, canAccept) ← serverPoll S w.poll
  if pollRc < 0 then
    serverDestroy S
    return (none, errorCalls srvFd S)
  let timeout := if pollRc = 0 then [Call.reportStatus (lit "timeout")] else []
  let (S, reads) ← readClientsLog w.read S.nclients 0 S
  let (S, accepted) ← acceptAndCompactLog srvFd canAccept S w.accept
  return (S, timeout ++ reads ++ accepted)

/-! ## Setting up -/

/-- The size of `sun_path`. -/
def sunPathSize : Nat := 108

/-- What `mk_server` reads of the plugin's data. -/
structure Setup where
  path : Bytes
  tryUnlink : Bool

/-- What the operating system answers to `mk_server`. -/
structure SetupAnswers where
  /-- The descriptor, if `ls_cloexec_socket` succeeds. -/
  socket : Option Nat
  unlinked : Bool
  bound : Bool
  listening : Bool

/-- `mk_server`: the returned number and the calls. -/
def mkServer (p : Setup) (a : SetupAnswers) : Int × List Call :=
  match a.socket with
  | none => (-1, lsClose (-1))
  | some fd =>
      let calls := Call.socket fd :: if p.tryUnlink then [.unlink a.unlinked] else []
      if p.path.length + 1 > sunPathSize then (-1, calls ++ lsClose fd)
      else if ¬ a.bound then (-1, calls ++ lsClose fd)
      else if ¬ a.listening then (-1, calls ++ lsClose fd)
      else (fd, calls)

/-- `run` up to its loop. -/
def startLog (o : Options) (p : Setup) (a : SetupAnswers) : LoopState × List Call :=
  let (srvFd, calls) := mkServer p a
  if srvFd < 0 then (.returned, calls ++ lsClose srvFd)
  else
    match serverNew srvFd o.maxClients with
    | .ok S => (.running S, calls ++ if o.greet then [.reportStatus (lit "hello")] else [])
    | .error e => (.aborted e, calls)

/-- A round, with what has been logged before. -/
def afterRoundLog (srvFd : Int) (S : Server) (w : Wakeup) (log : List Call) :
    LoopState × List Call :=
  match iterateLog srvFd S w with
  | .ok (some S', calls) => (.running S', log ++ calls)
  | .ok (none, calls) => (.returned, log ++ calls)
  | .error e => (.aborted e, log)

/-! ## Apart from the log nothing has changed -/

/-- What a log reports to the widget. -/
def reportsOf (log : List Call) : List Report := log.flatMap Call.reports

theorem reportsOf_append (l l' : List Call) : reportsOf (l ++ l') = reportsOf l ++ reportsOf l' :=
  List.flatMap_append

/-- A result without its log. -/
def erase {α : Type} (r : Except AssertFailure (α × List Call)) :
    Except AssertFailure (α × List Report) :=
  r.map fun r => (r.1, reportsOf r.2)

theorem readClientLog_erase (read : Nat → ReadResult) (S : Server) (i : Nat) :
    erase (readClientLog read S i) = readClient read S i := by
  rw [readClientLog, readClient]
  split
  · rfl
  · cases serverReadFromClient S i (read i) with
    | error e => rfl
    | ok r =>
        obtain ⟨S, readRc⟩ := r
        simp only [ok_bind]
        split
        · rw [serverDropClientLog]
          cases serverDropClient S i <;> rfl
        · split
          · cases serverGetFullLine S i with
            | error e => rfl
            | ok line =>
                simp only [ok_bind, serverDropClientLog]
                cases serverDropClient S i <;> rfl
          · rfl

theorem readClientsLog_erase (read : Nat → ReadResult) (k : Nat) :
    ∀ i S, erase (readClientsLog read k i S) = readClients read k i S := by
  induction k with
  | zero => exact fun _ _ => rfl
  | succ k ih =>
      intro i S
      rw [readClientsLog, readClients, ← readClientLog_erase]
      cases readClientLog read S i with
      | error e => rfl
      | ok r =>
          obtain ⟨S, r⟩ := r
          simp only [erase, Except.map, ok_bind]
          rw [← ih]
          cases readClientsLog read k (i + 1) S with
          | error e => rfl
          | ok rs =>
              simp only [erase, Except.map, ok_bind, pure, Except.pure, reportsOf_append]

theorem reportsOf_acceptCalls (canAccept : Bool) (result : AcceptResult) :
    reportsOf (acceptCalls canAccept result) = [] := by
  cases canAccept with
  | false => rfl
  | true => cases result <;> rfl

theorem reportsOf_destroyCalls (cs : List Client) : reportsOf (destroyCalls cs) = [] := by
  induction cs with
  | nil => rfl
  | cons c cs ih =>
      rw [destroyCalls]
      split
      · exact ih
      · exact ih

theorem reportsOf_errorCalls (srvFd : Int) (S : Server) : reportsOf (errorCalls srvFd S) = [] := by
  have hclose : reportsOf (lsClose srvFd) = [] := by
    rw [lsClose]
    split <;> rfl
  rw [errorCalls, reportsOf_append, hclose, List.nil_append]
  exact reportsOf_destroyCalls S.clients

theorem acceptAndCompactLog_erase (srvFd : Int) (canAccept : Bool) (S : Server)
    (result : AcceptResult) :
    erase (acceptAndCompactLog srvFd canAccept S result) =
      (acceptAndCompact canAccept S result).map fun S => (S, []) := by
  rw [acceptAndCompactLog, acceptAndCompact]
  cases acceptIf canAccept S result with
  | error e => rfl
  | ok r =>
      obtain ⟨S, acceptRc⟩ := r
      simp only [ok_bind]
      split
      · rw [serverDestroy_eq]
        simp only [ok_bind, erase, pure, Except.pure, Except.map, reportsOf_append,
          reportsOf_acceptCalls, reportsOf_errorCalls, List.append_nil]
      · cases serverCompact S with
        | error e => rfl
        | ok S =>
            simp only [ok_bind, erase, pure, Except.pure, Except.map, reportsOf_acceptCalls]

/-- A computation with a log that reports nothing, and the same one without a log. -/
theorem erase_eq_map {α : Type} {x : Except AssertFailure (α × List Call)}
    {y : Except AssertFailure α} (h : erase x = y.map fun a => (a, [])) :
    (∃ e, x = .error e ∧ y = .error e) ∨
      ∃ a calls, x = .ok (a, calls) ∧ y = .ok a ∧ reportsOf calls = [] := by
  cases x with
  | error e =>
      cases y with
      | error e' =>
          cases h
          exact .inl ⟨e, rfl, rfl⟩
      | ok b => cases h
  | ok r =>
      obtain ⟨a, calls⟩ := r
      cases y with
      | error e => cases h
      | ok b =>
          injection h with h
          obtain ⟨hab, hcalls⟩ := Prod.mk.inj h
          exact .inr ⟨a, calls, rfl, congrArg Except.ok hab.symm, hcalls⟩

/-- A round with a log is a round. -/
theorem iterateLog_erase (srvFd : Int) (S : Server) (w : Wakeup) :
    erase (iterateLog srvFd S w) = iterate S w := by
  rw [iterateLog, iterate]
  cases serverPoll S w.poll with
  | error e => rfl
  | ok r =>
      obtain ⟨S, pollRc, canAccept⟩ := r
      simp only [ok_bind]
      split
      · rw [serverDestroy_eq]
        simp only [ok_bind, erase, pure, Except.pure, Except.map, reportsOf_errorCalls]
      · rw [← readClientsLog_erase]
        cases readClientsLog w.read S.nclients 0 S with
        | error e => rfl
        | ok r =>
            obtain ⟨S, reads⟩ := r
            simp only [ok_bind, erase, Except.map]
            rcases erase_eq_map (acceptAndCompactLog_erase srvFd canAccept S w.accept) with
              ⟨e, hlog, hacc⟩ | ⟨S', calls, hlog, hacc, hcalls⟩
            · rw [hlog, hacc]
              rfl
            · rw [hlog, hacc]
              simp only [ok_bind, pure, Except.pure, reportsOf_append, hcalls, List.append_nil]
              congr 3
              split <;> rfl

/-- So the state after a round is the same. -/
theorem afterRoundLog_fst (srvFd : Int) (S : Server) (w : Wakeup) (log : List Call) :
    (afterRoundLog srvFd S w log).1 = afterRound S w := by
  have h := iterateLog_erase srvFd S w
  rw [afterRoundLog, afterRound, ← h]
  cases iterateLog srvFd S w with
  | error e => rfl
  | ok r =>
      obtain ⟨S', calls⟩ := r
      cases S' <;> rfl

end Luastatus.Unixsock
