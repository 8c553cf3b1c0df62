import Luastatus.Lib.Transition
import Luastatus.Unixsock.Server

/-!
# The main loop of the unixsock plugin

One round of the loop polls the descriptors, reads from every client on which something happened,
accepts a connection if there is one, and compacts the array of clients.  A client whose read ends
it (a newline, the end of the stream, an error) is dropped at once, but it stays in the array until
the end of the round.  A connection that is accepted in the same round meets it there, and the
assertion of `update_pfds` fails.

`Clash` is this condition.  `iterate_ok` and `iterate_error` say that a round fails if and only if
it clashes, `run_no_assertion` that a run without clashes never fails an assertion.
-/

namespace Luastatus.Unixsock

open Text (Bytes ch lit)
open LibLs
open Transition

/-! ## The loop -/

/-- The options that `run` reads, as `init` accepts them. -/
structure Options where
  greet : Bool
  maxClients : Nat
  maxClients_pos : 0 < maxClients
  maxClients_le : maxClients ≤ serverMaxClientsLimit

/-- A call of the widget's callback. -/
inductive Report where
  | status (what : Bytes)
  | line (line : Bytes)
deriving DecidableEq, Repr

/-- What the operating system answers in one round. -/
structure Wakeup where
  poll : PollResult
  read : Nat → ReadResult
  accept : AcceptResult

/-- The body of the loop over the poll entries. -/
def readClient (read : Nat → ReadResult) (S : Server) (i : Nat) :
    Except AssertFailure (Server × List Report) := do
  if (S.pfds.getD (i + 1) ⟨-1, false⟩).revents = false then return (S, [])
  let (S, readRc) ← serverReadFromClient S i (read i)
  if readRc < 0 then
    let S ← serverDropClient S i
    return (S, [])
  if readRc > 0 then
    let line ← serverGetFullLine S i
    let S ← serverDropClient S i
    return (S, [.line line])
  return (S, [])

/-- The loop over `k` poll entries from entry `i` on. -/
def readClients (read : Nat → ReadResult) :
    Nat → Nat → Server → Except AssertFailure (Server × List Report)
  | 0, _, S => .ok (S, [])
  | k + 1, i, S => do
      let (S, r) ← readClient read S i
      let (S, rs) ← readClients read k (i + 1) S
      return (S, r ++ rs)

/-- `if (can_accept)`: the server after it and the number that is checked for an error. -/
def acceptIf (canAccept : Bool) (S : Server) (result : AcceptResult) :
    Except AssertFailure (Server × Int) :=
  if canAccept then serverAcceptNewClient S result else .ok (S, 0)

/-- The part of a round after the reads: the server after it, or `none` if `run` destroys it and
returns. -/
def acceptAndCompact (canAccept : Bool) (S : Server) (result : AcceptResult) :
    Except AssertFailure (Option Server) := do
  let (S, acceptRc) ← acceptIf canAccept S result
  if acceptRc < 0 then
    serverDestroy S
    return none
  let S ← serverCompact S
  return some S

/-- One round of the loop of `run`: the server after it, or `none` if `run` destroys it and
returns, and the calls. -/
def iterate (S : Server) (w : Wakeup) : Except AssertFailure (Option Server × List Report) := do
  let (S, pollRc, canAccept) ← serverPoll S w.poll
  if pollRc < 0 then
    serverDestroy S
    return (none, [])
  let timeout := if pollRc = 0 then [Report.status (lit "timeout")] else []
  let (S, lines) ← readClients w.read S.nclients 0 S
  let S ← acceptAndCompact canAccept S w.accept
  return (S, timeout ++ lines)

/-! ## Reading -/

/-- The read ends the client. -/
def ReadResult.Ends : ReadResult → Prop
  | .data c => ch '\n' ∈ c.bytes
  | .eof => True
  | .again => False
  | .error => True

instance : DecidablePred ReadResult.Ends := fun r => by
  cases r <;> unfold ReadResult.Ends <;> infer_instance

/-- A client after a read. -/
def Client.afterRead (c : Client) (r : ReadResult) : Client :=
  if r.Ends then ⟨-1, []⟩
  else
    match r with
    | .data d => { c with buf := c.buf ++ d.bytes }
    | _ => c

/-- The line that a read completes. -/
def Client.lineOf (c : Client) : ReadResult → List Report
  | .data d =>
      if ch '\n' ∈ d.bytes then [.line ((c.buf ++ d.bytes).takeWhile (· ≠ ch '\n'))] else []
  | _ => []

/-- The clients from index `i` on after their reads; `ready` says on which of them something
happened. -/
def afterReads (ready : Nat → Bool) (read : Nat → ReadResult) : Nat → List Client → List Client
  | _, [] => []
  | i, c :: cs => (if ready i then c.afterRead (read i) else c) :: afterReads ready read (i + 1) cs

/-- The lines that the clients from index `i` on complete. -/
def linesOf (ready : Nat → Bool) (read : Nat → ReadResult) : Nat → List Client → List Report
  | _, [] => []
  | i, c :: cs => (if ready i then c.lineOf (read i) else []) ++ linesOf ready read (i + 1) cs

/-- Something happened on client `i`. -/
def Server.ready (S : Server) (i : Nat) : Bool := (S.pfds.getD (i + 1) ⟨-1, false⟩).revents

theorem findNewline_eq (fd : Int) (b : Bytes) (d : Chunk) :
    findNewline ⟨fd, b ++ d.bytes⟩ d.bytes.length = .ok (decide (ch '\n' ∈ d.bytes)) := by
  have hpos := d.pos
  have hdrop : (b ++ d.bytes).drop ((b ++ d.bytes).length - d.bytes.length) = d.bytes := by
    rw [List.length_append, Nat.add_sub_cancel, List.drop_left]
  rw [findNewline, lsAssert_bind_of_pos (by omega), lsAssert_bind_of_pos (by simp), hdrop]
  rfl

/-! An array with a client at index `pre.length`. -/

theorem getClient_append {S : Server} {pre post : List Client} {c : Client}
    (h : S.clients = pre ++ c :: post) : getClient S pre.length = .ok c := by
  rw [getClient, h]
  simp

theorem setClient_append {S : Server} {pre post : List Client} {c : Client}
    (h : S.clients = pre ++ c :: post) (c' : Client) :
    S.setClient pre.length c' = { S with clients := pre ++ c' :: post } := by
  rw [Server.setClient, h]
  simp

theorem serverDropClient_append {S : Server} {pre post : List Client} {c : Client}
    (h : S.clients = pre ++ c :: post) (hc : ¬ c.isDropped) :
    serverDropClient S pre.length = .ok { S with clients := pre ++ ⟨-1, []⟩ :: post } := by
  rw [serverDropClient, getClient_append h, ok_bind, dropClient, lsAssert_bind_of_pos hc,
    ← setClient_append h]
  rfl

theorem serverReadFromClient_append {S : Server} {pre post : List Client} {c : Client}
    (h : S.clients = pre ++ c :: post) (hc : ¬ c.isDropped) (hready : S.ready pre.length = true)
    (r : ReadResult) :
    serverReadFromClient S pre.length r =
      match r with
      | .again => .ok (S, 0)
      | .error => .ok (S, -1)
      | .eof => .ok (S, -1)
      | .data d => .ok ({ S with clients := pre ++ ⟨c.fd, c.buf ++ d.bytes⟩ :: post },
          if ch '\n' ∈ d.bytes then 1 else 0) := by
  have hrev : ¬ (S.pfds.getD (pre.length + 1) ⟨-1, false⟩).revents = false := by
    rw [Server.ready] at hready
    rw [hready]
    exact Bool.noConfusion
  rw [serverReadFromClient, getClient_append h, ok_bind, lsAssert_bind_of_pos hc, if_neg hrev]
  cases r with
  | again => rfl
  | error => rfl
  | eof => rfl
  | data d =>
      simp only [findNewline_eq, ok_bind, setClient_append h]
      by_cases hn : ch '\n' ∈ d.bytes
      · simp [hn, pure, Except.pure]
      · simp [hn, pure, Except.pure]

theorem serverGetFullLine_append {S : Server} {pre post : List Client} {c : Client}
    (h : S.clients = pre ++ c :: post) (hn : ch '\n' ∈ c.buf) :
    serverGetFullLine S pre.length = .ok (c.buf.takeWhile (· ≠ ch '\n')) := by
  have hlen : c.buf.length ≠ 0 := List.length_pos_iff.mpr (List.ne_nil_of_mem hn) |>.ne'
  rw [serverGetFullLine, getClient_append h, ok_bind, lsAssert_bind_of_pos hlen,
    lsAssert_bind_of_pos hn]
  rfl

theorem Client.not_isDropped_buf {c : Client} (h : ¬ c.isDropped) (b : Bytes) :
    ¬ (⟨c.fd, b⟩ : Client).isDropped := h

/-- One round of the loop over the poll entries, on a client that is not dropped. -/
theorem readClient_append {S : Server} {pre post : List Client} {c : Client}
    (h : S.clients = pre ++ c :: post) (hc : ¬ c.isDropped) (read : Nat → ReadResult) :
    readClient read S pre.length =
      .ok ({ S with clients :=
              pre ++ (if S.ready pre.length then c.afterRead (read pre.length) else c) :: post },
        if S.ready pre.length then c.lineOf (read pre.length) else []) := by
  have hself : { S with clients := pre ++ c :: post } = S := by rw [← h]
  have hrev : (S.pfds.getD (pre.length + 1) ⟨-1, false⟩).revents = S.ready pre.length := rfl
  rw [readClient, hrev]
  cases hready : S.ready pre.length with
  | false =>
      rw [if_pos rfl, if_neg Bool.noConfusion, if_neg Bool.noConfusion, hself]
      rfl
  | true =>
      rw [if_neg Bool.noConfusion, if_pos rfl, if_pos rfl,
        serverReadFromClient_append h hc hready]
      cases hr : read pre.length with
      | again =>
          simp [ok_bind, Client.afterRead, Client.lineOf, ReadResult.Ends, hself, pure, Except.pure]
      | error =>
          simp [ok_bind, Client.afterRead, Client.lineOf, ReadResult.Ends,
            serverDropClient_append h hc, pure, Except.pure]
      | eof =>
          simp [ok_bind, Client.afterRead, Client.lineOf, ReadResult.Ends,
            serverDropClient_append h hc, pure, Except.pure]
      | data d =>
          by_cases hn : ch '\n' ∈ d.bytes
          · have hS : Server.clients { S with clients := pre ++ ⟨c.fd, c.buf ++ d.bytes⟩ :: post } =
                pre ++ ⟨c.fd, c.buf ++ d.bytes⟩ :: post := rfl
            have hline := serverGetFullLine_append hS (List.mem_append_right _ hn)
            simp [hn, ok_bind, hline, serverDropClient_append hS (c.not_isDropped_buf hc _),
              Client.afterRead, Client.lineOf, ReadResult.Ends, pure, Except.pure]
          · simp [hn, ok_bind, Client.afterRead, Client.lineOf, ReadResult.Ends, pure, Except.pure]

/-- The loop over the poll entries.  The clients before `pre.length` are done; the ones from there
on have not been touched, so none of them is dropped. -/
theorem readClients_append (read : Nat → ReadResult) {S : Server} {pre post : List Client}
    (h : S.clients = pre ++ post) (hpost : ∀ c ∈ post, ¬ c.isDropped) :
    readClients read post.length pre.length S =
      .ok ({ S with clients := pre ++ afterReads S.ready read pre.length post },
        linesOf S.ready read pre.length post) := by
  induction post generalizing S pre with
  | nil =>
      have hself : { S with clients := pre ++ [] } = S := by rw [← h]
      rw [List.length_nil, readClients, afterReads, linesOf, hself]
  | cons c post ih =>
      have hc := readClient_append h (hpost c List.mem_cons_self) read
      have hrest := ih (S := { S with clients :=
          (pre ++ [if S.ready pre.length then c.afterRead (read pre.length) else c]) ++ post })
        rfl fun d hd => hpost d (List.mem_cons_of_mem c hd)
      rw [List.length_append, List.length_singleton] at hrest
      rw [List.length_cons, readClients, hc, ok_bind]
      simp only [List.append_cons pre _ post, hrest, ok_bind, afterReads, linesOf]
      rw [List.append_assoc]
      rfl

theorem Client.isDropped_afterRead {c : Client} (hc : ¬ c.isDropped) (r : ReadResult) :
    (c.afterRead r).isDropped ↔ r.Ends := by
  by_cases hr : r.Ends
  · simp [afterRead, hr, isDropped]
  · have hfd : (c.afterRead r).fd = c.fd := by cases r <;> simp [afterRead, hr]
    rw [isDropped, hfd]
    exact ⟨fun hd => absurd hd hc, fun h => absurd h hr⟩

/-- The clients that are dropped are the ready ones whose read ends them. -/
theorem exists_isDropped_afterReads {ready : Nat → Bool} {read : Nat → ReadResult}
    {cs : List Client} (h : ∀ c ∈ cs, ¬ c.isDropped) (i : Nat) :
    (∃ c ∈ afterReads ready read i cs, c.isDropped) ↔
      ∃ j, j < cs.length ∧ ready (i + j) = true ∧ (read (i + j)).Ends := by
  induction cs generalizing i with
  | nil => simp [afterReads]
  | cons c cs ih =>
      have hc := h c List.mem_cons_self
      have hhead : (if ready i then c.afterRead (read i) else c).isDropped ↔
          ready i = true ∧ (read i).Ends := by
        cases hr : ready i with
        | false => simp [hc]
        | true => simp [Client.isDropped_afterRead hc]
      rw [afterReads, List.exists_mem_cons_iff, hhead,
        ih (fun d hd => h d (List.mem_cons_of_mem c hd)) (i + 1)]
      constructor
      · rintro (hi | ⟨j, hj, hrest⟩)
        · exact ⟨0, Nat.succ_pos _, hi⟩
        · refine ⟨j + 1, Nat.succ_lt_succ hj, ?_⟩
          rwa [show i + (j + 1) = i + 1 + j by omega]
      · rintro ⟨j, hj, hrest⟩
        cases j with
        | zero => exact .inl hrest
        | succ j =>
            refine .inr ⟨j, Nat.lt_of_succ_lt_succ hj, ?_⟩
            rwa [show i + 1 + j = i + (j + 1) by omega]

theorem length_afterReads (ready : Nat → Bool) (read : Nat → ReadResult) (i : Nat)
    (cs : List Client) : (afterReads ready read i cs).length = cs.length := by
  induction cs generalizing i with
  | nil => rfl
  | cons c cs ih => rw [afterReads, List.length_cons, List.length_cons, ih]

/-! ## A round -/

/-- The server between two rounds: no client is dropped, the poll entries are those of the
clients, and there are at most `m` clients. -/
structure Server.Valid (m : Nat) (S : Server) : Prop where
  srvFd : 0 ≤ S.srvFd
  maxClients : S.maxClients = m
  pfds : ∃ p, S.pfds = p :: S.clients.map fun c => ⟨c.fd, false⟩
  alive : ∀ c ∈ S.clients, ¬ c.isDropped
  nclients_le : S.nclients ≤ m

/-- In the round, a connection is accepted and the read of a ready client ends it. -/
def Clash (S : Server) (w : Wakeup) : Prop :=
  ∃ happened, w.poll = .events happened ∧
    (happened 0 = true ∧ S.nclients < S.maxClients ∧ ∃ fd, w.accept = .client fd) ∧
    ∃ i, i < S.nclients ∧ happened (i + 1) = true ∧ (w.read i).Ends

/-- Whether the listening socket is reported as ready. -/
def Server.canAccept (S : Server) (happened : Nat → Bool) : Bool :=
  decide (S.nclients < S.maxClients) && happened 0

/-- The server after `poll`. -/
def Server.polled (S : Server) (happened : Nat → Bool) : Server :=
  { S with
    pfds := ⟨if S.nclients = S.maxClients then -1 else S.srvFd, S.canAccept happened⟩ ::
      S.clients.mapIdx fun i c => ⟨c.fd, happened (i + 1)⟩ }

variable {m : Nat}

theorem isFull_eq {S : Server} (hS : S.Valid m) :
    isFull S = .ok (decide (S.nclients = S.maxClients)) := by
  rw [isFull, lsAssert_bind_of_pos (hS.maxClients ▸ hS.nclients_le)]
  rfl

theorem pollEntries_eq {S : Server} (hS : S.Valid m) (happened : Nat → Bool) :
    pollEntries happened
        (S.pfds.set 0 ⟨if decide (S.nclients = S.maxClients) = true then -1 else S.srvFd, false⟩) =
      (S.polled happened).pfds := by
  obtain ⟨p, hp⟩ := hS.pfds
  have hle : S.nclients ≤ S.maxClients := hS.maxClients ▸ hS.nclients_le
  have hclients : (S.clients.map fun c => (⟨c.fd, false⟩ : PollFd)).mapIdx
      (fun i p => { p with revents := decide (0 ≤ p.fd) && happened (i + 1) }) =
      S.clients.mapIdx fun i c => ⟨c.fd, happened (i + 1)⟩ := by
    refine List.ext_getElem (by simp) fun i h₁ h₂ => ?_
    have hi : i < S.clients.length := by simpa using h₂
    have halive := hS.alive S.clients[i] (List.getElem_mem hi)
    have hfd : (0 : Int) ≤ S.clients[i].fd := Int.not_lt.mp halive
    simp [hfd]
  rw [pollEntries, hp, List.set_cons_zero, List.mapIdx_cons, hclients, Server.polled]
  by_cases hfull : S.nclients = S.maxClients
  · simp [hfull, Server.canAccept]
  · have hlt : S.nclients < S.maxClients := by omega
    simp [hfull, hlt, Server.canAccept, hS.srvFd]

theorem serverPoll_events {S : Server} (hS : S.Valid m) (happened : Nat → Bool) :
    ∃ rc, 0 ≤ rc ∧
      serverPoll S (.events happened) =
        .ok (S.polled happened, rc, S.canAccept happened) := by
  refine ⟨if (S.polled happened).pfds.any PollFd.revents then 1 else 0, by split <;> decide, ?_⟩
  rw [serverPoll, isFull_eq hS, ok_bind]
  simp only [pollEntries_eq hS]
  rfl

theorem serverPoll_error {S : Server} (hS : S.Valid m) :
    ∃ pfds, serverPoll S .error = .ok ({ S with pfds }, -1, false) := by
  let pfd : PollFd := ⟨if decide (S.nclients = S.maxClients) then -1 else S.srvFd, false⟩
  refine ⟨S.pfds.set 0 pfd, ?_⟩
  rw [serverPoll, isFull_eq hS, ok_bind]
  rfl

theorem polled_ready (S : Server) (happened : Nat → Bool) {i : Nat} (hi : i < S.nclients) :
    (S.polled happened).ready i = happened (i + 1) := by
  have hi' : i < S.clients.length := hi
  simp [Server.ready, Server.polled, List.getD_eq_getElem?_getD, hi']

/-- The server between the reads of a round and its end. -/
structure Server.MidRound (m : Nat) (canAccept : Bool) (S : Server) : Prop where
  srvFd : 0 ≤ S.srvFd
  maxClients : S.maxClients = m
  pfds : ∃ p ps, S.pfds = p :: ps ∧ p.revents = canAccept
  nclients_le : S.nclients + canAccept.toNat ≤ m

/-- `server_compact` restores the state between two rounds. -/
theorem serverCompact_valid {S : Server} (hfd : 0 ≤ S.srvFd) (hmax : S.maxClients = m)
    (hpfds : S.pfds ≠ []) (hle : S.nclients ≤ m) :
    ∃ S', serverCompact S = .ok S' ∧ S'.Valid m := by
  refine ⟨_, serverCompact_eq S, hfd, hmax, ?_, fun c hc => ?_, ?_⟩
  · cases hp : S.pfds with
    | nil => exact absurd hp hpfds
    | cons p ps => exact ⟨p, rfl⟩
  · simpa using (List.mem_filter.mp hc).2
  · exact Nat.le_trans (List.length_filter_le _ _) hle

theorem addClient_eq {S : Server} (h : ∀ c ∈ S.clients, ¬ c.isDropped) (fd : Nat) :
    ∃ S', addClient S fd = .ok S' ∧ S'.srvFd = S.srvFd ∧ S'.maxClients = S.maxClients ∧
      S'.nclients = S.nclients + 1 ∧ S'.pfds ≠ [] := by
  have halive : ∀ c ∈ S.clients ++ [⟨fd, []⟩], ¬ c.isDropped := by
    intro c hc
    cases List.mem_append.mp hc with
    | inl hc => exact h c hc
    | inr hc =>
        rw [List.mem_singleton.mp hc, Client.isDropped]
        exact Int.not_lt.mpr (Int.natCast_nonneg fd)
  refine ⟨_, updatePfds_eq halive, rfl, rfl, ?_, by simp⟩
  simp [Server.nclients]

theorem addClient_error {S : Server} (h : ∃ c ∈ S.clients, c.isDropped) (fd : Nat) :
    addClient S fd = .error ⟨"!is_dropped(c)"⟩ := by
  obtain ⟨c, hc, hdrop⟩ := h
  exact updatePfds_error ⟨c, List.mem_append_left _ hc, hdrop⟩

theorem serverAcceptNewClient_eq {S : Server} (hS : S.MidRound m true) (result : AcceptResult) :
    serverAcceptNewClient S result =
      match result with
      | .again => .ok (S, 0)
      | .error => .ok (S, -1)
      | .client fd => addClient S fd >>= fun S => .ok (S, 1) := by
  obtain ⟨p, ps, hp, hrev⟩ := hS.pfds
  have hassert : (S.pfds.getD 0 ⟨-1, false⟩).revents = true := by rw [hp]; exact hrev
  unfold serverAcceptNewClient
  rw [lsAssert_bind_of_pos hassert]
  cases result <;> rfl

/-- The compaction at the end of a round. -/
theorem Server.MidRound.compact {canAccept : Bool} {S : Server} (hS : S.MidRound m canAccept) :
    ∃ S', serverCompact S = .ok S' ∧ S'.Valid m := by
  have hle := hS.nclients_le
  have hpfds : S.pfds ≠ [] := by
    obtain ⟨p, ps, hp, _⟩ := hS.pfds
    exact hp ▸ List.cons_ne_nil p ps
  exact serverCompact_valid hS.srvFd hS.maxClients hpfds (by omega)

/-- A new client and the compaction. -/
theorem Server.MidRound.addClient {S : Server} (hS : S.MidRound m true)
    (halive : ∀ c ∈ S.clients, ¬ c.isDropped) (fd : Nat) :
    ∃ S₂ S', Unixsock.addClient S fd = .ok S₂ ∧ S₂.srvFd = S.srvFd ∧
      serverCompact S₂ = .ok S' ∧ S'.Valid m := by
  obtain ⟨S₂, h₂, hfd, hmax, hnum, hne⟩ := addClient_eq halive fd
  have hle : S₂.nclients ≤ m := by
    rw [hnum]
    exact hS.nclients_le
  obtain ⟨S', h', hvalid⟩ :=
    serverCompact_valid (hfd ▸ hS.srvFd) (hmax.trans hS.maxClients) hne hle
  exact ⟨S₂, S', h₂, hfd, h', hvalid⟩

/-- Without a dropped client, or without a new one, the round comes to its end. -/
theorem acceptAndCompact_ok {canAccept : Bool} {S : Server} (hS : S.MidRound m canAccept)
    {result : AcceptResult}
    (h : canAccept = true → ∀ fd, result = .client fd → ∀ c ∈ S.clients, ¬ c.isDropped) :
    ∃ r, acceptAndCompact canAccept S result = .ok r ∧ ∀ S', r = some S' → S'.Valid m := by
  have hsame : ∃ r, (do
      let S ← serverCompact S
      return some S : Except AssertFailure (Option Server)) = .ok r ∧
        ∀ S', r = some S' → S'.Valid m := by
    obtain ⟨S', h', hvalid⟩ := hS.compact
    refine ⟨some S', ?_, fun S h => by cases h; exact hvalid⟩
    rw [h']
    rfl
  rw [acceptAndCompact, acceptIf]
  cases canAccept with
  | false => exact hsame
  | true =>
      rw [if_pos rfl, serverAcceptNewClient_eq hS]
      cases result with
      | again => exact hsame
      | error =>
          refine ⟨none, ?_, fun S' h => by cases h⟩
          rw [ok_bind]
          simp only
          rw [if_pos (by decide), serverDestroy_eq]
          rfl
      | client fd =>
          obtain ⟨S₂, S', h₂, -, h', hvalid⟩ := hS.addClient (h rfl fd rfl) fd
          refine ⟨some S', ?_, fun S h => by cases h; exact hvalid⟩
          simp only
          rw [h₂, ok_bind, ok_bind]
          simp only
          rw [if_neg (by decide), h']
          rfl

/-- A dropped client and a new one meet in `update_pfds`. -/
theorem acceptAndCompact_error {S : Server} (hS : S.MidRound m true) (fd : Nat)
    (h : ∃ c ∈ S.clients, c.isDropped) :
    acceptAndCompact true S (.client fd) = .error ⟨"!is_dropped(c)"⟩ := by
  rw [acceptAndCompact, acceptIf, if_pos rfl, serverAcceptNewClient_eq hS]
  simp only
  rw [addClient_error h]
  rfl

/-- The server after the reads. -/
def Server.readAll (S : Server) (happened : Nat → Bool) (read : Nat → ReadResult) : Server :=
  { S.polled happened with clients := afterReads (S.polled happened).ready read 0 S.clients }

theorem readClients_polled {S : Server} (hS : S.Valid m) (happened : Nat → Bool)
    (read : Nat → ReadResult) :
    readClients read (S.polled happened).nclients 0 (S.polled happened) =
      .ok (S.readAll happened read, linesOf (S.polled happened).ready read 0 S.clients) := by
  have hclients : (S.polled happened).clients = [] ++ S.clients := rfl
  exact readClients_append read hclients hS.alive

theorem Server.Valid.readAll {S : Server} (hS : S.Valid m) (happened : Nat → Bool)
    (read : Nat → ReadResult) :
    (S.readAll happened read).MidRound m (S.canAccept happened) where
  srvFd := hS.srvFd
  maxClients := hS.maxClients
  pfds := ⟨_, _, rfl, rfl⟩
  nclients_le := by
    have hn : (S.readAll happened read).nclients = S.nclients := length_afterReads _ _ _ _
    have hle := hS.nclients_le
    have hmax := hS.maxClients
    rw [hn, Server.canAccept]
    by_cases hlt : S.nclients < S.maxClients
    · have := (decide (S.nclients < S.maxClients) && happened 0).toNat_le
      omega
    · simp only [hlt, decide_false, Bool.false_and, Bool.toNat_false]
      omega

/-- The reads drop a client if and only if the read of a ready client ends it. -/
theorem exists_isDropped_readAll {S : Server} (hS : S.Valid m) (happened : Nat → Bool)
    (read : Nat → ReadResult) :
    (∃ c ∈ (S.readAll happened read).clients, c.isDropped) ↔
      ∃ i, i < S.nclients ∧ happened (i + 1) = true ∧ (read i).Ends := by
  rw [Server.readAll, exists_isDropped_afterReads hS.alive 0]
  simp only [Nat.zero_add]
  constructor
  · rintro ⟨i, hi, hready, hends⟩
    exact ⟨i, hi, polled_ready S happened hi ▸ hready, hends⟩
  · rintro ⟨i, hi, hready, hends⟩
    exact ⟨i, hi, (polled_ready S happened hi).trans hready, hends⟩

theorem canAccept_eq_true_iff (S : Server) (happened : Nat → Bool) :
    S.canAccept happened = true ↔ happened 0 = true ∧ S.nclients < S.maxClients := by
  simp [Server.canAccept, and_comm]

/-- A round after a poll that succeeds. -/
theorem iterate_events {S : Server} (hS : S.Valid m) {w : Wakeup} {happened : Nat → Bool}
    (hpoll : w.poll = .events happened) :
    ∃ reports, iterate S w =
      acceptAndCompact (S.canAccept happened) (S.readAll happened w.read) w.accept >>=
        fun S => .ok (S, reports) := by
  obtain ⟨rc, hrc, h₁⟩ := serverPoll_events hS happened
  refine ⟨(if rc = 0 then [Report.status (lit "timeout")] else []) ++
    linesOf (S.polled happened).ready w.read 0 S.clients, ?_⟩
  rw [iterate, hpoll, h₁, ok_bind]
  simp only
  rw [if_neg (Int.not_lt.mpr hrc), readClients_polled hS, ok_bind]
  rfl

/-- A round without a clash fails no assertion and ends in a state between two rounds. -/
theorem iterate_ok {S : Server} (hS : S.Valid m) {w : Wakeup} (hw : ¬ Clash S w) :
    ∃ r, iterate S w = .ok r ∧ ∀ S', r.1 = some S' → S'.Valid m := by
  cases hpoll : w.poll with
  | error =>
      obtain ⟨pfds, h₁⟩ := serverPoll_error hS
      refine ⟨(none, []), ?_, fun S' h => by cases h⟩
      rw [iterate, hpoll, h₁, ok_bind]
      simp only
      rw [if_pos (by decide), serverDestroy_eq]
      rfl
  | events happened =>
      obtain ⟨reports, hit⟩ := iterate_events hS hpoll
      have hdrop : S.canAccept happened = true → ∀ fd, w.accept = .client fd →
          ∀ c ∈ (S.readAll happened w.read).clients, ¬ c.isDropped := by
        intro hcan fd hfd c hc hd
        obtain ⟨h0, hlt⟩ := (canAccept_eq_true_iff S happened).mp hcan
        exact hw ⟨happened, hpoll, ⟨h0, hlt, fd, hfd⟩,
          (exists_isDropped_readAll hS happened w.read).mp ⟨c, hc, hd⟩⟩
      obtain ⟨r, hr, hvalid⟩ := acceptAndCompact_ok (hS.readAll happened w.read) hdrop
      exact ⟨(r, reports), by rw [hit, hr]; rfl, hvalid⟩

/-- A round with a clash fails the assertion of `update_pfds`. -/
theorem iterate_error {S : Server} (hS : S.Valid m) {w : Wakeup} (hw : Clash S w) :
    iterate S w = .error ⟨"!is_dropped(c)"⟩ := by
  obtain ⟨happened, hpoll, ⟨h0, hlt, fd, hfd⟩, hends⟩ := hw
  have hcan := (canAccept_eq_true_iff S happened).mpr ⟨h0, hlt⟩
  have hmid := hcan ▸ hS.readAll happened w.read
  obtain ⟨reports, hit⟩ := iterate_events hS hpoll
  rw [hit, hcan, hfd,
    acceptAndCompact_error hmid fd ((exists_isDropped_readAll hS happened w.read).mpr hends)]
  rfl

/-! ## Runs -/

/-- Where `run` is. -/
inductive LoopState where
  /-- At the beginning of a round. -/
  | running (S : Server)
  | returned
  /-- An assertion has failed. -/
  | aborted (e : AssertFailure)
deriving DecidableEq, Repr

/-- The state after a round. -/
def afterRound (S : Server) (w : Wakeup) : LoopState :=
  match iterate S w with
  | .ok (some S', _) => .running S'
  | .ok (none, _) => .returned
  | .error e => .aborted e

/-- The state before the first round; `mk_server` has returned a descriptor. -/
def start (o : Options) (srvFd : Nat) : LoopState :=
  match serverNew srvFd o.maxClients with
  | .ok S => .running S
  | .error e => .aborted e

/-- The loop as a system: a step is a round, labelled with what the operating system answers. -/
def system (o : Options) (srvFd : Nat) : System LoopState Wakeup where
  init s := s = start o srvFd
  step s w t := ∃ S, s = .running S ∧ t = afterRound S w

/-- The round does not clash. -/
def NoClash (s : LoopState) (w : Wakeup) : Prop := ∀ S, s = .running S → ¬ Clash S w

/-- What holds in every state of a run without clashes. -/
def LoopState.Ok (o : Options) : LoopState → Prop
  | .running S => S.Valid o.maxClients
  | .returned => True
  | .aborted _ => False

theorem start_ok (o : Options) (srvFd : Nat) : (start o srvFd).Ok o := by
  rw [start, serverNew_eq (Int.natCast_nonneg srvFd) o.maxClients_le]
  exact {
    srvFd := Int.natCast_nonneg srvFd
    maxClients := rfl
    pfds := ⟨_, rfl⟩
    alive := fun c hc => by cases hc
    nclients_le := Nat.zero_le _ }

theorem afterRound_ok {o : Options} {S : Server} (hS : S.Valid o.maxClients) {w : Wakeup}
    (hw : ¬ Clash S w) : (afterRound S w).Ok o := by
  obtain ⟨⟨S', reports⟩, hr, hvalid⟩ := iterate_ok hS hw
  rw [afterRound, hr]
  cases S' with
  | none => trivial
  | some S' => exact hvalid S' rfl

theorem ok_of_reachable {o : Options} {srvFd : Nat} {s : LoopState}
    (hs : ((system o srvFd).guard NoClash).Reachable s) : s.Ok o := by
  refine hs.invariant (fun s hi => ?_) fun s w t ih hst => ?_
  · cases hi
    exact start_ok o srvFd
  · obtain ⟨hclash, S, rfl, rfl⟩ := hst
    exact afterRound_ok ih (hclash S rfl)

/-- In a run without clashes no assertion fails, and there are at most `max_concur_conns`
clients. -/
theorem run_no_assertion {o : Options} {srvFd : Nat} {s : LoopState}
    (hs : ((system o srvFd).guard NoClash).Reachable s) :
    (∀ e, s ≠ .aborted e) ∧ ∀ S, s = .running S → S.nclients ≤ o.maxClients := by
  have hok := ok_of_reachable hs
  refine ⟨?_, ?_⟩
  · rintro e rfl
    exact hok
  · rintro S rfl
    exact Server.Valid.nclients_le hok

/-- The first clash of a run fails an assertion. -/
theorem clash_aborts {o : Options} {srvFd : Nat} {S : Server}
    (hs : ((system o srvFd).guard NoClash).Reachable (.running S)) {w : Wakeup}
    (hw : Clash S w) : afterRound S w = .aborted ⟨"!is_dropped(c)"⟩ := by
  rw [afterRound, iterate_error (ok_of_reachable hs) hw]

/-! A client connects; in the next round it hangs up while another one connects. -/

/-- The default options. -/
def defaultOptions : Options where
  greet := false
  maxClients := 5
  maxClients_pos := by decide
  maxClients_le := by decide

def connects : Wakeup where
  poll := .events fun i => i == 0
  read _ := .again
  accept := .client 4

def hangsUpAndConnects : Wakeup where
  poll := .events fun _ => true
  read _ := .eof
  accept := .client 5

/-- The server with one client. -/
def oneClient : Server where
  srvFd := 3
  maxClients := 5
  pfds := [⟨3, true⟩, ⟨4, false⟩]
  clients := [⟨4, []⟩]

theorem oneClient_reachable :
    ((system defaultOptions 3).guard NoClash).Reachable (.running oneClient) := by
  have hstart : ((system defaultOptions 3).guard NoClash).Reachable (start defaultOptions 3) :=
    .init rfl
  refine .step hstart (a := connects) ⟨?_, _, rfl, rfl⟩
  rintro S hS ⟨_, _, _, i, hi, _⟩
  cases hS
  exact absurd hi (Nat.not_lt_zero i)

theorem run_no_assertion_oneClient :
    (∀ e, LoopState.running oneClient ≠ .aborted e) ∧
      ∀ S, LoopState.running oneClient = .running S → S.nclients ≤ 5 :=
  run_no_assertion oneClient_reachable

/-- A round in which the only client hangs up and another one connects fails an assertion. -/
theorem run_assertion_fails :
    (system defaultOptions 3).Reachable (.aborted ⟨"!is_dropped(c)"⟩) ∧
      ¬ ∀ o srvFd s, (system o srvFd).Reachable s → ∀ e, s ≠ .aborted e := by
  have habort : (system defaultOptions 3).Reachable (.aborted ⟨"!is_dropped(c)"⟩) :=
    .step oneClient_reachable.of_guard (a := hangsUpAndConnects) ⟨oneClient, rfl, rfl⟩
  exact ⟨habort, fun h => h _ _ _ habort _ rfl⟩

end Luastatus.Unixsock
