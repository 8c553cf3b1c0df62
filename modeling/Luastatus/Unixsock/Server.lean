import Luastatus.Lib.Bytes
import Luastatus.LibLs.Panic

/-!
# The server of the unixsock plugin

The server keeps an array of clients and an array of poll entries.  Entry 0 is the listening
socket and entry `i + 1` is client `i`.  Dropping a client closes it and marks it with the
descriptor `-1`; `server_compact` removes the marked clients and rebuilds the poll entries.
Accepting a client rebuilds them as well, with an assertion that no client is marked.

What the operating system answers is a parameter of each function.
-/

namespace Luastatus.Unixsock

open Text (Bytes ch)
open LibLs

/-- `NCHUNK`. -/
def nchunk : Nat := 1024

/-- `SERVER_MAX_CLIENTS_LIMIT`. -/
def serverMaxClientsLimit : Nat := 1024 * 1024 * 1024

/-- `Client`. -/
structure Client where
  fd : Int
  buf : Bytes
deriving DecidableEq, Repr

/-- `struct pollfd`, with `revents != 0` for the returned events. -/
structure PollFd where
  fd : Int
  revents : Bool
deriving DecidableEq, Repr

/-- `Server`. -/
structure Server where
  srvFd : Int
  maxClients : Nat
  pfds : List PollFd
  clients : List Client
deriving DecidableEq, Repr

/-- `S->nclients`. -/
def Server.nclients (S : Server) : Nat := S.clients.length

/-! ## What the operating system answers -/

/-- Bytes that a `read` of at most `NCHUNK` bytes delivers. -/
structure Chunk where
  bytes : Bytes
  pos : 0 < bytes.length
  le : bytes.length ≤ nchunk
deriving DecidableEq, Repr

/-- The result of `read`. -/
inductive ReadResult where
  | data (c : Chunk)
  | eof
  | again
  | error
deriving DecidableEq, Repr

/-- The result of `cloexec_accept`; `again` is `EAGAIN` or `ECONNABORTED`. -/
inductive AcceptResult where
  | client (fd : Nat)
  | again
  | error
deriving DecidableEq, Repr

/-- What `poll` finds: an error, or for each entry whether something happened on it. -/
inductive PollResult where
  | error
  | events (happened : Nat → Bool)

/-! ## Functions -/

/-- `server_new`. -/
def serverNew (fd : Int) (maxClients : Nat) : Except AssertFailure Server := do
  lsAssert (0 ≤ fd) "fd >= 0"
  lsAssert (maxClients ≤ serverMaxClientsLimit) "max_clients <= SERVER_MAX_CLIENTS_LIMIT"
  return { srvFd := fd, maxClients := maxClients, pfds := [⟨-1, false⟩], clients := [] }

/-- `is_full`. -/
def isFull (S : Server) : Except AssertFailure Bool := do
  lsAssert (S.nclients ≤ S.maxClients) "S->nclients <= S->max_clients"
  return S.nclients == S.maxClients

/-- `poll` on the entries: an entry with a negative descriptor is ignored. -/
def pollEntries (happened : Nat → Bool) (pfds : List PollFd) : List PollFd :=
  pfds.mapIdx fun i p => { p with revents := decide (0 ≤ p.fd) && happened i }

/-- `server_poll`: the server after it, `rc` and `*out_can_accept`. -/
def serverPoll (S : Server) (result : PollResult) :
    Except AssertFailure (Server × Int × Bool) := do
  let full ← isFull S
  let pfds := S.pfds.set 0 ⟨if full then -1 else S.srvFd, false⟩
  match result with
  | .error => return ({ S with pfds := pfds }, -1, false)
  | .events happened =>
      let pfds := pollEntries happened pfds
      let canAccept := (pfds.getD 0 ⟨-1, false⟩).revents
      return ({ S with pfds := pfds }, if pfds.any PollFd.revents then 1 else 0, canAccept)

/-- `is_dropped`. -/
def Client.isDropped (c : Client) : Prop := c.fd < 0

instance : DecidablePred Client.isDropped := fun c => inferInstanceAs (Decidable (c.fd < 0))

/-- `drop_client`. -/
def dropClient (c : Client) : Except AssertFailure Client := do
  lsAssert (¬ c.isDropped) "!is_dropped(c)"
  return { fd := -1, buf := [] }

/-- `find_newline`. -/
def findNewline (c : Client) (numLastRead : Nat) : Except AssertFailure Bool := do
  lsAssert (numLastRead ≠ 0) "num_last_read != 0"
  lsAssert (numLastRead ≤ c.buf.length) "num_last_read <= c->buf.size"
  return decide (ch '\n' ∈ c.buf.drop (c.buf.length - numLastRead))

/-- `&S->clients[idx]`, after `LS_ASSERT(idx < S->nclients)`. -/
def getClient (S : Server) (idx : Nat) : Except AssertFailure Client :=
  match S.clients[idx]? with
  | some c => .ok c
  | none => .error ⟨"idx < S->nclients"⟩

/-- `S->clients[idx] = c`. -/
def Server.setClient (S : Server) (idx : Nat) (c : Client) : Server :=
  { S with clients := S.clients.set idx c }

/-- `server_read_from_client`: the server after it and the returned number. -/
def serverReadFromClient (S : Server) (idx : Nat) (result : ReadResult) :
    Except AssertFailure (Server × Int) := do
  let c ← getClient S idx
  lsAssert (¬ c.isDropped) "!is_dropped(c)"
  if (S.pfds.getD (idx + 1) ⟨-1, false⟩).revents = false then return (S, 0)
  match result with
  | .again => return (S, 0)
  | .error => return (S, -1)
  | .eof => return (S, -1)
  | .data r =>
      let c := { c with buf := c.buf ++ r.bytes }
      if ← findNewline c r.bytes.length then return (S.setClient idx c, 1)
      return (S.setClient idx c, 0)

/-- `server_get_full_line`. -/
def serverGetFullLine (S : Server) (idx : Nat) : Except AssertFailure Bytes := do
  let c ← getClient S idx
  lsAssert (c.buf.length ≠ 0) "ndata != 0"
  lsAssert (ch '\n' ∈ c.buf) "newline != NULL"
  return c.buf.takeWhile (· ≠ ch '\n')

/-- `server_drop_client`. -/
def serverDropClient (S : Server) (idx : Nat) : Except AssertFailure Server := do
  let c ← dropClient (← getClient S idx)
  return S.setClient idx c

/-- The entries that the loop of `update_pfds` writes. -/
def clientPfds : List Client → Except AssertFailure (List PollFd)
  | [] => .ok []
  | c :: cs => do
      lsAssert (¬ c.isDropped) "!is_dropped(c)"
      let ps ← clientPfds cs
      return ⟨c.fd, false⟩ :: ps

/-- `update_pfds`, for an array of poll entries that has the right size. -/
def updatePfds (S : Server) : Except AssertFailure Server := do
  let ps ← clientPfds S.clients
  return { S with pfds := S.pfds.take 1 ++ ps }

/-- `add_client`. -/
def addClient (S : Server) (fd : Int) : Except AssertFailure Server :=
  updatePfds { S with clients := S.clients ++ [⟨fd, []⟩] }

/-- `server_accept_new_client`: the server after it and the returned number. -/
def serverAcceptNewClient (S : Server) (result : AcceptResult) :
    Except AssertFailure (Server × Int) := do
  lsAssert ((S.pfds.getD 0 ⟨-1, false⟩).revents = true) "S->pfds[0].revents != 0"
  match result with
  | .again => return (S, 0)
  | .error => return (S, -1)
  | .client fd =>
      let S ← addClient S fd
      return (S, 1)

/-- `server_compact`. -/
def serverCompact (S : Server) : Except AssertFailure Server :=
  updatePfds { S with clients := S.clients.filter fun c => ¬ c.isDropped }

/-- The loop of `server_destroy`. -/
def destroyClients : List Client → Except AssertFailure Unit
  | [] => .ok ()
  | c :: cs => do
      if ¬ c.isDropped then
        let _ ← dropClient c
      destroyClients cs

/-- `server_destroy`. -/
def serverDestroy (S : Server) : Except AssertFailure Unit := destroyClients S.clients

/-! ## What the functions do -/

theorem serverNew_eq {fd : Int} {maxClients : Nat} (hfd : 0 ≤ fd)
    (hmax : maxClients ≤ serverMaxClientsLimit) :
    serverNew fd maxClients =
      .ok { srvFd := fd, maxClients := maxClients, pfds := [⟨-1, false⟩], clients := [] } := by
  rw [serverNew, lsAssert_bind_of_pos hfd, lsAssert_bind_of_pos hmax]
  rfl

theorem clientPfds_eq {cs : List Client} (h : ∀ c ∈ cs, ¬ c.isDropped) :
    clientPfds cs = .ok (cs.map fun c => ⟨c.fd, false⟩) := by
  induction cs with
  | nil => rfl
  | cons c cs ih =>
      rw [clientPfds, lsAssert_bind_of_pos (h c List.mem_cons_self),
        ih fun d hd => h d (List.mem_cons_of_mem c hd)]
      rfl

/-- The loop of `update_pfds` fails at the first dropped client. -/
theorem clientPfds_error {cs : List Client} (h : ∃ c ∈ cs, c.isDropped) :
    clientPfds cs = .error ⟨"!is_dropped(c)"⟩ := by
  induction cs with
  | nil =>
      obtain ⟨c, hc, _⟩ := h
      cases hc
  | cons c cs ih =>
      rw [clientPfds]
      by_cases hc : c.isDropped
      · exact lsAssert_bind_of_neg (fun hn => hn hc) _ _
      · have hcs : ∃ d ∈ cs, d.isDropped := by
          obtain ⟨d, hd, hdrop⟩ := h
          cases List.mem_cons.mp hd with
          | inl he => exact absurd (he ▸ hdrop) hc
          | inr hd => exact ⟨d, hd, hdrop⟩
        rw [lsAssert_bind_of_pos hc, ih hcs]
        rfl

theorem updatePfds_eq {S : Server} (h : ∀ c ∈ S.clients, ¬ c.isDropped) :
    updatePfds S =
      .ok { S with pfds := S.pfds.take 1 ++ S.clients.map fun c => ⟨c.fd, false⟩ } := by
  rw [updatePfds, clientPfds_eq h]
  rfl

theorem updatePfds_error {S : Server} (h : ∃ c ∈ S.clients, c.isDropped) :
    updatePfds S = .error ⟨"!is_dropped(c)"⟩ := by
  rw [updatePfds, clientPfds_error h]
  rfl

theorem serverCompact_eq (S : Server) :
    serverCompact S =
      .ok { S with
        clients := S.clients.filter fun c => ¬ c.isDropped
        pfds := S.pfds.take 1 ++
          (S.clients.filter fun c => ¬ c.isDropped).map fun c => ⟨c.fd, false⟩ } := by
  refine updatePfds_eq fun c hc => ?_
  simpa using (List.mem_filter.mp hc).2

/-- `server_destroy` skips the dropped clients. -/
theorem serverDestroy_eq (S : Server) : serverDestroy S = .ok () := by
  rw [serverDestroy]
  induction S.clients with
  | nil => rfl
  | cons c cs ih =>
      rw [destroyClients]
      by_cases hc : c.isDropped
      · rw [if_neg fun hn => hn hc]
        exact ih
      · rw [if_pos hc, dropClient, lsAssert_bind_of_pos hc]
        exact ih

end Luastatus.Unixsock
