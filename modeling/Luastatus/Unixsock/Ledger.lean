import Luastatus.Unixsock.Calls

/-!
# Who owns a descriptor, and what came through it

A ledger of the calls of a run: for each descriptor that is open what has been read from it and
which of its lines have been reported, the same for those that have been closed, and the calls of
`close` that hit nothing open.  The kernel gives a number to a new descriptor only if nothing open
has it (`Fresh`).

Between two rounds the open descriptors are the listening one and those of the clients, in the order
of the array, and what has been read from a client is its buffer (`Server.Ledgered`).  One round
keeps this, whatever clients it drops and however the array is compacted.

Of every descriptor at most one line is reported, the one that ends at its first line break
(`lines_delivered`).  A run that returns closes every descriptor exactly once if and only if
`mk_server` failed (`closedOnce_iff`): behind the `error` label the listening descriptor is closed
twice.
-/

namespace Luastatus.Unixsock

open Text (Bytes ch lit)
open LibLs
open Transition

/-! ## The ledger -/

/-- A descriptor that the plugin obtained: what has been read from it, and the lines that have been
reported. -/
structure Desc where
  fd : Int
  received : Bytes
  lines : List Bytes
deriving DecidableEq, Repr

/-- The ledger of a log. -/
structure Ledger where
  opened : List Desc
  closed : List Desc
  /-- The numbers given to `close` while nothing open had them. -/
  stray : List Int
  /-- The numbers that were read from, or of which a line was reported, while nothing open had
  them. -/
  unowned : List Int
deriving DecidableEq, Repr

namespace Ledger

/-- A descriptor is obtained. -/
def obtain_ (L : Ledger) (fd : Int) : Ledger := { L with opened := L.opened ++ [⟨fd, [], []⟩] }

/-- Something happens on the open descriptor with the given number. -/
def update (L : Ledger) (fd : Int) (f : Desc → Desc) : Ledger :=
  if fd ∈ L.opened.map Desc.fd then
    { L with opened := L.opened.map fun d => if d.fd = fd then f d else d }
  else { L with unowned := L.unowned ++ [fd] }

/-- A descriptor is closed. -/
def close (L : Ledger) (fd : Int) : Ledger :=
  if fd ∈ L.opened.map Desc.fd then
    { L with
      opened := L.opened.filter fun d => d.fd ≠ fd
      closed := L.closed ++ L.opened.filter fun d => d.fd = fd }
  else { L with stray := L.stray ++ [fd] }

/-- The ledger after a call. -/
def after (L : Ledger) : Call → Ledger
  | .socket fd => L.obtain_ fd
  | .accept fd => L.obtain_ fd
  | .read fd (.data c) => L.update fd fun d => { d with received := d.received ++ c.bytes }
  | .read fd _ => L.update fd id
  | .reportLine fd line => L.update fd fun d => { d with lines := d.lines ++ [line] }
  | .close fd => L.close fd
  | .unlink _ => L
  | .reportStatus _ => L

end Ledger

/-- The ledger of a log. -/
def ledger (log : List Call) : Ledger := log.foldl Ledger.after ⟨[], [], [], []⟩

/-- The number of an accepted descriptor is not that of an open one. -/
def Fresh (log : List Call) : Prop :=
  ∀ pre (fd : Nat) post, log = pre ++ .accept fd :: post → ∀ d ∈ (ledger pre).opened, d.fd ≠ fd

/-- The lines reported of a descriptor are right: if a line break has been read, the one line that
ends at the first line break of all that the other side sent, and otherwise none. -/
def Desc.Delivered (d : Desc) : Prop :=
  ∀ sent, d.received <+: sent →
    d.lines = if ch '\n' ∈ d.received then [sent.takeWhile (· ≠ ch '\n')] else []

/-- Every descriptor has been closed, and none of them twice. -/
def ClosedOnce (log : List Call) : Prop :=
  (ledger log).opened = [] ∧ (ledger log).stray = []

/-- `run` as a system: a step is a round, labelled with what the operating system answers, and the
state has the log of the calls. -/
def runSystem (o : Options) (p : Setup) (a : SetupAnswers) :
    System (LoopState × List Call) Wakeup where
  init st := st = startLog o p a
  step st w st' :=
    ∃ S, st.1 = .running S ∧ st' = afterRoundLog (mkServer p a).1 S w st.2 ∧ Fresh st'.2

theorem ledger_append (l l' : List Call) :
    ledger (l ++ l') = l'.foldl Ledger.after (ledger l) := List.foldl_append

/-! ## One descriptor of the ledger -/

variable {L : Ledger} {left right opened : List Desc} {stray : List Int} {d : Desc} {fd : Int}

theorem filter_ne_append {left right : List Desc} {d : Desc} (hl : ∀ e ∈ left, e.fd ≠ d.fd)
    (hr : ∀ e ∈ right, e.fd ≠ d.fd) :
    (left ++ d :: right).filter (fun e => e.fd ≠ d.fd) = left ++ right := by
  rw [List.filter_append, List.filter_cons_of_neg (by simp),
    List.filter_eq_self.mpr (by simpa using hl), List.filter_eq_self.mpr (by simpa using hr)]

theorem filter_eq_append {left right : List Desc} {d : Desc} (hl : ∀ e ∈ left, e.fd ≠ d.fd)
    (hr : ∀ e ∈ right, e.fd ≠ d.fd) :
    (left ++ d :: right).filter (fun e => e.fd = d.fd) = [d] := by
  rw [List.filter_append, List.filter_cons_of_pos (by simp),
    List.filter_eq_nil_iff.mpr (by simpa using hl), List.filter_eq_nil_iff.mpr (by simpa using hr),
    List.nil_append]

/-- No two of the descriptors have one number. -/
def Distinct (ds : List Desc) : Prop := (ds.map Desc.fd).Nodup

theorem Distinct.ne_left (h : Distinct (left ++ d :: right)) : ∀ e ∈ left, e.fd ≠ d.fd := by
  intro e he heq
  rw [Distinct, List.map_append, List.map_cons, List.nodup_append] at h
  exact h.2.2 e.fd (List.mem_map_of_mem he) d.fd List.mem_cons_self heq

theorem Distinct.ne_right (h : Distinct (left ++ d :: right)) : ∀ e ∈ right, e.fd ≠ d.fd := by
  intro e he heq
  rw [Distinct, List.map_append, List.map_cons, List.nodup_append, List.nodup_cons] at h
  exact h.2.1.1 (heq ▸ List.mem_map_of_mem he)

theorem Ledger.update_eq (h : L.opened = left ++ d :: right) (hd : Distinct (left ++ d :: right))
    (f : Desc → Desc) : L.update d.fd f = { L with opened := left ++ f d :: right } := by
  have hmap : ∀ ds : List Desc, (∀ e ∈ ds, e.fd ≠ d.fd) →
      ds.map (fun e => if e.fd = d.fd then f e else e) = ds := by
    intro ds hds
    exact (List.map_congr_left fun e he => if_neg (hds e he)).trans (List.map_id' ds)
  have hmem : d.fd ∈ (left ++ d :: right).map Desc.fd :=
    List.mem_map_of_mem (List.mem_append_right _ List.mem_cons_self)
  rw [Ledger.update, h, if_pos hmem, List.map_append, List.map_cons, if_pos rfl,
    hmap left hd.ne_left, hmap right hd.ne_right]

theorem Ledger.close_eq (h : L.opened = left ++ d :: right) (hd : Distinct (left ++ d :: right)) :
    L.close d.fd = { L with opened := left ++ right, closed := L.closed ++ [d] } := by
  have hmem : d.fd ∈ (left ++ d :: right).map Desc.fd :=
    List.mem_map_of_mem (List.mem_append_right _ List.mem_cons_self)
  rw [Ledger.close, h, if_pos hmem, filter_ne_append hd.ne_left hd.ne_right,
    filter_eq_append hd.ne_left hd.ne_right]

/-- The open descriptors and the stray numbers are the given ones, nothing was read from another
descriptor, and the lines of what has been closed are right. -/
structure Ledger.Sound (L : Ledger) (opened : List Desc) (stray : List Int) : Prop where
  opened_eq : L.opened = opened
  distinct : Distinct opened
  stray_eq : L.stray = stray
  unowned : L.unowned = []
  closed : ∀ d ∈ L.closed, d.Delivered

theorem Ledger.Sound.close (h : L.Sound (left ++ d :: right) stray) (hd : d.Delivered) :
    (L.close d.fd).Sound (left ++ right) stray := by
  rw [Ledger.close_eq h.opened_eq h.distinct]
  refine ⟨rfl, ?_, h.stray_eq, h.unowned, fun e he => ?_⟩
  · refine h.distinct.sublist (List.Sublist.map _ ?_)
    exact List.Sublist.append_left (List.sublist_cons_self d right) left
  · rcases List.mem_append.mp he with he | he
    · exact h.closed e he
    · rw [List.mem_singleton.mp he]
      exact hd

theorem Ledger.Sound.update (h : L.Sound (left ++ d :: right) stray) (f : Desc → Desc)
    (hf : (f d).fd = d.fd) : (L.update d.fd f).Sound (left ++ f d :: right) stray := by
  rw [Ledger.update_eq h.opened_eq h.distinct]
  refine ⟨rfl, ?_, h.stray_eq, h.unowned, h.closed⟩
  have := h.distinct
  rw [Distinct, List.map_append, List.map_cons] at this ⊢
  rw [hf]
  exact this

theorem Ledger.Sound.obtain (h : L.Sound opened stray) (hfresh : ∀ d ∈ L.opened, d.fd ≠ fd) :
    (L.obtain_ fd).Sound (opened ++ [⟨fd, [], []⟩]) stray := by
  refine ⟨by rw [Ledger.obtain_, h.opened_eq], ?_, h.stray_eq, h.unowned, h.closed⟩
  rw [Distinct, List.map_append, List.nodup_append]
  refine ⟨h.distinct, List.nodup_singleton _, ?_⟩
  intro a ha b hb
  obtain ⟨d, hd, rfl⟩ := List.mem_map.mp ha
  rw [List.mem_singleton.mp hb]
  exact hfresh d (h.opened_eq ▸ hd)

/-! ## The reads of a round -/

/-- The calls that a read of a client leads to. -/
def Client.callsOf (c : Client) : ReadResult → List Call
  | .data d =>
      .read c.fd (.data d) ::
        if ch '\n' ∈ d.bytes then
          [.reportLine c.fd ((c.buf ++ d.bytes).takeWhile (· ≠ ch '\n')), .close c.fd]
        else []
  | .again => [.read c.fd .again]
  | .eof => [.read c.fd .eof, .close c.fd]
  | .error => [.read c.fd .error, .close c.fd]

/-- The calls that the reads of the clients from index `i` on lead to. -/
def callsFrom (ready : Nat → Bool) (read : Nat → ReadResult) : Nat → List Client → List Call
  | _, [] => []
  | i, c :: cs => (if ready i then c.callsOf (read i) else []) ++ callsFrom ready read (i + 1) cs

theorem clientFd_append {S : Server} {pre post : List Client} {c : Client}
    (h : S.clients = pre ++ c :: post) : S.clientFd pre.length = c.fd := by
  rw [Server.clientFd, h]
  simp

theorem serverDropClientLog_append {S : Server} {pre post : List Client} {c : Client}
    (h : S.clients = pre ++ c :: post) (hc : ¬ c.isDropped) :
    serverDropClientLog S pre.length =
      .ok ({ S with clients := pre ++ ⟨-1, []⟩ :: post }, [.close c.fd]) := by
  rw [serverDropClientLog, serverDropClient_append h hc, ok_bind, clientFd_append h]
  rfl

/-- One round of the loop over the poll entries, on a client that is not dropped. -/
theorem readClientLog_append {S : Server} {pre post : List Client} {c : Client}
    (h : S.clients = pre ++ c :: post) (hc : ¬ c.isDropped) (read : Nat → ReadResult) :
    readClientLog read S pre.length =
      .ok ({ S with clients :=
              pre ++ (if S.ready pre.length then c.afterRead (read pre.length) else c) :: post },
        if S.ready pre.length then c.callsOf (read pre.length) else []) := by
  have hself : { S with clients := pre ++ c :: post } = S := by rw [← h]
  have hrev : (S.pfds.getD (pre.length + 1) ⟨-1, false⟩).revents = S.ready pre.length := rfl
  rw [readClientLog, hrev]
  cases hready : S.ready pre.length with
  | false =>
      rw [if_pos rfl, if_neg Bool.noConfusion, if_neg Bool.noConfusion, hself]
      rfl
  | true =>
      rw [if_neg Bool.noConfusion, if_pos rfl, if_pos rfl, clientFd_append h,
        serverReadFromClient_append h hc hready]
      cases hr : read pre.length with
      | again =>
          simp [ok_bind, Client.afterRead, Client.callsOf, ReadResult.Ends, hself, pure,
            Except.pure]
      | error =>
          simp [ok_bind, Client.afterRead, Client.callsOf, ReadResult.Ends,
            serverDropClientLog_append h hc, pure, Except.pure]
      | eof =>
          simp [ok_bind, Client.afterRead, Client.callsOf, ReadResult.Ends,
            serverDropClientLog_append h hc, pure, Except.pure]
      | data d =>
          by_cases hn : ch '\n' ∈ d.bytes
          · have hS : Server.clients { S with clients := pre ++ ⟨c.fd, c.buf ++ d.bytes⟩ :: post } =
                pre ++ ⟨c.fd, c.buf ++ d.bytes⟩ :: post := rfl
            have hline := serverGetFullLine_append hS (List.mem_append_right _ hn)
            simp [hn, ok_bind, hline, serverDropClientLog_append hS (c.not_isDropped_buf hc _),
              clientFd_append hS, Client.afterRead, Client.callsOf, ReadResult.Ends, pure,
              Except.pure]
          · simp [hn, ok_bind, Client.afterRead, Client.callsOf, ReadResult.Ends, pure,
              Except.pure]

/-- The loop over the poll entries. -/
theorem readClientsLog_append (read : Nat → ReadResult) {S : Server} {pre post : List Client}
    (h : S.clients = pre ++ post) (hpost : ∀ c ∈ post, ¬ c.isDropped) :
    readClientsLog read post.length pre.length S =
      .ok ({ S with clients := pre ++ afterReads S.ready read pre.length post },
        callsFrom S.ready read pre.length post) := by
  induction post generalizing S pre with
  | nil =>
      have hself : { S with clients := pre ++ [] } = S := by rw [← h]
      rw [List.length_nil, readClientsLog, afterReads, callsFrom, hself]
  | cons c post ih =>
      have hc := readClientLog_append h (hpost c List.mem_cons_self) read
      have hrest := ih (S := { S with clients :=
          (pre ++ [if S.ready pre.length then c.afterRead (read pre.length) else c]) ++ post })
        rfl fun d hd => hpost d (List.mem_cons_of_mem c hd)
      rw [List.length_append, List.length_singleton] at hrest
      rw [List.length_cons, readClientsLog, hc, ok_bind]
      simp only [List.append_cons pre _ post, hrest, ok_bind, afterReads, callsFrom]
      rw [List.append_assoc]
      rfl

/-- The descriptor of a client whose line has not ended yet. -/
def Client.desc (c : Client) : Desc := ⟨c.fd, c.buf, []⟩

/-- The descriptors of the clients that are not dropped. -/
def descs (cs : List Client) : List Desc := (cs.filter fun c => ¬ c.isDropped).map Client.desc

/-- No client has a whole line in its buffer. -/
def Partial (cs : List Client) : Prop := ∀ c ∈ cs, ch '\n' ∉ c.buf

theorem descs_cons_of_alive {c : Client} (hc : ¬ c.isDropped) (cs : List Client) :
    descs (c :: cs) = c.desc :: descs cs := by
  rw [descs, List.filter_cons_of_pos (by simpa using hc)]
  rfl

theorem descs_cons_of_dropped {c : Client} (hc : c.isDropped) (cs : List Client) :
    descs (c :: cs) = descs cs := by
  rw [descs, List.filter_cons_of_neg (by simpa using hc)]
  rfl

theorem descs_append (cs cs' : List Client) : descs (cs ++ cs') = descs cs ++ descs cs' := by
  simp [descs]

theorem descs_of_alive {cs : List Client} (h : ∀ c ∈ cs, ¬ c.isDropped) :
    descs cs = cs.map Client.desc := by
  rw [descs, List.filter_eq_self.mpr (by simpa using h)]

theorem Client.partial_afterRead {c : Client} (hc : ch '\n' ∉ c.buf) (r : ReadResult) :
    ch '\n' ∉ (c.afterRead r).buf := by
  by_cases hr : r.Ends
  · simp [afterRead, hr]
  · cases r with
    | data d =>
        have hd : ch '\n' ∉ d.bytes := hr
        simp [afterRead, hr, hc, hd]
    | eof => exact absurd trivial hr
    | again => simpa [afterRead, hr] using hc
    | error => exact absurd trivial hr

theorem Partial.afterReads {cs : List Client} (h : Partial cs) (ready : Nat → Bool)
    (read : Nat → ReadResult) (i : Nat) : Partial (afterReads ready read i cs) := by
  induction cs generalizing i with
  | nil => exact h
  | cons c cs ih =>
      intro d hd
      rw [Unixsock.afterReads, List.mem_cons] at hd
      rcases hd with rfl | hd
      · split
        · exact Client.partial_afterRead (h c List.mem_cons_self) _
        · exact h c List.mem_cons_self
      · exact ih (fun e he => h e (List.mem_cons_of_mem c he)) (i + 1) d hd

/-- Nothing is to be reported of a descriptor without a line break. -/
theorem Desc.delivered_of_not_mem {fd : Int} {b : Bytes} (h : ch '\n' ∉ b) :
    Desc.Delivered ⟨fd, b, []⟩ := fun _ _ => (if_neg h).symm

/-- The line up to the first line break of what has been read is the one up to the first line break
of what was sent. -/
theorem Desc.delivered_of_mem {fd : Int} {b : Bytes} (h : ch '\n' ∈ b) :
    Desc.Delivered ⟨fd, b, [b.takeWhile (· ≠ ch '\n')]⟩ := by
  rintro sent ⟨rest, rfl⟩
  obtain ⟨l, r, hb, hl⟩ := List.eq_append_cons_of_mem h
  have htake : ∀ r', (l ++ ch '\n' :: r').takeWhile (· ≠ ch '\n') = l := by
    intro r'
    have hall : ∀ c ∈ l, decide (c ≠ ch '\n') = true := fun c hc =>
      decide_eq_true fun he => hl (he ▸ hc)
    rw [List.takeWhile_append_of_pos hall]
    simp
  rw [if_pos h]
  simp only
  rw [hb, List.append_assoc, List.cons_append, htake, htake]

/-- A read of one client changes its descriptor only. -/
theorem Ledger.Sound.read {c : Client} (h : L.Sound (left ++ c.desc :: right) stray)
    (hc : ¬ c.isDropped) (hn : ch '\n' ∉ c.buf) (r : ReadResult) :
    ((c.callsOf r).foldl Ledger.after L).Sound
      (left ++ descs [c.afterRead r] ++ right) stray := by
  have hdropped : descs [⟨-1, []⟩] = [] := descs_cons_of_dropped (by decide) []
  have halive : ∀ b, left ++ descs [⟨c.fd, b⟩] ++ right = left ++ ⟨c.fd, b, []⟩ :: right := by
    intro b
    rw [descs_cons_of_alive (c.not_isDropped_buf hc b), List.append_assoc]
    rfl
  have hself : (L.update c.fd id).Sound (left ++ c.desc :: right) stray := h.update id rfl
  have hclose := hself.close (Desc.delivered_of_not_mem hn)
  cases r with
  | again =>
      have : c.afterRead .again = c := by simp [Client.afterRead, ReadResult.Ends]
      rw [this, halive]
      exact hself
  | eof =>
      have : c.afterRead .eof = ⟨-1, []⟩ := by simp [Client.afterRead, ReadResult.Ends]
      rw [this, hdropped, List.append_nil]
      exact hclose
  | error =>
      have : c.afterRead .error = ⟨-1, []⟩ := by simp [Client.afterRead, ReadResult.Ends]
      rw [this, hdropped, List.append_nil]
      exact hclose
  | data d =>
      have hread := h.update (fun e => { e with received := e.received ++ d.bytes }) rfl
      by_cases hd : ch '\n' ∈ d.bytes
      · have hends : c.afterRead (.data d) = ⟨-1, []⟩ := by
          simp [Client.afterRead, ReadResult.Ends, hd]
        let line := (c.buf ++ d.bytes).takeWhile (· ≠ ch '\n')
        have hline := hread.update (fun e => { e with lines := e.lines ++ [line] }) rfl
        have hdel : Desc.Delivered ⟨c.fd, c.buf ++ d.bytes, [line]⟩ :=
          Desc.delivered_of_mem (List.mem_append_right _ hd)
        rw [hends, hdropped, List.append_nil, Client.callsOf, if_pos hd]
        exact hline.close hdel
      · have hgoes : c.afterRead (.data d) = ⟨c.fd, c.buf ++ d.bytes⟩ := by
          simp [Client.afterRead, ReadResult.Ends, hd]
        rw [hgoes, halive, Client.callsOf, if_neg hd]
        exact hread

/-- The reads of a round. -/
theorem Ledger.Sound.reads {cs : List Client} (h : L.Sound (left ++ descs cs) stray)
    (halive : ∀ c ∈ cs, ¬ c.isDropped) (hn : Partial cs) (ready : Nat → Bool)
    (read : Nat → ReadResult) (i : Nat) :
    ((callsFrom ready read i cs).foldl Ledger.after L).Sound
      (left ++ descs (afterReads ready read i cs)) stray := by
  induction cs generalizing L left i with
  | nil => exact h
  | cons c cs ih =>
      have hc := halive c List.mem_cons_self
      have hcs : ∀ d ∈ cs, ¬ d.isDropped := fun d hd => halive d (List.mem_cons_of_mem c hd)
      have hncs : Partial cs := fun d hd => hn d (List.mem_cons_of_mem c hd)
      rw [descs_cons_of_alive hc] at h
      rw [callsFrom, afterReads, List.foldl_append, ← List.singleton_append, descs_append,
        ← List.append_assoc]
      refine ih ?_ hcs hncs (i + 1)
      split
      · exact h.read hc (hn c List.mem_cons_self) (read i)
      · rw [descs_cons_of_alive hc]
        simpa [descs] using h

/-! ## A round -/

variable {m srvFd : Nat} {S : Server} {log : List Call}

theorem updatePfds_clients {S S' : Server} (h : updatePfds S = .ok S') :
    S'.clients = S.clients ∧ S'.srvFd = S.srvFd := by
  rw [updatePfds] at h
  cases hp : clientPfds S.clients with
  | error e =>
      rw [hp] at h
      cases h
  | ok ps =>
      rw [hp] at h
      cases h
      exact ⟨rfl, rfl⟩

/-- What `server_compact` leaves. -/
theorem serverCompact_leaves {S S' : Server} (h : serverCompact S = .ok S') :
    descs S.clients = S'.clients.map Client.desc ∧ (Partial S.clients → Partial S'.clients) ∧
      S'.srvFd = S.srvFd := by
  obtain ⟨hclients, hfd⟩ := updatePfds_clients h
  refine ⟨?_, fun hn c hc => ?_, hfd⟩
  · rw [hclients]
    rfl
  · rw [hclients] at hc
    exact hn c (List.mem_filter.mp hc).1

/-- The server at the end of a round: the clients that are not dropped, and the new one if there is
one. -/
structure Server.Next (m : Nat) (S S' : Server) (new : Option Nat) : Prop where
  valid : S'.Valid m
  srvFd : S'.srvFd = S.srvFd
  partial_ : Partial S.clients → Partial S'.clients
  clients : S'.clients.map Client.desc = descs S.clients ++ new.toList.map fun fd => ⟨fd, [], []⟩

theorem Server.MidRound.next {canAccept : Bool} (hS : S.MidRound m canAccept) :
    ∃ S', serverCompact S = .ok S' ∧ S.Next m S' none := by
  obtain ⟨S', h', hvalid⟩ := hS.compact
  obtain ⟨hdescs, hpartial, hfd⟩ := serverCompact_leaves h'
  exact ⟨S', h', hvalid, hfd, hpartial, by simp [hdescs]⟩

theorem Server.MidRound.next_client (hS : S.MidRound m true)
    (halive : ∀ c ∈ S.clients, ¬ c.isDropped) (fd : Nat) :
    ∃ S₂ S', Unixsock.addClient S fd = .ok S₂ ∧ serverCompact S₂ = .ok S' ∧
      S.Next m S' (some fd) := by
  obtain ⟨S₂, S', h₂, hfd₂, h', hvalid⟩ := hS.addClient halive fd
  obtain ⟨hclients₂, -⟩ := updatePfds_clients h₂
  obtain ⟨hdescs, hpartial, hfd⟩ := serverCompact_leaves h'
  refine ⟨S₂, S', h₂, h', hvalid, hfd.trans hfd₂, fun hn => hpartial ?_, ?_⟩
  · intro c hc
    rw [hclients₂] at hc
    rcases List.mem_append.mp hc with hc | hc
    · exact hn c hc
    · rw [List.mem_singleton.mp hc]
      exact List.not_mem_nil
  · have hnew : descs [⟨fd, []⟩] = [⟨fd, [], []⟩] :=
      descs_cons_of_alive (Int.not_lt.mpr (Int.natCast_nonneg fd)) []
    rw [← hdescs, hclients₂, descs_append, hnew]
    rfl

/-- How a round may end after its reads: an assertion fails, `accept` fails, or the clients that are
not dropped go on, perhaps with a new one. -/
theorem acceptAndCompactLog_cases {canAccept : Bool} (hS : S.MidRound m canAccept) (srvFd : Int)
    (result : AcceptResult) :
    (∃ e, acceptAndCompactLog srvFd canAccept S result = .error e) ∨
    acceptAndCompactLog srvFd canAccept S result = .ok (none, errorCalls srvFd S) ∨
    ∃ S' new, acceptAndCompactLog srvFd canAccept S result =
        .ok (some S', (Option.toList new).map fun fd => .accept fd) ∧ S.Next m S' new := by
  have hsame : ∃ S' new, (do
      let S ← serverCompact S
      return (some S, []) : Except AssertFailure (Option Server × List Call)) =
        .ok (some S', (Option.toList new).map fun fd => Call.accept fd) ∧ S.Next m S' new := by
    obtain ⟨S', h', hnext⟩ := hS.next
    refine ⟨S', none, ?_, hnext⟩
    rw [h']
    rfl
  rw [acceptAndCompactLog, acceptIf]
  cases canAccept with
  | false => exact .inr (.inr hsame)
  | true =>
      rw [if_pos rfl, serverAcceptNewClient_eq hS]
      cases result with
      | again => exact .inr (.inr hsame)
      | error =>
          refine .inr (.inl ?_)
          rw [ok_bind]
          simp only
          rw [if_pos (by decide), serverDestroy_eq]
          rfl
      | client fd =>
          by_cases halive : ∀ c ∈ S.clients, ¬ c.isDropped
          · obtain ⟨S₂, S', h₂, h', hnext⟩ := hS.next_client halive fd
            refine .inr (.inr ⟨S', some fd, ?_, hnext⟩)
            simp only
            rw [h₂, ok_bind, ok_bind]
            simp only
            rw [if_neg (by decide), h']
            rfl
          · obtain ⟨c, hc, hdrop⟩ := not_forall₂.mp halive
            refine .inl ⟨⟨"!is_dropped(c)"⟩, ?_⟩
            simp only
            rw [addClient_error ⟨c, hc, not_not.mp hdrop⟩]
            rfl

/-- The state between two rounds and the ledger of what has been logged: the open descriptors are
the listening one and those of the clients. -/
structure Server.Ledgered (m srvFd : Nat) (S : Server) (log : List Call) : Prop where
  valid : S.Valid m
  srvFd_eq : S.srvFd = srvFd
  sound : (ledger log).Sound (⟨srvFd, [], []⟩ :: S.clients.map Client.desc) []
  partial_ : Partial S.clients

/-- What is left when a round ends the run: `calls` and what is behind the `error` label follow
`log`. -/
structure Server.Left (srvFd : Nat) (S : Server) (log : List Call) : Prop where
  srvFd_eq : S.srvFd = srvFd
  sound : (ledger log).Sound (⟨srvFd, [], []⟩ :: descs S.clients) []
  partial_ : Partial S.clients

/-- How a round may end. -/
theorem iterateLog_cases (hS : S.Ledgered m srvFd log) (w : Wakeup) :
    (∃ e, iterateLog srvFd S w = .error e) ∨
    (∃ S' calls, iterateLog srvFd S w = .ok (none, calls ++ errorCalls srvFd S') ∧
      S'.Left srvFd (log ++ calls)) ∨
    ∃ S' calls, iterateLog srvFd S w = .ok (some S', calls) ∧
      (Fresh (log ++ calls) → S'.Ledgered m srvFd (log ++ calls)) := by
  have hopen : descs S.clients = S.clients.map Client.desc := descs_of_alive hS.valid.alive
  cases hpoll : w.poll with
  | error =>
      obtain ⟨pfds, h₁⟩ := serverPoll_error hS.valid
      refine .inr (.inl ⟨{ S with pfds }, [], ?_, hS.srvFd_eq, ?_, hS.partial_⟩)
      · rw [iterateLog, hpoll, h₁, ok_bind]
        simp only
        rw [if_pos (by decide), serverDestroy_eq]
        rfl
      · rw [List.append_nil, hopen]
        exact hS.sound
  | events happened =>
      obtain ⟨rc, hrc, h₁⟩ := serverPoll_events hS.valid happened
      let timeout := if rc = 0 then [Call.reportStatus (lit "timeout")] else []
      let reads := callsFrom (S.polled happened).ready w.read 0 S.clients
      let S₁ := S.readAll happened w.read
      have hclients : (S.polled happened).clients = [] ++ S.clients := rfl
      have hreads := readClientsLog_append w.read hclients hS.valid.alive
      have hmid := hS.valid.readAll happened w.read
      have htimeout : ledger (log ++ timeout) = ledger log := by
        rw [ledger_append]
        by_cases h0 : rc = 0 <;> simp [timeout, h0, Ledger.after]
      have hsound : (ledger (log ++ (timeout ++ reads))).Sound
          (⟨srvFd, [], []⟩ :: descs S₁.clients) [] := by
        have := hS.sound
        rw [← hopen, ← htimeout, ← List.singleton_append] at this
        rw [← List.append_assoc, ledger_append]
        exact this.reads hS.valid.alive hS.partial_ _ _ 0
      have hpartial : Partial S₁.clients := hS.partial_.afterReads _ _ 0
      have hit : iterateLog srvFd S w =
          acceptAndCompactLog srvFd (S.canAccept happened) S₁ w.accept >>=
            fun r => .ok (r.1, timeout ++ reads ++ r.2) := by
        rw [iterateLog, hpoll, h₁, ok_bind]
        simp only
        rw [if_neg (Int.not_lt.mpr hrc)]
        change (readClientsLog w.read S.clients.length ([] : List Client).length _ >>= _) = _
        rw [hreads, ok_bind]
        rfl
      rcases acceptAndCompactLog_cases hmid srvFd w.accept with
        ⟨e, he⟩ | he | ⟨S₂, new, he, hnext⟩
      · exact .inl ⟨e, by rw [hit, he]; rfl⟩
      · refine .inr (.inl ⟨S₁, timeout ++ reads, ?_, hS.srvFd_eq, hsound, hpartial⟩)
        rw [hit, he]
        rfl
      · refine .inr (.inr ⟨S₂, _, by rw [hit, he]; rfl, fun hfresh => ?_⟩)
        refine ⟨hnext.valid, hnext.srvFd.trans hS.srvFd_eq, ?_, hnext.partial_ hpartial⟩
        rw [hnext.clients]
        cases new with
        | none =>
            simp only [Option.toList_none, List.map_nil, List.append_nil]
            exact hsound
        | some fd =>
            have hnew := hfresh (log ++ (timeout ++ reads)) fd [] (by simp)
            have := hsound.obtain hnew
            simp only [Option.toList_some, List.map_cons, List.map_nil]
            rw [← List.append_assoc, ledger_append]
            exact this

/-! ## The end of a run -/

/-- `server_destroy` closes every client that is not dropped. -/
theorem Ledger.Sound.destroy {cs : List Client} (h : L.Sound (descs cs) stray)
    (hn : Partial cs) : ((destroyCalls cs).foldl Ledger.after L).Sound [] stray := by
  induction cs generalizing L with
  | nil => exact h
  | cons c cs ih =>
      have hcs : Partial cs := fun d hd => hn d (List.mem_cons_of_mem c hd)
      rw [destroyCalls]
      split
      · rename_i hc
        rw [descs_cons_of_dropped hc] at h
        exact ih h hcs
      · rename_i hc
        rw [descs_cons_of_alive hc, ← List.nil_append (c.desc :: _)] at h
        have hdel : c.desc.Delivered := Desc.delivered_of_not_mem (hn c List.mem_cons_self)
        exact ih (h.close hdel) hcs

/-- Behind the `error` label everything is closed, the listening descriptor twice. -/
theorem Server.Left.errorCalls (h : S.Left srvFd log) :
    (ledger (log ++ errorCalls srvFd S)).Sound [] [(srvFd : Int)] := by
  have hdel : Desc.Delivered ⟨srvFd, [], []⟩ := Desc.delivered_of_not_mem List.not_mem_nil
  have hsound : (ledger log).Sound ([] ++ ⟨srvFd, [], []⟩ :: descs S.clients) [] := h.sound
  have hfirst := hsound.close hdel
  rw [List.nil_append] at hfirst
  have hgone : (srvFd : Int) ∉ ((ledger log).close srvFd).opened.map Desc.fd := by
    rw [hfirst.opened_eq]
    intro hm
    obtain ⟨d, hd, hfd⟩ := List.mem_map.mp hm
    exact hsound.distinct.ne_right d hd hfd
  have hsecond : (((ledger log).close srvFd).close srvFd).Sound (descs S.clients)
      [(srvFd : Int)] := by
    rw [Ledger.close, if_neg hgone]
    exact ⟨hfirst.opened_eq, hfirst.distinct, by rw [hfirst.stray_eq]; rfl, hfirst.unowned,
      hfirst.closed⟩
  have hneg : ¬ ((srvFd : Int) < 0) := Int.not_lt.mpr (Int.natCast_nonneg srvFd)
  rw [Unixsock.errorCalls, lsClose, if_neg hneg, h.srvFd_eq, ledger_append]
  exact hsecond.destroy h.partial_

/-! ## Runs -/

variable {o : Options} {p : Setup} {a : SetupAnswers}

/-- `mk_server` fails. -/
def SetupAnswers.Fails (p : Setup) (a : SetupAnswers) : Prop :=
  a.socket = none ∨ p.path.length + 1 > sunPathSize ∨ a.bound = false ∨ a.listening = false

/-- What holds in every state of a run that has not aborted. -/
def RunOk (o : Options) (p : Setup) (a : SetupAnswers) : LoopState × List Call → Prop
  | (.running S, log) =>
      ¬ a.Fails p ∧ ∃ srvFd : Nat, (mkServer p a).1 = srvFd ∧ S.Ledgered o.maxClients srvFd log
  | (.returned, log) => ∃ stray, (ledger log).Sound [] stray ∧ (stray = [] ↔ a.Fails p)
  | (.aborted _, _) => True

/-- The call of `unlink` concerns no descriptor. -/
theorem ledger_unlink (p : Setup) (a : SetupAnswers) (fd : Nat) :
    ledger (.socket fd :: if p.tryUnlink then [.unlink a.unlinked] else []) =
      ⟨[⟨fd, [], []⟩], [], [], []⟩ := by
  split <;> rfl

/-- `mk_server` closes what it obtained if it fails later. -/
theorem startLog_of_fails (h : a.Fails p) :
    ∃ log, startLog o p a = (.returned, log) ∧ (ledger log).Sound [] [] := by
  have hempty : (⟨[], [], [], []⟩ : Ledger).Sound [] [] :=
    ⟨rfl, List.nodup_nil, rfl, rfl, by simp⟩
  cases hs : a.socket with
  | none =>
      refine ⟨[], ?_, hempty⟩
      rw [startLog, mkServer, hs]
      rfl
  | some fd =>
      have hlater : p.path.length + 1 > sunPathSize ∨ a.bound = false ∨ a.listening = false := by
        rcases h with hn | hlater
        · rw [hs] at hn
          cases hn
        · exact hlater
      let calls := Call.socket fd :: if p.tryUnlink then [.unlink a.unlinked] else []
      have hmk : mkServer p a = (-1, calls ++ lsClose fd) := by
        rw [mkServer, hs]
        simp only
        split
        · rfl
        · rename_i hpath
          split
          · rfl
          · rename_i hbound
            rw [if_pos]
            rcases hlater with hl | hl | hl
            · exact absurd hl hpath
            · exact absurd (by simp [hl]) hbound
            · simp [hl]
      refine ⟨calls ++ lsClose fd ++ lsClose (-1), ?_, ?_⟩
      · rw [startLog, hmk]
        rfl
      · have hobtain : (Ledger.mk [⟨fd, [], []⟩] [] [] []).Sound ([] ++ ⟨fd, [], []⟩ :: []) [] :=
          hempty.obtain (by simp)
        have hdel : Desc.Delivered ⟨fd, [], []⟩ := Desc.delivered_of_not_mem List.not_mem_nil
        have hclose := hobtain.close hdel
        have hfd : ¬ ((fd : Int) < 0) := Int.not_lt.mpr (Int.natCast_nonneg fd)
        rw [lsClose, if_neg hfd, lsClose, if_pos (by decide), List.append_nil, ledger_append,
          ledger_unlink]
        exact hclose

theorem mkServer_of_not_fails (h : ¬ a.Fails p) :
    ∃ (fd : Nat) (calls : List Call), mkServer p a = ((fd : Int), calls) ∧
      ledger calls = ⟨[⟨fd, [], []⟩], [], [], []⟩ := by
  simp only [SetupAnswers.Fails, not_or] at h
  obtain ⟨hsocket, hpath, hbound, hlistening⟩ := h
  obtain ⟨fd, hs⟩ := Option.ne_none_iff_exists'.mp hsocket
  refine ⟨fd, _, ?_, ledger_unlink p a fd⟩
  rw [mkServer, hs]
  simp only
  rw [if_neg hpath, if_neg (by simpa using hbound), if_neg (by simpa using hlistening)]

theorem startLog_ok (o : Options) (p : Setup) (a : SetupAnswers) :
    RunOk o p a (startLog o p a) := by
  by_cases h : a.Fails p
  · obtain ⟨log, hlog, hsound⟩ := startLog_of_fails (o := o) h
    rw [hlog]
    exact ⟨[], hsound, ⟨fun _ => h, fun _ => rfl⟩⟩
  · obtain ⟨fd, calls, hmk, hledger⟩ := mkServer_of_not_fails h
    have hfd : (0 : Int) ≤ fd := Int.natCast_nonneg fd
    rw [startLog, hmk]
    simp only
    rw [if_neg (Int.not_lt.mpr hfd), serverNew_eq hfd o.maxClients_le]
    refine ⟨h, fd, by rw [hmk], ?_, rfl, ?_, fun c hc => by cases hc⟩
    · exact {
        srvFd := hfd
        maxClients := rfl
        pfds := ⟨_, rfl⟩
        alive := fun c hc => by cases hc
        nclients_le := Nat.zero_le _ }
    · have hgreet : ledger (calls ++ if o.greet then [.reportStatus (lit "hello")] else []) =
          ledger calls := by
        rw [ledger_append]
        split <;> rfl
      rw [hgreet, hledger]
      exact ⟨rfl, List.nodup_singleton _, rfl, rfl, by simp⟩

theorem runOk_of_reachable {st : LoopState × List Call} (h : (runSystem o p a).Reachable st) :
    RunOk o p a st := by
  refine h.invariant (fun st hi => ?_) fun st w st' ih hst => ?_
  · cases hi
    exact startLog_ok o p a
  · obtain ⟨S, hS, rfl, hfresh⟩ := hst
    obtain ⟨s, log⟩ := st
    cases hS
    obtain ⟨hsetup, srvFd, hfd, hledgered⟩ := ih
    rw [hfd] at hfresh ⊢
    rcases iterateLog_cases hledgered w with
      ⟨e, he⟩ | ⟨S', calls, he, hleft⟩ | ⟨S', calls, he, hnext⟩
    · rw [afterRoundLog, he]
      trivial
    · rw [afterRoundLog, he]
      refine ⟨[(srvFd : Int)], ?_, by simp [hsetup]⟩
      rw [← List.append_assoc]
      exact hleft.errorCalls
    · rw [afterRoundLog, he] at hfresh ⊢
      exact ⟨hsetup, srvFd, hfd, hnext hfresh⟩

/-! In the examples a client connects and sends a line, or the first `poll` fails. -/

/-- A setup in which everything works. -/
def plainSetup : Setup where
  path := lit "/tmp/s"
  tryUnlink := true

def plainAnswers : SetupAnswers where
  socket := some 3
  unlinked := false
  bound := true
  listening := true

/-- The client sends two lines at once. -/
def sendsLine : Wakeup where
  poll := .events fun i => i == 1
  read _ := .data ⟨lit "hi\nx", by decide, by decide⟩
  accept := .again

def pollFails : Wakeup where
  poll := .error
  read _ := .again
  accept := .again

/-- The log after the client has been dropped. -/
def oneLineLog : List Call :=
  [.socket 3, .unlink false, .accept 4, .read 4 (.data ⟨lit "hi\nx", by decide, by decide⟩),
    .reportLine 4 (lit "hi"), .close 4]

/-- The server without clients. -/
def noClients : Server where
  srvFd := 3
  maxClients := 5
  pfds := [⟨3, false⟩]
  clients := []

/-- A log with a single `accept`. -/
theorem fresh_of_accept (pre post : List Call) {fd : Nat}
    (hpre : ∀ n, Call.accept n ∉ pre) (hpost : ∀ n, Call.accept n ∉ post)
    (hnew : ∀ d ∈ (ledger pre).opened, d.fd ≠ fd) : Fresh (pre ++ .accept fd :: post) := by
  intro pre' fd' post' he
  rcases List.append_eq_append_iff.mp he with ⟨l, hl, hr⟩ | ⟨l, hl, hr⟩
  · cases l with
    | nil =>
        rw [List.nil_append] at hr
        rw [List.append_nil] at hl
        cases hr
        rw [hl]
        exact hnew
    | cons c l =>
        rw [List.cons_append] at hr
        cases hr
        exact absurd (List.mem_append_right _ List.mem_cons_self) (hpost fd')
  · cases l with
    | nil =>
        rw [List.nil_append] at hr
        rw [List.append_nil] at hl
        cases hr
        rw [← hl]
        exact hnew
    | cons c l =>
        rw [List.cons_append] at hr
        cases hr
        rw [hl] at hpre
        exact absurd (List.mem_append_right _ List.mem_cons_self) (hpre fd')

theorem oneLine_reachable :
    (runSystem defaultOptions plainSetup plainAnswers).Reachable
      (.running noClients, oneLineLog) := by
  have hstart : (runSystem defaultOptions plainSetup plainAnswers).Reachable
      (startLog defaultOptions plainSetup plainAnswers) := .init rfl
  have hconnects : (runSystem defaultOptions plainSetup plainAnswers).Reachable
      (.running oneClient, [.socket 3, .unlink false, .accept 4]) :=
    .step hstart (a := connects) ⟨_, rfl, rfl,
      fresh_of_accept [.socket 3, .unlink false] [] (by simp) (by simp) (by decide)⟩
  exact .step hconnects (a := sendsLine) ⟨_, rfl, rfl,
    fresh_of_accept [.socket 3, .unlink false] _ (by simp) (by simp) (by decide)⟩

theorem pollFails_reachable :
    (runSystem defaultOptions plainSetup plainAnswers).Reachable
      (.returned, [.socket 3, .unlink false, .close 3, .close 3]) := by
  have hstart : (runSystem defaultOptions plainSetup plainAnswers).Reachable
      (startLog defaultOptions plainSetup plainAnswers) := .init rfl
  refine .step hstart (a := pollFails) ⟨_, rfl, rfl, fun pre fd post he => ?_⟩
  have hm : Call.accept fd ∈ [Call.socket 3, .unlink false, .close 3, .close 3] := by
    change [Call.socket 3, .unlink false, .close 3, .close 3] = _ at he
    rw [he]
    exact List.mem_append_right _ List.mem_cons_self
  simp at hm

/-- In a run that has not aborted the reported lines of every descriptor are right: the bytes that
its other side sent before the first line break, once, and nothing if there is none.  Nothing is
read from, and no line reported of, a descriptor that is not open. -/
theorem lines_delivered {st : LoopState × List Call} (h : (runSystem o p a).Reachable st)
    (hrun : ∀ e, st.1 ≠ .aborted e) :
    (∀ d ∈ (ledger st.2).opened ++ (ledger st.2).closed, d.Delivered) ∧
      (ledger st.2).unowned = [] := by
  have hok := runOk_of_reachable h
  obtain ⟨s, log⟩ := st
  cases s with
  | aborted e => exact absurd rfl (hrun e)
  | returned =>
      obtain ⟨stray, hsound, -⟩ := hok
      refine ⟨fun d hd => ?_, hsound.unowned⟩
      rw [hsound.opened_eq, List.nil_append] at hd
      exact hsound.closed d hd
  | running S =>
      obtain ⟨-, srvFd, -, hledgered⟩ := hok
      refine ⟨fun d hd => ?_, hledgered.sound.unowned⟩
      rcases List.mem_append.mp hd with hd | hd
      · rw [hledgered.sound.opened_eq, List.mem_cons] at hd
        rcases hd with rfl | hd
        · exact Desc.delivered_of_not_mem List.not_mem_nil
        · obtain ⟨c, hc, rfl⟩ := List.mem_map.mp hd
          exact Desc.delivered_of_not_mem (hledgered.partial_ c hc)
      · exact hledgered.sound.closed d hd

theorem lines_delivered_oneLine :
    (ledger oneLineLog).closed = [⟨4, lit "hi\nx", [lit "hi"]⟩] ∧
      ∀ d ∈ (ledger oneLineLog).opened ++ (ledger oneLineLog).closed, d.Delivered :=
  ⟨by decide, (lines_delivered oneLine_reachable fun e he => by cases he).1⟩

/-- A run that returns has closed every descriptor exactly once if and only if `mk_server`
failed. -/
theorem closedOnce_iff {log : List Call} (h : (runSystem o p a).Reachable (.returned, log)) :
    ClosedOnce log ↔ a.Fails p := by
  obtain ⟨stray, hsound, hiff⟩ := runOk_of_reachable h
  rw [ClosedOnce, hsound.opened_eq, hsound.stray_eq, ← hiff]
  exact and_iff_right rfl

theorem closedOnce_iff_pollFails :
    ClosedOnce [.socket 3, .unlink false, .close 3, .close 3] ↔ plainAnswers.Fails plainSetup :=
  closedOnce_iff pollFails_reachable

/-- If the first `poll` fails, the listening descriptor is closed twice. -/
theorem run_closes_twice :
    (∃ log, (runSystem defaultOptions plainSetup plainAnswers).Reachable (.returned, log) ∧
      log = [.socket 3, .unlink false, .close 3, .close 3]) ∧
    ¬ ∀ o p a log, (runSystem o p a).Reachable (.returned, log) → ClosedOnce log := by
  refine ⟨⟨_, pollFails_reachable, rfl⟩, fun h => ?_⟩
  have hclosed := h _ _ _ _ pollFails_reachable
  exact absurd hclosed.2 (by decide)

end Luastatus.Unixsock
