import Luastatus.NetworkLinux.StrsetRuns

/-!
# The wireless interfaces of the network plugin

`make_call` enumerates the addresses of the network interfaces and makes one call of the widget's
callback.  A call with `refresh` asks the kernel about each interface whether it is wireless and
remembers those that are in a string set; any other call looks them up there.

What a call does is a log of events; the system's answers are part of its input.  `Frozen` says that
the set has not been modified since it was sorted, and `lastReport` which names the last successful
refresh found wireless.  `makeCall_queries` is the result: after any calls, every lookup finds a
frozen set and gives the answer of `lastReport`; and it is what the search in the array of pointers
answers that the logged operations lead to.
-/

namespace Luastatus.NetworkLinux

open Text (Bytes CString lit)

/-! ## Calls -/

/-- An entry of the list that `getifaddrs` returns. -/
structure Ifaddr where
  name : CString
  /-- What `is_wlan_iface` answers for the name if it is asked. -/
  isWlan : Bool

/-- What `make_call` reads of the plugin's data. -/
structure Priv where
  reportWireless : Bool
  wlanIfaces : Strset := strsetNew

/-- What a call does. -/
inductive Event where
  /-- `strset_reset`. -/
  | reset
  /-- `strset_add`. -/
  | add (name : CString)
  /-- `strset_freeze`. -/
  | freeze
  /-- `strset_contains` on the given set. -/
  | contains (set : Strset) (name : CString) (answer : Bool)
  /-- `is_wlan_iface`. -/
  | isWlanIface (name : CString) (answer : Bool)
  /-- `inject_wireless_info`. -/
  | injectWirelessInfo (name : CString)
  /-- A call of the widget's callback with a table of interfaces. -/
  | call (what : Bytes) (interfaces : List CString)
  /-- `report_error`. -/
  | reportError

/-- The variables of the loop of `make_call`: the interfaces in the table, the set and the log. -/
structure Loop where
  table : List CString := []
  wlanIfaces : Strset
  log : List Event := []

/-- Log an event. -/
def Loop.emit (st : Loop) (e : Event) : Loop := { st with log := st.log ++ [e] }

/-- Whether an interface is wireless: asked and remembered on a refresh, else looked up. -/
def checkWlan (refresh : Bool) (cur : Ifaddr) (st : Loop) : Bool × Loop :=
  if refresh then
    let st := st.emit (.isWlanIface cur.name cur.isWlan)
    if cur.isWlan then
      (true, { st.emit (.add cur.name) with wlanIfaces := strsetAdd st.wlanIfaces cur.name })
    else (false, st)
  else
    let answer := strsetContains st.wlanIfaces cur.name
    (answer, st.emit (.contains st.wlanIfaces cur.name answer))

/-- The body of the loop of `make_call`.  Only the first entry of an interface creates its table. -/
def loopBody (reportWireless refresh : Bool) (st : Loop) (cur : Ifaddr) : Loop :=
  if cur.name ∈ st.table then st
  else
    let st := { st with table := st.table ++ [cur.name] }
    if reportWireless then
      let (isWlan, st) := checkWlan refresh cur st
      if isWlan then st.emit (.injectWirelessInfo cur.name) else st
    else st

/-- One invocation of `make_call`, with what `getifaddrs` returned: nothing if it failed. -/
structure Invocation where
  refresh : Bool
  what : Bytes
  ifaddrs : Option (List Ifaddr)

/-- `make_call`. -/
def makeCall (p : Priv) (c : Invocation) : Priv × List Event :=
  match c.ifaddrs with
  | none => (p, [.reportError])
  | some ifaddrs =>
      let st : Loop :=
        if c.refresh then ⟨[], strsetReset p.wlanIfaces, [.reset]⟩ else ⟨[], p.wlanIfaces, []⟩
      let st := ifaddrs.foldl (loopBody p.reportWireless c.refresh) st
      let st := st.emit (.call c.what st.table)
      let st :=
        if c.refresh then { st.emit .freeze with wlanIfaces := strsetFreeze st.wlanIfaces } else st
      ({ p with wlanIfaces := st.wlanIfaces }, st.log)

/-- The calls of a plugin instance, one after the other. -/
def makeCalls (p : Priv) : List Invocation → Priv × List Event
  | [] => (p, [])
  | c :: cs =>
      let (p, log) := makeCall p c
      let (p, logs) := makeCalls p cs
      (p, log ++ logs)

/-! ## The loop of the plugin -/

/-- What `my_recvmsg` returned, and `interpret_nl_msg` said of a message. -/
inductive Recv where
  /-- Input on the self-pipe. -/
  | selfPipe
  | eintr
  | eagain
  | enobufs
  | failed
  | message (ok : Bool)
deriving DecidableEq, Repr

/-- The loop of `interact`, as far as its wakeups are given: each with what `getifaddrs` returns if
it is asked.  Whether another attempt is to be made, and the calls. -/
def interactLoop : List (Recv × Option (List Ifaddr)) → Bool × List Invocation
  | [] => (false, [])
  | (r, ifaddrs) :: rest =>
      match r with
      | .selfPipe =>
          ((interactLoop rest).1, ⟨false, lit "self_pipe", ifaddrs⟩ :: (interactLoop rest).2)
      | .eintr => ((interactLoop rest).1, ⟨true, lit "update", ifaddrs⟩ :: (interactLoop rest).2)
      | .eagain => ((interactLoop rest).1, ⟨false, lit "timeout", ifaddrs⟩ :: (interactLoop rest).2)
      | .enobufs => (true, [])
      | .failed => (false, [])
      | .message false => (true, [])
      | .message true =>
          ((interactLoop rest).1, ⟨true, lit "update", ifaddrs⟩ :: (interactLoop rest).2)

/-- One connection: whether the socket could be opened and bound, what `getifaddrs` returned first,
and the wakeups. -/
structure Connection where
  connected : Bool
  first : Option (List Ifaddr)
  wakeups : List (Recv × Option (List Ifaddr))

/-- `interact`: whether another attempt is to be made, and the calls. -/
def interact (conn : Connection) : Bool × List Invocation :=
  if conn.connected then
    ((interactLoop conn.wakeups).1,
      ⟨true, lit "update", conn.first⟩ :: (interactLoop conn.wakeups).2)
  else (false, [])

/-- The invocations of `make_call` by `run`, over its connections. -/
def run : List Connection → List Invocation
  | [] => []
  | conn :: conns => (interact conn).2 ++ if (interact conn).1 then run conns else []

/-! ## What the lookups are to answer -/

/-- Whether the set has been modified since it was last frozen, or since it was created. -/
def modified (log : List Event) : Bool :=
  log.foldl (fun m e => match e with
    | .reset => true
    | .add _ => true
    | .freeze => false
    | _ => m) false

/-- The set is sorted and has not been modified since it was. -/
def Frozen (log : List Event) (set : Strset) : Prop := modified log = false ∧ set.Sorted

/-- Whether an interface was reported as wireless in an enumeration: the first of its entries
counts. -/
def reportedWlan (ifaddrs : List Ifaddr) (name : CString) : Bool :=
  match ifaddrs.find? (fun a => a.name = name) with
  | some a => a.isWlan
  | none => false

/-- Whether an interface was reported as wireless in the last refresh that succeeded; false if there
was none. -/
def lastReport (cs : List Invocation) (name : CString) : Bool :=
  match cs.reverse.findSome? (fun c => if c.refresh then c.ifaddrs else none) with
  | some ifaddrs => reportedWlan ifaddrs name
  | none => false

/-- What an event does to the set. -/
def Event.op : Event → Option StrArray.Op
  | .reset => some .reset
  | .add name => some (.add name)
  | .freeze => some .freeze
  | _ => none

/-- The operations on the set in a log. -/
def opsOf (log : List Event) : List StrArray.Op := log.filterMap Event.op

/-- Every lookup of a log finds a frozen set and gives the given answer, which the search in the
array of pointers gives as well; `before` is what was logged before. -/
def QueriesSound (report : CString → Bool) (before log : List Event) : Prop :=
  ∀ pre set name answer post, log = pre ++ .contains set name answer :: post →
    Frozen (before ++ pre) set ∧ answer = report name ∧
      ∃ x, StrArray.PtrSet.new.run (opsOf (before ++ pre)) = some x ∧
        x.data.map StrArray.Dup.str = set.data ∧ x.contains name = some answer

/-! ## The log -/

variable {log log' before : List Event} {set : Strset} {name : CString}

/-- Not a lookup. -/
def Event.NoQuery : Event → Prop
  | .contains _ _ _ => False
  | _ => True

/-- Something a call without `refresh` may do: a lookup in the given set, answered by
`strset_contains`, or nothing that concerns the set. -/
def Event.Lookup (set : Strset) : Event → Prop
  | .contains set' name answer => set' = set ∧ answer = strsetContains set name
  | .injectWirelessInfo _ => True
  | .call _ _ => True
  | _ => False

theorem modified_concat (log : List Event) (e : Event) :
    modified (log ++ [e]) =
      match e with
      | .reset => true
      | .add _ => true
      | .freeze => false
      | _ => modified log := by
  rw [modified, List.foldl_append]
  rfl

/-- Lookups do not modify the set. -/
theorem modified_append_lookups (h : ∀ e ∈ log', e.Lookup set) :
    modified (log ++ log') = modified log := by
  induction log' using List.reverseRecOn with
  | nil => rw [List.append_nil]
  | append_singleton es e ih =>
      rw [← List.append_assoc, modified_concat]
      have he := h e (List.mem_append_right _ (List.mem_singleton_self e))
      have hes := ih fun e' he' => h e' (List.mem_append_left _ he')
      cases e with
      | reset => exact he.elim
      | add _ => exact he.elim
      | freeze => exact he.elim
      | contains _ _ _ => exact hes
      | isWlanIface _ _ => exact hes
      | injectWirelessInfo _ => exact hes
      | call _ _ => exact hes
      | reportError => exact hes

theorem opsOf_append : opsOf (log ++ log') = opsOf log ++ opsOf log' := List.filterMap_append

/-- The operations so far lead to the set. -/
def Leads (log : List Event) (set : Strset) : Prop := StrArray.strsetRun (opsOf log) = set

/-- And lookups do not change that. -/
theorem opsOf_append_lookups (h : ∀ e ∈ log', e.Lookup set) :
    opsOf (log ++ log') = opsOf log := by
  have hnone : opsOf log' = [] := by
    refine List.filterMap_eq_nil_iff.mpr fun e he => ?_
    have := h e he
    cases e with
    | contains _ _ _ | injectWirelessInfo _ | call _ _ => rfl
    | _ => exact this.elim
  rw [opsOf_append, hnone, List.append_nil]

theorem QueriesSound.of_noQuery {report : CString → Bool} (h : ∀ e ∈ log, e.NoQuery) :
    QueriesSound report before log := by
  intro pre set name answer post hlog
  have hmem : Event.contains set name answer ∈ log := by
    rw [hlog]
    exact List.mem_append_right _ List.mem_cons_self
  exact (h _ hmem).elim

theorem QueriesSound.of_lookups {report : CString → Bool} (hset : Frozen before set)
    (hleads : Leads before set) (hreport : ∀ name, strsetContains set name = report name)
    (h : ∀ e ∈ log, e.Lookup set) :
    QueriesSound report before log := by
  intro pre set' name answer post hlog
  rw [hlog] at h
  obtain ⟨rfl, rfl⟩ := h _ (List.mem_append_right _ List.mem_cons_self)
  have hpre : ∀ e ∈ pre, e.Lookup set' := fun e he => h e (List.mem_append_left _ he)
  obtain ⟨x, hrun, hdata, hcontains⟩ := StrArray.run_strings (opsOf before)
  rw [show StrArray.strsetRun (opsOf before) = set' from hleads] at hdata hcontains
  refine ⟨⟨(modified_append_lookups hpre).trans hset.1, hset.2⟩, hreport name, x, ?_, hdata,
    hcontains name⟩
  rw [opsOf_append_lookups hpre, hrun]

/-! ## A call without `refresh` -/

/-- The loop leaves the set alone, and all it logs are lookups in it. -/
theorem foldl_lookups (reportWireless : Bool) (ifaddrs : List Ifaddr) :
    ∀ st : Loop, (∀ e ∈ st.log, e.Lookup st.wlanIfaces) →
      (ifaddrs.foldl (loopBody reportWireless false) st).wlanIfaces = st.wlanIfaces ∧
      ∀ e ∈ (ifaddrs.foldl (loopBody reportWireless false) st).log, e.Lookup st.wlanIfaces := by
  induction ifaddrs with
  | nil => exact fun st h => ⟨rfl, h⟩
  | cons cur ifaddrs ih =>
      intro st h
      have hstep : (loopBody reportWireless false st cur).wlanIfaces = st.wlanIfaces ∧
          ∀ e ∈ (loopBody reportWireless false st cur).log, e.Lookup st.wlanIfaces := by
        rw [loopBody]
        split
        · exact ⟨rfl, h⟩
        · split
          · simp only [checkWlan, Loop.emit, Bool.false_eq_true, if_false]
            split
            · refine ⟨rfl, fun e he => ?_⟩
              simp only [List.mem_append, List.mem_singleton] at he
              rcases he with (he | rfl) | rfl
              · exact h e he
              · exact ⟨rfl, rfl⟩
              · trivial
            · refine ⟨rfl, fun e he => ?_⟩
              simp only [List.mem_append, List.mem_singleton] at he
              rcases he with he | rfl
              · exact h e he
              · exact ⟨rfl, rfl⟩
          · exact ⟨rfl, h⟩
      obtain ⟨hset, hlog⟩ := hstep
      rw [List.foldl_cons]
      have := ih (loopBody reportWireless false st cur) (by rw [hset]; exact hlog)
      rw [hset] at this
      exact this

/-! ## A call with `refresh` -/

/-- An interface that occurs: the first entry counts. -/
theorem find?_eq_none_iff {ifaddrs : List Ifaddr} {name : CString} :
    ifaddrs.find? (fun a => a.name = name) = none ↔ ¬ ∃ a ∈ ifaddrs, a.name = name := by
  simp

/-- Another entry of an interface does not count. -/
theorem reportedWlan_concat_old {ifaddrs : List Ifaddr} {cur : Ifaddr}
    (h : ∃ a ∈ ifaddrs, a.name = cur.name) (name : CString) :
    reportedWlan (ifaddrs ++ [cur]) name = reportedWlan ifaddrs name := by
  rw [reportedWlan, List.find?_append, reportedWlan]
  cases hf : ifaddrs.find? (fun a => a.name = name) with
  | some a => rfl
  | none =>
      have hne : cur.name ≠ name := by
        rintro rfl
        exact find?_eq_none_iff.mp hf h
      simp [hne]

theorem reportedWlan_concat_new {ifaddrs : List Ifaddr} {cur : Ifaddr}
    (h : ¬ ∃ a ∈ ifaddrs, a.name = cur.name) (name : CString) :
    reportedWlan (ifaddrs ++ [cur]) name =
      if cur.name = name then cur.isWlan else reportedWlan ifaddrs name := by
  rw [reportedWlan, List.find?_append, reportedWlan]
  by_cases hname : cur.name = name
  · subst hname
    rw [find?_eq_none_iff.mpr h]
    simp
  · cases ifaddrs.find? (fun a => a.name = name) with
    | some a => simp [hname]
    | none => simp [hname]

/-- The invariant of the loop on a refresh that starts with the set `x`, after the given entries. -/
structure Refreshing (x : Strset) (ifaddrs : List Ifaddr) (st : Loop) : Prop where
  table : ∀ name, name ∈ st.table ↔ ∃ a ∈ ifaddrs, a.name = name
  data : ∀ name, name ∈ st.wlanIfaces.data ↔ reportedWlan ifaddrs name = true
  log : ∀ e ∈ st.log, e.NoQuery
  ops : (opsOf st.log).foldl StrArray.strsetCall x = st.wlanIfaces

theorem mem_concat_iff {ifaddrs : List Ifaddr} {cur : Ifaddr} {name : CString} :
    (∃ a ∈ ifaddrs ++ [cur], a.name = name) ↔
      (∃ a ∈ ifaddrs, a.name = name) ∨ cur.name = name := by
  simp [or_and_right, exists_or]

theorem Refreshing.step {x : Strset} {ifaddrs : List Ifaddr} {st : Loop}
    (h : Refreshing x ifaddrs st) (cur : Ifaddr) :
    Refreshing x (ifaddrs ++ [cur]) (loopBody true true st cur) := by
  rw [loopBody]
  split
  · -- another entry of an interface that is in the table
    rename_i hold
    have hex := (h.table cur.name).mp hold
    refine ⟨fun name => ?_, fun name => ?_, h.log, h.ops⟩
    · rw [h.table, mem_concat_iff]
      constructor
      · exact .inl
      · rintro (hname | rfl)
        · exact hname
        · exact hex
    · rw [h.data, reportedWlan_concat_old hex]
  · rename_i hnew
    have hex : ¬ ∃ a ∈ ifaddrs, a.name = cur.name := fun hex => hnew ((h.table cur.name).mpr hex)
    have htable : ∀ name, name ∈ st.table ++ [cur.name] ↔
        ∃ a ∈ ifaddrs ++ [cur], a.name = name := by
      intro name
      rw [mem_concat_iff, List.mem_append, h.table, List.mem_singleton, eq_comm]
    simp only [checkWlan, Loop.emit, if_true]
    cases hwlan : cur.isWlan with
    | true =>
        refine ⟨htable, fun name => ?_, fun e he => ?_, ?_⟩
        · rw [reportedWlan_concat_new hex, hwlan]
          simp only [if_true, strsetAdd, List.mem_append, List.mem_singleton, h.data]
          split
          · rename_i hname
            simp [hname]
          · rename_i hname
            simp [Ne.symm hname]
        · simp only [if_true, List.mem_append, List.mem_singleton] at he
          rcases he with ((he | rfl) | rfl) | rfl
          · exact h.log e he
          all_goals trivial
        · simp only [if_true, opsOf_append, List.foldl_append, h.ops]
          rfl
    | false =>
        refine ⟨htable, fun name => ?_, fun e he => ?_, ?_⟩
        · rw [reportedWlan_concat_new hex, hwlan]
          simp only [Bool.false_eq_true, if_false, h.data]
          split
          · rename_i hname
            have hnone : reportedWlan ifaddrs name = false := by
              rw [← hname, reportedWlan, find?_eq_none_iff.mpr hex]
            simp [hnone]
          · rfl
        · simp only [Bool.false_eq_true, if_false, List.mem_append, List.mem_singleton] at he
          rcases he with he | rfl
          · exact h.log e he
          · trivial
        · simp only [Bool.false_eq_true, if_false, opsOf_append, List.foldl_append, h.ops]
          rfl

theorem Refreshing.foldl {x : Strset} {ifaddrs : List Ifaddr} {st : Loop} (rest : List Ifaddr) :
    Refreshing x ifaddrs st →
      Refreshing x (ifaddrs ++ rest) (rest.foldl (loopBody true true) st) := by
  induction rest generalizing ifaddrs st with
  | nil =>
      intro h
      rw [List.append_nil]
      exact h
  | cons cur rest ih =>
      intro h
      have := ih (h.step cur)
      rw [List.append_assoc, List.singleton_append] at this
      exact this

/-! ## Any sequence of calls -/

/-- The invariant between calls: the set is frozen, and holds the names that the last successful
refresh reported. -/
structure Inv (cs : List Invocation) (p : Priv) (log : List Event) : Prop where
  wireless : p.reportWireless = true
  frozen : Frozen log p.wlanIfaces
  data : ∀ name, name ∈ p.wlanIfaces.data ↔ lastReport cs name = true
  leads : Leads log p.wlanIfaces

theorem Inv.contains {cs : List Invocation} {p : Priv} (h : Inv cs p log) (name : CString) :
    strsetContains p.wlanIfaces name = lastReport cs name := by
  rw [Bool.eq_iff_iff, strsetContains_iff h.frozen.2, h.data]

theorem lastReport_concat (cs : List Invocation) (c : Invocation) (name : CString) :
    lastReport (cs ++ [c]) name =
      match if c.refresh then c.ifaddrs else none with
      | some ifaddrs => reportedWlan ifaddrs name
      | none => lastReport cs name := by
  rw [lastReport, List.reverse_append, List.reverse_singleton, List.singleton_append,
    List.findSome?_cons]
  cases if c.refresh then c.ifaddrs else none with
  | some ifaddrs => rfl
  | none => rfl

/-- A call in which `getifaddrs` fails. -/
theorem Inv.step_fail {cs : List Invocation} {p : Priv} (h : Inv cs p log) {c : Invocation}
    (hc : c.ifaddrs = none) :
    Inv (cs ++ [c]) (makeCall p c).1 (log ++ (makeCall p c).2) ∧
      QueriesSound (lastReport cs) log (makeCall p c).2 := by
  rw [makeCall, hc]
  refine ⟨⟨h.wireless, ⟨?_, h.frozen.2⟩, fun name => ?_, ?_⟩, .of_noQuery fun e he => ?_⟩
  · rw [modified_concat]
    exact h.frozen.1
  · rw [lastReport_concat, hc, ite_self]
    exact h.data name
  · have hops : opsOf (log ++ [.reportError]) = opsOf log ++ [] := opsOf_append
    rw [Leads, hops, List.append_nil]
    exact h.leads
  · rw [List.mem_singleton] at he
    rw [he]
    trivial

/-- A call without `refresh`. -/
theorem Inv.step_lookup {cs : List Invocation} {p : Priv} (h : Inv cs p log) {c : Invocation}
    {ifaddrs : List Ifaddr} (hc : c.ifaddrs = some ifaddrs) (hr : c.refresh = false) :
    Inv (cs ++ [c]) (makeCall p c).1 (log ++ (makeCall p c).2) ∧
      QueriesSound (lastReport cs) log (makeCall p c).2 := by
  obtain ⟨hset, hlog⟩ :=
    foldl_lookups p.reportWireless ifaddrs ⟨[], p.wlanIfaces, []⟩ (fun e he => by cases he)
  generalize hst : ifaddrs.foldl (loopBody p.reportWireless false) ⟨[], p.wlanIfaces, []⟩ = st
    at hset hlog
  have hlookups : ∀ e ∈ st.log ++ [.call c.what st.table], e.Lookup p.wlanIfaces := by
    intro e he
    rcases List.mem_append.mp he with he | he
    · exact hlog e he
    · rw [List.mem_singleton.mp he]
      trivial
  have hcall : makeCall p c =
      ({ p with wlanIfaces := st.wlanIfaces }, st.log ++ [.call c.what st.table]) := by
    simp only [makeCall, hc, hr, Bool.false_eq_true, if_false, hst, Loop.emit]
  rw [hcall, hset]
  refine ⟨⟨h.wireless, ⟨?_, h.frozen.2⟩, fun name => ?_, ?_⟩,
    .of_lookups h.frozen h.leads h.contains hlookups⟩
  · rw [modified_append_lookups hlookups]
    exact h.frozen.1
  · rw [lastReport_concat, hr]
    exact h.data name
  · rw [Leads, opsOf_append_lookups hlookups]
    exact h.leads

/-- A call with `refresh`. -/
theorem Inv.step_refresh {cs : List Invocation} {p : Priv} (h : Inv cs p log) {c : Invocation}
    {ifaddrs : List Ifaddr} (hc : c.ifaddrs = some ifaddrs) (hr : c.refresh = true) :
    Inv (cs ++ [c]) (makeCall p c).1 (log ++ (makeCall p c).2) ∧
      QueriesSound (lastReport cs) log (makeCall p c).2 := by
  have hstart : Refreshing p.wlanIfaces [] ⟨[], strsetReset p.wlanIfaces, [.reset]⟩ := by
    refine ⟨by simp, by simp [strsetReset, reportedWlan], fun e he => ?_, rfl⟩
    rw [List.mem_singleton.mp he]
    trivial
  have hend := hstart.foldl ifaddrs
  rw [List.nil_append] at hend
  generalize hst : ifaddrs.foldl (loopBody true true)
    ⟨[], strsetReset p.wlanIfaces, [.reset]⟩ = st at hend
  have hcall : makeCall p c =
      ({ p with wlanIfaces := strsetFreeze st.wlanIfaces },
        st.log ++ [.call c.what st.table] ++ [.freeze]) := by
    simp only [makeCall, hc, hr, h.wireless, if_true, hst, Loop.emit]
  rw [hcall]
  refine ⟨⟨h.wireless, ⟨?_, strsetFreeze_sorted _⟩, fun name => ?_, ?_⟩,
    .of_noQuery fun e he => ?_⟩
  · rw [← List.append_assoc, modified_concat]
  · rw [lastReport_concat, hr, if_pos rfl, hc, mem_strsetFreeze]
    exact hend.data name
  · have hleads : StrArray.strsetRun (opsOf log) = p.wlanIfaces := h.leads
    rw [StrArray.strsetRun] at hleads
    simp only [Leads, StrArray.strsetRun, opsOf_append, List.foldl_append, hleads, hend.ops]
    rfl
  · simp only [List.mem_append, List.mem_singleton] at he
    rcases he with (he | rfl) | rfl
    · exact hend.log e he
    all_goals trivial

/-- One call keeps the invariant, and its lookups are sound. -/
theorem Inv.step {cs : List Invocation} {p : Priv} (h : Inv cs p log) (c : Invocation) :
    Inv (cs ++ [c]) (makeCall p c).1 (log ++ (makeCall p c).2) ∧
      QueriesSound (lastReport cs) log (makeCall p c).2 := by
  cases hc : c.ifaddrs with
  | none => exact h.step_fail hc
  | some ifaddrs =>
      cases hr : c.refresh with
      | false => exact h.step_lookup hc hr
      | true => exact h.step_refresh hc hr

theorem makeCalls_concat (p : Priv) (cs : List Invocation) (c : Invocation) :
    makeCalls p (cs ++ [c]) =
      ((makeCall (makeCalls p cs).1 c).1,
        (makeCalls p cs).2 ++ (makeCall (makeCalls p cs).1 c).2) := by
  induction cs generalizing p with
  | nil => simp [makeCalls]
  | cons d cs ih => simp [makeCalls, ih]

/-- The plugin's data after `init`, with wireless reporting enabled. -/
def initPriv : Priv := { reportWireless := true }

theorem makeCalls_inv (cs : List Invocation) :
    Inv cs (makeCalls initPriv cs).1 (makeCalls initPriv cs).2 := by
  induction cs using List.reverseRecOn with
  | nil =>
      refine ⟨rfl, ⟨rfl, strsetNew_sorted⟩, ?_, rfl⟩
      simp [makeCalls, initPriv, strsetNew, lastReport]
  | append_singleton cs c ih =>
      rw [makeCalls_concat]
      exact (ih.step c).1

/-- Whatever calls have been made, every lookup of the next one finds a frozen set, and answers
whether the name was reported as wireless in the last refresh that succeeded; so does the search in
the array of pointers that the operations so far have led to, without an access out of bounds. -/
theorem makeCall_queries (cs : List Invocation) (c : Invocation) :
    QueriesSound (lastReport cs) (makeCalls initPriv cs).2
      (makeCall (makeCalls initPriv cs).1 c).2 :=
  ((makeCalls_inv cs).step c).2

/-- The first call of a run is a refresh. -/
theorem run_refresh_first (conns : List Connection) :
    ∀ c ∈ (run conns).head?, c.refresh = true := by
  cases conns with
  | nil => simp [run]
  | cons conn conns =>
      rw [run, interact]
      split <;> simp

end Luastatus.NetworkLinux
