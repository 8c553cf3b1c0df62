import Luastatus.Lua.Value
import Luastatus.Mpd.SafeHaven

/-!
# A session with an MPD server

`interact` reads the greeting, sends the password, and then repeats one iteration: the commands
`currentsong` and `status`, a call of the widget's callback with what the two responses say, and an
`idle` command whose response it waits for.

What the server sends is a stream of bytes that may end anywhere.  `readLine` refines a list of
lines (`readLine_of_lines_eq_cons`), and `response` is the next response of such a list.  The two
string arrays outlive an iteration; `loopUntilOk_kv` says what one response adds to an array, and
the step lemma `iteration_eq` that an iteration that starts with empty arrays ends with empty ones.
`interact_calls` is the result: the calls are those of the responses, iteration by iteration, and no
assertion fails.
-/

namespace Luastatus.Mpd

open Text (Byte Bytes ch lit)
open Lua (Table Val)
open LibLs Libsafe

variable {F : Type}

/-! ## Reading -/

/-- `read_line`: the next line and the stream after it, nothing if `getline` fails.  `getline` is
the library's: it delivers the stream up to and including the next line break. -/
def readLine (inp : Bytes) : Except AssertFailure (Option (Bytes × Bytes)) :=
  if inp = [] then .ok none
  else do
    let raw := Lines.untilDelim (ch '\n') inp
    let lineV ← safevRstripOnce raw.1 (ch '\n')
    return some (lineV, raw.2)

theorem readLine_rest_length_lt {inp line rest : Bytes}
    (h : readLine inp = .ok (some (line, rest))) : rest.length < inp.length := by
  rw [readLine] at h
  split at h
  · cases h
  · rename_i hne
    dsimp only at h
    cases hs : safevRstripOnce (Lines.untilDelim (ch '\n') inp).1 (ch '\n') with
    | error e =>
        rw [hs, error_bind] at h
        cases h
    | ok l =>
        rw [hs, ok_bind] at h
        cases h
        exact Lines.untilDelim_snd_length_lt hne

/-- `loop_until_ok`: whether it returned `0`, the array, and the stream after it. -/
def loopUntilOk (inp : Bytes) (kv : Option StringArray) :
    Except AssertFailure (Bool × Option StringArray × Bytes) :=
  match _hline : readLine inp with
  | .error e => .error e
  | .ok none => .ok (false, kv, inp)
  | .ok (some (line, rest)) =>
      match responseType line with
      | .ok => .ok (true, kv, rest)
      | .ack => .ok (false, kv, rest)
      | .other =>
          match kv with
          | none => loopUntilOk rest none
          | some sa =>
              match appendLineToKvStrarr sa line with
              | .error e => .error e
              | .ok sa => loopUntilOk rest (some sa)
termination_by inp.length
decreasing_by all_goals exact readLine_rest_length_lt _hline

/-! ## Calls -/

/-- The loop of `kv_strarr_table_push`. -/
def pushPairs (sa : StringArray) (n i : Nat) (t : Table F) : Except AssertFailure (Table F) :=
  if i < n then
    match lsStrarrAt sa i, lsStrarrAt sa (i + 1) with
    | .ok key, .ok value => pushPairs sa n (i + 2) (t.rawset (.str key) (.string value))
    | .error e, _ => .error e
    | .ok _, .error e => .error e
  else .ok t
termination_by n - i

/-- `kv_strarr_table_push`. -/
def kvStrarrTablePush (sa : StringArray) : Except AssertFailure (Table F) := do
  let n := lsStrarrSize sa
  lsAssert (n % 2 = 0) "n % 2 == 0"
  pushPairs sa n 0 Table.empty

/-- A call of the widget's callback. -/
inductive Call (F : Type) where
  /-- The call that `interact` makes itself. -/
  | update (song status : Table F)
  /-- `report_status`. -/
  | report (what : Bytes)

/-- The table a call passes to the callback. -/
def Call.arg : Call F → Val F
  | update song status =>
      .table none (Table.setFields Table.empty
        [(lit "what", .string (lit "update")), (lit "song", .table none song),
          (lit "status", .table none status)])
  | report what => .table none (Table.setFields Table.empty [(lit "what", .string what)])

/-! ## The session -/

/-- What `interact` reads of the plugin's data. -/
structure Priv where
  password : Option Bytes
  /-- Whether the timeout is `LS_TD_FOREVER`. -/
  tmoIsForever : Bool
  idleStr : Bytes

/-- What `ls_wait_input_on_fd` returned: a negative number, zero, or a positive one. -/
inductive Nfds where
  | failed
  | timeout
  | ready
deriving DecidableEq, Repr

/-- What the system answers in one iteration: whether a command could be written, and the results
of the waits.  The last wait of a session may still be going on. -/
structure Answers where
  songWritten : Bool
  statusWritten : Bool
  idleWritten : Bool
  waits : List Nfds

/-- A connection: what the server sends before the stream ends, and the system's answers. -/
structure Connection where
  fdopened : Bool
  received : Bytes
  passwordWritten : Bool
  iterations : List Answers

/-- The variables of `interact`, what it wrote and the calls it made. -/
structure State (F : Type) where
  inp : Bytes
  kvSong : StringArray := lsStrarrNew
  kvStatus : StringArray := lsStrarrNew
  written : Bytes := []
  calls : List (Call F) := []

/-- `fputs` on the connection. -/
def State.fputs (s : State F) (text : Bytes) : State F := { s with written := s.written ++ text }

/-- `call_begin` to `call_end`. -/
def State.call (s : State F) (c : Call F) : State F := { s with calls := s.calls ++ [c] }

/-- The handshake: the greeting, and the password if there is one.  False stands for `goto done`. -/
def handshake (p : Priv) (conn : Connection) (s : State F) :
    Except AssertFailure (Bool × State F) := do
  match ← readLine s.inp with
  | none => return (false, s)
  | some (line, inp) =>
      let s := { s with inp }
      if ¬ isGoodGreeting line then return (false, s)
      match p.password with
      | none => return (true, s)
      | some password =>
          let s := s.fputs (lit "password ")
          let written ← writeQuoted s.written password
          let s := { s with written := written ++ [ch '\n'] }
          if ¬ conn.passwordWritten then return (false, s)
          match ← readLine s.inp with
          | none => return (false, s)
          | some (line, inp) =>
              let s := { s with inp }
              return (responseType line = .ok, s)

/-- The loop that reports timeouts: whether there is data. -/
def reportTimeouts : List Nfds → State F → Bool × State F
  | [], s => (false, s)
  | .failed :: _, s => (false, s)
  | .timeout :: waits, s => reportTimeouts waits (s.call (.report (lit "timeout")))
  | .ready :: _, s => (true, s)

/-- Write a command and add its response to an array.  False stands for `goto done`. -/
def query (command : Bytes) (written : Bool) (kv : StringArray) (s : State F) :
    Except AssertFailure (Bool × StringArray × State F) := do
  let s := s.fputs command
  if ¬ written then return (false, kv, s)
  let (ok, sa, inp) ← loopUntilOk s.inp (some kv)
  return (ok, sa.getD kv, { s with inp })

/-- Write the idle string, report timeouts, and wait for an `OK`. -/
def idle (p : Priv) (a : Answers) (s : State F) : Except AssertFailure (Bool × State F) := do
  let s := s.fputs p.idleStr
  if ¬ a.idleWritten then return (false, s)
  let (ready, s) := if p.tmoIsForever then (true, s) else reportTimeouts a.waits s
  if ¬ ready then return (false, s)
  let (ok, _, inp) ← loopUntilOk s.inp none
  return (ok, { s with inp })

/-- One iteration of the loop of `interact`. -/
def iteration (p : Priv) (a : Answers) (s : State F) : Except AssertFailure (Bool × State F) := do
  let (ok, kvSong, s) ← query (lit "currentsong\n") a.songWritten s.kvSong s
  let s := { s with kvSong }
  if ¬ ok then return (false, s)
  let (ok, kvStatus, s) ← query (lit "status\n") a.statusWritten s.kvStatus s
  let s := { s with kvStatus }
  if ¬ ok then return (false, s)
  let song ← kvStrarrTablePush s.kvSong
  let status ← kvStrarrTablePush s.kvStatus
  let s := s.call (.update song status)
  let s := { s with kvStatus := lsStrarrClear s.kvStatus, kvSong := lsStrarrClear s.kvSong }
  idle p a s

/-- The loop of `interact`, as far as the iterations are given. -/
def interactLoop (p : Priv) : List Answers → State F → Except AssertFailure (State F)
  | [], s => .ok s
  | a :: as, s => do
      let (ok, s) ← iteration p a s
      if ok then interactLoop p as s else return s

/-- `interact`. -/
def interact (p : Priv) (conn : Connection) : Except AssertFailure (State F) := do
  let s : State F := { inp := conn.received }
  if ¬ conn.fdopened then return s
  let (ok, s) ← handshake p conn s
  if ok then interactLoop p conn.iterations s else return s

/-! ## What a session is to report -/

/-- The body of the next response and the lines after it, nothing if the response fails or does not
end. -/
def response : List Bytes → Option (List Bytes × List Bytes)
  | [] => none
  | line :: ls =>
      if line = lit "OK" then some ([], ls)
      else if lit "ACK " <+: line then none
      else (response ls).map fun r => (line :: r.1, r.2)

/-- The table of a response: its key/value lines, the last one with a key winning. -/
def tableOf (body : List Bytes) : Table F :=
  Table.ofFields ((body.filterMap keyValue).map fun p => (p.1, .string p.2))

/-- The lines after the handshake, if it succeeds. -/
def afterHandshake (p : Priv) (conn : Connection) (ls : List Bytes) : Option (List Bytes) :=
  match ls with
  | [] => none
  | greeting :: ls =>
      if ¬ lit "OK MPD " <+: greeting then none
      else if p.password = none then some ls
      else if ¬ conn.passwordWritten then none
      else match ls with
        | [] => none
        | reply :: ls => if reply = lit "OK" then some ls else none

/-- The calls while waiting, and whether the wait ends with data. -/
def waitCalls : List Nfds → List (Call F) × Bool
  | [] => ([], false)
  | .failed :: _ => ([], false)
  | .timeout :: waits => (.report (lit "timeout") :: (waitCalls waits).1, (waitCalls waits).2)
  | .ready :: _ => ([], true)

/-- The response to a command that could be written. -/
def responseIf (written : Bool) (ls : List Bytes) : Option (List Bytes × List Bytes) :=
  if written then response ls else none

/-- The calls while the server is idle: the timeouts before its response.  With them, the lines
after the response if it ends. -/
def idleCalls (p : Priv) (a : Answers) (ls : List Bytes) : List (Call F) × Option (List Bytes) :=
  if a.idleWritten then
    let wait := if p.tmoIsForever then ([], true) else waitCalls a.waits
    (wait.1, (responseIf wait.2 ls).map Prod.snd)
  else ([], none)

/-- The calls of one iteration: an `update` with the tables of its two responses, and those while
the server is idle.  With them, the lines after the iteration if another one follows. -/
def iterationCalls (p : Priv) (a : Answers) (ls : List Bytes) :
    List (Call F) × Option (List Bytes) :=
  match responseIf a.songWritten ls with
  | none => ([], none)
  | some (song, ls) =>
      match responseIf a.statusWritten ls with
      | none => ([], none)
      | some (status, ls) =>
          let rest := idleCalls p a ls
          (.update (tableOf song) (tableOf status) :: rest.1, rest.2)

/-- The calls of the iterations.  Nothing follows a response that fails. -/
def expectedCalls (p : Priv) : List Answers → List Bytes → List (Call F)
  | [], _ => []
  | a :: as, ls =>
      (iterationCalls p a ls).1 ++
        match (iterationCalls (F := F) p a ls).2 with
        | none => []
        | some ls => expectedCalls p as ls

/-! ## Reading refines a list of lines -/

variable {inp line : Bytes} {ls body : List Bytes}

theorem readLine_of_not_mem (h : ch '\n' ∉ inp) (hne : inp ≠ []) :
    readLine inp = .ok (some (inp, [])) := by
  rw [readLine, if_neg hne, Lines.untilDelim_of_not_mem h]
  simp only [safevRstripOnce_of_not_mem h, ok_bind]
  rfl

theorem readLine_append_cons (h : ch '\n' ∉ line) (rest : Bytes) :
    readLine (line ++ ch '\n' :: rest) = .ok (some (line, rest)) := by
  rw [readLine, if_neg (by simp), Lines.untilDelim_append_cons h]
  simp only [safevRstripOnce_concat, ok_bind]
  rfl

theorem readLine_of_lines_eq_nil (h : Lines.lines (ch '\n') inp = []) :
    readLine inp = .ok none := by
  cases inp using Lines.delim_induction (ch '\n') with
  | rest s hs =>
      rw [Lines.lines_of_not_mem hs] at h
      split at h
      · rename_i he
        rw [he]
        rfl
      · cases h
  | chunk l r hl ih =>
      rw [Lines.lines_append_cons hl] at h
      cases h

theorem readLine_of_lines_eq_cons (h : Lines.lines (ch '\n') inp = line :: ls) :
    ∃ rest, readLine inp = .ok (some (line, rest)) ∧ Lines.lines (ch '\n') rest = ls := by
  cases inp using Lines.delim_induction (ch '\n') with
  | rest s hs =>
      rw [Lines.lines_of_not_mem hs] at h
      split at h
      · cases h
      · rename_i hne
        cases h
        exact ⟨[], readLine_of_not_mem hs hne, Lines.lines_of_not_mem (by simp)⟩
  | chunk l r hl ih =>
      rw [Lines.lines_append_cons hl] at h
      cases h
      exact ⟨r, readLine_append_cons hl r, rfl⟩

/-! ## One response -/

theorem loopUntilOk_of_none {kv : Option StringArray} (h : readLine inp = .ok none) :
    loopUntilOk inp kv = .ok (false, kv, inp) := by
  rw [loopUntilOk]
  split
  · rename_i e he
    rw [h] at he
    cases he
  · rfl
  · rename_i line rest hl
    rw [h] at hl
    cases hl

theorem loopUntilOk_of_line {kv : Option StringArray} {rest : Bytes}
    (h : readLine inp = .ok (some (line, rest))) :
    loopUntilOk inp kv =
      match responseType line with
      | .ok => .ok (true, kv, rest)
      | .ack => .ok (false, kv, rest)
      | .other =>
          match kv with
          | none => loopUntilOk rest none
          | some sa =>
              match appendLineToKvStrarr sa line with
              | .error e => .error e
              | .ok sa => loopUntilOk rest (some sa) := by
  rw [loopUntilOk]
  split
  · rename_i e he
    rw [h] at he
    cases he
  · rename_i hn
    rw [h] at hn
    cases hn
  · rename_i line' rest' hl
    rw [h] at hl
    cases hl
    rfl

theorem responseType_eq (line : Bytes) :
    responseType line =
      if line = lit "OK" then .ok else if lit "ACK " <+: line then .ack else .other := by
  simp only [responseType, safevEquals_iff, safevStartsWith_iff]

/-- A line of a body adds its pair to the array, if there is an array. -/
theorem loopUntilOk_other {kv : Option (List (Bytes × Bytes))} {rest : Bytes}
    (h : readLine inp = .ok (some (line, rest))) (ht : responseType line = .other) :
    loopUntilOk inp (kv.map ofPairs) =
      loopUntilOk rest ((kv.map (· ++ (keyValue line).toList)).map ofPairs) := by
  rw [loopUntilOk_of_line h, ht]
  cases kv with
  | none => rfl
  | some ps => simp only [Option.map_some, appendLineToKvStrarr_ofPairs]

/-- A response that ends adds the pairs of its body to the array, if there is an array. -/
theorem loopUntilOk_kv (hr : response (Lines.lines (ch '\n') inp) = some (body, ls))
    (kv : Option (List (Bytes × Bytes))) :
    ∃ rest, loopUntilOk inp (kv.map ofPairs) =
        .ok (true, (kv.map (· ++ body.filterMap keyValue)).map ofPairs, rest) ∧
      Lines.lines (ch '\n') rest = ls := by
  generalize hlines : Lines.lines (ch '\n') inp = all at hr
  induction all generalizing inp body kv with
  | nil => cases hr
  | cons line all ih =>
      obtain ⟨rest, hline, hrest⟩ := readLine_of_lines_eq_cons hlines
      have htype := responseType_eq line
      rw [response] at hr
      split at hr
      · rename_i hok
        rw [if_pos hok] at htype
        cases hr
        refine ⟨rest, ?_, hrest⟩
        rw [loopUntilOk_of_line hline, htype]
        cases kv <;> simp
      · rename_i hok
        rw [if_neg hok] at htype
        split at hr
        · cases hr
        · rename_i hack
          rw [if_neg hack] at htype
          obtain ⟨⟨body', ls'⟩, hr', he⟩ := Option.map_eq_some_iff.mp hr
          cases he
          obtain ⟨rest', hloop, hrest'⟩ := ih (kv.map (· ++ (keyValue line).toList)) hrest hr'
          refine ⟨rest', ?_, hrest'⟩
          rw [loopUntilOk_other hline htype, hloop]
          cases kv with
          | none => rfl
          | some ps => cases hkv : keyValue line <;> simp [hkv]

/-- A response that fails or does not end makes `loop_until_ok` fail. -/
theorem loopUntilOk_fail (hr : response (Lines.lines (ch '\n') inp) = none)
    (kv : Option (List (Bytes × Bytes))) :
    ∃ sa rest, loopUntilOk inp (kv.map ofPairs) = .ok (false, sa, rest) := by
  generalize hlines : Lines.lines (ch '\n') inp = all at hr
  induction all generalizing inp kv with
  | nil => exact ⟨_, _, loopUntilOk_of_none (readLine_of_lines_eq_nil hlines)⟩
  | cons line all ih =>
      obtain ⟨rest, hline, hrest⟩ := readLine_of_lines_eq_cons hlines
      have htype := responseType_eq line
      rw [response] at hr
      split at hr
      · cases hr
      · rename_i hok
        rw [if_neg hok] at htype
        split at hr
        · rename_i hack
          rw [if_pos hack] at htype
          refine ⟨kv.map ofPairs, rest, ?_⟩
          rw [loopUntilOk_of_line hline, htype]
        · rename_i hack
          rw [if_neg hack] at htype
          rw [loopUntilOk_other hline htype]
          exact ih _ hrest (Option.map_eq_none_iff.mp hr)

/-! ## The tables -/

theorem pairElems_getElem? (ps qs : List (Bytes × Bytes)) (k v : Bytes) :
    (pairElems (ps ++ (k, v) :: qs))[2 * ps.length]? = some k ∧
      (pairElems (ps ++ (k, v) :: qs))[2 * ps.length + 1]? = some v := by
  have hlen : (pairElems ps).length = 2 * ps.length := length_pairElems ps
  rw [pairElems_append, ← hlen, List.getElem?_append_right (Nat.le_refl _),
    List.getElem?_append_right (Nat.le_add_right _ 1), Nat.sub_self, Nat.add_sub_cancel_left]
  exact ⟨rfl, rfl⟩

theorem pushPairs_ofPairs (qs : List (Bytes × Bytes)) :
    ∀ (ps : List (Bytes × Bytes)) (t : Table F),
      pushPairs (ofPairs (ps ++ qs)) (2 * (ps ++ qs).length) (2 * ps.length) t =
        .ok (t.setFields (qs.map fun p => (p.1, .string p.2))) := by
  induction qs with
  | nil =>
      intro ps t
      rw [pushPairs, if_neg (by simp)]
      rfl
  | cons q qs ih =>
      intro ps t
      obtain ⟨k, v⟩ := q
      obtain ⟨hk, hv⟩ := pairElems_getElem? ps qs k v
      have hnext : 2 * ps.length + 2 = 2 * (ps ++ [(k, v)]).length := by simp; omega
      have hshift : ps ++ (k, v) :: qs = ps ++ [(k, v)] ++ qs := by simp
      rw [pushPairs, if_pos (by simp), ofPairs, lsStrarrAt_ofList hk, lsStrarrAt_ofList hv]
      change pushPairs (ofPairs _) _ _ _ = _
      rw [hnext, hshift, ih]
      rfl

/-- The table of an array of pairs; the assertion holds. -/
theorem kvStrarrTablePush_ofPairs (ps : List (Bytes × Bytes)) :
    kvStrarrTablePush (F := F) (ofPairs ps) =
      .ok (Table.ofFields (ps.map fun p => (p.1, .string p.2))) := by
  have hsize : lsStrarrSize (ofPairs ps) = 2 * ps.length := by
    rw [ofPairs, lsStrarrSize_ofList, length_pairElems]
  rw [kvStrarrTablePush, hsize, lsAssert_bind_of_pos (by omega)]
  have := pushPairs_ofPairs (F := F) ps [] Table.empty
  rw [List.nil_append, List.length_nil, Nat.mul_zero] at this
  rw [this, Table.setFields_empty]

/-! ## The session -/

theorem reportTimeouts_eq (waits : List Nfds) :
    ∀ s : State F,
      reportTimeouts waits s =
        ((waitCalls (F := F) waits).2, { s with calls := s.calls ++ (waitCalls waits).1 }) := by
  induction waits with
  | nil => intro s; simp [reportTimeouts, waitCalls]
  | cons w waits ih =>
      intro s
      cases w with
      | failed => simp [reportTimeouts, waitCalls]
      | ready => simp [reportTimeouts, waitCalls]
      | timeout => simp [reportTimeouts, waitCalls, ih, State.call]

/-- A command whose response ends adds its pairs to the array. -/
theorem query_of_response (command : Bytes) {written : Bool} (ps : List (Bytes × Bytes))
    (s : State F)
    (hr : responseIf written (Lines.lines (ch '\n') s.inp) = some (body, ls)) :
    ∃ rest, query command written (ofPairs ps) s =
        .ok (true, ofPairs (ps ++ body.filterMap keyValue),
          { s with inp := rest, written := s.written ++ command }) ∧
      Lines.lines (ch '\n') rest = ls := by
  rw [responseIf] at hr
  split at hr
  · rename_i hw
    obtain ⟨rest, hloop, hrest⟩ := loopUntilOk_kv hr (some ps)
    refine ⟨rest, ?_, hrest⟩
    rw [query, if_neg (not_not.mpr hw)]
    change (loopUntilOk s.inp ((some ps).map ofPairs) >>= _) = _
    rw [hloop, ok_bind]
    rfl
  · cases hr

theorem query_fail (command : Bytes) {written : Bool} (ps : List (Bytes × Bytes)) (s : State F)
    (hr : responseIf written (Lines.lines (ch '\n') s.inp) = none) :
    ∃ sa s', query command written (ofPairs ps) s = .ok (false, sa, s') ∧ s'.calls = s.calls := by
  rw [query]
  split
  · exact ⟨_, _, rfl, rfl⟩
  · rename_i hw
    rw [responseIf, if_pos (not_not.mp hw)] at hr
    obtain ⟨sa, rest, hloop⟩ := loopUntilOk_fail hr (some ps)
    change ∃ sa s', (loopUntilOk s.inp ((some ps).map ofPairs) >>= _) = _ ∧ _
    rw [hloop, ok_bind]
    exact ⟨_, _, rfl, rfl⟩

/-- The arrays hold no pairs. -/
def State.Clear (s : State F) : Prop := s.kvSong = ofPairs [] ∧ s.kvStatus = ofPairs []

/-- `s'` is what is left of `s` after the given calls, and if `next` is given the session goes on
with these lines and with empty arrays. -/
structure Leaves (s s' : State F) (calls : List (Call F)) (next : Option (List Bytes)) : Prop where
  calls : s'.calls = s.calls ++ calls
  next : ∀ ls ∈ next, Lines.lines (ch '\n') s'.inp = ls ∧ s'.Clear

/-- The calls while waiting, and whether there is data: at once if the timeout is infinite. -/
def waitOf (p : Priv) (a : Answers) : List (Call F) × Bool :=
  if p.tmoIsForever then ([], true) else waitCalls a.waits

theorem wait_eq (p : Priv) (a : Answers) (s : State F) :
    (if p.tmoIsForever then (true, s) else reportTimeouts a.waits s) =
      ((waitOf (F := F) p a).2, { s with calls := s.calls ++ (waitOf p a).1 }) := by
  rw [waitOf]
  split
  · simp
  · exact reportTimeouts_eq a.waits s

theorem idle_leaves (p : Priv) (a : Answers) {s : State F} (hs : s.Clear)
    {calls : List (Call F)} {next : Option (List Bytes)}
    (hc : idleCalls p a (Lines.lines (ch '\n') s.inp) = (calls, next)) :
    ∃ s', idle p a s = .ok (next.isSome, s') ∧ Leaves s s' calls next := by
  rw [idleCalls] at hc
  rw [idle, wait_eq]
  cases hw : a.idleWritten with
  | false =>
      rw [hw] at hc
      cases hc
      exact ⟨_, rfl, (List.append_nil _).symm, by simp⟩
  | true =>
      rw [hw, if_pos rfl] at hc
      change ((waitOf p a).1, (responseIf (waitOf p a).2 _).map Prod.snd) = _ at hc
      rw [if_neg (by simp)]
      cases hready : (waitOf (F := F) p a).2 with
      | false =>
          rw [hready] at hc
          cases hc
          exact ⟨_, rfl, rfl, by simp [responseIf]⟩
      | true =>
          rw [hready, responseIf, if_pos rfl] at hc
          cases hr : response (Lines.lines (ch '\n') s.inp) with
          | none =>
              rw [hr] at hc
              cases hc
              obtain ⟨sa, rest, hloop⟩ := loopUntilOk_fail hr none
              simp only [not_true_eq_false, if_false]
              change ∃ s', (loopUntilOk s.inp (Option.map ofPairs none) >>= _) = _ ∧ _
              rw [hloop, ok_bind]
              exact ⟨_, rfl, rfl, by simp⟩
          | some r =>
              obtain ⟨body, ls⟩ := r
              rw [hr] at hc
              cases hc
              obtain ⟨rest, hloop, hrest⟩ := loopUntilOk_kv hr none
              simp only [not_true_eq_false, if_false]
              change ∃ s', (loopUntilOk s.inp (Option.map ofPairs none) >>= _) = _ ∧ _
              rw [hloop, ok_bind]
              refine ⟨_, rfl, rfl, ?_⟩
              intro ls' hls
              cases hls
              exact ⟨hrest, hs⟩

/-- One iteration that starts with empty arrays makes the calls of its responses, and no assertion
fails. -/
theorem iteration_leaves (p : Priv) (a : Answers) {s : State F} (hs : s.Clear)
    {calls : List (Call F)} {next : Option (List Bytes)}
    (hc : iterationCalls p a (Lines.lines (ch '\n') s.inp) = (calls, next)) :
    ∃ s', iteration p a s = .ok (next.isSome, s') ∧ Leaves s s' calls next := by
  obtain ⟨hsong, hstatus⟩ := hs
  rw [iterationCalls] at hc
  rw [iteration, hsong]
  cases hr : responseIf a.songWritten (Lines.lines (ch '\n') s.inp) with
  | none =>
      rw [hr] at hc
      cases hc
      obtain ⟨sa, s1, hquery, hcalls⟩ := query_fail (lit "currentsong\n") [] s hr
      rw [hquery, ok_bind]
      exact ⟨_, rfl, by rw [hcalls, List.append_nil], by simp⟩
  | some r =>
  obtain ⟨song, ls1⟩ := r
  obtain ⟨rest1, hquery1, hrest1⟩ := query_of_response (lit "currentsong\n") [] s hr
  simp only [hr] at hc
  rw [hquery1, ok_bind]
  simp only [not_true_eq_false, if_false, List.nil_append, hstatus]
  let s1 : State F :=
    { s with inp := rest1, kvSong := ofPairs (song.filterMap keyValue), kvStatus := ofPairs [],
             written := s.written ++ lit "currentsong\n" }
  change ∃ s', (query (lit "status\n") a.statusWritten (ofPairs []) s1 >>= _) = _ ∧ _
  rw [← hrest1] at hc
  cases hr2 : responseIf a.statusWritten (Lines.lines (ch '\n') rest1) with
  | none =>
      rw [hr2] at hc
      cases hc
      obtain ⟨sa, s2, hquery, hcalls⟩ := query_fail (lit "status\n") [] s1 hr2
      rw [hquery, ok_bind]
      exact ⟨_, rfl, by rw [hcalls, List.append_nil], by simp⟩
  | some r2 =>
  obtain ⟨status, ls2⟩ := r2
  obtain ⟨rest2, hquery2, hrest2⟩ := query_of_response (lit "status\n") [] s1 hr2
  simp only [hr2] at hc
  rw [hquery2, ok_bind]
  simp only [not_true_eq_false, if_false, List.nil_append, s1, kvStrarrTablePush_ofPairs, ok_bind]
  cases hc
  rw [← hrest2]
  let s2 : State F :=
    { inp := rest2, kvSong := ofPairs [], kvStatus := ofPairs [],
      written := s.written ++ lit "currentsong\n" ++ lit "status\n",
      calls := s.calls ++ [.update (tableOf song) (tableOf status)] }
  obtain ⟨s', hidle, hleaves⟩ := idle_leaves p a (s := s2) ⟨rfl, rfl⟩ rfl
  refine ⟨s', hidle, ?_, hleaves.next⟩
  rw [hleaves.calls, List.append_assoc]
  rfl

theorem interactLoop_calls (p : Priv) (as : List Answers) :
    ∀ s : State F, s.Clear → ∃ s', interactLoop p as s = .ok s' ∧
      s'.calls = s.calls ++ expectedCalls p as (Lines.lines (ch '\n') s.inp) := by
  induction as with
  | nil => exact fun s _ => ⟨s, rfl, (List.append_nil _).symm⟩
  | cons a as ih =>
      intro s hs
      cases hc : iterationCalls (F := F) p a (Lines.lines (ch '\n') s.inp) with
      | mk calls next =>
      obtain ⟨s1, hiter, hcalls, hnext⟩ := iteration_leaves p a hs hc
      rw [interactLoop, hiter, ok_bind, expectedCalls, hc]
      cases next with
      | none => exact ⟨s1, rfl, by rw [hcalls, List.append_nil]⟩
      | some ls =>
          obtain ⟨hls, hclear⟩ := hnext ls rfl
          obtain ⟨s2, hloop, hcalls2⟩ := ih s1 hclear
          refine ⟨s2, hloop, ?_⟩
          rw [hcalls2, hcalls, hls, List.append_assoc]

theorem isGoodGreeting_iff {line : Bytes} :
    isGoodGreeting line = true ↔ lit "OK MPD " <+: line := safevStartsWith_iff

theorem responseType_eq_ok_iff {line : Bytes} : responseType line = .ok ↔ line = lit "OK" := by
  rw [responseType_eq]
  split
  · simp [*]
  · split <;> simp [*]

/-- The handshake makes no calls. -/
theorem handshake_leaves (p : Priv) (conn : Connection) {s : State F} (hs : s.Clear) :
    ∃ s', handshake p conn s =
        .ok ((afterHandshake p conn (Lines.lines (ch '\n') s.inp)).isSome, s') ∧
      Leaves s s' [] (afterHandshake p conn (Lines.lines (ch '\n') s.inp)) := by
  rw [handshake]
  cases hlines : Lines.lines (ch '\n') s.inp with
  | nil =>
      rw [readLine_of_lines_eq_nil hlines, ok_bind]
      exact ⟨s, rfl, (List.append_nil _).symm, by simp [afterHandshake]⟩
  | cons greeting ls =>
  obtain ⟨rest, hline, hrest⟩ := readLine_of_lines_eq_cons hlines
  rw [hline, ok_bind]
  unfold afterHandshake
  by_cases hgood : lit "OK MPD " <+: greeting
  · have hg : isGoodGreeting greeting = true := isGoodGreeting_iff.mpr hgood
    simp only [hg, hgood, not_true_eq_false, if_false]
    cases hp : p.password with
    | none =>
        refine ⟨_, rfl, (List.append_nil _).symm, ?_⟩
        intro ls' hls
        cases hls
        exact ⟨hrest, hs⟩
    | some password =>
        simp only [writeQuoted_eq, ok_bind, reduceCtorEq, if_false]
        by_cases hw : conn.passwordWritten = true
        · simp only [hw, not_true_eq_false, if_false]
          cases ls with
          | nil =>
              simp only [State.fputs, readLine_of_lines_eq_nil hrest, ok_bind]
              exact ⟨_, rfl, (List.append_nil _).symm, by simp⟩
          | cons reply ls =>
              obtain ⟨rest', hline', hrest'⟩ := readLine_of_lines_eq_cons hrest
              simp only [State.fputs, hline', ok_bind, responseType_eq_ok_iff]
              by_cases hok : reply = lit "OK"
              · rw [if_pos hok]
                rw [decide_eq_true hok]
                refine ⟨_, rfl, (List.append_nil _).symm, ?_⟩
                intro ls' hls
                cases hls
                exact ⟨hrest', hs⟩
              · rw [if_neg hok]
                rw [decide_eq_false hok]
                exact ⟨_, rfl, (List.append_nil _).symm, by simp⟩
        · simp only [hw]
          exact ⟨_, rfl, (List.append_nil _).symm, by simp⟩
  · have hg : ¬ isGoodGreeting greeting = true := fun h => hgood (isGoodGreeting_iff.mp h)
    simp only [hg, hgood, not_false_eq_true, if_true]
    exact ⟨_, rfl, (List.append_nil _).symm, by simp⟩

/-- In every session no assertion fails, and the calls are those of the responses. -/
theorem interact_calls (p : Priv) (conn : Connection) :
    ∃ s : State F, interact p conn = .ok s ∧
      s.calls =
        if conn.fdopened then
          ((afterHandshake p conn (Lines.lines (ch '\n') conn.received)).map
            (expectedCalls p conn.iterations)).getD []
        else [] := by
  rw [interact]
  cases hf : conn.fdopened with
  | false => exact ⟨_, rfl, rfl⟩
  | true =>
      obtain ⟨s, hshake, hcalls, hnext⟩ :=
        handshake_leaves (F := F) p conn (s := { inp := conn.received }) ⟨rfl, rfl⟩
      rw [if_neg (by simp)]
      simp only [hshake, ok_bind]
      cases hn : afterHandshake p conn (Lines.lines (ch '\n') conn.received) with
      | none => exact ⟨s, rfl, hcalls⟩
      | some ls =>
          obtain ⟨hls, hclear⟩ := hnext ls hn
          obtain ⟨s', hloop, hcalls'⟩ := interactLoop_calls p conn.iterations s hclear
          refine ⟨s', hloop, ?_⟩
          rw [hcalls', hcalls, hls]
          rfl

end Luastatus.Mpd
