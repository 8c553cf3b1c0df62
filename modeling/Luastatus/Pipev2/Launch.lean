import Luastatus.Lib.FdTable

/-!
# The pipes of a child process

`launch` makes a pipe for the child's standard output and, if asked to, one for its standard input,
and spawns the child with its ends of the pipes as descriptors 1 and 0.  The ends of the child are
closed in the parent, and the ends of the parent in the child; otherwise none of the two would see
that the other one has closed the pipe.

This has to be right whatever descriptors the parent has open.  If it has closed its standard
descriptors, the pipes may get the numbers 0 and 1 themselves.  `launch_spec` says what the two
tables are in every case, and that nothing is left behind if a call fails.
-/

namespace Luastatus.Pipev2

open FdTable

/-- The pipes that `launch` makes. -/
inductive PipeId where
  | stdin
  | stdout
deriving DecidableEq, Repr

/-- The ends of a pipe. -/
inductive PipeEnd where
  | read
  | write
deriving DecidableEq, Repr

/-- An open file: one of the parent's, or an end of a pipe. -/
inductive File (F : Type) where
  | other (f : F)
  | pipe (id : PipeId) (e : PipeEnd)
deriving DecidableEq

variable {F : Type}

/-- `Pipe`, if it is not empty. -/
structure Pipe where
  fd0 : Nat
  fd1 : Nat
  theirEnd : Fin 2
deriving DecidableEq, Repr

/-- `p->fds` -/
def Pipe.fds (p : Pipe) (i : Fin 2) : Nat := if i = 0 then p.fd0 else p.fd1

/-- `pipe2`, which fails if the process may have no more descriptors. -/
def pipe2 (t : Table (File F)) (id : PipeId) : Nat × Nat × Table (File F) :=
  let t' := t.install (.pipe id .read) true
  (t.lowest, t'.lowest, t'.install (.pipe id .write) true)

/-- `pipe_make`, if the pipe can be made: `unmake_cloexec` is done to their end. -/
def pipeMake (t : Table (File F)) (id : PipeId) (theirEnd : Fin 2) : Pipe × Table (File F) :=
  let (fd0, fd1, t) := pipe2 t id
  let p : Pipe := { fd0, fd1, theirEnd }
  (p, t.setCloexec (p.fds theirEnd) false)

/-- `pipe_finalize`; an empty pipe has no descriptor. -/
def pipeFinalize (t : Table (File F)) : Option Pipe → Option Nat × Table (File F)
  | none => (none, t)
  | some p => (some (p.fds (1 - p.theirEnd)), t.close (p.fds p.theirEnd))

/-- `pipe_destroy` -/
def pipeDestroy (t : Table (File F)) : Option Pipe → Table (File F)
  | none => t
  | some p => (t.close p.fd0).close p.fd1

/-- `add_redir` -/
def addRedir : Option Pipe → List Action
  | none => []
  | some p =>
      let fdOld := p.fds p.theirEnd
      let fdNew := p.theirEnd.val
      if fdOld = fdNew then [] else [.dup2 fdOld fdNew, .close fdOld]

/-- What the calls of `launch` answer: `errno` for one that fails. -/
structure Answers where
  pipeStdin : Option Nat
  pipeStdout : Option Nat
  spawn : Except Nat Nat

/-- `LaunchResult`; `none` is `-1`. -/
structure LaunchResult where
  pid : Nat
  fdStdin : Option Nat
  fdStdout : Option Nat
deriving DecidableEq, Repr

/-- `LaunchError` -/
structure LaunchError where
  fromWhere : String
  errnum : Nat
deriving DecidableEq, Repr

/-- What is there after `launch`: its result, the parent's table, and the child's one. -/
structure Launched (F : Type) where
  result : Except LaunchError LaunchResult
  parent : Table (File F)
  child : Option (Table (File F))

/-- The label `error`. -/
def launchError (err : LaunchError) (t : Table (File F)) (pStdin pStdout : Option Pipe) :
    Launched F :=
  { result := .error err
    parent := pipeDestroy (pipeDestroy t pStdin) pStdout
    child := none }

/-- `launch`, from the spawn on. -/
def launchSpawn (a : Answers) (t : Table (File F)) (pStdin : Option Pipe) (pStdout : Pipe) :
    Launched F :=
  match a.spawn, spawn t (addRedir pStdin ++ addRedir (some pStdout)) with
  | .ok pid, some child =>
      let (fdStdin, t) := pipeFinalize t pStdin
      let (fdStdout, t) := pipeFinalize t (some pStdout)
      { result := .ok { pid, fdStdin, fdStdout }, parent := t, child := some child }
  | .ok _, none => launchError ⟨"posix_spawnp", 9⟩ t pStdin (some pStdout)
  | .error errnum, _ => launchError ⟨"posix_spawnp", errnum⟩ t pStdin (some pStdout)

/-- `launch`, from the pipe for the standard output on. -/
def launchStdout (a : Answers) (t : Table (File F)) (pStdin : Option Pipe) : Launched F :=
  match a.pipeStdout with
  | some errnum => launchError ⟨"pipe", errnum⟩ t pStdin none
  | none =>
      let (pStdout, t) := pipeMake t .stdout 1
      launchSpawn a t pStdin pStdout

/-- `launch`, in a process with the table `t`. -/
def launch (a : Answers) (redirStdin : Bool) (t : Table (File F)) : Launched F :=
  if redirStdin then
    match a.pipeStdin with
    | some errnum => launchError ⟨"pipe", errnum⟩ t none none
    | none =>
        let (pStdin, t) := pipeMake t .stdin 0
        launchStdout a t (some pStdin)
  else launchStdout a t none

/-! ## What a pipe is -/

/-- The table `t'` is `t` with the pipe `p` in it. -/
structure Made (t : Table (File F)) (id : PipeId) (p : Pipe) (t' : Table (File F)) : Prop where
  lt : p.fd0 < p.fd1
  free0 : t.get p.fd0 = none
  free1 : t.get p.fd1 = none
  used : ∀ n, n < p.fd1 → n ≠ p.fd0 → (t.get n).isSome
  get : ∀ n, t'.get n =
    if n = p.fd0 then some ⟨.pipe id .read, p.theirEnd ≠ 0⟩
    else if n = p.fd1 then some ⟨.pipe id .write, p.theirEnd ≠ 1⟩
    else t.get n

theorem made_pipeMake (t : Table (File F)) (id : PipeId) (e : Fin 2) :
    Made t id (pipeMake t id e).1 (pipeMake t id e).2 ∧ (pipeMake t id e).1.theirEnd = e := by
  have hlt : t.lowest < (t.install (.pipe id .read) true).lowest := Table.lowest_lt_install
  have hfree := Table.get_lowest (t := t.install (.pipe id .read) true)
  have hused {n : Nat} (hn : n < (t.install (.pipe id .read) true).lowest) (hne : n ≠ t.lowest) :
      (t.get n).isSome := by
    have hsome := Table.get_isSome_of_lt hn
    rwa [Table.install, Table.get_set_of_ne hne] at hsome
  generalize hw : (t.install (.pipe id .read) true).lowest = w at *
  refine ⟨?_, rfl⟩
  have hfd : (pipeMake t id e).1 = ⟨t.lowest, w, e⟩ := by
    rw [← hw]
    rfl
  rw [hfd]
  refine ⟨hlt, Table.get_lowest, ?_, fun n hn hne => hused hn hne, fun n => ?_⟩
  · rwa [Table.install, Table.get_set_of_ne (Nat.ne_of_gt hlt)] at hfree
  · have htable : (pipeMake t id e).2 =
        ((t.install (.pipe id .read) true).set w (some ⟨.pipe id .write, true⟩)).setCloexec
          (if e = 0 then t.lowest else w) false := by
      rw [← hw]
      rfl
    rw [htable]
    simp only [Table.setCloexec, Table.install, Table.get_set]
    have hne : t.lowest ≠ w := Nat.ne_of_lt hlt
    revert e
    simp only [Fin.forall_fin_two]
    constructor
    · by_cases h0 : n = t.lowest <;> by_cases h1 : n = w <;> simp_all
    · by_cases h0 : n = t.lowest <;> by_cases h1 : n = w <;> simp_all

variable {t t' : Table (File F)} {id : PipeId} {p : Pipe}

/-- Without its two ends, the table is what it was. -/
theorem Made.close_close (h : Made t id p t') : (t'.close p.fd0).close p.fd1 = t := by
  ext1
  funext n
  simp only [Table.close, Table.get_set, h.get]
  split
  · rename_i hn
    rw [hn, h.free1]
  · split
    · rename_i hn
      rw [hn, h.free0]
    · rfl

theorem Made.free_of_free (h : Made t id p t') {n : Nat} (hn : t'.get n = none) :
    t.get n = none := by
  rw [h.get] at hn
  split at hn
  · cases hn
  · split at hn
    · cases hn
    · exact hn

/-- The pipe that is made second has higher descriptors. -/
theorem Made.lt_of_made {t'' : Table (File F)} {id' : PipeId} {q : Pipe} (h : Made t id p t')
    (h' : Made t' id' q t'') : p.fd1 < q.fd0 := by
  have hfree := h'.free0
  rw [h.get] at hfree
  have h0 : q.fd0 ≠ p.fd0 := by
    intro he
    rw [if_pos he] at hfree
    cases hfree
  have h1 : q.fd0 ≠ p.fd1 := by
    intro he
    rw [if_neg h0, if_pos he] at hfree
    cases hfree
  rw [if_neg h0, if_neg h1] at hfree
  by_contra hle
  have hsome := h.used q.fd0 (by omega) h0
  rw [hfree] at hsome
  cases hsome

/-! ## The child -/

/-- What the child must have: its ends of the pipes as standard descriptors, and else what it
inherits from the parent as it was before the call. -/
structure ChildTable (redirStdin : Bool) (T : Table F) (child : Table (File F)) : Prop where
  stdout : child.get 1 = some ⟨.pipe .stdout .write, false⟩
  stdin : redirStdin = true → child.get 0 = some ⟨.pipe .stdin .read, false⟩
  rest : ∀ n, n ≠ 1 → (redirStdin = true → n ≠ 0) → child.get n = (T.exec.map File.other).get n

/-- What the parent must have: its ends of the pipes, and else what it had. -/
structure ParentTable (redirStdin : Bool) (T : Table F) (res : LaunchResult)
    (parent : Table (File F)) : Prop where
  stdout : ∃ n, res.fdStdout = some n ∧ T.get n = none ∧
    parent.get n = some ⟨.pipe .stdout .read, true⟩
  stdin : if redirStdin then ∃ n, res.fdStdin = some n ∧ T.get n = none ∧
      parent.get n = some ⟨.pipe .stdin .write, true⟩ else res.fdStdin = none
  rest : ∀ n, res.fdStdout ≠ some n → res.fdStdin ≠ some n →
    parent.get n = (T.map File.other).get n

variable {T : Table F}

theorem get_exec_map {n : Nat} (h : (T.map File.other).get n = none) :
    (T.exec.map File.other).get n = none := by
  rw [Table.get_map, Option.map_eq_none_iff] at h
  simp [h]

theorem get_filter_map {n : Nat} : (((T.map File.other).get n).filter fun e => !e.cloexec) =
    (T.exec.map File.other).get n := by
  rw [Table.get_map, Table.get_map, Table.get_exec]
  cases T.get n with
  | none => rfl
  | some e =>
      obtain ⟨f, c⟩ := e
      cases c <;> rfl

/-- What the actions for a pipe do: its end is moved to the standard descriptor, which may be where
it is already. -/
theorem foldlM_addRedir {u : Table (File F)} {f : File F}
    (hold : u.get (p.fds p.theirEnd) = some ⟨f, false⟩) :
    ∃ u', (addRedir (some p)).foldlM Action.apply u = some u' ∧
      ∀ n, u'.get n = if n = p.theirEnd.val then some ⟨f, false⟩
        else if n = p.fds p.theirEnd then none else u.get n := by
  unfold addRedir
  by_cases hsame : p.fds p.theirEnd = p.theirEnd.val
  · refine ⟨u, by simp only [if_pos hsame]; rfl, fun n => ?_⟩
    by_cases hn : n = p.theirEnd.val
    · rw [if_pos hn, hn, ← hsame, hold]
    · rw [if_neg hn, if_neg (by omega)]
  · have hkept : (u.set p.theirEnd.val (some ⟨f, false⟩)).get (p.fds p.theirEnd) =
        some ⟨f, false⟩ := by
      rw [Table.get_set_of_ne hsame, hold]
    refine ⟨(u.set p.theirEnd.val (some ⟨f, false⟩)).close (p.fds p.theirEnd), ?_, fun n => ?_⟩
    · simp only [if_neg hsame, List.foldlM_cons, List.foldlM_nil, Action.apply, hold,
        Option.map_some]
      simp [hkept]
    · rw [Table.close, Table.get_set, Table.get_set]
      by_cases hn : n = p.theirEnd.val
      · rw [if_neg (by omega), if_pos hn, if_pos hn]
      · rw [if_neg hn, if_neg hn]

/-- The child, if only its standard output is a pipe. -/
theorem spawn_stdout (h : Made (T.map .other) .stdout p t') (hp : p.theirEnd = 1) :
    ∃ child, spawn t' (addRedir none ++ addRedir (some p)) = some child ∧
      ChildTable false T child := by
  obtain ⟨s, x, e⟩ := p
  obtain rfl : e = 1 := hp
  have hlt : s < x := h.lt
  have hold : t'.get x = some ⟨.pipe .stdout .write, false⟩ := by
    rw [h.get, if_neg (Nat.ne_of_gt hlt), if_pos rfl]
    rfl
  obtain ⟨u, hu, hget⟩ := foldlM_addRedir (p := ⟨s, x, 1⟩) hold
  have hget' (n : Nat) : u.get n = if n = 1 then some ⟨.pipe .stdout .write, false⟩
      else if n = x then none else t'.get n := hget n
  refine ⟨u.exec, by rw [spawn, addRedir, List.nil_append, hu]; rfl, ?_,
    (fun h => by cases h), fun n hn _ => ?_⟩
  · rw [Table.get_exec, hget', if_pos rfl]
    rfl
  · rw [Table.get_exec, hget', if_neg hn, h.get]
    by_cases hx : n = x
    · rw [if_pos hx, get_exec_map (hx ▸ h.free1)]
      rfl
    by_cases hs : n = s
    · rw [if_neg hx, if_pos hs, get_exec_map (hs ▸ h.free0)]
      rfl
    · rw [if_neg hx, if_neg hs, if_neg hx, get_filter_map]

/-- The child, if both are pipes. -/
theorem spawn_both {t'' : Table (File F)} {q : Pipe} (hp : Made (T.map .other) .stdin p t')
    (hq : Made t' .stdout q t'') (hpe : p.theirEnd = 0) (hqe : q.theirEnd = 1) :
    ∃ child, spawn t'' (addRedir (some p) ++ addRedir (some q)) = some child ∧
      ChildTable true T child := by
  have hhigher := hp.lt_of_made hq
  obtain ⟨r, w, e⟩ := p
  obtain ⟨s, x, e'⟩ := q
  obtain rfl : e = 0 := hpe
  obtain rfl : e' = 1 := hqe
  have hrw : r < w := hp.lt
  have hws : w < s := hhigher
  have hsx : s < x := hq.lt
  have hread : t''.get r = some ⟨.pipe .stdin .read, false⟩ := by
    rw [hq.get, if_neg (by simp only; omega), if_neg (by simp only; omega), hp.get, if_pos rfl]
    rfl
  have hwrite : t''.get x = some ⟨.pipe .stdout .write, false⟩ := by
    rw [hq.get, if_neg (by simp only; omega), if_pos rfl]
    rfl
  obtain ⟨u, hu, hget⟩ := foldlM_addRedir (p := ⟨r, w, 0⟩) hread
  have hget' (n : Nat) : u.get n = if n = 0 then some ⟨.pipe .stdin .read, false⟩
      else if n = r then none else t''.get n := hget n
  have hwrite' : u.get x = some ⟨.pipe .stdout .write, false⟩ := by
    rw [hget', if_neg (by omega), if_neg (by omega), hwrite]
  obtain ⟨v, hv, hgetv⟩ := foldlM_addRedir (p := ⟨s, x, 1⟩) hwrite'
  have hgetv' (n : Nat) : v.get n = if n = 1 then some ⟨.pipe .stdout .write, false⟩
      else if n = x then none else u.get n := hgetv n
  refine ⟨v.exec, ?_, ?_, fun _ => ?_, fun n hn hn' => ?_⟩
  · rw [spawn, List.foldlM_append, hu]
    show ((addRedir (some ⟨s, x, 1⟩)).foldlM Action.apply u).map Table.exec = _
    rw [hv]
    rfl
  · rw [Table.get_exec, hgetv', if_pos rfl]
    rfl
  · rw [Table.get_exec, hgetv', if_neg (by omega), if_neg (by omega), hget', if_pos rfl]
    rfl
  · have hn0 : n ≠ 0 := hn' rfl
    rw [Table.get_exec, hgetv', if_neg hn, hget', if_neg hn0, hq.get, hp.get]
    by_cases hx : n = x
    · rw [if_pos hx, get_exec_map (hx ▸ hp.free_of_free hq.free1)]
      rfl
    by_cases hr : n = r
    · rw [if_neg hx, if_pos hr, get_exec_map (hr ▸ hp.free0)]
      rfl
    by_cases hs : n = s
    · rw [if_neg hx, if_neg hr, if_pos hs, get_exec_map (hs ▸ hp.free_of_free hq.free0)]
      rfl
    by_cases hw : n = w
    · rw [if_neg hx, if_neg hr, if_neg hs, if_neg hx, if_neg hr, if_pos hw,
        get_exec_map (hw ▸ hp.free1)]
      rfl
    · rw [if_neg hx, if_neg hr, if_neg hs, if_neg hx, if_neg hr, if_neg hw, get_filter_map]

/-! ## The parent -/

/-- The parent closes its copy of the child's end. -/
theorem parent_stdout (h : Made (T.map .other) .stdout p t') (hp : p.theirEnd = 1) (pid : Nat) :
    ParentTable false T ⟨pid, none, some p.fd0⟩ (t'.close p.fd1) := by
  have hne : p.fd0 ≠ p.fd1 := Nat.ne_of_lt h.lt
  have hfree {n : Nat} (hn : (T.map File.other).get n = none) : T.get n = none := by
    rwa [Table.get_map, Option.map_eq_none_iff] at hn
  refine ⟨⟨p.fd0, rfl, hfree h.free0, ?_⟩, rfl, fun n hn _ => ?_⟩
  · rw [Table.close, Table.get_set, if_neg hne, h.get, if_pos rfl, hp]
    rfl
  · have hn0 : n ≠ p.fd0 := fun he => hn (congrArg some he.symm)
    rw [Table.close, Table.get_set, h.get, if_neg hn0]
    split
    · rename_i he
      rw [he, h.free1]
    · rfl

theorem parent_both {t'' : Table (File F)} {q : Pipe} (hp : Made (T.map .other) .stdin p t')
    (hq : Made t' .stdout q t'') (hpe : p.theirEnd = 0) (hqe : q.theirEnd = 1) (pid : Nat) :
    ParentTable true T ⟨pid, some p.fd1, some q.fd0⟩ ((t''.close p.fd0).close q.fd1) := by
  have hhigher := hp.lt_of_made hq
  have hlt := hp.lt
  have hlt' := hq.lt
  have hfree {n : Nat} (hn : (T.map File.other).get n = none) : T.get n = none := by
    rwa [Table.get_map, Option.map_eq_none_iff] at hn
  refine ⟨⟨q.fd0, rfl, hfree (hp.free_of_free hq.free0), ?_⟩,
    ⟨p.fd1, rfl, hfree hp.free1, ?_⟩, fun n hn hn' => ?_⟩
  · simp only [Table.close, Table.get_set]
    rw [if_neg (by omega), if_neg (by omega), hq.get, if_pos rfl, hqe]
    rfl
  · simp only [Table.close, Table.get_set]
    rw [if_neg (by omega), if_neg (by omega), hq.get, if_neg (by omega), if_neg (by omega), hp.get,
      if_neg (by omega), if_pos rfl, hpe]
    rfl
  · have hnq : n ≠ q.fd0 := fun he => hn (congrArg some he.symm)
    have hnp : n ≠ p.fd1 := fun he => hn' (congrArg some he.symm)
    simp only [Table.close, Table.get_set, hq.get, hp.get, if_neg hnq, if_neg hnp]
    by_cases hx : n = q.fd1
    · rw [if_pos hx, hx, hp.free_of_free hq.free1]
    · by_cases hr : n = p.fd0
      · rw [if_neg hx, if_pos hr, hr, hp.free0]
      · rw [if_neg hx, if_neg hr, if_neg hx, if_neg hr]

/-- If something fails, both pipes are closed. -/
theorem destroy_both {t'' : Table (File F)} {q : Pipe} (hp : Made t .stdin p t')
    (hq : Made t' .stdout q t'') : pipeDestroy (pipeDestroy t'' (some p)) (some q) = t := by
  have hhigher := hp.lt_of_made hq
  have hlt := hp.lt
  have hlt' := hq.lt
  ext1
  funext n
  simp only [pipeDestroy, Table.close, Table.get_set, hq.get, hp.get]
  by_cases hx : n = q.fd1
  · rw [if_pos hx, hx, hp.free_of_free hq.free1]
  by_cases hs : n = q.fd0
  · rw [if_neg hx, if_pos hs, hs, hp.free_of_free hq.free0]
  by_cases hw : n = p.fd1
  · rw [if_neg hx, if_neg hs, if_pos hw, hw, hp.free1]
  by_cases hr : n = p.fd0
  · rw [if_neg hx, if_neg hs, if_neg hw, if_pos hr, hr, hp.free0]
  · simp only [if_neg hx, if_neg hs, if_neg hw, if_neg hr]

/-! ## Both processes -/

/-- `launch` leaves the parent's table alone, or both processes have what they must have. -/
def Launched.Right (redirStdin : Bool) (T : Table F) (a : Answers) (l : Launched F) : Prop :=
  match l.result with
  | .error _ => l.parent = T.map .other ∧ l.child = none
  | .ok res => a.spawn = .ok res.pid ∧ ParentTable redirStdin T res l.parent ∧
      ∃ child, l.child = some child ∧ ChildTable redirStdin T child

theorem launchSpawn_right {a : Answers} {redirStdin : Bool} {pStdin : Option Pipe} {pStdout : Pipe}
    (hchild : ∃ child, spawn t' (addRedir pStdin ++ addRedir (some pStdout)) = some child ∧
      ChildTable redirStdin T child)
    (hparent : ∀ pid, ParentTable redirStdin T ⟨pid, (pipeFinalize t' pStdin).1,
      some (pStdout.fds (1 - pStdout.theirEnd))⟩
      ((pipeFinalize t' pStdin).2.close (pStdout.fds pStdout.theirEnd)))
    (hback : pipeDestroy (pipeDestroy t' pStdin) (some pStdout) = T.map .other) :
    (launchSpawn a t' pStdin pStdout).Right redirStdin T a ∧
      (a.spawn.isOk = true → (launchSpawn a t' pStdin pStdout).result.isOk = true) := by
  obtain ⟨child, hspawn, hchild⟩ := hchild
  unfold launchSpawn
  rw [hspawn]
  cases hans : a.spawn with
  | error errnum => exact ⟨⟨hback, rfl⟩, fun h => by cases h⟩
  | ok pid => exact ⟨⟨hans, hparent pid, child, rfl, hchild⟩, fun _ => rfl⟩

/-- `launch` without a pipe for the standard input. -/
theorem launchStdout_none (a : Answers) (T : Table F) :
    (launchStdout a (T.map .other) none).Right false T a ∧
      (a.pipeStdout = none → a.spawn.isOk = true →
        (launchStdout a (T.map .other) none).result.isOk = true) := by
  obtain ⟨hmade, hend⟩ := made_pipeMake (T.map .other) .stdout 1
  unfold launchStdout
  cases a.pipeStdout with
  | some errnum => exact ⟨⟨rfl, rfl⟩, fun h => by cases h⟩
  | none =>
      obtain ⟨hright, hok⟩ := launchSpawn_right (a := a) (spawn_stdout hmade hend)
        (parent_stdout hmade hend) hmade.close_close
      exact ⟨hright, fun _ => hok⟩

/-- `launch` from the second pipe on. -/
theorem launchStdout_some (a : Answers) (hp : Made (T.map .other) .stdin p t')
    (hpe : p.theirEnd = 0) :
    (launchStdout a t' (some p)).Right true T a ∧
      (a.pipeStdout = none → a.spawn.isOk = true →
        (launchStdout a t' (some p)).result.isOk = true) := by
  obtain ⟨hmade, hend⟩ := made_pipeMake t' .stdout 1
  unfold launchStdout
  cases a.pipeStdout with
  | some errnum => exact ⟨⟨hp.close_close, rfl⟩, fun h => by cases h⟩
  | none =>
      obtain ⟨hright, hok⟩ := launchSpawn_right (a := a) (spawn_both hp hmade hpe hend)
        (fun pid => by
          simp only [pipeFinalize, hpe, hend]
          exact parent_both hp hmade hpe hend pid)
        (destroy_both hp hmade)
      exact ⟨hright, fun _ => hok⟩

/-- Whatever descriptors the process has open, and whichever call fails: if `launch` fails, the
table is what it was and there is no child; otherwise the child has its ends of the pipes as
standard descriptors, the parent has the other ends, nobody has an end that is not its own, and all
other descriptors are as before.  And `launch` fails only if a call does. -/
theorem launch_spec (a : Answers) (redirStdin : Bool) (T : Table F) :
    (launch a redirStdin (T.map .other)).Right redirStdin T a ∧
      ((redirStdin = true → a.pipeStdin = none) → a.pipeStdout = none → a.spawn.isOk = true →
        (launch a redirStdin (T.map .other)).result.isOk = true) := by
  cases redirStdin with
  | false =>
      obtain ⟨hright, hok⟩ := launchStdout_none a T
      exact ⟨hright, fun _ => hok⟩
  | true =>
      obtain ⟨hmade, hend⟩ := made_pipeMake (T.map .other) .stdin 0
      obtain ⟨hright, hok⟩ := launchStdout_some a hmade hend
      unfold launch
      rw [if_pos rfl]
      cases a.pipeStdin with
      | some errnum => exact ⟨⟨rfl, rfl⟩, fun h => by cases h rfl⟩
      | none => exact ⟨hright, fun _ => hok⟩

end Luastatus.Pipev2
