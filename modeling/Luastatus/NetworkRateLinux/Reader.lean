import Luastatus.Lua.Fields

/-!
# The network rate reader

`reader_read` reads `/proc/net/dev` and reports, for each interface, how much its two counters grew
since the last query.  The reader keeps the last value of each counter in a table and never clears
it, so an interface that comes back after an absence is compared with what it was before.

`Law` says what is to be reported, by the snapshots of a query and of the one before.
`run_remembers` says what the tables hold after any queries, and `readerRead_lawful_iff` when the
next query follows the law.
-/

namespace Luastatus.NetworkRateLinux

open Text (Byte Bytes isSpace ch lit)
open Lua Lua.Pattern

/-! ## The reader -/

/-- One of the two parts of `LINE_PATTERN`: a counter to capture and seven others. -/
def half : List Item :=
  [.plus .space, .openCapture, .plus .digit, .closeCapture] ++
    (List.replicate 7 [.plus .space, .plus .digit]).flatten

/-- `LINE_PATTERN`, without the `^`. -/
def linePattern : List Item :=
  [.star .space, .openCapture, .plus .nonSpace, .closeCapture, .one (.char (ch ':'))] ++
    (half ++ (half ++ [.star .space, .atEnd]))

/-- What is reported about an interface. -/
structure Datum where
  R : LuaNum
  S : LuaNum
deriving DecidableEq, Repr

/-- What `reader_new` creates. -/
structure Reader where
  ifaceFilter : Bytes → Bool
  lastRecv : Bytes → Option LuaNum
  lastSent : Bytes → Option LuaNum

/-- `reader_new` -/
def readerNew (ifaceFilter : Bytes → Bool) : Reader where
  ifaceFilter := ifaceFilter
  lastRecv := fun _ => none
  lastSent := fun _ => none

/-- The value of `datum` in `parse_line`. -/
def datum (reader : Reader) (divisor : LuaNum) (iface : Bytes) (recv sent : LuaNum) :
    Option Datum :=
  match reader.lastRecv iface, reader.lastSent iface with
  | some prevRecv, some prevSent =>
      let deltaRecv := recv - prevRecv
      let deltaSent := sent - prevSent
      if ((LuaNum.fin 0).le deltaRecv ∧ (LuaNum.fin 0).le deltaSent) ∧
          ((LuaNum.fin 0).lt recv ∨ (LuaNum.fin 0).lt sent) then
        some ⟨deltaRecv / divisor, deltaSent / divisor⟩
      else none
  | _, _ => none

/-- The assignments to the tables in `parse_line`. -/
def Reader.remember (reader : Reader) (iface : Bytes) (recv sent : LuaNum) : Reader :=
  { reader with
    lastRecv := Function.update reader.lastRecv iface (some recv)
    lastSent := Function.update reader.lastSent iface (some sent) }

/-- `parse_line`: an interface with its datum, and the reader.  Nothing is assigned before an
assertion that fails. -/
def parseLine (line : Bytes) (reader : Reader) (divisor : LuaNum) :
    Except LuaError (Option (Bytes × Datum) × Reader) :=
  match matchAnchored linePattern line with
  | some [iface, recvStr, sentStr] =>
      if reader.ifaceFilter iface then
        match tonumber recvStr, tonumber sentStr with
        | some recv, some sent =>
            .ok ((datum reader divisor iface recv sent).map fun d => (iface, d),
              reader.remember iface recv sent)
        | _, _ => .error (.error (lit "assertion failed!"))
      else .ok (none, reader)
  | _ => .ok (none, reader)

/-- The result of `reader_read`. -/
inductive Rates where
  | array (items : List (Bytes × Datum))
  | dict (get : Bytes → Option Datum)

/-- Store a datum in the result. -/
def Rates.add (iface : Bytes) (d : Datum) : Rates → Rates
  | array items => array (items ++ [(iface, d)])
  | dict get => dict (Function.update get iface (some d))

/-- The loop of `reader_read`. -/
def readLines (divisor : LuaNum) : List Bytes → Reader → Rates → Except LuaError Rates × Reader
  | [], reader, res => (.ok res, reader)
  | line :: lines, reader, res =>
      if ch '|' ∈ line then readLines divisor lines reader res
      else
        match parseLine line reader divisor with
        | .error e => (.error e, reader)
        | .ok (none, reader) => readLines divisor lines reader res
        | .ok (some (iface, d), reader) => readLines divisor lines reader (res.add iface d)

/-- `reader_read`, given the lines of the file or why it cannot be opened. -/
def readerRead (reader : Reader) (f : Except Bytes (List Bytes)) (divisor : LuaNum)
    (inArrayForm : Bool) : Except LuaError Rates × Reader :=
  match f with
  | .error msg => (.error (.error msg), reader)
  | .ok lines =>
      readLines divisor lines reader (if inArrayForm then .array [] else .dict fun _ => none)

/-! ## Snapshots -/

/-- The line of an interface. -/
structure Dev where
  pad : Bytes
  name : Bytes
  recv : Field
  /-- The seven counters behind the bytes received. -/
  recvRest : List Field
  sent : Field
  /-- The seven counters behind the bytes sent. -/
  sentRest : List Field
  trail : Bytes
  pad_space : ∀ b ∈ pad, isSpace b = true
  name_ne : name ≠ []
  name_nonSpace : ∀ b ∈ name, isSpace b = false
  recvRest_length : recvRest.length = 7
  sentRest_length : sentRest.length = 7
  trail_space : ∀ b ∈ trail, isSpace b = true

/-- The line itself. -/
def Dev.line (d : Dev) : Bytes :=
  d.pad ++ (d.name ++ ch ':' :: (d.recv.bytes ++ (d.recvRest.flatMap Field.bytes ++
    (d.sent.bytes ++ (d.sentRest.flatMap Field.bytes ++ d.trail)))))

/-- What `/proc/net/dev` shows at a time. -/
structure Snapshot where
  headers : List Bytes
  devs : List Dev
  headers_bar : ∀ h ∈ headers, ch '|' ∈ h
  nodup : (devs.map Dev.name).Nodup

/-- The lines of the file. -/
def Snapshot.lines (s : Snapshot) : List Bytes := s.headers ++ s.devs.map Dev.line

/-- A call of `reader_read`. -/
structure Query where
  snapshot : Snapshot
  divisor : LuaNum
  inArrayForm : Bool

/-- A query and the reader after it. -/
def Reader.read (reader : Reader) (q : Query) : Except LuaError Rates × Reader :=
  readerRead reader (.ok q.snapshot.lines) q.divisor q.inArrayForm

/-- The reader after some queries. -/
def run (ifaceFilter : Bytes → Bool) (qs : List Query) : Reader :=
  qs.foldl (fun reader q => (reader.read q).2) (readerNew ifaceFilter)

/-! ## What is to be reported -/

/-- The result has a datum for the interface. -/
def Rates.Reports (iface : Bytes) (d : Datum) : Rates → Prop
  | array items => (iface, d) ∈ items
  | dict get => get iface = some d

/-- No counter decreased, and one of them is not zero. -/
def Dev.Grew (prev cur : Dev) : Prop :=
  prev.recv.value ≤ cur.recv.value ∧ prev.sent.value ≤ cur.sent.value ∧
    (0 < cur.recv.value ∨ 0 < cur.sent.value)

instance (prev cur : Dev) : Decidable (prev.Grew cur) := inferInstanceAs (Decidable (_ ∧ _))

/-- The differences divided by the divisor. -/
def Dev.rate (prev cur : Dev) (divisor : LuaNum) : Datum where
  R := .fin (cur.recv.value - prev.recv.value) / divisor
  S := .fin (cur.sent.value - prev.sent.value) / divisor

/-- The datum of an interface by the snapshot of a query and of the one before. -/
def Law (ifaceFilter : Bytes → Bool) (before : Option Query) (q : Query) (iface : Bytes)
    (d : Datum) : Prop :=
  ifaceFilter iface = true ∧ ∃ q' ∈ before, ∃ prev ∈ q'.snapshot.devs, ∃ cur ∈ q.snapshot.devs,
    prev.name = iface ∧ cur.name = iface ∧ prev.Grew cur ∧ d = prev.rate cur q.divisor

/-- The query reports what the law says. -/
def Lawful (ifaceFilter : Bytes → Bool) (before : List Query) (q : Query) : Prop :=
  ∃ rates, ((run ifaceFilter before).read q).1 = .ok rates ∧
    ∀ iface d, rates.Reports iface d ↔ Law ifaceFilter before.getLast? q iface d

/-! ## Matching a line -/

section Match

variable {p : List Item} {t : Bytes} {caps r : List Capture}

theorem outside_fields {fs : List Field} (ht : Outside .digit t) :
    Outside .digit (fs.flatMap Field.bytes ++ t) :=
  Field.head_fields (fun _ => test_digit_space) ht

theorem doMatch_fields (fs : List Field) (ht : Outside .digit t) (h : doMatch p t caps = some r) :
    doMatch ((List.replicate fs.length [.plus .space, .plus .digit]).flatten ++ p)
      (fs.flatMap Field.bytes ++ t) caps = some r := by
  induction fs with
  | nil => exact h
  | cons f fs ih =>
      rw [List.flatMap_cons, List.append_assoc]
      exact f.doMatch_skip (outside_fields ht) ih

theorem doMatch_half {f : Field} {fs : List Field} (hlength : fs.length = 7)
    (ht : Outside .digit t) (h : doMatch p t (.closed f.digits :: caps) = some r) :
    doMatch (half ++ p) (f.bytes ++ (fs.flatMap Field.bytes ++ t)) caps = some r := by
  have hrest := doMatch_fields fs ht h
  rw [hlength] at hrest
  exact f.doMatch_capture f.digits_digit (outside_fields ht) hrest

theorem doMatch_name {name rest : Bytes} (hne : name ≠ [])
    (hname : ∀ b ∈ name, isSpace b = false) (hrest : rest ≠ [])
    (hspace : ∀ b ∈ rest.head?, isSpace b = true)
    (h : doMatch p rest (.closed name :: caps) = some r) :
    doMatch (.openCapture :: .plus .nonSpace :: .closeCapture :: .one (.char (ch ':')) :: p)
      (name ++ ch ':' :: rest) caps = some r := by
  rw [doMatch_openCapture]
  refine doMatch_plus_back hne ⟨?_, ?_⟩ ?_ ?_
  · intro b hb
    rcases List.mem_append.mp hb with hb | hb
    · exact congrArg not (hname b hb)
    · rw [List.mem_singleton.mp hb]
      rfl
  · exact fun b hb => congrArg not (hspace b hb)
  · obtain ⟨b, rest, rfl⟩ := List.exists_cons_of_ne_nil hrest
    have hb : isSpace b = true := hspace b rfl
    have hcolon : ch ':' ≠ b := by
      rintro rfl
      exact absurd hb (by decide)
    rw [doMatch_closeCapture, doMatch_one_cons]
    exact if_neg (by simpa [CharClass.test] using hcolon)
  · rw [doMatch_closeCapture, closeLast_opened, doMatch_one_cons]
    exact h

end Match

theorem matchAnchored_line (d : Dev) :
    matchAnchored linePattern d.line = some [d.name, d.recv.digits, d.sent.digits] := by
  have htrail : doMatch [.star .space, .atEnd] (d.trail ++ [])
      [.closed d.sent.digits, .closed d.recv.digits, .closed d.name] =
        some [.closed d.sent.digits, .closed d.recv.digits, .closed d.name] :=
    doMatch_star ⟨d.trail_space, by rintro b ⟨⟩⟩ rfl
  have hsent := doMatch_half d.sentRest_length
    (outside_digit fun b hb => d.trail_space b (List.mem_of_mem_head? hb))
    (by rwa [List.append_nil] at htrail)
  have hrecv := doMatch_half d.recvRest_length (outside_digit (d.sent.head_space _)) hsent
  have hne (t : Bytes) : d.recv.bytes ++ t ≠ [] := by simp [Field.bytes, d.recv.sep_ne]
  have hname := doMatch_name d.name_ne d.name_nonSpace (hne _) (d.recv.head_space _) hrecv
  have hpad : Run .space d.pad (d.name ++ ch ':' :: (d.recv.bytes ++
      (d.recvRest.flatMap Field.bytes ++ (d.sent.bytes ++
        (d.sentRest.flatMap Field.bytes ++ d.trail))))) := by
    refine ⟨d.pad_space, ?_⟩
    obtain ⟨b, l, hb⟩ := List.exists_cons_of_ne_nil d.name_ne
    rw [hb]
    rintro c ⟨⟩
    exact d.name_nonSpace b (hb ▸ List.mem_cons_self)
  have hmatch := doMatch_star hpad hname
  rw [matchAnchored, Dev.line]
  exact congrArg (Option.map captured) hmatch

theorem bar_not_mem_field (f : Field) : ch '|' ∉ f.bytes := by
  intro h
  rcases List.mem_append.mp h with h | h
  · exact absurd (f.sep_space _ h) (by decide)
  · exact absurd (f.digits_digit _ h) (by decide)

theorem bar_mem_line (d : Dev) : ch '|' ∈ d.line ↔ ch '|' ∈ d.name := by
  have hspaces {s : Bytes} (hs : ∀ b ∈ s, isSpace b = true) : ch '|' ∉ s := fun h =>
    absurd (hs _ h) (by decide)
  have hfields (fs : List Field) : ch '|' ∉ fs.flatMap Field.bytes := by
    intro h
    obtain ⟨f, -, h⟩ := List.mem_flatMap.mp h
    exact bar_not_mem_field f h
  have hcolon : ¬ ch '|' = ch ':' := by decide
  simp only [Dev.line, List.mem_append, List.mem_cons, hspaces d.pad_space,
    hspaces d.trail_space, hfields, bar_not_mem_field, hcolon, false_or, or_false]

/-! ## One query -/

/-- The interface is not skipped: no `|` makes its line look like a header, and the filter accepts
it. -/
def Heeds (ifaceFilter : Bytes → Bool) (iface : Bytes) : Prop :=
  ch '|' ∉ iface ∧ ifaceFilter iface = true

instance (ifaceFilter : Bytes → Bool) (iface : Bytes) : Decidable (Heeds ifaceFilter iface) :=
  inferInstanceAs (Decidable (_ ∧ _))

/-- The reader after the line of an interface. -/
def Reader.see (reader : Reader) (d : Dev) : Reader :=
  if Heeds reader.ifaceFilter d.name then
    reader.remember d.name (.fin d.recv.value) (.fin d.sent.value)
  else reader

/-- The datum for the line of an interface. -/
def Reader.datumOf (reader : Reader) (divisor : LuaNum) (d : Dev) : Option Datum :=
  if Heeds reader.ifaceFilter d.name then
    datum reader divisor d.name (.fin d.recv.value) (.fin d.sent.value)
  else none

/-- Both tables at an interface. -/
def Reader.last (reader : Reader) (iface : Bytes) : Option LuaNum × Option LuaNum :=
  (reader.lastRecv iface, reader.lastSent iface)

/-- What the tables hold of a line. -/
def remembered (d : Option Dev) : Option LuaNum × Option LuaNum :=
  (d.map fun d => .fin d.recv.value, d.map fun d => .fin d.sent.value)

section Loop

variable {reader : Reader} {divisor : LuaNum} {res : Rates} {iface : Bytes}

theorem Rates.reports_add {x : Datum} (hnew : ∀ y, ¬ res.Reports iface y) {iface' : Bytes}
    {y : Datum} :
    (res.add iface x).Reports iface' y ↔ res.Reports iface' y ∨ (iface = iface' ∧ x = y) := by
  cases res with
  | array items => simp [Rates.add, Rates.Reports, eq_comm]
  | dict get =>
      simp only [Rates.add, Rates.Reports]
      rcases eq_or_ne iface' iface with rfl | hne
      · rw [Function.update_self, Option.some.injEq]
        exact ⟨fun h => .inr ⟨rfl, h⟩, fun h => h.elim (fun h => absurd h (hnew y)) And.right⟩
      · rw [Function.update_of_ne hne]
        exact ⟨.inl, fun h => h.elim id fun h => absurd h.1.symm hne⟩

theorem readLines_line (d : Dev) (lines : List Bytes) :
    readLines divisor (d.line :: lines) reader res =
      readLines divisor lines (reader.see d)
        (match reader.datumOf divisor d with
          | some x => res.add d.name x
          | none => res) := by
  rw [readLines, Reader.see, Reader.datumOf]
  rcases Classical.em (ch '|' ∈ d.name) with hbar | hbar
  · rw [if_pos ((bar_mem_line d).mpr hbar), if_neg (fun h => h.1 hbar), if_neg (fun h => h.1 hbar)]
  · rw [if_neg (fun h => hbar ((bar_mem_line d).mp h)), parseLine, matchAnchored_line]
    rcases hfilter : reader.ifaceFilter d.name with _ | _
    · have hno : ¬ Heeds reader.ifaceFilter d.name := fun h =>
        Bool.false_ne_true (hfilter.symm.trans h.2)
      rw [if_neg hno, if_neg hno]
      simp only [hfilter, Bool.false_eq_true, if_false]
    · rw [if_pos ⟨hbar, hfilter⟩, if_pos ⟨hbar, hfilter⟩]
      simp only [hfilter, if_true, d.recv.tonumber_digits,
        d.sent.tonumber_digits]
      cases datum reader divisor d.name (.fin d.recv.value) (.fin d.sent.value) with
      | some x => rfl
      | none => rfl

theorem readLines_headers {headers : List Bytes} (h : ∀ l ∈ headers, ch '|' ∈ l)
    (lines : List Bytes) :
    readLines divisor (headers ++ lines) reader res = readLines divisor lines reader res := by
  induction headers with
  | nil => rfl
  | cons l headers ih =>
      rw [List.cons_append, readLines, if_pos (h l List.mem_cons_self)]
      exact ih fun l' hl' => h l' (List.mem_cons_of_mem l hl')

theorem Reader.see_ifaceFilter (d : Dev) : (reader.see d).ifaceFilter = reader.ifaceFilter := by
  rw [Reader.see]
  split
  · rfl
  · rfl

theorem Reader.last_remember_self (recv sent : LuaNum) :
    (reader.remember iface recv sent).last iface = (some recv, some sent) :=
  Prod.ext (Function.update_self _ _ _) (Function.update_self _ _ _)

theorem Reader.last_remember_ne {iface' : Bytes} (h : iface' ≠ iface) (recv sent : LuaNum) :
    (reader.remember iface recv sent).last iface' = reader.last iface' :=
  Prod.ext (Function.update_of_ne h _ _) (Function.update_of_ne h _ _)

theorem Reader.last_see (d : Dev) (iface : Bytes) :
    (reader.see d).last iface =
      if d.name = iface ∧ Heeds reader.ifaceFilter iface then remembered (some d)
      else reader.last iface := by
  rw [Reader.see]
  rcases eq_or_ne d.name iface with rfl | hne
  · split
    · rename_i h
      rw [if_pos ⟨rfl, h⟩, Reader.last_remember_self]
      rfl
    · rename_i h
      rw [if_neg fun h' => h h'.2]
  · rw [if_neg (c := d.name = iface ∧ _) fun h => hne h.1]
    split
    · rw [Reader.last_remember_ne hne.symm]
    · rfl

/-- A datum depends on the filter and on what the tables hold of the interface. -/
theorem Reader.datumOf_congr {reader' : Reader} {d : Dev}
    (hfilter : reader.ifaceFilter = reader'.ifaceFilter)
    (hlast : reader.last d.name = reader'.last d.name) :
    reader.datumOf divisor d = reader'.datumOf divisor d := by
  obtain ⟨hrecv, hsent⟩ := Prod.mk.inj hlast
  rw [Reader.datumOf, Reader.datumOf, hfilter, datum, datum, hrecv, hsent]

/-- The loop reports the data of the lines, each one as if its line were the first. -/
theorem readLines_devs {devs : List Dev} (divisor : LuaNum) (reader : Reader) (res : Rates)
    (hnodup : (devs.map Dev.name).Nodup)
    (hnew : ∀ d ∈ devs, ∀ x, ¬ res.Reports d.name x) :
    ∃ res', readLines divisor (devs.map Dev.line) reader res =
        (.ok res', devs.foldl Reader.see reader) ∧
      ∀ iface x, res'.Reports iface x ↔
        res.Reports iface x ∨ ∃ d ∈ devs, d.name = iface ∧ reader.datumOf divisor d = some x := by
  induction devs generalizing reader res with
  | nil => exact ⟨res, rfl, by simp⟩
  | cons d devs ih =>
      rw [List.map_cons, List.nodup_cons] at hnodup
      obtain ⟨hd, hnodup⟩ := hnodup
      have hne (e : Dev) (he : e ∈ devs) : d.name ≠ e.name := fun h =>
        hd (h ▸ List.mem_map_of_mem he)
      have hfirst := hnew d List.mem_cons_self
      have hrest (e : Dev) (he : e ∈ devs) := hnew e (List.mem_cons_of_mem d he)
      have hdatum (e : Dev) (he : e ∈ devs) :
          (reader.see d).datumOf divisor e = reader.datumOf divisor e := by
        refine Reader.datumOf_congr (Reader.see_ifaceFilter d) ?_
        rw [Reader.last_see, if_neg fun h => hne e he h.1]
      have hsplit (iface : Bytes) (x : Datum) :
          (∃ e ∈ d :: devs, e.name = iface ∧ reader.datumOf divisor e = some x) ↔
            (d.name = iface ∧ reader.datumOf divisor d = some x) ∨
              ∃ e ∈ devs, e.name = iface ∧ (reader.see d).datumOf divisor e = some x := by
        rw [List.exists_mem_cons_iff]
        refine or_congr_right (exists_congr fun e => and_congr_right fun he => ?_)
        rw [hdatum e he]
      rw [List.map_cons, readLines_line, List.foldl_cons]
      cases hx : reader.datumOf divisor d with
      | none =>
          obtain ⟨res', hres', hreports⟩ := ih (reader.see d) res hnodup hrest
          refine ⟨res', hres', ?_⟩
          intro iface x
          rw [hreports, hsplit, hx]
          simp
      | some y =>
          have hadd (e : Dev) (he : e ∈ devs) (x : Datum) :
              ¬ (res.add d.name y).Reports e.name x := by
            rw [Rates.reports_add hfirst]
            rintro (h | ⟨h, -⟩)
            · exact hrest e he x h
            · exact hne e he h
          obtain ⟨res', hres', hreports⟩ := ih (reader.see d) (res.add d.name y) hnodup hadd
          refine ⟨res', hres', ?_⟩
          intro iface x
          rw [hreports, Rates.reports_add hfirst, hsplit, hx, or_assoc, Option.some.injEq]

end Loop

/-! ## Many queries -/

/-- The line of an interface in a snapshot. -/
def Snapshot.dev (s : Snapshot) (iface : Bytes) : Option Dev :=
  s.devs.find? fun d => d.name = iface

/-- The line of an interface in the last snapshot that has one. -/
def lastSeen (iface : Bytes) (qs : List Query) : Option Dev :=
  qs.foldl (fun seen q => (q.snapshot.dev iface).or seen) none

/-- The line of an interface in the last snapshot. -/
def previous (iface : Bytes) (qs : List Query) : Option Dev :=
  qs.getLast?.bind fun q => q.snapshot.dev iface

theorem Snapshot.dev_eq_some {s : Snapshot} {iface : Bytes} {d : Dev} :
    s.dev iface = some d ↔ d ∈ s.devs ∧ d.name = iface := by
  refine ⟨fun h => ⟨List.mem_of_find?_eq_some h, by simpa using List.find?_some h⟩, ?_⟩
  rintro ⟨hd, rfl⟩
  obtain ⟨e, he⟩ : ∃ e, s.dev d.name = some e :=
    Option.isSome_iff_exists.mp (List.find?_isSome.mpr ⟨d, hd, by simp⟩)
  have hname : e.name = d.name := by simpa using List.find?_some he
  rw [he, List.inj_on_of_nodup_map s.nodup (List.mem_of_find?_eq_some he) hd hname]

theorem lastSeen_concat (iface : Bytes) (qs : List Query) (q : Query) :
    lastSeen iface (qs ++ [q]) = (q.snapshot.dev iface).or (lastSeen iface qs) := by
  rw [lastSeen, List.foldl_append]
  rfl

theorem lastSeen_eq_previous {iface : Bytes} {qs : List Query} {d : Dev}
    (h : previous iface qs = some d) : lastSeen iface qs = some d := by
  obtain ⟨q, hq, hd⟩ := Option.bind_eq_some_iff.mp h
  obtain ⟨qs, rfl⟩ := List.getLast?_eq_some_iff.mp hq
  rw [lastSeen_concat, hd, Option.some_or]

theorem foldl_see_ifaceFilter (devs : List Dev) (reader : Reader) :
    (devs.foldl Reader.see reader).ifaceFilter = reader.ifaceFilter := by
  induction devs generalizing reader with
  | nil => rfl
  | cons d devs ih => rw [List.foldl_cons, ih, Reader.see_ifaceFilter]

theorem last_foldl_see {devs : List Dev} (hnodup : (devs.map Dev.name).Nodup) (reader : Reader)
    (iface : Bytes) :
    (devs.foldl Reader.see reader).last iface =
      match devs.find? fun d => d.name = iface with
      | some d => if Heeds reader.ifaceFilter iface then remembered (some d) else reader.last iface
      | none => reader.last iface := by
  induction devs generalizing reader with
  | nil => rfl
  | cons d devs ih =>
      rw [List.map_cons, List.nodup_cons] at hnodup
      rw [List.foldl_cons, ih hnodup.2, Reader.last_see, Reader.see_ifaceFilter]
      rcases eq_or_ne d.name iface with rfl | hne
      · have hnone : devs.find? (fun e => e.name = d.name) = none := by
          refine List.find?_eq_none.mpr fun e he => ?_
          have hne : e.name ≠ d.name := fun h => hnodup.1 (h ▸ List.mem_map_of_mem he)
          simpa using hne
        rw [hnone, List.find?_cons_of_pos (by simp)]
        simp only [true_and]
      · rw [List.find?_cons_of_neg (by simpa using hne)]
        simp only [hne, false_and, if_false]

/-- What a query reports, by the tables, and the reader after it. -/
theorem read_eq (reader : Reader) (q : Query) :
    ∃ res, reader.read q = (.ok res, q.snapshot.devs.foldl Reader.see reader) ∧
      ∀ iface x, res.Reports iface x ↔
        ∃ d ∈ q.snapshot.devs, d.name = iface ∧ reader.datumOf q.divisor d = some x := by
  have hnew (iface : Bytes) (x : Datum) :
      ¬ (if q.inArrayForm then Rates.array [] else .dict fun _ => none).Reports iface x := by
    split
    · simp [Rates.Reports]
    · simp [Rates.Reports]
  obtain ⟨res, hres, hreports⟩ := readLines_devs q.divisor reader
    (if q.inArrayForm then .array [] else .dict fun _ => none) q.snapshot.nodup
    fun d _ => hnew d.name
  refine ⟨res, ?_, fun iface x => ?_⟩
  · rw [Reader.read, readerRead, Snapshot.lines]
    exact (readLines_headers q.snapshot.headers_bar _).trans hres
  · rw [hreports, or_iff_right (hnew iface x)]

section Run

variable (ifaceFilter : Bytes → Bool) (before : List Query)

theorem run_concat (q : Query) :
    run ifaceFilter (before ++ [q]) =
      q.snapshot.devs.foldl Reader.see (run ifaceFilter before) := by
  obtain ⟨res, hres, -⟩ := read_eq (run ifaceFilter before) q
  rw [run, List.foldl_append, List.foldl_cons, List.foldl_nil]
  exact congrArg Prod.snd hres

theorem run_ifaceFilter : (run ifaceFilter before).ifaceFilter = ifaceFilter := by
  induction before using List.reverseRecOn with
  | nil => rfl
  | append_singleton before q ih => rw [run_concat, foldl_see_ifaceFilter, ih]

/-- The tables hold the counters of the last snapshot that has the interface, however long ago. -/
theorem run_remembers {iface : Bytes} (h : Heeds ifaceFilter iface) :
    (run ifaceFilter before).last iface = remembered (lastSeen iface before) := by
  induction before using List.reverseRecOn with
  | nil => rfl
  | append_singleton before q ih =>
      rw [run_concat, last_foldl_see q.snapshot.nodup, run_ifaceFilter, ih, lastSeen_concat,
        Snapshot.dev]
      cases q.snapshot.devs.find? fun d => d.name = iface with
      | some d => exact if_pos h
      | none => rfl

theorem datum_eq_some {reader : Reader} {iface : Bytes} {prev : Option Dev} {cur : Dev}
    {divisor : LuaNum} {x : Datum} (h : reader.last iface = remembered prev) :
    datum reader divisor iface (.fin cur.recv.value) (.fin cur.sent.value) = some x ↔
      ∃ p ∈ prev, p.Grew cur ∧ x = p.rate cur divisor := by
  obtain ⟨hrecv, hsent⟩ := Prod.mk.inj h
  rw [datum, hrecv, hsent]
  cases prev with
  | none => simp
  | some p =>
      simp [Dev.Grew, Dev.rate, and_assoc, eq_comm]

/-- What a query reports, by the snapshots. -/
theorem read_run (q : Query) :
    ∃ res, ((run ifaceFilter before).read q).1 = .ok res ∧
      ∀ iface x, res.Reports iface x ↔
        ∃ cur ∈ q.snapshot.devs, cur.name = iface ∧ Heeds ifaceFilter iface ∧
          ∃ prev ∈ lastSeen iface before, prev.Grew cur ∧ x = prev.rate cur q.divisor := by
  obtain ⟨res, hres, hreports⟩ := read_eq (run ifaceFilter before) q
  refine ⟨res, congrArg Prod.fst hres, fun iface x => ?_⟩
  rw [hreports]
  refine exists_congr fun cur => and_congr_right fun _ => ?_
  rw [Reader.datumOf, run_ifaceFilter]
  constructor
  · rintro ⟨rfl, h⟩
    split at h
    · rename_i hheeds
      exact ⟨rfl, hheeds, (datum_eq_some (run_remembers ifaceFilter before hheeds)).mp h⟩
    · cases h
  · rintro ⟨rfl, hheeds, h⟩
    rw [if_pos hheeds]
    exact ⟨rfl, (datum_eq_some (run_remembers ifaceFilter before hheeds)).mpr h⟩

/-- The law, by the line of the interface in the last snapshot. -/
theorem law_iff {q : Query} {iface : Bytes} {x : Datum} :
    Law ifaceFilter before.getLast? q iface x ↔
      ∃ cur ∈ q.snapshot.devs, cur.name = iface ∧ ifaceFilter iface = true ∧
        ∃ prev ∈ previous iface before, prev.Grew cur ∧ x = prev.rate cur q.divisor := by
  constructor
  · rintro ⟨hfilter, q', hq', prev, hprev, cur, hcur, hname, hname', hgrew, rfl⟩
    refine ⟨cur, hcur, hname', hfilter, prev, ?_, hgrew, rfl⟩
    exact Option.bind_eq_some_iff.mpr ⟨q', hq', Snapshot.dev_eq_some.mpr ⟨hprev, hname⟩⟩
  · rintro ⟨cur, hcur, hname', hfilter, prev, hprev, hgrew, rfl⟩
    obtain ⟨q', hq', hdev⟩ := Option.bind_eq_some_iff.mp hprev
    obtain ⟨hmem, hname⟩ := Snapshot.dev_eq_some.mp hdev
    exact ⟨hfilter, q', hq', prev, hmem, cur, hcur, hname, hname', hgrew, rfl⟩

/-- No interface that the last snapshot lacks grew since it was last seen, and no interface with `|`
in its name grew since the last snapshot. -/
def Unaffected (q : Query) : Prop :=
  ∀ cur ∈ q.snapshot.devs, ifaceFilter cur.name = true →
    if ch '|' ∈ cur.name then ∀ prev ∈ previous cur.name before, ¬ prev.Grew cur
    else previous cur.name before = none → ∀ prev ∈ lastSeen cur.name before, ¬ prev.Grew cur

/-- A query follows the law if and only if no interface that comes back has grown, and none that is
taken for a header. -/
theorem readerRead_lawful_iff (q : Query) :
    Lawful ifaceFilter before q ↔ Unaffected ifaceFilter before q := by
  obtain ⟨res, hres, hreports⟩ := read_run ifaceFilter before q
  constructor
  · rintro ⟨rates, hrates, hlaw⟩ cur hcur hfilter
    obtain rfl : res = rates := Except.ok.inj (hres.symm.trans hrates)
    split
    · rename_i hbar
      intro prev hprev hgrew
      have hreport := (hlaw cur.name (prev.rate cur q.divisor)).mpr
        ((law_iff ifaceFilter before).mpr ⟨cur, hcur, rfl, hfilter, prev, hprev, hgrew, rfl⟩)
      obtain ⟨-, -, -, hheeds, -⟩ := (hreports _ _).mp hreport
      exact hheeds.1 hbar
    · rename_i hbar
      intro hnone prev hprev hgrew
      have hreport := (hreports cur.name (prev.rate cur q.divisor)).mpr
        ⟨cur, hcur, rfl, ⟨hbar, hfilter⟩, prev, hprev, hgrew, rfl⟩
      obtain ⟨-, -, -, -, p, hp, -⟩ := (law_iff ifaceFilter before).mp ((hlaw _ _).mp hreport)
      rw [hnone] at hp
      cases hp
  · intro hunaffected
    refine ⟨res, hres, fun iface x => ?_⟩
    rw [hreports, law_iff]
    refine exists_congr fun cur => and_congr_right fun hcur => and_congr_right fun hname => ?_
    subst hname
    constructor
    · rintro ⟨⟨hbar, hfilter⟩, prev, hprev, hgrew, hx⟩
      have h := hunaffected cur hcur hfilter
      rw [if_neg hbar] at h
      cases hp : previous cur.name before with
      | none => exact absurd hgrew (h hp prev hprev)
      | some p =>
          have hlast := lastSeen_eq_previous hp
          obtain rfl : p = prev := Option.some.inj (hlast.symm.trans hprev)
          exact ⟨hfilter, p, rfl, hgrew, hx⟩
    · rintro ⟨hfilter, prev, hprev, hgrew, hx⟩
      have h := hunaffected cur hcur hfilter
      have hbar : ch '|' ∉ cur.name := by
        intro hbar
        rw [if_pos hbar] at h
        exact h prev hprev hgrew
      exact ⟨⟨hbar, hfilter⟩, prev, lastSeen_eq_previous hprev, hgrew, hx⟩

end Run

/-! ## An interface that comes back -/

/-- The line of an interface whose counters are all the same. -/
def eth0 (counter : Field) : Dev where
  pad := []
  name := lit "eth0"
  recv := counter
  recvRest := List.replicate 7 counter
  sent := counter
  sentRest := List.replicate 7 counter
  trail := []
  pad_space := by simp
  name_ne := by decide
  name_nonSpace b hb := by
    have hdigit := List.all_eq_true.mp (show (lit "eth0").all (isSpace · = false) = true from rfl)
    exact of_decide_eq_true (hdigit b hb)
  recvRest_length := rfl
  sentRest_length := rfl
  trail_space := by simp

/-- A query with a snapshot that shows only this interface. -/
def present (counter : Field) : Query := ⟨⟨[], [eth0 counter], by simp, by simp⟩, .fin 1, true⟩

/-- A query with a snapshot without interfaces. -/
def absent : Query := ⟨⟨[], [], by simp, by simp⟩, .fin 1, true⟩

/-- An interface vanishes and comes back: a rate is reported, though the snapshot before does not
have it. -/
theorem readerRead_back :
    ¬ Lawful (fun _ => true) [present (.spaced 10), absent]
      (present (.spaced 30)) := by
  rintro ⟨rates, hrates, hlaw⟩
  obtain ⟨res, hres, hreports⟩ := read_run (fun _ => true)
    [present (.spaced 10), absent]
    (present (.spaced 30))
  obtain rfl : res = rates := Except.ok.inj (hres.symm.trans hrates)
  have hreport := (hreports _ _).mpr ⟨eth0 (.spaced 30),
    List.mem_singleton_self _, rfl, ⟨by decide, rfl⟩,
    eth0 (.spaced 10), rfl, by decide, rfl⟩
  obtain ⟨-, q, hq, prev, hprev, -⟩ := (hlaw _ _).mp hreport
  cases hq
  cases hprev

end Luastatus.NetworkRateLinux
