import Luastatus.Lua.Number
import Luastatus.Lua.Pattern
import Mathlib.Tactic.FieldSimp

/-!
# The battery widget

`get_battery_info` reads the `uevent` file of a power supply.  Some drivers report energies and a
power, others report charges and a current, which it multiplies with the voltage.

A `Battery` is a physical state.  `ChargeReport` and `EnergyReport` are the two ways to report it.
The conversion has no step for the design charge, so the two results can differ if the capacity is
to be computed with it; `getBatteryInfo_same_iff` says exactly when they do not.
-/

namespace Luastatus.BatteryLinux

open Text (Byte Bytes ch lit)
open Lua Lua.Pattern

/-! ## Reading the file -/

/-- `string.lower`. -/
def lower (s : Bytes) : Bytes := s.map fun b => if ch 'A' ≤ b ∧ b ≤ ch 'Z' then b + 32 else b

/-- `POWER_SUPPLY_(.-)=(.*)` -/
def linePattern : List Item :=
  text (lit "POWER_SUPPLY_") ++
    [.openCapture, .lazy .any, .closeCapture, .one (.char (ch '=')),
      .openCapture, .star .any, .closeCapture]

/-- The body of the loop of `read_uevent`. -/
def readLine (r : Table LuaNum) (line : Bytes) : Table LuaNum :=
  match matchAnywhere linePattern line with
  | some [key, value] => r.rawset (.str (lower key)) (.string value)
  | _ => r

/-- `read_uevent`, given the lines of the file if it can be opened. -/
def readUevent (f : Option (List Bytes)) : Option (Table LuaNum) :=
  f.map (List.foldl readLine Table.empty)

/-! ## The result -/

/-- The table that `get_battery_info` returns. -/
structure Info where
  status : Val LuaNum
  capacity : Val LuaNum
  consumption : Val LuaNum
  remTime : Val LuaNum

/-- A field times `voltage_now`, divided by `1e6`. -/
def timesVoltage (p : Table LuaNum) (name : String) : Except LuaError LuaNum := do
  return (← arith (· * ·) (field p name) (field p "voltage_now")) / .fin 1000000

/-- "Convert amperes to watts." -/
def convert (p : Table LuaNum) : Except LuaError (Table LuaNum) := do
  if (field p "charge_full").truthy then
    let p := setField p "energy_full" (.number (← timesVoltage p "charge_full"))
    let p := setField p "energy_now" (.number (← timesVoltage p "charge_now"))
    match field p "current_now" with
    | .nil => return p
    | _ => return setField p "power_now" (.number (← timesVoltage p "current_now"))
  else return p

/-- The energy that stands for 100 per cent. -/
def energyBase (p : Table LuaNum) (useEnergyFullDesign : Bool) : Val LuaNum :=
  if useEnergyFullDesign && (field p "energy_full_design").truthy then field p "energy_full_design"
  else field p "energy_full"

/-- The field `rem_time`, given the absolute value of the power. -/
def remTime (p : Table LuaNum) (pn : LuaNum) : Except LuaError (Val LuaNum) := do
  if (field p "status").isString (lit "Charging") then
    return .number ((← arith (· - ·) (field p "energy_full") (field p "energy_now")) / pn)
  else if (field p "status").isString (lit "Discharging") ∨
      (field p "status").isString (lit "Not charging") then
    return .number (← arith (· / ·) (field p "energy_now") (.number pn))
  else return .nil

/-- `get_battery_info` behind the conversion. -/
def batteryInfo (p : Table LuaNum) (useEnergyFullDesign : Bool) : Except LuaError Info := do
  let ef := energyBase p useEnergyFullDesign
  let share ← arith (· / ·) (field p "energy_now") ef
  let capacity := LuaNum.min (share * .fin 100 + .fin (1 / 2)).floor (.fin 100)
  match tonumberOf (field p "power_now") with
  | none => return ⟨field p "status", .number capacity, .nil, .nil⟩
  | some pn =>
      if pn = .fin 0 then return ⟨field p "status", .number capacity, .nil, .nil⟩
      else
        return ⟨field p "status", .number capacity, .number (pn.abs / .fin 1000000),
          ← remTime p pn.abs⟩

/-- `get_battery_info`, given the lines of the file. -/
def getBatteryInfo (f : Option (List Bytes)) (useEnergyFullDesign : Bool) :
    Except LuaError Info :=
  match readUevent f with
  | none => return ⟨.nil, .nil, .nil, .nil⟩
  | some p => do batteryInfo (← convert p) useEnergyFullDesign

/-! ## The two reports -/

/-- A line of a `uevent` file. -/
inductive Line where
  | property (key value : Bytes)
  | other (s : Bytes)

/-- The line itself. -/
def Line.bytes : Line → Bytes
  | property key value => lit "POWER_SUPPLY_" ++ (key ++ ch '=' :: value)
  | other s => s

/-- The key has no `=`, and a line that is no property does not look like one. -/
def Line.Valid : Line → Prop
  | property key _ => ch '=' ∉ key
  | other s => ¬ lit "POWER_SUPPLY_" <:+: s

instance (l : Line) : Decidable l.Valid :=
  match l with
  | .property key _ => inferInstanceAs (Decidable (ch '=' ∉ key))
  | .other s => inferInstanceAs (Decidable (¬ lit "POWER_SUPPLY_" <:+: s))

/-- The value of a property, by its name in lower case.  The last line with it counts. -/
def value (name : Bytes) : List Line → Option Bytes
  | [] => none
  | .other _ :: lines => value name lines
  | .property key v :: lines =>
      (value name lines).or (if lower key = name then some v else none)

/-- A `uevent` file. -/
structure Uevent where
  lines : List Line
  valid : ∀ l ∈ lines, l.Valid

/-- The file as it is read. -/
def Uevent.file (u : Uevent) : Option (List Bytes) := some (u.lines.map Line.bytes)

/-- The value of a property. -/
def Uevent.get (u : Uevent) (name : String) : Option Bytes := value (lit name) u.lines

/-- A property is reported as a numeral for the number. -/
def Uevent.Shows (u : Uevent) (name : String) (q : ℚ) : Prop :=
  ∃ s, u.get name = some s ∧ tonumber s = some (.fin q)

/-- A physical state of a battery, in microvolts, microampere-hours and microamperes. -/
structure Battery where
  status : Option Bytes
  voltage : ℚ
  full : ℚ
  now : ℚ
  fullDesign : ℚ
  current : ℚ
  voltage_pos : 0 < voltage
  full_pos : 0 < full
  fullDesign_pos : 0 < fullDesign

/-- The energy of a charge, or the power of a current. -/
def Battery.watts (b : Battery) (q : ℚ) : ℚ := q * b.voltage / 1000000

/-- The driver reports charges and a current. -/
structure ChargeReport (b : Battery) (u : Uevent) : Prop where
  status : u.get "status" = b.status
  voltage : u.Shows "voltage_now" b.voltage
  full : u.Shows "charge_full" b.full
  now : u.Shows "charge_now" b.now
  fullDesign : u.Shows "charge_full_design" b.fullDesign
  current : u.Shows "current_now" b.current
  noEnergyFull : u.get "energy_full" = none
  noEnergyNow : u.get "energy_now" = none
  noEnergyFullDesign : u.get "energy_full_design" = none
  noPower : u.get "power_now" = none

/-- The driver reports energies and a power. -/
structure EnergyReport (b : Battery) (u : Uevent) : Prop where
  status : u.get "status" = b.status
  full : u.Shows "energy_full" (b.watts b.full)
  now : u.Shows "energy_now" (b.watts b.now)
  fullDesign : u.Shows "energy_full_design" (b.watts b.fullDesign)
  power : u.Shows "power_now" (b.watts b.current)
  noCharge : u.get "charge_full" = none

/-! ## What is read -/

theorem readLine_property {key : Bytes} (h : ch '=' ∉ key) (v : Bytes) (r : Table LuaNum) :
    readLine r (Line.property key v).bytes = r.rawset (.str (lower key)) (.string v) := by
  have hrest : doMatch [.openCapture, .star .any, .closeCapture] v [.closed key] =
      some [.closed v, .closed key] := by
    have hrun : Run .any v [] := ⟨fun _ _ => rfl, by rintro b ⟨⟩⟩
    have hclose : closeLast [] [.opened v, .closed key] = [.closed v, .closed key] := by
      simpa using closeLast_opened v [] [.closed key]
    have hstar : doMatch [.star .any, .closeCapture] (v ++ []) [.opened v, .closed key] =
        some [.closed v, .closed key] :=
      doMatch_star hrun (by rw [doMatch_closeCapture, hclose, doMatch_nil])
    rwa [List.append_nil] at hstar
  have hmatch : matchAnchored linePattern (Line.property key v).bytes = some [key, v] := by
    rw [matchAnchored, linePattern, Line.bytes, doMatch_text, doMatch_openCapture,
      doMatch_lazy (r := [.closed v, .closed key]) (fun _ _ => rfl)]
    · rfl
    · rw [doMatch_closeCapture, closeLast_opened, doMatch_one_cons]
      exact hrest
    · intro w hw hsuffix
      obtain ⟨b, w, rfl⟩ := List.exists_cons_of_ne_nil hw
      have hb : ch '=' ≠ b := fun he => h (he ▸ hsuffix.subset List.mem_cons_self)
      rw [doMatch_closeCapture, List.cons_append, doMatch_one_cons]
      exact if_neg (by simpa [CharClass.test] using hb)
  rw [readLine, matchAnywhere_of_matchAnchored hmatch]

theorem readLine_other {s : Bytes} (h : ¬ lit "POWER_SUPPLY_" <:+: s) (r : Table LuaNum) :
    readLine r (Line.other s).bytes = r := by
  rw [readLine, Line.bytes, linePattern, matchAnywhere_text_eq_none h]

theorem foldl_readLine {lines : List Line} (hvalid : ∀ l ∈ lines, l.Valid) (r : Table LuaNum)
    (name : Bytes) :
    (lines.map Line.bytes).foldl readLine r (.str name) =
      ((value name lines).map Val.string).getD (r (.str name)) := by
  induction lines generalizing r with
  | nil => rfl
  | cons l lines ih =>
      have ih := ih fun l' hl' => hvalid l' (List.mem_cons_of_mem l hl')
      have hl := hvalid l List.mem_cons_self
      rw [List.map_cons, List.foldl_cons]
      cases l with
      | other s => rw [readLine_other hl, ih, value]
      | property key v =>
          rw [readLine_property hl, ih, value, Table.rawset]
          cases value name lines with
          | some w => rfl
          | none =>
              split
              · rename_i he
                rw [he, Function.update_self]
                rfl
              · rename_i he
                rw [Function.update_of_ne (by rintro ⟨⟩; exact he rfl)]
                rfl

/-- The fields of the table are the properties of the file. -/
theorem readUevent_file (u : Uevent) :
    ∃ p, readUevent u.file = some p ∧
      ∀ name, field p name = ((u.get name).map Val.string).getD .nil :=
  ⟨_, rfl, fun name => foldl_readLine u.valid Table.empty (lit name)⟩

/-! ## What is computed -/

/-- The percentage, given the energy and the one that stands for 100 per cent. -/
def percent (now base : ℚ) : ℚ := min ⌊now / base * 100 + 1 / 2⌋ 100

/-- The hours that remain, given the absolute value of the power. -/
def hours (status : Val LuaNum) (full now power : ℚ) : Val LuaNum :=
  if status.isString (lit "Charging") then .number (.fin ((full - now) / power))
  else if status.isString (lit "Discharging") ∨ status.isString (lit "Not charging") then
    .number (.fin (now / power))
  else .nil

/-- What is to be returned for energies and a power. -/
def exactInfo (status : Val LuaNum) (base full now power : ℚ) : Info :=
  if power = 0 then ⟨status, .number (.fin (percent now base)), .nil, .nil⟩
  else
    ⟨status, .number (.fin (percent now base)), .number (.fin (|power| / 1000000)),
      hours status full now |power|⟩

section Computed

variable {p : Table LuaNum} {base full now power : ℚ}

theorem remTime_eq (hfull : Holds p "energy_full" full) (hnow : Holds p "energy_now" now)
    (hpower : power ≠ 0) :
    remTime p (.fin power) = .ok (hours (field p "status") full now power) := by
  have hsub : arith (· - ·) (field p "energy_full") (field p "energy_now") =
      .ok (.fin (full - now)) := by rw [arith_eq hfull hnow, LuaNum.fin_sub]
  have hdiv : arith (· / ·) (field p "energy_now") (.number (.fin power)) =
      .ok (.fin (now / power)) := by
    rw [arith_eq hnow (y := .fin power) rfl, LuaNum.fin_div now hpower]
  rw [remTime, hours, hsub, hdiv]
  split
  · change Except.ok (Val.number (LuaNum.fin (full - now) / LuaNum.fin power)) = _
    rw [LuaNum.fin_div _ hpower]
  · split
    · rfl
    · rfl

theorem batteryInfo_eq {use : Bool} (hfull : Holds p "energy_full" full)
    (hnow : Holds p "energy_now" now) (hpower : Holds p "power_now" power)
    (hbase : tonumberOf (energyBase p use) = some (.fin base)) (hne : base ≠ 0) :
    batteryInfo p use = .ok (exactInfo (field p "status") base full now power) := by
  have hshare : arith (· / ·) (field p "energy_now") (energyBase p use) =
      .ok (.fin (now / base)) := by rw [arith_eq hnow hbase, LuaNum.fin_div now hne]
  have hcapacity : LuaNum.min (LuaNum.fin (now / base) * .fin 100 + .fin (1 / 2)).floor (.fin 100) =
      .fin (percent now base) := by
    rw [LuaNum.fin_mul, LuaNum.fin_add, LuaNum.floor_fin, LuaNum.min_fin, percent]
  rw [batteryInfo, hshare, exactInfo]
  rcases eq_or_ne power 0 with rfl | hne
  · rw [if_pos rfl, ← hcapacity, hpower]
    rfl
  · have habs : |power| ≠ 0 := abs_ne_zero.mpr hne
    rw [if_neg hne, ← hcapacity, hpower]
    change (if LuaNum.fin power = .fin 0 then _ else _) = _
    rw [if_neg (by simpa using hne), LuaNum.abs_fin, remTime_eq hfull hnow habs,
      LuaNum.fin_div _ (by norm_num)]
    rfl

end Computed

/-! ## The two reports compared -/

/-- The value of the status. -/
def Battery.statusValue (b : Battery) : Val LuaNum := (b.status.map Val.string).getD .nil

/-- The charge or energy that stands for 100 per cent. -/
def Battery.base (b : Battery) (use : Bool) : ℚ := if use then b.fullDesign else b.full

section Reports

variable {b : Battery} {u : Uevent}

theorem Battery.watts_pos {q : ℚ} (hq : 0 < q) : 0 < b.watts q := by
  have := b.voltage_pos
  rw [Battery.watts]
  positivity

theorem percent_watts (now base : ℚ) : percent (b.watts now) (b.watts base) = percent now base := by
  have hv := b.voltage_pos.ne'
  rw [percent, percent, Battery.watts, Battery.watts, div_div_div_cancel_right₀ (by norm_num),
    mul_div_mul_right _ _ hv]

theorem holds_of_shows {p : Table LuaNum} {name : String} {q : ℚ}
    (hp : ∀ name, field p name = ((u.get name).map Val.string).getD .nil) (h : u.Shows name q) :
    Holds p name q := by
  obtain ⟨s, hs, hq⟩ := h
  rw [Holds, hp, hs]
  exact hq

/-- The result for energies and a power. -/
theorem getBatteryInfo_energy (h : EnergyReport b u) (use : Bool) :
    getBatteryInfo u.file use = .ok (exactInfo b.statusValue (b.watts (b.base use))
      (b.watts b.full) (b.watts b.now) (b.watts b.current)) := by
  obtain ⟨p, hread, hp⟩ := readUevent_file u
  have hnil : field p "charge_full" = .nil := by rw [hp, h.noCharge]; rfl
  have hconvert : convert p = .ok p := by rw [convert, hnil]; rfl
  have hstatus : field p "status" = b.statusValue := by rw [hp, h.status]; rfl
  have hfull := holds_of_shows hp h.full
  obtain ⟨s, hs, hq⟩ := h.fullDesign
  have hdesign : field p "energy_full_design" = .string s := by rw [hp, hs]; rfl
  have hbase : tonumberOf (energyBase p use) = some (.fin (b.watts (b.base use))) := by
    rw [energyBase, hdesign]
    cases use with
    | true => exact hq
    | false => exact hfull
  have hpos : 0 < b.watts (b.base use) := by
    cases use with
    | true => exact Battery.watts_pos b.fullDesign_pos
    | false => exact Battery.watts_pos b.full_pos
  rw [getBatteryInfo, hread, ← hstatus]
  change (convert p >>= fun p => batteryInfo p use) = _
  rw [hconvert]
  exact batteryInfo_eq hfull (holds_of_shows hp h.now) (holds_of_shows hp h.power) hbase hpos.ne'

theorem timesVoltage_eq {p : Table LuaNum} {name : String} {q : ℚ} (h : Holds p name q)
    (hv : Holds p "voltage_now" b.voltage) : timesVoltage p name = .ok (.fin (b.watts q)) := by
  rw [timesVoltage, arith_eq h hv]
  change Except.ok (LuaNum.fin q * LuaNum.fin b.voltage / LuaNum.fin 1000000) = _
  rw [LuaNum.fin_mul, LuaNum.fin_div _ (by norm_num), Battery.watts]

/-- The table after the conversion of charges. -/
def Battery.converted (b : Battery) (p : Table LuaNum) : Table LuaNum :=
  let p := setField p "energy_full" (.number (.fin (b.watts b.full)))
  let p := setField p "energy_now" (.number (.fin (b.watts b.now)))
  setField p "power_now" (.number (.fin (b.watts b.current)))

theorem convert_charge {p : Table LuaNum} {s : Bytes} (hvoltage : Holds p "voltage_now" b.voltage)
    (hfull : Holds p "charge_full" b.full) (hnow : Holds p "charge_now" b.now)
    (hcurrent : Holds p "current_now" b.current) (htruthy : (field p "charge_full").truthy)
    (hstring : field p "current_now" = .string s) : convert p = .ok (b.converted p) := by
  have hvoltage1 := hvoltage.setField "energy_full" (.number (.fin (b.watts b.full))) (by decide)
  have hnow1 := hnow.setField "energy_full" (.number (.fin (b.watts b.full))) (by decide)
  have hcurrent1 := hcurrent.setField "energy_full" (.number (.fin (b.watts b.full))) (by decide)
  have hvoltage2 := hvoltage1.setField "energy_now" (.number (.fin (b.watts b.now))) (by decide)
  have hcurrent2 := hcurrent1.setField "energy_now" (.number (.fin (b.watts b.now))) (by decide)
  rw [convert, if_pos htruthy, timesVoltage_eq hfull hvoltage]
  change (timesVoltage (setField p "energy_full" _) "charge_now" >>= _) = _
  rw [timesVoltage_eq hnow1 hvoltage1]
  change (match field (setField (_ : Table LuaNum) "energy_now" _) "current_now" with
    | .nil => _
    | _ => _) = _
  rw [field_setField, if_neg (by decide), field_setField, if_neg (by decide), hstring]
  change (timesVoltage (setField _ "energy_now" _) "current_now" >>= _) = _
  rw [timesVoltage_eq hcurrent2 hvoltage2]
  rfl

/-- The result for charges and a current: the design charge is not used. -/
theorem getBatteryInfo_charge (h : ChargeReport b u) (use : Bool) :
    getBatteryInfo u.file use = .ok (exactInfo b.statusValue (b.watts b.full)
      (b.watts b.full) (b.watts b.now) (b.watts b.current)) := by
  obtain ⟨p, hread, hp⟩ := readUevent_file u
  obtain ⟨s, hs, -⟩ := h.full
  obtain ⟨t, ht, -⟩ := h.current
  have htruthy : (field p "charge_full").truthy = true := by rw [hp, hs]; rfl
  have hstring : field p "current_now" = .string t := by rw [hp, ht]; rfl
  have hconvert := convert_charge (holds_of_shows hp h.voltage) (holds_of_shows hp h.full)
    (holds_of_shows hp h.now) (holds_of_shows hp h.current) htruthy hstring
  have hfull : field (b.converted p) "energy_full" = .number (.fin (b.watts b.full)) := by
    rw [Battery.converted, field_setField, if_neg (by decide), field_setField,
      if_neg (by decide), field_setField, if_pos rfl]
  have hnow : field (b.converted p) "energy_now" = .number (.fin (b.watts b.now)) := by
    rw [Battery.converted, field_setField, if_neg (by decide), field_setField, if_pos rfl]
  have hpower : field (b.converted p) "power_now" = .number (.fin (b.watts b.current)) := by
    rw [Battery.converted, field_setField, if_pos rfl]
  have hother (name : String) (h1 : lit name ≠ lit "energy_full") (h2 : lit name ≠ lit "energy_now")
      (h3 : lit name ≠ lit "power_now") : field (b.converted p) name = field p name := by
    rw [Battery.converted, field_setField, if_neg h3, field_setField, if_neg h2, field_setField,
      if_neg h1]
  have hdesign : field (b.converted p) "energy_full_design" = .nil := by
    rw [hother _ (by decide) (by decide) (by decide), hp, h.noEnergyFullDesign]
    rfl
  have hstatus : field (b.converted p) "status" = b.statusValue := by
    rw [hother _ (by decide) (by decide) (by decide), hp, h.status]
    rfl
  have hbase : tonumberOf (energyBase (b.converted p) use) = some (.fin (b.watts b.full)) := by
    rw [energyBase, hdesign, hfull]
    cases use with
    | true => rfl
    | false => rfl
  rw [getBatteryInfo, hread, ← hstatus]
  change (convert p >>= fun p => batteryInfo p use) = _
  rw [hconvert]
  exact batteryInfo_eq (congrArg tonumberOf hfull) (congrArg tonumberOf hnow)
    (congrArg tonumberOf hpower) hbase (Battery.watts_pos b.full_pos).ne'

theorem exactInfo_inj {status : Val LuaNum} {base base' full now power : ℚ} :
    exactInfo status base full now power = exactInfo status base' full now power ↔
      percent now base = percent now base' := by
  rw [exactInfo, exactInfo]
  split
  · simp
  · simp

/-- The two reports give the same result if and only if the design charge is not asked for, or gives
the same percentage. -/
theorem getBatteryInfo_same_iff {w : Uevent} (hu : ChargeReport b u) (hw : EnergyReport b w)
    (use : Bool) :
    getBatteryInfo u.file use = getBatteryInfo w.file use ↔
      use = false ∨ percent b.now b.full = percent b.now b.fullDesign := by
  rw [getBatteryInfo_charge hu, getBatteryInfo_energy hw, Except.ok.injEq, exactInfo_inj,
    percent_watts, percent_watts, Battery.base]
  cases use with
  | true => simp
  | false => simp

end Reports

/-! ## A battery -/

/-- A battery that is full, and half as large as it was designed. -/
def worn : Battery where
  status := some (lit "Full")
  voltage := 10000000
  full := 2000000
  now := 2000000
  fullDesign := 4000000
  current := 0
  voltage_pos := by norm_num
  full_pos := by norm_num
  fullDesign_pos := by norm_num

/-- Its charges. -/
def wornCharges : Uevent where
  lines := [.property (lit "STATUS") (lit "Full"), .property (lit "VOLTAGE_NOW") (lit "10000000"),
    .property (lit "CURRENT_NOW") (lit "0"), .property (lit "CHARGE_FULL_DESIGN") (lit "4000000"),
    .property (lit "CHARGE_FULL") (lit "2000000"), .property (lit "CHARGE_NOW") (lit "2000000")]
  valid := by decide

/-- Its energies. -/
def wornEnergies : Uevent where
  lines := [.property (lit "STATUS") (lit "Full"), .property (lit "POWER_NOW") (lit "0"),
    .property (lit "ENERGY_FULL_DESIGN") (lit "40000000"),
    .property (lit "ENERGY_FULL") (lit "20000000"), .property (lit "ENERGY_NOW") (lit "20000000")]
  valid := by decide

theorem wornCharges_report : ChargeReport worn wornCharges where
  status := by decide
  voltage := ⟨lit "10000000", by decide, by decide +kernel⟩
  full := ⟨lit "2000000", by decide, by decide +kernel⟩
  now := ⟨lit "2000000", by decide, by decide +kernel⟩
  fullDesign := ⟨lit "4000000", by decide, by decide +kernel⟩
  current := ⟨lit "0", by decide, by decide +kernel⟩
  noEnergyFull := by decide
  noEnergyNow := by decide
  noEnergyFullDesign := by decide
  noPower := by decide

theorem wornEnergies_report : EnergyReport worn wornEnergies where
  status := by decide
  full := ⟨lit "20000000", by decide, by decide +kernel⟩
  now := ⟨lit "20000000", by decide, by decide +kernel⟩
  fullDesign := ⟨lit "40000000", by decide, by decide +kernel⟩
  power := ⟨lit "0", by decide, by decide +kernel⟩
  noCharge := by decide

theorem getBatteryInfo_same_iff_worn :
    ChargeReport worn wornCharges ∧ EnergyReport worn wornEnergies ∧
      getBatteryInfo wornCharges.file false = getBatteryInfo wornEnergies.file false :=
  ⟨wornCharges_report, wornEnergies_report,
    (getBatteryInfo_same_iff wornCharges_report wornEnergies_report false).mpr (.inl rfl)⟩

/-- With the design charge asked for, one report gives 100 per cent and the other one gives 50. -/
theorem getBatteryInfo_worn :
    ChargeReport worn wornCharges ∧ EnergyReport worn wornEnergies ∧
      getBatteryInfo wornCharges.file true ≠ getBatteryInfo wornEnergies.file true := by
  refine ⟨wornCharges_report, wornEnergies_report, fun h => ?_⟩
  rw [getBatteryInfo_charge wornCharges_report, getBatteryInfo_energy wornEnergies_report,
    Except.ok.injEq, exactInfo_inj] at h
  exact absurd h (by decide +kernel)

end Luastatus.BatteryLinux
