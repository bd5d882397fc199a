import CellModem.Query

/-!
The catalog of what can be asked of the modem. Several items share a command and differ in the
position of their value in its response.
-/

namespace CellModem

inductive Item where
  /-- Reference signal received power, as raw index. -/
  | rsrp
  | currentBand
  /-- Bands that the firmware supports, as a list in parentheses. -/
  | supportedBands
  | ueMode
  /-- Operator that the modem is registered with, in numeric form. -/
  | operator
  | countryCode
  | networkCode
  /-- Tracking area code, hexadecimal. -/
  | areaCode
  /-- Cell identity, hexadecimal. -/
  | cellId
  | ipAddress
  | uiccState
  /-- Battery voltage in millivolts. -/
  | battery
  /-- Temperature in degrees Celsius. -/
  | temperature
  | firmware
  /-- Number of the SIM card. -/
  | iccid
  | lteMode
  | nbiotMode
  | gpsMode
  /-- Signal strength of the serving cell, as raw index. -/
  | rssi
  deriving DecidableEq, Repr

namespace Item

def query : Item → Query
  | .rsrp => { command := "AT+CESQ", name := "signalStrength", count := 2 }
  | .currentBand => { command := "AT%XCBAND", name := "curBand" }
  | .supportedBands => { command := "AT%XCBAND=?", name := "supBands", kind := .text }
  | .ueMode => { command := "AT+CEMODE?", name := "ueMode" }
  | .operator => { command := "AT+COPS?", name := "curOp", index := 2, count := 4, kind := .text }
  | .countryCode =>
    { command := "AT+COPS?", name := "mcc", index := 2, count := 4, decoding := .countryCode }
  | .networkCode =>
    { command := "AT+COPS?", name := "mnc", index := 2, count := 4, decoding := .networkCode }
  | .areaCode =>
    { command := "AT+CEREG?", name := "areaCode", index := 2, count := 5, kind := .text }
  | .cellId => { command := "AT+CEREG?", name := "cellID", index := 3, count := 5, kind := .text }
  | .ipAddress =>
    { command := "AT+CGDCONT?", name := "ipAdr", index := 3, count := 6, kind := .text }
  | .uiccState => { command := "AT%XSIM?", name := "uiccState" }
  | .battery => { command := "AT%XVBAT", name := "btryVolt" }
  | .temperature => { command := "AT%XTEMP", name := "temp", index := 1, count := 2 }
  | .firmware => { command := "AT+CGMR", name := "mFW", kind := .text, prefixed := false }
  | .iccid =>
    { command := "AT+CRSM=176,12258,0,0,10", name := "iccid", index := 2, count := 3,
      kind := .text, decoding := .iccid }
  | .lteMode => { command := "AT%XSYSTEMMODE?", name := "lteMode", count := 4 }
  | .nbiotMode => { command := "AT%XSYSTEMMODE?", name := "nbiotMode", index := 1, count := 4 }
  | .gpsMode => { command := "AT%XSYSTEMMODE?", name := "gpsMode", index := 2, count := 4 }
  | .rssi => { command := "AT+CESQ", name := "rssi", index := 5, count := 6 }

def command (item : Item) : String :=
  item.query.command

def name (item : Item) : String :=
  item.query.name

def kind (item : Item) : Value.Kind :=
  item.query.kind

/-- Every item, each at the place of its number. -/
def all : List Item :=
  [.rsrp, .currentBand, .supportedBands, .ueMode, .operator, .countryCode, .networkCode,
    .areaCode, .cellId, .ipAddress, .uiccState, .battery, .temperature, .firmware, .iccid,
    .lteMode, .nbiotMode, .gpsMode, .rssi]

def ofNumber (n : Nat) : Except Error Item :=
  match all[n]? with
  | some item => .ok item
  | none => .error .invalidArgument

/-- The catalog names every item. -/
theorem mem_all (item : Item) : item ∈ all := by
  cases item <;> decide

/-- No item has two numbers. -/
theorem nodup_all : all.Nodup := by
  decide

/-- The value stands among the parameters that a complete response has. -/
theorem index_lt_count (item : Item) : item.query.index < item.query.count := by
  cases item <;> decide

end Item

end CellModem
