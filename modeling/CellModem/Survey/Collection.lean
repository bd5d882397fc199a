import CellModem.Client
import CellModem.Code.Hex
import CellModem.Survey

/-!
Collecting a report: eleven exchanges, one for each command. A value that cannot be obtained is
missing from the report and noted with its cause; the collection goes on.
-/

namespace CellModem.Survey

/-- Items that could not be obtained, in the order in which they were asked for. -/
abbrev Failures := List (Item × Error)

/-- Note a failure, as long as there are fewer of them than items. -/
def Failures.note (failures : Failures) (item : Item) (cause : Error) : Failures :=
  if failures.length < Item.all.length then failures ++ [(item, cause)] else failures

abbrev Collection (α : Type) := StateT Failures Client.Action α

namespace Collection

/-- Keep a value, or note why there is none. -/
def check {α : Type} (item : Item) : Except Error α → Collection (Option α)
  | .ok value => return some value
  | .error cause => do
    modify fun failures => failures.note item cause
    return none

def number (item : Item) : Collection (Option UInt16) := do
  check item (← Client.fetchNumber item)

def text (item : Item) : Collection (Option String) := do
  check item (← Client.fetchText item)

/-- Items of one command. If the exchange fails, each of them does. -/
def together (items : List Item) : Collection (List (Option Value)) := do
  match ← Client.fetchAll items with
  | .ok values => (items.zip values).mapM fun (item, value) => check item value
  | .error cause => items.mapM fun item => check item (.error cause)

/-- The value of a hexadecimal text; anything else that was obtained has none. -/
def hexWord (item : Item) (value : Option Value) : Collection (Option UInt32) :=
  match value.bind Value.text? with
  | some s => check item ((Code.hexWord s).mapError .ofHexFault)
  | none => return none

/-- The codes of an operator; a failure is noted for the country code. -/
def networkCode (operator : Option String) : Collection (Option Code.NetworkCode) :=
  match operator with
  | some s => check .countryCode (Code.NetworkCode.ofOperator s)
  | none => return none

end Collection

/-- A number that switches something on unless it is zero. -/
def flag (value : Option Value) : Option Bool :=
  (value.bind Value.number?).map fun n => n != 0

open Collection in
/-- Ask for everything that belongs to the report. -/
def collect : Collection Survey := do
  let client ← getThe Client
  let currentBand ← number .currentBand
  let supportedBands ← text .supportedBands
  let ipAddress ← text .ipAddress
  let ueMode ← number .ueMode
  let operator ← text .operator
  let codes ← networkCode operator
  let place ← together [.cellId, .areaCode]
  let cellId ← hexWord .cellId (place[0]?.join)
  let areaCode ← hexWord .areaCode (place[1]?.join)
  let modes ← together [.lteMode, .nbiotMode, .gpsMode]
  let uiccState ← number .uiccState
  let iccid ← text .iccid
  let firmware ← text .firmware
  let battery ← number .battery
  let empty := Survey.ofSettings client.settings
  return {
    network := {
      currentBand, supportedBands, areaCode, ipAddress, ueMode, cellId, operator
      countryCode := codes.map (·.country)
      networkCode := codes.map (·.network)
      lteMode := flag modes[0]?.join
      nbiotMode := flag modes[1]?.join
      gpsMode := flag modes[2]?.join }
    sim := { uiccState, iccid }
    device := { empty.device with firmware, battery } }

/-- Collect a report and the failures on the way. -/
def fetch : Client.Action (Survey × Failures) :=
  collect.run []

end CellModem.Survey
