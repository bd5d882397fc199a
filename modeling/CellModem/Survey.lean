import CellModem.Json
import CellModem.Settings
import CellModem.Slots.Copy

/-!
The report on a device: what is known of its network, its SIM card and the device itself. What
could not be obtained is missing from the report and from its JSON form.
-/

namespace CellModem

structure Survey.Network where
  currentBand : Option UInt16 := none
  supportedBands : Option String := none
  areaCode : Option UInt32 := none
  countryCode : Option UInt16 := none
  networkCode : Option UInt16 := none
  ipAddress : Option String := none
  ueMode : Option UInt16 := none
  cellId : Option UInt32 := none
  lteMode : Option Bool := none
  nbiotMode : Option Bool := none
  gpsMode : Option Bool := none
  /-- Numeric operator, the source of both codes. -/
  operator : Option String := none
  deriving DecidableEq, Repr

structure Survey.Sim where
  uiccState : Option UInt16 := none
  iccid : Option String := none
  deriving DecidableEq, Repr

structure Survey.Device where
  firmware : Option String := none
  battery : Option UInt16 := none
  board : String := ""
  appVersion : String := ""
  appName : String := ""
  deriving DecidableEq, Repr

structure Survey where
  network : Survey.Network := {}
  sim : Survey.Sim := {}
  device : Survey.Device := {}
  deriving DecidableEq, Repr

namespace Survey

/-- Nothing known but what the settings say about the device. -/
def ofSettings (settings : Settings) : Survey :=
  { device :=
      { board := settings.board, appVersion := settings.appVersion, appName := settings.appName } }

def shortJson (v : UInt16) : Json :=
  .number v.toNat

def wordJson (v : UInt32) : Json :=
  .number v.toNat

/-- Everything but the operator, whose codes tell the same. -/
def Network.toJson (network : Network) : Json :=
  .ofPresent
    [("curBand", network.currentBand.map shortJson),
      ("supBands", network.supportedBands.map .text),
      ("areaCode", network.areaCode.map wordJson),
      ("mcc", network.countryCode.map shortJson),
      ("mnc", network.networkCode.map shortJson),
      ("ipAdr", network.ipAddress.map .text),
      ("ueMode", network.ueMode.map shortJson),
      ("cellID", network.cellId.map wordJson),
      ("lteMode", network.lteMode.map .flag),
      ("nbiotMode", network.nbiotMode.map .flag),
      ("gpsMode", network.gpsMode.map .flag)]

def Sim.toJson (sim : Sim) : Json :=
  .ofPresent [("uiccState", sim.uiccState.map shortJson), ("iccid", sim.iccid.map .text)]

/-- The three texts of the settings are there even when they are empty. -/
def Device.toJson (device : Device) : Json :=
  .ofPresent
    [("mFW", device.firmware.map .text),
      ("btryVolt", device.battery.map shortJson),
      ("board", some (.text device.board)),
      ("appVersion", some (.text device.appVersion)),
      ("appName", some (.text device.appName))]

def toJson (survey : Survey) : Json :=
  .object
    [("networkInfo", survey.network.toJson), ("simInfo", survey.sim.toJson),
      ("deviceInfo", survey.device.toJson)]

/-- The report as JSON text. -/
def render (survey : Survey) : String :=
  String.ofList survey.toJson.render

/-- Write the report to the front of a destination that has room for all of it. -/
def encode (survey : Survey) (dest : Octets) : Except Error Nat × Octets :=
  let bytes := Octets.ofText survey.render
  match dest.overwriteFront? bytes with
  | some written => (.ok bytes.length, written)
  | none => (.error .bufferTooSmall, dest)

end Survey

end CellModem
