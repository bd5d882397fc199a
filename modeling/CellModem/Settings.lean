/-!
What a device decides once: the settings of an application, and the fixed sizes of the storage.
Durations are in milliseconds, sizes in bytes.
-/

namespace CellModem

namespace Limits

/-- Parameters of one response that are kept at most. -/
def parameters : Nat := 10

/-- Bytes of a text parameter. -/
def text : Nat := 64

/-- Bytes of one response. -/
def response : Nat := 256

/-- Bytes of a request, its terminator included. -/
def request : Nat := 64

/-- Bytes of a signal power as text. -/
def power : Nat := 8

/-- Signal readings that wait to be read. -/
def bulletin : Nat := 4

/-- Subscribers to signal readings. -/
def subscribers : Nat := 2

end Limits

/-- A point in time or a duration, in milliseconds. -/
abbrev Millis := Nat

structure Settings where
  /-- Bound for a response to reach its final result. -/
  responseTimeout : Millis := 10000
  /-- Pause of the listener when there was nothing to read. -/
  pollInterval : Millis := 100
  /-- Subtracted from a raw signal index to obtain dBm. -/
  signalOffset : Int16 := 141
  /-- Whether the listener switches signal reports on and off. -/
  subscribes : Bool := true
  /-- Ends every request. -/
  terminator : String := "\r\n"
  board : String := ""
  appName : String := ""
  appVersion : String := ""

end CellModem
