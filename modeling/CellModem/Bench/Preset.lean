import CellModem.Settings

/-!
Settings by name, to exercise the library with: short and zero timeouts, other line ends, extreme
signal offsets and texts that need escapes.
-/

namespace CellModem.Bench

def preset? : String → Option Settings
  | "default" => some {}
  | "quiet" => some { responseTimeout := 500, pollInterval := 10, subscribes := false }
  | "subscribing" => some { responseTimeout := 500, pollInterval := 10 }
  | "hasty" => some { responseTimeout := 0, subscribes := false }
  | "board" =>
    some
      { signalOffset := 140
        board := "nrf9160dk_nrf9160"
        appName := "asset \"tracker\"\\\x01\u00e9"
        appVersion := "1.0.0" }
  | "cr" => some { signalOffset := -32768, terminator := "\r" }
  | "bare" => some { signalOffset := 32767, terminator := "" }
  | _ => none

end CellModem.Bench
