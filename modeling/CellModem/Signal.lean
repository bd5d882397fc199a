import CellModem.Item
import CellModem.Line

/-!
Signal reports that the modem sends unasked, `%CESQ: <power>,<threshold>`, and the power they stand
for.
-/

namespace CellModem

structure Signal where
  /-- Raw index: 0 to 97 for a measured signal. -/
  raw : UInt16
  deriving DecidableEq, Repr

namespace Signal

/-- Highest raw index of a measured signal. -/
def highest : UInt16 := 97

/-- Read a report line, with slots to hold its parameters meanwhile. -/
def read {limit : Nat} (line : Octets) (slots : Slots limit) :
    Except Error Signal × Slots limit :=
  match line.text? with
  | none => (.error .invalidArgument, slots)
  | some s =>
    let text := Text.trimStart s.toList
    if Line.noticeMark.toList.isPrefixOf text then
      match slots.loadExactly Item.rsrp.query.count (Statement.afterPrefix text) with
      | (.error e, slots) => (.error e, slots)
      | (.ok _, slots) => ((slots.short Item.rsrp.query.index).map .mk, slots)
    else (.error .invalidArgument, slots)

/-- The signal that a report line announces; none if the line is malformed. -/
def ofLine? (line : Octets) : Option Signal :=
  match (read line (Slots.full : Slots Item.rsrp.query.count)).1 with
  | .ok signal => some signal
  | .error _ => none

/-- Power in dBm, none for a signal that was not measured or a power beyond 16 bits. -/
def dbm? (signal : Signal) (offset : Int16) : Option Int16 :=
  let power : Int := signal.raw.toNat - offset.toInt
  if highest < signal.raw then none
  else if -32768 ≤ power ∧ power ≤ 32767 then some (Int16.ofInt power)
  else none

/-- Power in dBm as text, if there is room for it. -/
def render? (signal : Signal) (offset : Int16) : Option String := do
  let power ← signal.dbm? offset
  let text := String.ofList (Numeral.signedDecimal power.toInt)
  if text.utf8ByteSize ≤ Limits.power then some text else none

end Signal

end CellModem
