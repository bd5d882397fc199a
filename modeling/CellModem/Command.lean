import CellModem.Item
import CellModem.Text.Octets

/-!
A typed command: the bytes to send, and what the response means. Every item of the catalog is one,
so that it can be asked for through any modem client as well as through `Client`.
-/

namespace CellModem

structure Command (α : Type) where
  /-- The bytes to send, with whatever ends them. -/
  request : Octets
  /-- Bound for the length of such requests. -/
  maxLength : Nat := Limits.request
  /-- Time that a client should allow. -/
  timeout : Millis := 10000
  /-- Meaning of a response, or of the failure to get one. -/
  decode : Except CommandFault Octets → Except CommandFault α

/-- The value of an item, from the response to it alone. A failure to get one is an invalid response
unless it is a timeout, and every response without the value fails to parse. -/
def Item.decode (item : Item) : Except CommandFault Octets → Except CommandFault Value
  | .error .timeout => .error .timeout
  | .error _ => .error .invalidResponse
  | .ok bytes =>
    match bytes.text? with
    | none => .error .parse
    | some response =>
      match (Slots.ofCapacity item.query.count : Except Error (Slots Limits.parameters)) with
      | .error _ => .error .parse
      | .ok slots =>
        match (item.query.answer response.toList slots).1 with
        | .ok value => .ok value
        | .error _ => .error .parse

def Item.typed (item : Item) : Command Value :=
  { request := Octets.ofText item.command ++ Octets.ofText "\r\n", decode := item.decode }

namespace Command

/-- Send a text as it is and take the response as text, if it fits the usual response. -/
def ofText (text : String) (maxLength : Nat) : Command String :=
  { request := Octets.ofText text
    maxLength
    decode := fun response =>
      match response with
      | .error fault => .error fault
      | .ok bytes =>
        match bytes.text? with
        | some s => if s.utf8ByteSize ≤ Limits.response then .ok s else .error .parse
        | none => .error .parse }

/-- Send bytes as they are and take the response as text. -/
def ofOctets (request : Octets) : Command String :=
  { request
    decode := fun response =>
      match response with
      | .error fault => .error fault
      | .ok bytes =>
        match bytes.text? with
        | some s => .ok s
        | none => .error .invalidResponse }

end Command

end CellModem
