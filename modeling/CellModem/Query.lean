import CellModem.Code.Network
import CellModem.Code.SemiOctets
import CellModem.Statement.Load
import CellModem.Value

/-!
How one piece of information is asked for and found in the response: a command, the position of the
value among the parameters, and what to make of the parameter there. A response counts only if it
carries the prefix of the command that was sent, and only with all its parameters present.
-/

namespace CellModem

/-- What is done with the parameter at the position of the value. -/
inductive Decoding where
  /-- Take it as it is. -/
  | plain
  /-- The number of a SIM card, its digit pairs exchanged. -/
  | iccid
  | countryCode
  | networkCode
  deriving DecidableEq, Repr

structure Query where
  command : String
  name : String
  /-- Position of the value. -/
  index : Nat := 0
  /-- Parameters of a complete response. -/
  count : Nat := 1
  kind : Value.Kind := .number
  /-- Whether the response starts with the name of the command. -/
  prefixed : Bool := true
  decoding : Decoding := .plain
  deriving DecidableEq, Repr

namespace Query

variable {limit : Nat}

/-- A text without `AT` at its start. -/
def withoutAttention : List Char → List Char
  | 'A' :: 'T' :: cs => cs
  | cs => cs

/-- The name of the command, such as `+COPS` for `AT+COPS?`, which its response repeats. -/
def responseName (query : Query) : List Char :=
  (withoutAttention query.command.toList).takeWhile fun c => !(c == '?' || c == '=')

/-- The part of a response that holds the parameters. None if the response belongs to another
command: one that should carry a name must carry that name and a colon, one that should not must not
start like a name. -/
def statement? (query : Query) (response : List Char) : Option (List Char) :=
  let response := Text.trimStart response
  if query.prefixed then
    if (query.responseName ++ [':']).isPrefixOf response then
      some (Statement.afterPrefix response)
    else none
  else
    match response with
    | '+' :: _ | '%' :: _ => none
    | response => some response

/-- Read the parameters of a response into slots. -/
def load (query : Query) (response : List Char) (slots : Slots limit) :
    Except Error Unit × Slots limit :=
  match query.statement? response with
  | none => (.error .incomplete, slots)
  | some statement => slots.loadExactly query.count statement

/-- A parameter as text: numbers in decimal, an empty slot of the wrong kind. -/
def textOf : Parameter → Except Error String
  | .text s => .ok s
  | .short v => .ok (Value.number v).render
  | .int v => .ok (String.ofList (Numeral.decimal v.toNat))
  | .empty => .error .typeMismatch

/-- The value that the query is after, from slots that hold the response. -/
def value (query : Query) (slots : Slots limit) : Except Error Value :=
  match query.decoding, query.kind with
  | .plain, .number => (slots.short query.index).map .number
  | .plain, .text => do
    let p ← slots.get query.index
    return .text (← textOf p)
  | .iccid, _ => do
    let s ← slots.text query.index
    return .text (← Code.restoreSemiOctets Limits.text s)
  | .countryCode, _ => do
    let s ← slots.text query.index
    return .number (← Code.NetworkCode.ofOperator s).country
  | .networkCode, _ => do
    let s ← slots.text query.index
    return .number (← Code.NetworkCode.ofOperator s).network

/-- Read a response and take the value out of it. -/
def answer (query : Query) (response : List Char) (slots : Slots limit) :
    Except Error Value × Slots limit :=
  match query.load response slots with
  | (.error e, slots) => (.error e, slots)
  | (.ok _, slots) => (query.value slots, slots)

end Query

end CellModem
