import CellModem.Numeral

/-!
JSON text in its compact form: no blanks, members in the order given, and no escape but the ones
that the grammar demands.
-/

namespace CellModem

inductive Json where
  | text (value : String)
  | number (value : Nat)
  | flag (value : Bool)
  | object (members : List (String × Json))
  deriving Repr

namespace Json

/-- The lower case hexadecimal digit of a value below sixteen. -/
def hexDigit (d : Nat) : Char :=
  if d < 10 then Char.ofNat (48 + d) else Char.ofNat (87 + d)

/-- A character as it stands inside a JSON text. -/
def escapeChar (c : Char) : List Char :=
  if c = '"' then ['\\', '"']
  else if c = '\\' then ['\\', '\\']
  else if c = '\x08' then ['\\', 'b']
  else if c = '\x0c' then ['\\', 'f']
  else if c = '\n' then ['\\', 'n']
  else if c = '\r' then ['\\', 'r']
  else if c = '\t' then ['\\', 't']
  else if c.toNat < 0x20 then
    ['\\', 'u', '0', '0', hexDigit (c.toNat / 16), hexDigit (c.toNat % 16)]
  else [c]

def renderText (cs : List Char) : List Char :=
  '"' :: (cs.flatMap escapeChar ++ ['"'])

mutual

def render : Json → List Char
  | .text s => renderText s.toList
  | .number n => Numeral.decimal n
  | .flag true => ['t', 'r', 'u', 'e']
  | .flag false => ['f', 'a', 'l', 's', 'e']
  | .object [] => ['\x7b', '\x7d']
  | .object ((name, value) :: members) =>
    '\x7b' :: (renderText name.toList ++ ':' :: (render value ++ renderLater members))

/-- The members behind the first one, and the closing brace. -/
def renderLater : List (String × Json) → List Char
  | [] => ['\x7d']
  | (name, value) :: members =>
    ',' :: (renderText name.toList ++ ':' :: (render value ++ renderLater members))

end

/-- An object of the members that are present. -/
def ofPresent (members : List (String × Option Json)) : Json :=
  .object (members.filterMap fun (name, value?) => value?.map fun value => (name, value))

end Json

end CellModem
