import CellModem.Query
import CellModem.Text.Cut

/-!
Reading a statement byte by byte. A position moves over the bytes of the text, and a field is cut
out of the text between two such positions. The checks that a machine makes are made here: nothing
comes of a cut inside a character or behind the end of the text, nor of a walk that needs one.
-/

namespace CellModem

namespace Octets

def endsStatement (b : UInt8) : Bool :=
  b == '\r'.toUInt8 || b == '\n'.toUInt8 || b == '\x00'.toUInt8 || b == ';'.toUInt8

def isPadding (b : UInt8) : Bool :=
  b == ' '.toUInt8 || b == '\t'.toUInt8

def isDecimalDigit (b : UInt8) : Bool :=
  '0'.toUInt8 ≤ b && b ≤ '9'.toUInt8

/-- Where the first byte of a kind stands, from `start` on. -/
def position? (kind : UInt8 → Bool) (bytes : Octets) (start : Nat) : Option Nat :=
  if start ≤ bytes.length then ((bytes.drop start).findIdx? kind).map (start + ·) else none

def skipPadding (bytes : Octets) (position : Nat) : Nat :=
  if h : position < bytes.length then
    if isPadding bytes[position] then skipPadding bytes (position + 1) else position
  else position

/-- Nothing of the statement is left but padding. -/
def atEnd (bytes : Octets) (position : Nat) : Bool :=
  match bytes[skipPadding bytes position]? with
  | none => true
  | some b => endsStatement b

end Octets

/-- A field among the bytes of a text: from where to where it is cut out, and where reading goes on
behind it. -/
structure Token where
  start : Nat
  stop : Nat
  next : Nat
  quoted : Bool := false
  deriving DecidableEq, Repr

namespace Token

/-- What stands at a position. -/
inductive Sight where
  | ended
  | unclosed
  | token (token : Token)
  deriving DecidableEq, Repr

/-- Look for the field that begins at a position. -/
def look (bytes : Octets) (position : Nat) : Sight :=
  match bytes[position]? with
  | none => .ended
  | some b =>
    if Octets.endsStatement b then .ended
    else if b == '"'.toUInt8 then
      match Octets.position? (· == '"'.toUInt8) bytes (position + 1) with
      | none => .unclosed
      | some close =>
        .token { start := position + 1, stop := close, next := close + 1, quoted := true }
    else if b == '('.toUInt8 then
      match Octets.position? (· == ')'.toUInt8) bytes (position + 1) with
      | none => .unclosed
      | some close => .token { start := position, stop := close + 1, next := close + 1 }
    else
      let stop := (Octets.position? (fun b => b == ','.toUInt8 || Octets.endsStatement b) bytes
        position).getD bytes.length
      .token { start := position, stop, next := stop }

end Token

/-- Put the parameter that a text stands for; nothing is put for an empty one without quotation
marks. -/
def Slots.store {limit : Nat} (slots : Slots limit) (index : Nat) (text : List Char)
    (quoted : Bool) : Except Error (Slots limit) :=
  let s := String.ofList text
  if quoted then slots.putText index s
  else if text.isEmpty then .ok slots
  else if (Octets.ofText s).all Octets.isDecimalDigit then
    match Numeral.decimalValue? text with
    | none => slots.putText index s
    | some v =>
      if v < 65536 then slots.putShort index (UInt16.ofNat v)
      else if v < 4294967296 then slots.putInt index (UInt32.ofNat v)
      else slots.putText index s
  else slots.putText index s

/-- How far a walk over a statement has come: the byte that is next and the slot that is next. -/
structure Walk (limit : Nat) where
  position : Nat := 0
  index : Nat := 0
  slots : Slots limit
  deriving DecidableEq, Repr

namespace Walk

variable {limit : Nat}

/-- What a walk has come to behind one more field. -/
inductive Turn (limit : Nat) where
  | over (result : Except Error Nat) (slots : Slots limit)
  | goesOn (walk : Walk limit)

/-- What stands at the position of the walk, padding in front of it passed over. -/
def sight (walk : Walk limit) (bytes : Octets) : Token.Sight :=
  Token.look bytes (Octets.skipPadding bytes walk.position)

/-- Go on behind a field that has been stored. A comma at the end of the statement opens one more
field. -/
def advance (walk : Walk limit) (bytes : Octets) (max next : Nat) (slots : Slots limit) :
    Turn limit :=
  let position := Octets.skipPadding bytes next
  let index := walk.index + 1
  if bytes[position]? = some ','.toUInt8 then
    let position := position + 1
    let index := if index < max ∧ Octets.atEnd bytes position then index + 1 else index
    .goesOn { position, index, slots }
  else .over (.ok index) slots

/-- Read one field. -/
def turn? (walk : Walk limit) (text : String) (max : Nat) : Option (Turn limit) :=
  match walk.sight (Octets.ofText text) with
  | .ended => some (.over (.ok walk.index) walk.slots)
  | .unclosed => some (.over (.error .incomplete) walk.slots)
  | .token token =>
    match Text.cut? text token.start token.stop with
    | none => none
    | some field =>
      match walk.slots.store walk.index (Text.trimEnd field.toList) token.quoted with
      | .error e => some (.over (.error e) walk.slots)
      | .ok slots => some (walk.advance (Octets.ofText text) max token.next slots)

theorem index_lt_of_turn? {walk next : Walk limit} {text : String} {max : Nat}
    (h : walk.turn? text max = some (.goesOn next)) : walk.index < next.index := by
  unfold turn? advance at h
  grind

/-- Read fields until the statement ends or `max` of them are read. -/
def run? (walk : Walk limit) (text : String) (max : Nat) :
    Option (Except Error Nat × Slots limit) :=
  if walk.index < max then
    match hturn : walk.turn? text max with
    | none => none
    | some (.over result slots) => some (result, slots)
    | some (.goesOn next) =>
      have := index_lt_of_turn? hturn
      next.run? text max
  else some (.ok walk.index, walk.slots)
termination_by max - walk.index
decreasing_by omega

section

variable {walk : Walk limit} {text : String} {max : Nat}

theorem run?_of_le (h : max ≤ walk.index) :
    walk.run? text max = some (.ok walk.index, walk.slots) := by
  rw [run?, if_neg (Nat.not_lt.mpr h)]

theorem run?_of_over {result : Except Error Nat} {slots : Slots limit} (hroom : walk.index < max)
    (hturn : walk.turn? text max = some (.over result slots)) :
    walk.run? text max = some (result, slots) := by
  rw [run?, if_pos hroom]
  grind

theorem run?_of_goesOn {next : Walk limit} (hroom : walk.index < max)
    (hturn : walk.turn? text max = some (.goesOn next)) :
    walk.run? text max = next.run? text max := by
  rw [run?, if_pos hroom]
  grind

end

/-- A walk comes to another one. -/
inductive Reaches (text : String) (max : Nat) (start : Walk limit) : Walk limit → Prop where
  | start : Reaches text max start start
  | step {walk next : Walk limit} (hreaches : Reaches text max start walk)
      (hroom : walk.index < max) (hturn : walk.turn? text max = some (.goesOn next)) :
      Reaches text max start next

end Walk

namespace Slots

variable {limit : Nat}

/-- Read at most `max` fields of a statement, byte by byte. -/
def walk? (slots : Slots limit) (max : Nat) (text : String) :
    Option (Except Error Nat × Slots limit) :=
  if slots.isAllocated then
    Walk.run? { slots := slots.clearAll } text (min max slots.capacity)
  else some (.error .invalidArgument, slots)

/-- Read `count` fields byte by byte, none of which may be missing or empty. -/
def walkExactly? (slots : Slots limit) (count : Nat) (text : String) :
    Option (Except Error Unit × Slots limit) :=
  match slots.walk? count text with
  | none => none
  | some (.error e, slots) => some (.error e, slots)
  | some (.ok _, slots) =>
    if slots.populated = count then some (.ok (), slots) else some (.error .incomplete, slots)

end Slots

/-- The text behind a prefix, cut off where the first ASCII white space stands. -/
def Statement.cutPrefix? (line : String) : Option String :=
  match Text.position? (fun c => Text.isAsciiBlank c.toNat) line with
  | none => some ""
  | some position => Text.cut? line position line.utf8ByteSize

namespace Query

/-- The name of the command, cut off in front of the first `?` or `=`. -/
def cutName? (query : Query) : Option String :=
  let name := String.ofList (withoutAttention query.command.toList)
  match Text.position? (fun c => c == '?' || c == '=') name with
  | none => some name
  | some position => Text.cut? name 0 position

/-- Read the parameters of a response into slots, byte by byte. -/
def walk? {limit : Nat} (query : Query) (response : String) (slots : Slots limit) :
    Option (Except Error Unit × Slots limit) :=
  let response := String.ofList (Text.trimStart response.toList)
  if query.prefixed then
    match query.cutName? with
    | none => none
    | some name =>
      if (name.toList ++ [':']).isPrefixOf response.toList then
        match Statement.cutPrefix? response with
        | none => none
        | some statement => slots.walkExactly? query.count statement
      else some (.error .incomplete, slots)
  else
    match response.toList with
    | '+' :: _ | '%' :: _ => some (.error .incomplete, slots)
    | _ => slots.walkExactly? query.count response

end Query

/-- The two codes of an operator, cut apart behind the third byte. -/
def Code.NetworkCode.cutOperator? (operator : String) : Option (Except Error NetworkCode) :=
  let bytes := Octets.ofText operator
  if bytes.length ≤ 3 || !bytes.all Octets.isDecimalDigit then some (.error .invalidArgument)
  else
    match Text.halves? operator 3 with
    | none => none
    | some (country, network) =>
      match shortNumeral? country.toList, shortNumeral? network.toList with
      | some country, some network => some (.ok ⟨country, network⟩)
      | _, _ => some (.error .invalidArgument)

end CellModem
