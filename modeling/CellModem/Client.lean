import CellModem.Command
import CellModem.Dialogue

/-!
The client of a modem: asking for items of the catalog and sending commands of one's own. The slots
of a client are filled anew for every response.
-/

namespace CellModem

structure Client where
  settings : Settings
  slots : Slots Limits.parameters := .full

namespace Client

/-- What a client does: a program of calls that may change the client's slots. -/
abbrev Action (α : Type) := StateT Client Dialogue α

/-- The call that sends a command under the settings of the client. -/
def call (client : Client) (command : String) (size : Nat) : Call :=
  { command
    terminator := client.settings.terminator
    timeout := client.settings.responseTimeout
    size }

/-- Send a command and take the lines of its response. -/
def send (command : String) (size : Nat := Limits.response) : Action Exchange.Result := do
  let client ← get
  Dialogue.request (client.call command size)

/-- Ask, and read the parameters of the response into the slots. -/
def load (query : Query) : Action (Except Error Unit) := do
  match ← send query.command with
  | .error e => return .error e
  | .ok bytes =>
    match bytes.text? with
    | none => return .error .transport
    | some response =>
      let client ← get
      let (result, slots) := query.load response.toList client.slots
      set { client with slots }
      return result

/-- Ask for an item. -/
def fetch (item : Item) : Action (Except Error Value) := do
  match ← load item.query with
  | .error e => return .error e
  | .ok () => return item.query.value (← get).slots

/-- The query that serves several items of one command: it wants as many parameters as the most
demanding of them. None for no items and for items of different commands. -/
def sharedQuery? : List Item → Option Query
  | [] => none
  | first :: items =>
    if items.all fun item => item.command == first.command then
      some
        { first.query with
          count := items.foldl (fun count item => max count item.query.count) first.query.count }
    else none

/-- Ask for several items that share a command, in one exchange. The outer error is that of the
exchange, the inner ones belong to the items. -/
def fetchAll (items : List Item) : Action (Except Error (List (Except Error Value))) := do
  match sharedQuery? items with
  | none => return .error .invalidArgument
  | some query =>
    match ← load query with
    | .error e => return .error e
    | .ok () =>
      let client ← get
      return .ok (items.map fun item => item.query.value client.slots)

/-- Ask for a number. An item that is a text by its kind is refused before anything is sent. -/
def fetchNumber (item : Item) : Action (Except Error UInt16) := do
  if item.kind ≠ .number then return .error .invalidArgument
  else
    match ← fetch item with
    | .error e => return .error e
    | .ok value =>
      match value.number? with
      | some n => return .ok n
      | none => return .error .typeMismatch

/-- Ask for an item as text. -/
def fetchText (item : Item) : Action (Except Error String) := do
  return (← fetch item).map Value.render

/-- The text of a request without the white space at its end, if it is a text at all. -/
def commandText? (request : Octets) : Option String :=
  request.text?.map fun s => String.ofList (Text.trimEnd s.toList)

/-- Send a typed command. What ends its request is replaced by the terminator of the settings. -/
def issue {α : Type} (command : Command α) : Action (Except Error α) := do
  if Limits.request < command.maxLength then return .error .invalidArgument
  else
    match commandText? command.request with
    | none => return .error .invalidArgument
    | some text =>
      match ← send text with
      | .error e => return .error e
      | .ok bytes =>
        match command.decode (.ok bytes) with
        | .ok value => return .ok value
        | .error fault => return .error (.command fault)

/-- Run an action of a new client. -/
def perform {α : Type} (settings : Settings) (action : Action α) : Dialogue α :=
  (fun result => result.1) <$> action.run { settings }

end Client

end CellModem
