import CellModem.Bench.Modem
import CellModem.Listener
import CellModem.Survey.Collection

/-!
A rig: a station with a scripted modem, subscribers by name, and the listener once it is claimed.
What can be done on it at once is a `Deed`; what takes exchanges with the modem is a `Talk`.
-/

namespace CellModem.Bench

/-- The result of a step of a session. -/
inductive Answer where
  | nothing
  | flag (value : Bool)
  | count (value : Nat)
  | octets (result : Except Error Octets)
  | value (result : Except Error Value)
  | values (result : Except Error (List (Except Error Value)))
  | number (result : Except Error UInt16)
  | text (result : Except Error String)
  | outcome (result : Except Error Unit)
  | survey (survey : Survey) (failures : Survey.Failures)
  | receipt (receipt : Option (Bulletin.Receipt Signal))
  | rest (available : Nat) (signals : List Signal)
  | power (dbm : Option Int16)
  | item (name : String) (kind : Value.Kind)
  | both (first second : Answer)

structure Rig where
  station : Station Modem
  /-- Names of the subscribers, and what each of them reads next. -/
  readers : List (String × Bulletin.Place) := []
  /-- Settings of the listener, once it is claimed. -/
  listener : Option Settings := none
  /-- Bytes sent that have been reported. -/
  reported : Nat := 0

namespace Rig

def place? (rig : Rig) (reader : String) : Option Bulletin.Place :=
  (rig.readers.find? fun entry => entry.1 == reader).map (·.2)

def setBoard (rig : Rig) (board : Bulletin Signal) : Rig :=
  { rig with station := { rig.station with board } }

/-- The subscribers but for one. -/
def without (rig : Rig) (reader : String) : List (String × Bulletin.Place) :=
  rig.readers.filter fun entry => entry.1 != reader

def setPlace (rig : Rig) (reader : String) (place : Bulletin.Place) : Rig :=
  { rig with readers := (reader, place) :: rig.without reader }

/-- Enrol a reader; one of the same name leaves after that. -/
def subscribe (rig : Rig) (reader : String) : Except Error Unit × Rig :=
  match rig.station.board.subscribe with
  | .error e => (.error e, rig)
  | .ok (place, board) =>
    let board := (rig.place? reader).elim board board.leave
    (.ok (), (rig.setBoard board).setPlace reader place)

def unsubscribe (rig : Rig) (reader : String) : Bool × Rig :=
  match rig.place? reader with
  | some place =>
    (true, { rig.setBoard (rig.station.board.leave place) with readers := rig.without reader })
  | none => (false, rig)

def readNext (rig : Rig) (reader : String) : Option (Bulletin.Receipt Signal) × Rig :=
  match (rig.place? reader).bind rig.station.board.read with
  | some (receipt, place, board) => (some receipt, (rig.setBoard board).setPlace reader place)
  | none => (none, rig)

/-- How much there was to read, and all that could be read of it. -/
def readRest (rig : Rig) (reader : String) : Nat × List Signal × Rig :=
  match rig.place? reader with
  | some place =>
    let (signals, next, board) := rig.station.board.readAll place
    (rig.station.board.available place, signals, (rig.setBoard board).setPlace reader next)
  | none => (0, [], rig)

def takeListener (rig : Rig) (settings : Settings) : Except Error Unit × Rig :=
  match rig.station.takeListener with
  | .ok station => (.ok (), { rig with station, listener := some settings })
  | .error e => (.error e, rig)

/-- Put packets on the wire. -/
def inject (rig : Rig) (drafts : List Draft) : Rig :=
  let transport := rig.station.transport.queue rig.station.now drafts
  { rig with station := { rig.station with transport } }

end Rig

/-- What is done at once. -/
inductive Deed where
  | subscribe (reader : String)
  | unsubscribe (reader : String)
  | readNext (reader : String)
  | readRest (reader : String)
  | countQueued
  | power (raw : UInt16)
  | lookUp (item : Item)
  | requestStop
  | askStop
  | setListener (state : ListenerState)
  | inject (drafts : List Draft)
  | takeListener
  deriving Repr

def Deed.perform (settings : Settings) : Deed → Rig → Answer × Rig
  | .subscribe reader, rig =>
    let (result, rig) := rig.subscribe reader
    (.outcome result, rig)
  | .unsubscribe reader, rig =>
    let (left, rig) := rig.unsubscribe reader
    (.flag left, rig)
  | .readNext reader, rig =>
    let (receipt, rig) := rig.readNext reader
    (.receipt receipt, rig)
  | .readRest reader, rig =>
    let (available, signals, rig) := rig.readRest reader
    (.rest available signals, rig)
  | .countQueued, rig => (.count rig.station.board.messages.length, rig)
  | .power raw, rig => (.power (({ raw } : Signal).dbm? settings.signalOffset), rig)
  | .lookUp item, rig => (.item item.name item.kind, rig)
  | .requestStop, rig => (.nothing, { rig with station := rig.station.requestStop })
  | .askStop, rig => (.flag rig.station.stopRequested, rig)
  | .setListener state, rig => (.nothing, { rig with station := rig.station.setListener state })
  | .inject drafts, rig => (.nothing, rig.inject drafts)
  | .takeListener, rig =>
    let (result, rig) := rig.takeListener settings
    (.outcome result, rig)

/-- What takes exchanges with the modem. -/
inductive Talk where
  | send (command : String) (size : Nat)
  | fetch (item : Item)
  | fetchNumber (item : Item)
  | fetchText (item : Item)
  | fetchAll (items : List Item)
  | issueItem (item : Item)
  | issueText (text : String) (maxLength : Nat)
  | issueOctets (request : Octets)
  | survey
  deriving Repr

def Talk.action : Talk → Client.Action Answer
  | .send command size => .octets <$> Client.send command size
  | .fetch item => .value <$> Client.fetch item
  | .fetchNumber item => .number <$> Client.fetchNumber item
  | .fetchText item => .text <$> Client.fetchText item
  | .fetchAll items => .values <$> Client.fetchAll items
  | .issueItem item => .value <$> Client.issue item.typed
  | .issueText text maxLength => .text <$> Client.issue (.ofText text maxLength)
  | .issueOctets request => .text <$> Client.issue (.ofOctets request)
  | .survey => do
    let (report, failures) ← Survey.fetch
    return .survey report failures

end CellModem.Bench
