import CellModem.Error
import CellModem.Settings

/-!
A board on which messages wait for the subscribers enrolled when they were posted. It never keeps a
poster waiting: a full board loses its oldest message, and a subscriber who missed messages is told
how many.
-/

namespace CellModem

structure Bulletin (α : Type) where
  /-- Messages, oldest first, each with the number of subscribers who have yet to read it. -/
  messages : List (α × Nat) := []
  /-- Messages ever kept. The newest one is this number less one. -/
  posted : Nat := 0
  subscribers : Nat := 0
  deriving Repr

/-- Number of the message a subscriber reads next. -/
abbrev Bulletin.Place := Nat

/-- What a look at the board yields. -/
inductive Bulletin.Receipt (α : Type) where
  | message (value : α)
  /-- So many messages went by unread. -/
  | lagged (missed : Nat)
  deriving Repr

namespace Bulletin

variable {α : Type}

/-- Number of the oldest message that is still there. -/
def oldest (board : Bulletin α) : Place :=
  board.posted - board.messages.length

/-- A full board loses its oldest message. -/
def makeRoom (messages : List (α × Nat)) : List (α × Nat) :=
  if messages.length < Limits.bulletin then messages else messages.drop 1

/-- Post a message. Without subscribers it is not kept, though a full board makes room for it all
the same. -/
def post (board : Bulletin α) (message : α) : Bulletin α :=
  let messages := makeRoom board.messages
  if board.subscribers = 0 then { board with messages }
  else
    { board with
      messages := messages ++ [(message, board.subscribers)]
      posted := board.posted + 1 }

/-- Enrol a subscriber, who reads what is posted from now on. -/
def subscribe (board : Bulletin α) : Except Error (Place × Bulletin α) :=
  if board.subscribers < Limits.subscribers then
    .ok (board.posted, { board with subscribers := board.subscribers + 1 })
  else .error (.enrolment .tooManySubscribers)

/-- One subscriber fewer waits for each of these messages. -/
def countDown (messages : List (α × Nat)) : List (α × Nat) :=
  messages.map fun (message, readers) => (message, readers - 1)

/-- Take away the messages at the front for which nobody waits. -/
def dropRead (messages : List (α × Nat)) : List (α × Nat) :=
  messages.dropWhile fun (_, readers) => readers == 0

/-- A subscriber leaves. The messages the subscriber had not read wait for one reader fewer; one
who had lost messages leaves the counts alone. -/
def leave (board : Bulletin α) (place : Place) : Bulletin α :=
  let board := { board with subscribers := board.subscribers - 1 }
  if board.oldest ≤ place then
    let seen := place - board.oldest
    { board with
      messages := dropRead (board.messages.take seen ++ countDown (board.messages.drop seen)) }
  else board

/-- Messages posted since the subscriber's place, lost ones included. -/
def available (board : Bulletin α) (place : Place) : Nat :=
  board.posted - place

/-- Look for the next message. The place moves on behind what is reported, and a message at the
front goes when its last reader has read it. -/
def read (board : Bulletin α) (place : Place) : Option (Receipt α × Place × Bulletin α) :=
  if place < board.oldest then
    some (.lagged (board.oldest - place), board.oldest, board)
  else
    let index := place - board.oldest
    match board.messages.drop index with
    | [] => none
    | (message, readers) :: later =>
      let messages :=
        if index = 0 ∧ readers ≤ 1 then later
        else board.messages.take index ++ (message, readers - 1) :: later
      some (.message message, place + 1, { board with messages })

/-- Look for messages again and again, `looks` times at most, and keep those that are found. -/
def readUpTo (looks : Nat) (board : Bulletin α) (place : Place) : List α × Place × Bulletin α :=
  match looks with
  | 0 => ([], place, board)
  | looks + 1 =>
    match board.read place with
    | none => ([], place, board)
    | some (.lagged _, place, board) => readUpTo looks board place
    | some (.message message, place, board) =>
      let (later, place, board) := readUpTo looks board place
      (message :: later, place, board)

/-- Read all messages that are left, whatever was missed before them: one look may tell of a loss,
and each further one takes a message. -/
def readAll (board : Bulletin α) (place : Place) : List α × Place × Bulletin α :=
  board.readUpTo (board.messages.length + 1) place

theorem length_makeRoom_lt {messages : List (α × Nat)}
    (h : messages.length ≤ Limits.bulletin) : (makeRoom messages).length < Limits.bulletin := by
  unfold makeRoom
  split
  · assumption
  · simp only [List.length_drop, Limits.bulletin] at *
    omega

/-- The board never holds more than it has room for. -/
theorem length_messages_post_le {board : Bulletin α}
    (h : board.messages.length ≤ Limits.bulletin) (message : α) :
    (board.post message).messages.length ≤ Limits.bulletin := by
  have room := length_makeRoom_lt h
  unfold post
  by_cases nobody : board.subscribers = 0
  · simpa [nobody] using Nat.le_of_lt room
  · simpa [nobody] using Nat.succ_le_of_lt room

end Bulletin

end CellModem
