import CellModem.Realignment

/-!
Reading what the modem has sent unasked, without waiting for it to start. Once something came in,
the lock is held until the bytes end with a line, so that no exchange begins within a line; a line
that stays unfinished is noted in the alignment of the stream.
-/

namespace CellModem.Sweep

inductive Stage where
  /-- Waiting for the lock. -/
  | queued
  | realigning (realignment : Realignment)
  | reading
  | completing (buffer : Buffer) (timer : Timer)
  deriving DecidableEq, Repr

/-- The buffer with the bytes that were read; none if there was nothing to read. -/
abbrev Result := Except Error (Option Buffer)

variable {τ : Type} [Transport τ]

/-- Give the lock back with a result. -/
def finish (station : Station τ) (result : Result) : Progress Stage Result × Station τ :=
  (.finished result, station.unlock)

/-- Give up on an unfinished line, and keep what came of it. -/
def cutShort (station : Station τ) (buffer : Buffer) : Progress Stage Result × Station τ :=
  finish (station.align .midLine) (.ok (some buffer))

/-- Go one step: at most one read, and what follows from it. -/
def step (timeout : Millis) : Stage → Station τ → Progress Stage Result × Station τ
  | .queued, station =>
    if station.locked then (.waiting .queued, station)
    else
      match station.lock.probe with
      | (none, station) => finish station (.error .transport)
      | (some false, station) => finish station (.ok none)
      | (some true, station) =>
        if station.alignment = .aligned then (.moved .reading, station)
        else (.moved (.realigning (.start station timeout)), station)
  | .realigning realignment, station =>
    match realignment.step station with
    | (.moved realignment, station) => (.moved (.realigning realignment), station)
    | (.waiting realignment, station) => (.waiting (.realigning realignment), station)
    | (.finished _, station) => finish station (.ok none)
  | .reading, station =>
    let buffer := Buffer.empty Limits.response
    match station.read .sweep buffer.room with
    | (.waiting, station) => (.waiting .reading, station)
    | (.failed, station) => finish station (.error .transport)
    | (.done chunk, station) =>
      if chunk.val = [] then finish station (.ok (some buffer))
      else (.moved (.completing (buffer.fill chunk) (.start station.now timeout)), station)
  | .completing buffer timer, station =>
    if buffer.pending.getLast? = some Line.lineFeed then finish station (.ok (some buffer))
    else if buffer.room = 0 then cutShort station buffer
    else
      match station.read .sweep buffer.room with
      | (.waiting, station) =>
        match timer.ask station.now with
        | some timer => (.waiting (.completing buffer timer), station)
        | none => cutShort station buffer
      | (.failed, station) => cutShort station buffer
      | (.done chunk, station) =>
        if chunk.val = [] then cutShort station buffer
        else (.moved (.completing (buffer.fill chunk) timer), station)

/-- When to ask again at the latest. -/
def Stage.deadline? : Stage → Option Millis
  | .queued | .reading => none
  | .realigning realignment => some realignment.timer.deadline
  | .completing _ timer => some timer.deadline

end CellModem.Sweep
