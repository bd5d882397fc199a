import CellModem.Transport

/-!
A transport that logs every access to it, whatever comes of it. Whoever waits for a write or a flush
accesses the transport again, without beginning anew.
-/

namespace CellModem

inductive Access where
  | ready
  | read (room : Nat)
  /-- A write of these bytes begins. -/
  | write (request : Octets)
  | awaitWrite
  | flush
  | awaitFlush
  deriving DecidableEq, Repr

def Access.written? : Access → Option Octets
  | .write request => some request
  | .ready | .read _ | .awaitWrite | .flush | .awaitFlush => none

structure Logged (τ : Type) where
  transport : τ
  /-- In order. -/
  log : List Access := []
  deriving Repr

namespace Logged

variable {τ : Type}

def note (logged : Logged τ) (access : Access) (transport : τ) : Logged τ :=
  { transport, log := logged.log ++ [access] }

instance [Transport τ] : Transport (Logged τ) where
  ready now logged := (Transport.ready now logged.transport).map id (logged.note .ready)
  read now room logged :=
    (Transport.read now room logged.transport).map id (logged.note (.read room))
  write now request logged :=
    (Transport.write now request logged.transport).map id (logged.note (.write request))
  awaitWrite now logged :=
    (Transport.awaitWrite now logged.transport).map id (logged.note .awaitWrite)
  flush now logged := (Transport.flush now logged.transport).map id (logged.note .flush)
  awaitFlush now logged :=
    (Transport.awaitFlush now logged.transport).map id (logged.note .awaitFlush)

end Logged

end CellModem
