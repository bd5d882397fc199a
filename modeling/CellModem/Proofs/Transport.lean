import CellModem.Transport

/-!
Transports that answer. Nothing is said about how they cut their answer into reads, nor about when
the reads succeed, but that all of it is there by a certain moment.
-/

namespace CellModem

variable {τ : Type}

/-- A call is done as said; it has to be asked for again only under a condition. -/
def Settles {α : Type} (patience : Prop) (done : α → τ → Prop) (held : τ → Prop) :
    Attempt α × τ → Prop
  | (.done result, transport) => done result transport
  | (.failed, _) => False
  | (.waiting, transport) => patience ∧ held transport

variable [Transport τ]

/-- What a transport holds is read from it piece by piece, and has come in by `due`. -/
def Conveys (due : Millis) (holds : Octets → τ → Prop) : Prop :=
  ∀ bytes transport now room, holds bytes transport → 0 < room →
    Settles (bytes = [] ∨ now < due)
      (fun chunk next => chunk.val ≠ [] ∧ ∃ rest, chunk.val ++ rest = bytes ∧ holds rest next)
      (holds bytes) (Transport.read now room transport)

/-- How far a transport has come with a request. -/
inductive Phase where
  | writing
  | written
  | flushing
  | conveying (bytes : Octets)

/-- A request is taken as a whole, and its reply comes in by `due`. -/
structure Answers (request reply : Octets) (due : Millis) (stands : Phase → τ → Prop) : Prop where
  awaitWrite : ∀ transport now, stands .writing transport →
    Settles (now < due) (fun taken next => taken = request.length ∧ stands .written next)
      (stands .writing) (Transport.awaitWrite now transport)
  flush : ∀ transport now, stands .written transport →
    Settles (now < due) (fun _ next => stands (.conveying reply) next)
      (stands .flushing) (Transport.flush now transport)
  awaitFlush : ∀ transport now, stands .flushing transport →
    Settles (now < due) (fun _ next => stands (.conveying reply) next)
      (stands .flushing) (Transport.awaitFlush now transport)
  read : Conveys due fun bytes => stands (.conveying bytes)

/-- If `request` is written now, its reply comes in within so much time. -/
def Responds (request reply : Octets) (within now : Millis) (transport : τ) : Prop :=
  ∃ stands, Answers request reply (now + within) stands ∧
    Settles (0 < within) (fun taken next => taken = request.length ∧ stands .written next)
      (stands .writing) (Transport.write now request transport)

/-- And what is not read of the reply stands on the wire. -/
def Replies (request reply : Octets) (within now : Millis) (wire : Octets → τ → Prop)
    (transport : τ) : Prop :=
  ∃ stands, Answers request reply (now + within) stands ∧
    Settles (0 < within) (fun taken next => taken = request.length ∧ stands .written next)
      (stands .writing) (Transport.write now request transport) ∧
    ∀ bytes next, stands (.conveying bytes) next → wire bytes next

theorem Replies.imp {request reply : Octets} {within now : Millis} {wire wire' : Octets → τ → Prop}
    {transport : τ} (h : Replies request reply within now wire transport)
    (hwire : ∀ bytes next, wire bytes next → wire' bytes next) :
    Replies request reply within now wire' transport := by
  obtain ⟨stands, hanswers, hsettles, hstands⟩ := h
  exact ⟨stands, hanswers, hsettles, fun bytes next hnext => hwire bytes next (hstands _ _ hnext)⟩

theorem Replies.responds {request reply : Octets} {within now : Millis}
    {wire : Octets → τ → Prop} {transport : τ}
    (h : Replies request reply within now wire transport) :
    Responds request reply within now transport := by
  obtain ⟨stands, hanswers, hsettles, -⟩ := h
  exact ⟨stands, hanswers, hsettles⟩

end CellModem
