import CellModem.Exchange

/-!
A program that talks to the modem: it ends with a value, or it makes a call and goes on with the
response. Every such program makes finitely many calls. What is computed in between takes no time
and does not touch the transport.
-/

namespace CellModem

inductive Dialogue (α : Type) where
  | done (value : α)
  | ask (call : Call) (next : Exchange.Result → Dialogue α)

namespace Dialogue

variable {α β : Type}

def bind : Dialogue α → (α → Dialogue β) → Dialogue β
  | .done value, f => f value
  | .ask call next, f => .ask call fun result => (next result).bind f

instance : Monad Dialogue where
  pure := .done
  bind := bind

/-- Make one call. -/
def request (call : Call) : Dialogue Exchange.Result :=
  .ask call .done

/-- Run against a modem that is given as its answer to every call. -/
def run {σ : Type} (answer : Call → σ → Exchange.Result × σ) : Dialogue α → σ → α × σ
  | .done value, modem => (value, modem)
  | .ask call next, modem =>
    let (result, modem) := answer call modem
    (next result).run answer modem

theorem bind_done (d : Dialogue α) : d.bind .done = d := by
  induction d with
  | done value => rfl
  | ask call next ih => simp [bind, ih]

theorem bind_bind {γ : Type} (d : Dialogue α) (f : α → Dialogue β) (g : β → Dialogue γ) :
    (d.bind f).bind g = d.bind fun a => (f a).bind g := by
  induction d with
  | done value => rfl
  | ask call next ih => simp [bind, ih]

instance : LawfulMonad Dialogue :=
  LawfulMonad.mk' Dialogue bind_done (fun _ _ => rfl) fun d f g => bind_bind d f g

end Dialogue

/-- A program on its way, with the call at which it stands. -/
structure Conversation (α : Type) where
  program : Dialogue α
  stage : Exchange.Stage := .queued

namespace Conversation

variable {α τ : Type} [Transport τ]

/-- Go one step of the present call, or end. -/
def step (talk : Conversation α) (station : Station τ) :
    Progress (Conversation α) α × Station τ :=
  match talk.program with
  | .done value => (.finished value, station)
  | .ask call next =>
    match Exchange.step call talk.stage station with
    | (.moved stage, station) => (.moved { talk with stage }, station)
    | (.waiting stage, station) => (.waiting { talk with stage }, station)
    | (.finished result, station) => (.moved { program := next result }, station)

end Conversation

end CellModem
