import Enrolment.Registration.Error
import Enrolment.Registry.Document
import Enrolment.Retry.Watch

/-!
Registration as routines.

A routine works on a state of its own and asks its surroundings for everything else: for the platform,
for time, for fresh salts and for the flag that pauses it. At every request it shows the state that it
has reached, so that a routine which is given up there leaves exactly that state behind. What happens
between two requests happens at one moment. Nothing is assumed of the answers.
-/

namespace Enrolment

/-- What the platform gives for an accepted transition: its name. -/
structure Receipt where
  transition : Digest
deriving DecidableEq

def Format.receipt : Format Receipt :=
  record (.last "transition_id" bytes32) Receipt.transition Receipt.mk

/-- What a routine may ask for. -/
inductive Request where
  | isCancelled
  | clearFlag
  /-- To wait for some milliseconds, or until the flag is set. -/
  | pause (millis : Nat)
  | submit (transition : Transition)
  /-- To wait until a transaction has a depth, or until the flag is set. -/
  | awaitDepth (transaction : TxId) (depth : UInt64)
  | findIdentity (id : IdentityId)
  | findDocuments (kind : DocumentKind) (filter : Filter)
  /-- A salt for a claim on a name, that was never drawn before. -/
  | drawSalt (label : Label)
  | time

/-- What answers a request. -/
@[reducible] def Request.Answer : Request → Type
  | isCancelled => Bool
  | clearFlag => Unit
  | pause _ => Bool
  | submit _ => Except Refusal Receipt
  | awaitDepth _ _ => Option (Except RegistrationError UInt64)
  | findIdentity _ => Except RegistrationError (Option Identity)
  | findDocuments _ _ => Except RegistrationError (List Document)
  | drawSalt _ => Salt
  | time => Timestamp

/-- Work in progress: it is done, or it asks for something and goes on with the answer. -/
inductive Task (σ α : Type) where
  | done (state : σ) (result : α)
  | ask (state : σ) (request : Request) (next : request.Answer → Task σ α)

namespace Task

variable {σ τ α β γ : Type}

def state : Task σ α → σ
  | done state _ => state
  | ask state _ _ => state

def result? : Task σ α → Option α
  | done _ result => some result
  | ask .. => none

/-- Work that goes on with what was reached. -/
def bind : Task σ α → (α → σ → Task σ β) → Task σ β
  | done state result, next => next result state
  | ask state request resume, next => ask state request fun answer => (resume answer).bind next

/-- The same work, seen as work on a larger state. -/
def within (put : σ → τ) : Task σ α → Task τ α
  | done state result => done (put state) result
  | ask state request resume => ask (put state) request fun answer => (resume answer).within put

/-- Going on by stopping changes nothing. -/
theorem bind_done (t : Task σ α) : (t.bind fun a s => .done s a) = t := by
  induction t with
  | done => rfl
  | ask s q next ih => simp [bind, ih]

/-- It does not matter how work that goes on twice is grouped. -/
theorem bind_assoc (t : Task σ α) (f : α → σ → Task σ β) (g : β → σ → Task σ γ) :
    (t.bind f).bind g = t.bind fun a s => (f a s).bind g := by
  induction t with
  | done => rfl
  | ask s q next ih => simp [bind, ih]

@[simp] theorem state_within (put : σ → τ) (t : Task σ α) : (t.within put).state = put t.state := by
  cases t <;> rfl

end Task

/-- A routine: given a state, some work. -/
def Routine (σ α : Type) : Type := σ → Task σ α

namespace Routine

variable {σ τ α : Type}

instance : Monad (Routine σ) where
  pure a := fun s => .done s a
  bind r f := fun s => (r s).bind f

instance : LawfulMonad (Routine σ) :=
  LawfulMonad.mk' _
    (fun r => funext fun s => (r s).bind_done)
    (fun _ _ => rfl)
    (fun r _ _ => funext fun s => (r s).bind_assoc _ _)

instance : MonadStateOf σ (Routine σ) where
  get := fun s => .done s s
  set s := fun _ => .done s ()
  modifyGet f := fun s =>
    let (a, s) := f s
    .done s a

def begin (r : Routine σ α) (s : σ) : Task σ α := r s

def ask (request : Request) : Routine σ request.Answer := fun s => .ask s request (.done s ·)

/-- A routine on a part of the state. -/
def within (part : τ → σ) (put : σ → τ → τ) (r : Routine σ α) : Routine τ α := fun t =>
  (r (part t)).within (put · t)

instance : Interruptible (Routine σ) where
  isCancelled := ask .isCancelled
  pause millis := ask (.pause millis)

end Routine

end Enrolment
