import Enrolment.Credit.Ledger
import Enrolment.Registration.Flow

/-!
Coordinating flows.

A coordinator keeps the ledger of credit locks and a registry with at most one live flow for each
identity. A flow carries out one command at a time; further commands queue up, and a flow whose handle
was let go ends when its queue is empty. The first outcome of a flow is delivered and counted; later
ones only answer the command that they come of.
-/

namespace Enrolment

variable [Suite]

inductive Activity where
  /-- A command is being carried out; the ticket says whom to reply to. -/
  | busy (ticket : Option Nat) (task : Task Flow Reply)
  | idle (flow : Flow)
  | ended

structure FlowRun where
  id : IdentityId
  isCancelled : Bool
  activity : Activity
  /-- The commands that wait, with the tickets of those who wait for replies. -/
  queue : List (Nat × Command)
  replies : List (Nat × Reply)
  outcome : Option FlowOutcome
  isHeld : Bool

def queueLimit : Nat := 16

def Reply.outcome? : Reply → Option FlowOutcome
  | usernames _ => none
  | flow outcome => outcome

namespace FlowRun

def launch (flow : Flow) : FlowRun :=
  ⟨flow.identity.id, false, .busy none (Flow.perform .start flow), [], [], none, true⟩

def isLive (run : FlowRun) : Bool :=
  match run.activity with
  | .ended => false
  | _ => true

def send? (run : FlowRun) (ticket : Nat) (command : Command) : Option FlowRun :=
  if run.queue.length < queueLimit then some { run with queue := run.queue ++ [(ticket, command)] }
  else none

/-- The flow after a command was carried out: it replies, and delivers the outcome if it is the
first. -/
def finish (run : FlowRun) (ticket : Option Nat) (flow : Flow) (reply : Reply) : FlowRun :=
  { run with
    activity := .idle flow
    replies := run.replies ++ (ticket.map fun t => (t, reply)).toList
    outcome := run.outcome.or reply.outcome? }

/-- The idle flow with its next command taken up. Without a command it ends if it is not held. -/
def next (run : FlowRun) (flow : Flow) : FlowRun :=
  match run.queue with
  | (ticket, command) :: rest =>
    { run with activity := .busy (some ticket) (Flow.perform command flow), queue := rest }
  | [] => if run.isHeld then run else { run with activity := .ended }

/-- Does what a flow can do without an answer from its surroundings, once. -/
def settle (run : FlowRun) : FlowRun :=
  match run.activity with
  | .busy ticket (.done flow reply) => (run.finish ticket flow reply).next flow
  | .idle flow => run.next flow
  | _ => run

def reply? (run : FlowRun) (ticket : Nat) : Option Reply := run.replies.lookup ticket

def describe (run : FlowRun) : String :=
  "FlowHandle \x7b identity: " ++ run.id.describe ++ ", cancelled: " ++ toString run.isCancelled
    ++ ", .. \x7d"

end FlowRun

structure Tally where
  started : Nat
  /-- Flows whose first outcome is completed. -/
  completed : Nat
  /-- Flows whose first outcome is not, some part of it having timed out. -/
  timedOut : Nat
  /-- Flows with another first outcome. -/
  failed : Nat
deriving DecidableEq

def Tally.count (t : Tally) (outcome : FlowOutcome) : Tally :=
  if outcome.isCompleted then { t with completed := t.completed + 1 }
  else if outcome.isTimedOut then { t with timedOut := t.timedOut + 1 }
  else { t with failed := t.failed + 1 }

structure Coordinator where
  settings : Settings
  ledger : Ledger
  /-- Every flow that was started, in order. -/
  runs : List FlowRun
  /-- Where the live flow of an identity stands among them. -/
  registry : Table IdentityId Nat
  tally : Tally

namespace Coordinator

def create (settings : Settings) (ledger : Ledger) : Except RegistrationError Coordinator := do
  settings.validate
  return ⟨settings, ledger, [], .empty, ⟨0, 0, 0, 0⟩⟩

/-- Checks what a flow is started with: its names, then its schedule. -/
def checkStart (c : Coordinator) (labels : List String) (schedule : Option Schedule) :
    Except RegistrationError Unit :=
  match labels.mapM c.settings.naming.resolve, schedule with
  | .error e, _ => .error (.value e)
  | .ok _, some schedule => schedule.validate
  | .ok _, none => .ok ()

def makeFlow (c : Coordinator) (lock : CreditLock) (burnKey signingKey : SecretKey)
    (labels : List String) (schedule : Option Schedule) : Except RegistrationError Flow := do
  let identity ← IdentityRegistration.create lock burnKey signingKey c.settings
  let usernames ← UsernameRegistration.create lock.identity signingKey c.settings
  return ⟨identity, usernames, labels, schedule, false⟩

/-- Enters a flow in the registry, unless its identity has a live one. The position of the flow is
returned. -/
def enter (c : Coordinator) (flow : Flow) : Except RegistrationError Nat × Coordinator :=
  let id := flow.identity.id
  if c.registry.contains id then (.error (.flowExists id), c)
  else
    (.ok c.runs.length,
      { c with
        runs := c.runs ++ [.launch flow]
        registry := c.registry.insert id c.runs.length
        tally := { c.tally with started := c.tally.started + 1 } })

/-- Starts registering the identity that a transaction funds, then some names. The ledger keeps what
it observed even if the flow is refused. -/
def start (c : Coordinator) (transaction : Transaction) (burnKey signingKey : SecretKey)
    (labels : List String) (schedule : Option Schedule) :
    Except RegistrationError Nat × Coordinator :=
  match c.checkStart labels schedule with
  | .error e => (.error e, c)
  | .ok () =>
    match c.ledger.observe transaction with
    | .error e => (.error (.value e), c)
    | .ok (lock, ledger) =>
      let c := { c with ledger }
      match c.makeFlow lock burnKey signingKey labels schedule with
      | .error e => (.error e, c)
      | .ok flow => c.enter flow

def run? (c : Coordinator) (position : Nat) : Option FlowRun := c.runs[position]?

/-- Changes the flow at a position. An outcome that is new is counted, and a flow that has ended
leaves the registry. -/
def replace (c : Coordinator) (position : Nat) (run : FlowRun) : Coordinator :=
  match c.run? position with
  | none => c
  | some before =>
    { c with
      runs := c.runs.set position run
      registry := if before.isLive && !run.isLive then c.registry.erase run.id else c.registry
      tally :=
        match before.outcome, run.outcome with
        | none, some outcome => c.tally.count outcome
        | _, _ => c.tally }

def adjust (c : Coordinator) (position : Nat) (f : FlowRun → FlowRun) : Coordinator :=
  match c.run? position with
  | none => c
  | some run => c.replace position (f run)

def pauseAt (c : Coordinator) (position : Nat) : Coordinator :=
  c.adjust position fun run => { run with isCancelled := true }

def release (c : Coordinator) (position : Nat) : Coordinator :=
  c.adjust position fun run => { run with isHeld := false }

def cancel (c : Coordinator) (id : IdentityId) : Except RegistrationError Coordinator :=
  match c.registry.find? id with
  | none => .error (.flowNotFound id)
  | some position => .ok (c.pauseAt position)

def hasFlow (c : Coordinator) (id : IdentityId) : Bool := c.registry.contains id

def active (c : Coordinator) : Nat := c.registry.size

/-- The live flows: their identities, and whether they are paused. -/
def activeFlows (c : Coordinator) : List (IdentityId × Bool) :=
  c.registry.entries.map fun (id, position) =>
    (id, (c.run? position).any FlowRun.isCancelled)

def describe (c : Coordinator) : String :=
  "RegistrationCoordinator \x7b flows: " ++ toString c.active ++ ", ledger: "
    ++ toString c.ledger.size ++ ", .. \x7d"

end Coordinator

end Enrolment
