import Enrolment.Registration.Coordinator
import Enrolment.Simulation.Surroundings

/-!
A simulated world: registrations, coordinators and their flows on one clock.

At each instant everything that can go on does, the caller first, then what is done meanwhile, and
then the flows in the order in which they were started; then the clock jumps to the next instant at
which something is due. A caller makes one call at a time. A call that takes too long is dropped where
it is, while a flow goes on with a command that it was already sent.
-/

namespace Enrolment.Simulation

/-- A flow of a simulation: the number of its coordinator, and its position there. -/
structure FlowKey where
  coordinator : Nat
  position : Nat
deriving DecidableEq

/-- Something that is subject to a flag, which is given by its number. -/
structure Flagged (α : Type) where
  flag : Nat
  value : α

structure Handle where
  flow : FlowKey
  /-- Whether the outcome was asked for, which is possible once. -/
  isSpent : Bool

/-- A simulated world, whose objects have names. -/
structure World where
  surroundings : Surroundings
  flags : List Bool
  /-- The numbers of the flags that have names: those of registrations have theirs. -/
  signals : Table String Nat
  identities : Table String (Flagged IdentityRegistration)
  usernames : Table String (Flagged UsernameRegistration)
  /-- The coordinators, the current one last. -/
  coordinators : List Coordinator
  handles : Table String Handle
  /-- When the flows that wait made their requests. -/
  made : Table FlowKey Nat
  tickets : Nat

variable [Suite]

namespace World

def empty (behaviour : Behaviour) (depthSource : DepthSource) : World :=
  ⟨⟨0, .empty behaviour, depthSource, 0⟩, [], .empty, .empty, .empty, [], .empty, .empty, 0⟩

def now (w : World) : Nat := w.surroundings.now

def platform (w : World) : Platform := w.surroundings.platform

def onPlatform (w : World) (f : Platform → Platform) : World :=
  { w with surroundings := { w.surroundings with platform := f w.platform } }

/-! Flags. -/

def newFlag (w : World) : Nat × World := (w.flags.length, { w with flags := w.flags ++ [false] })

def flagOf? (w : World) (name : String) : Option Nat := w.signals.find? name

/-- Names a flag, which is a new one if none is given. A flag that had the name loses it. -/
def nameFlag (w : World) (name : String) (flag? : Option Nat) : Nat × World :=
  let (flag, w) := match flag? with
    | some flag => (flag, w)
    | none => w.newFlag
  (flag, { w with signals := w.signals.insert name flag })

def addSignal (w : World) (name : String) : World := (w.nameFlag name none).2

def flagAt (w : World) (flag : Nat) : Bool := w.flags.getD flag false

def setFlag (w : World) (flag : Nat) (isSet : Bool) : World :=
  { w with flags := w.flags.set flag isSet }

/-! Registrations. -/

/-- Names a registration of an identity, under a flag or one of its own. -/
def addIdentity (w : World) (name : String) (r : IdentityRegistration) (flag? : Option Nat) : World :=
  let (flag, w) := w.nameFlag name flag?
  { w with identities := w.identities.insert name ⟨flag, r⟩ }

/-- Names a registration of usernames, under a flag or one of its own. -/
def addUsernames (w : World) (name : String) (r : UsernameRegistration) (flag? : Option Nat) : World :=
  let (flag, w) := w.nameFlag name flag?
  { w with usernames := w.usernames.insert name ⟨flag, r⟩ }

/-- Whether the flag of a registration of an identity is set. -/
def isPaused (w : World) (name : String) : Bool :=
  (w.identities.find? name).any fun r => w.flagAt r.flag

/-! Coordinators and flows. -/

def coordinator? (w : World) : Option Coordinator := w.coordinators.getLast?

def addCoordinator (w : World) (c : Coordinator) : World :=
  { w with coordinators := w.coordinators ++ [c] }

def setCoordinator (w : World) (c : Coordinator) : World :=
  { w with coordinators := w.coordinators.dropLast ++ [c] }

def flow? (w : World) (key : FlowKey) : Option FlowRun :=
  (w.coordinators[key.coordinator]?).bind (·.run? key.position)

def onCoordinatorOf (w : World) (key : FlowKey) (f : Coordinator → Nat → Coordinator) : World :=
  { w with coordinators := w.coordinators.modify key.coordinator (f · key.position) }

def setFlow (w : World) (key : FlowKey) (run : FlowRun) : World :=
  w.onCoordinatorOf key fun c position => c.replace position run

/-- All flows, in the order in which they were started. -/
def flowKeys (w : World) : List FlowKey :=
  w.coordinators.zipIdx.flatMap fun (c, number) =>
    (List.range c.runs.length).map (FlowKey.mk number)

def held? (w : World) (name : String) : Option (FlowKey × FlowRun) := do
  let handle ← w.handles.find? name
  let run ← w.flow? handle.flow
  return (handle.flow, run)

/-- Lets go of a handle; false if there is none of the name. -/
def dropHandle (w : World) (name : String) : Bool × World :=
  match w.handles.find? name with
  | none => (false, w)
  | some handle =>
    let w := w.onCoordinatorOf handle.flow Coordinator.release
    (true, { w with handles := w.handles.erase name })

/-- Pauses the flow of a handle; false if there is none of the name. -/
def pauseHandle (w : World) (name : String) : Bool × World :=
  match w.handles.find? name with
  | none => (false, w)
  | some handle => (true, w.onCoordinatorOf handle.flow Coordinator.pauseAt)

/-- Starts a flow under the current coordinator and names its handle. A handle that had the name is
let go. -/
def startFlow (w : World) (name : String) (transaction : Transaction)
    (burnKey signingKey : SecretKey) (labels : List String) (schedule : Option Schedule) :
    Option (Except RegistrationError FlowRun) × World :=
  match w.coordinator? with
  | none => (none, w)
  | some c =>
    let (started, c) := c.start transaction burnKey signingKey labels schedule
    let w := w.setCoordinator c
    match started, started.toOption.bind c.run? with
    | .ok position, some run =>
      let (_, w) := w.dropHandle name
      let key := ⟨w.coordinators.length - 1, position⟩
      (some (.ok run), { w with handles := w.handles.insert name ⟨key, false⟩ })
    | .ok _, none => (none, w)
    | .error e, _ => (some (.error e), w)

/-- Lets a flow go on as far as it can, through at most `commands` commands. It yields the flow and
when it made the request that it waits for. -/
def proceed (s : Surroundings) (made : Option Nat) (run : FlowRun) :
    (commands : Nat) → FlowRun × Option Nat × Surroundings
  | 0 => (run, made, s)
  | commands + 1 =>
    let run := run.settle
    match run.activity with
    | .busy ticket task =>
      let (progress, s) := s.run run.isCancelled (made.getD s.now) task
      let run := { run with
        activity := .busy ticket progress.task
        isCancelled := progress.flag }
      match progress.task with
      | .ask .. => (run, some progress.made, s)
      | .done .. => proceed s none run commands
    | _ => (run, none, s)

/-- Lets a flow go on as far as it can at this instant. -/
def turnOf (w : World) (key : FlowKey) : World :=
  match w.flow? key with
  | none => w
  | some run =>
    let (run, made, surroundings) :=
      proceed w.surroundings (w.made.find? key) run (run.queue.length + 2)
    let w := { w with
      surroundings
      made := match made with
        | some instant => w.made.insert key instant
        | none => w.made.erase key }
    w.setFlow key run

/-- Lets all flows go on as far as they can at this instant. -/
def turn (w : World) : World := w.flowKeys.foldl turnOf w

/-- When a flow goes on by itself. -/
def wakeOf? (w : World) (key : FlowKey) : Option Nat := do
  let run ← w.flow? key
  let made ← w.made.find? key
  match run.activity with
  | .busy _ task => w.surroundings.wake? made task
  | _ => none

end World

/-- A call that is waited for. -/
inductive Call (σ α : Type) where
  /-- Work of the caller's own, under the flag of a number. -/
  | work (flag : Option Nat) (made : Option Nat) (task : Task σ α)
  /-- A flow is to be sent a command as soon as there is room. -/
  | send (flow : FlowKey) (command : Command) (state : σ) (read : Reply → α)
  /-- A flow is going to reply to a ticket. -/
  | awaitReply (flow : FlowKey) (ticket : Nat) (state : σ) (read : Reply → α)
  /-- A flow is going to have an outcome. -/
  | awaitOutcome (flow : FlowKey) (state : σ) (read : FlowOutcome → α)
  | returned (state : σ) (result : α)
  | dropped (state : σ)

namespace Call

variable {σ α : Type}

def state : Call σ α → σ
  | work _ _ task => task.state
  | send _ _ state _ | awaitReply _ _ state _ | awaitOutcome _ state _ | returned state _
  | dropped state => state

def result? : Call σ α → Option α
  | returned _ result => some result
  | _ => none

def isOver : Call σ α → Bool
  | returned .. | dropped _ => true
  | _ => false

/-- Drops a call that has not returned. -/
def drop (c : Call σ α) : Call σ α := if c.isOver then c else .dropped c.state

end Call

/-- What came of a call, and of the actions that were taken during it. -/
structure Ending (σ α ρ : Type) where
  state : σ
  /-- What the call returned, if it was not dropped. -/
  result : Option α
  actions : List ρ

namespace World

variable {σ α ρ : Type}

/-- Lets a call go on as far as it can at this instant. -/
def poll (w : World) : Call σ α → Call σ α × World
  | .work flag made task =>
    let isSet := (flag.map w.flagAt).getD false
    let (progress, surroundings) := w.surroundings.run isSet (made.getD w.now) task
    let w := { w with surroundings }
    let w := match flag with
      | some flag => w.setFlag flag progress.flag
      | none => w
    match progress.task with
    | .done state result => (.returned state result, w)
    | task => (.work flag (some progress.made) task, w)
  | .send flow command state read =>
    match (w.flow? flow).bind (·.send? w.tickets command) with
    | none => (.send flow command state read, w)
    | some run =>
      (.awaitReply flow w.tickets state read,
        { w.setFlow flow run with tickets := w.tickets + 1 })
  | .awaitReply flow ticket state read =>
    match (w.flow? flow).bind (·.reply? ticket) with
    | none => (.awaitReply flow ticket state read, w)
    | some reply => (.returned state (read reply), w)
  | .awaitOutcome flow state read =>
    match (w.flow? flow).bind FlowRun.outcome with
    | none => (.awaitOutcome flow state read, w)
    | some outcome => (.returned state (read outcome), w)
  | call => (call, w)

/-- When a call goes on by itself. -/
def wakeCall? (w : World) : Call σ α → Option Nat
  | .work _ made task => made.bind fun made => w.surroundings.wake? made task
  | _ => none

/-- Lets a call go on, and drops it at its deadline. -/
def pollUntil (w : World) (deadline : Nat) (call : Call σ α) : Call σ α × World :=
  let (call, w) := w.poll call
  (if deadline ≤ w.now then call.drop else call, w)

/-- Lets the flows go on and then the call, twice: the flows may first have to make room for the
command that they reply to. -/
def alternate (w : World) (call : Call σ α) : Call σ α × World :=
  let (call, w) := w.turn.poll call
  w.turn.poll call

/-- The next instant at which something is due. -/
def nextInstant? (w : World) (deadline : Nat) (call : Call σ α)
    (actions : List (Nat × StateM World ρ)) : Option Nat :=
  let own := if call.isOver then [] else [deadline] ++ (w.wakeCall? call).toList
  let others := (actions.head?.map Prod.fst).toList ++ w.flowKeys.filterMap w.wakeOf?
  ((own ++ others).filter (w.now < ·)).min?

def take (w : World) : List (Nat × StateM World ρ) → List ρ × World
  | [] => ([], w)
  | (_, action) :: rest =>
    let (a, w) := action w
    let (as, w) := take w rest
    (a :: as, w)

def moveTo (w : World) (instant : Nat) : World :=
  { w with surroundings := { w.surroundings with now := instant } }

/-- Waits for a call and takes each action when it is due, through at most `instants` instants. At
each instant the call goes first, then the actions and then the flows, unless there is nothing more
to wait for by then. -/
def pass (deadline : Nat) : (instants : Nat) → Call σ α → List (Nat × StateM World ρ) → List ρ →
    World → Ending σ α ρ × World
  | instants, call, actions, taken, w =>
    let (call, w) := w.pollUntil deadline call
    let isDue := fun action : Nat × StateM World ρ => action.1 ≤ w.now
    let due := actions.takeWhile isDue
    let actions := actions.dropWhile isDue
    let (results, w) := w.take due
    let taken := taken ++ results
    let ending (call : Call σ α) (w : World) : Ending σ α ρ × World :=
      (⟨call.state, call.result?, taken⟩, w)
    if call.isOver && actions.isEmpty then ending call w
    else
      let (call, w) := w.alternate call
      if call.isOver && actions.isEmpty then ending call w
      else
        match instants, w.nextInstant? deadline call actions with
        | instants + 1, some instant => pass deadline instants call actions taken (w.moveTo instant)
        | _, _ => ending call w

/-- Waits for a call, for some milliseconds at most, and takes actions at instants counted from its
start. -/
def await (w : World) (call : Call σ α) (patience : Nat) (actions : List (Nat × StateM World ρ)) :
    Ending σ α ρ × World :=
  let deadline := w.now + timerRun patience
  let actions := actions.map fun (after, action) => (w.now + after, action)
  let last := actions.foldl (fun last action => max last action.1) deadline
  pass deadline (last - w.now + 1) call actions [] w

end World

end Enrolment.Simulation
