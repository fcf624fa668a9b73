import Enrolment.Registration.Routine
import Enrolment.Retry.Timer
import Enrolment.Simulation.Platform

/-!
What simulated routines ask their requests of: a clock, a platform, a source of depths and a source of
salts.

Time is a number of milliseconds. A request is made at one instant and answered at one; between them
lies what it waits for, and computing takes no time.
-/

namespace Enrolment.Simulation

/-- Where the depths of transactions are learnt from. -/
inductive DepthSource where
  /-- The platform reports them. -/
  | platform
  /-- No depth can be learnt. -/
  | offline
  /-- Only the initial depth was ever reported, and nothing will be. -/
  | closed
deriving DecidableEq

structure Surroundings where
  now : Nat
  platform : Platform
  depthSource : DepthSource
  draws : Nat

namespace Surroundings

/-- The date of everything that happens. -/
def date : Timestamp := .epoch

def depth (s : Surroundings) (tx : TxId) : Except RegistrationError UInt64 :=
  match s.depthSource with
  | .platform => .ok (s.platform.depth tx)
  | .offline => .error (.confirmations "depth source offline")
  | .closed => .ok s.platform.behaviour.initialDepth

/-- What is known of a transaction that should have a depth; nothing, if it may still come to have
it. -/
def deepEnough? (s : Surroundings) (tx : TxId) (required : UInt64) :
    Option (Except RegistrationError UInt64) :=
  match s.depth tx with
  | .error e => some (.error e)
  | .ok depth =>
    if required ≤ depth then some (.ok depth)
    else
      match s.depthSource with
      | .closed =>
        some (.error (.confirmations ("depth stream for " ++ tx.bytes.toHex ++ " closed")))
      | _ => none

/-- When a request that was made at an instant is answered at the latest, if that is known. -/
def due? (s : Surroundings) (made : Nat) : Request → Option Nat
  | .pause millis => some (made + timerRun millis)
  | .awaitDepth .. => none
  | .submit _ | .findIdentity _ | .findDocuments .. => some (made + timerRun s.platform.behaviour.latency)
  | .isCancelled | .clearFlag | .drawSalt _ | .time => some made

def act {α : Type} (s : Surroundings) (f : Platform → α × Platform) : α × Surroundings :=
  let (a, platform) := f s.platform
  (a, { s with platform })

variable [Suite]

def saltOf (draw : Nat) : Salt := ⟨Suite.hash (Bytes.ofText ("salt " ++ toString draw))⟩

/-- Answers a request that is due, under a flag: the answer, and the flag afterwards. Waiting for a
depth ends when the depth is reached or the flag is set. -/
def answer? (s : Surroundings) (flag : Bool) (made : Nat) :
    (request : Request) → Option (request.Answer × Bool × Surroundings)
  | .isCancelled => some (flag, flag, s)
  | .clearFlag => some ((), false, s)
  | .pause millis =>
    if flag then some (true, flag, s)
    else if made + timerRun millis ≤ s.now then some (false, flag, s)
    else none
  | .awaitDepth tx required =>
    if flag then some (none, flag, s)
    else (s.deepEnough? tx required).map fun known => (some known, flag, s)
  | .submit t =>
    if made + timerRun s.platform.behaviour.latency ≤ s.now then
      let (a, s) := s.act (·.submit t date)
      some (a, flag, s)
    else none
  | .findIdentity id =>
    if made + timerRun s.platform.behaviour.latency ≤ s.now then
      let (a, s) := s.act (·.findIdentity id)
      some (a, flag, s)
    else none
  | .findDocuments kind filter =>
    if made + timerRun s.platform.behaviour.latency ≤ s.now then
      let (a, s) := s.act (·.findDocuments kind filter)
      some (a, flag, s)
    else none
  | .drawSalt _ => some (saltOf s.draws, flag, { s with draws := s.draws + 1 })
  | .time => some (date, flag, s)

/-- Work that is under way: the flag it is subject to, and when its last request was made. -/
structure Progress (σ α : Type) where
  task : Task σ α
  made : Nat
  flag : Bool

/-- Answers the requests of some work up to the first that has to wait. -/
def run {σ α : Type} (s : Surroundings) (flag : Bool) (made : Nat) :
    Task σ α → Progress σ α × Surroundings
  | .done state result => (⟨.done state result, made, flag⟩, s)
  | .ask state request next =>
    match s.answer? flag made request with
    | none => (⟨.ask state request next, made, flag⟩, s)
    | some (answer, flag, s) => s.run flag s.now (next answer)

/-- When some work goes on by itself. -/
def wake? {σ α : Type} (s : Surroundings) (made : Nat) : Task σ α → Option Nat
  | .done .. => none
  | .ask _ request _ => s.due? made request

end Surroundings

end Enrolment.Simulation
