import Enrolment.Simulation.World

/-!
The calls that can be made in a simulated world.

Calls on objects that do not exist answer `none`. While a call is waited for, actions are taken at
given instants.
-/

namespace Enrolment.Simulation.World

variable [Suite] {ρ : Type}

/-- How long a call is waited for if nothing else is said: an hour. -/
def defaultPatience : Nat := 3600000

/-- What is done during a call: at which instants, counted from its start, and what. -/
abbrev Actions (ρ : Type) := List (Nat × StateM World ρ)

/-- Makes a request, and waits for its answer for some milliseconds at most. -/
def request (w : World) (q : Request) (patience : Nat) (actions : Actions ρ) :
    Ending Unit q.Answer ρ × World :=
  w.await (.work none none (Routine.begin (Routine.ask q) ())) patience actions

def sleep (w : World) (millis : Nat) : World :=
  (w.request (.pause millis) (millis + 1) ([] : Actions Unit)).2

/-- Carries on the registration of an identity, on a schedule or on that of its settings. -/
def runIdentity (w : World) (name : String) (schedule? : Option Schedule) (patience : Nat)
    (actions : Actions ρ) :
    Option (Ending IdentityRegistration (Option IdentityOutcome) ρ × World) :=
  (w.identities.find? name).map fun ⟨flag, r⟩ =>
    let work : Task IdentityRegistration (Option IdentityOutcome) := match schedule? with
      | some schedule => (IdentityRegistration.register schedule).begin r
      | none => IdentityRegistration.registerAsSet.begin r
    let (ending, w) := w.await (.work (some flag) none work) patience actions
    (ending, { w with identities := w.identities.insert name ⟨flag, ending.state⟩ })

/-- Starts the registration of an identity over; true if there was something to start over. -/
def restartIdentity (w : World) (name : String) : Option (Bool × World) :=
  (w.identities.find? name).map fun ⟨flag, r⟩ =>
    match r.restart with
    | none => (false, w)
    | some r => (true, { w with identities := w.identities.insert name ⟨flag, r⟩ })

def runUsernames {α : Type} (w : World) (name : String) (work : Routine UsernameRegistration α)
    (patience : Nat) (actions : Actions ρ) : Option (Ending UsernameRegistration α ρ × World) :=
  (w.usernames.find? name).map fun ⟨flag, r⟩ =>
    let (ending, w) := w.await (.work (some flag) none (work.begin r)) patience actions
    (ending, { w with usernames := w.usernames.insert name ⟨flag, ending.state⟩ })

/-- Sends a flow a command and waits for its reply. -/
def command (w : World) (name : String) (c : Command) (patience : Nat) (actions : Actions ρ) :
    Option (Ending Unit Reply ρ × World) :=
  (w.handles.find? name).map fun handle =>
    w.await (.send handle.flow c () id) patience actions

/-- Waits for the outcome of a flow, which can be had once. -/
def outcome (w : World) (name : String) (patience : Nat) (actions : Actions ρ) :
    Option (Ending Unit (Option FlowOutcome) ρ × World) :=
  (w.handles.find? name).map fun handle =>
    if handle.isSpent then w.await (.returned () none) patience actions
    else
      let w := { w with handles := w.handles.insert name { handle with isSpent := true } }
      w.await (.awaitOutcome handle.flow () some) patience actions

end Enrolment.Simulation.World
