import Enrolment.Name.Claim
import Enrolment.Proofs.Name.FullName

/-!
The tracks of claims. A claim keeps the name, the owner and the commitment that it was made with, and
its history is a walk along the states that may follow each other.
-/

namespace Enrolment

/-- Histories that claims can have, with the state that they lead to. -/
inductive Track : List ClaimState → ClaimState → Prop where
  | fresh : Track [.unregistered] .unregistered
  | adopted : Track [.registered] .registered
  | next {history : List ClaimState} {state target : ClaimState} (h : Track history state)
      (hstep : state.mayBecome target) : Track (history ++ [target]) target

namespace ClaimState

/-- The place of a state on the way to registration; a timeout comes after everything. -/
def rank : ClaimState → Nat
  | unregistered => 0
  | preorderSubmitted => 1
  | preorderConfirmed => 2
  | domainSubmitted => 3
  | registered => 4
  | timedOut => 5

/-- The states of a claim that succeeds, in their order. -/
def path : List ClaimState :=
  [unregistered, preorderSubmitted, preorderConfirmed, domainSubmitted, registered]

theorem rank_inj {state other : ClaimState} (h : state.rank = other.rank) : state = other := by
  revert h
  cases state <;> cases other <;> decide

theorem eq_domainSubmitted {state : ClaimState} (h : state.isFinal = false)
    (hrank : domainSubmitted.rank ≤ state.rank) : state = .domainSubmitted := by
  revert h hrank
  cases state <;> decide

theorem rank_of_next? {state target : ClaimState} (h : state.next? = some target) :
    target.rank = state.rank + 1 := by
  revert h
  cases state <;> cases target <;> decide

theorem isFinal_of_next? {state target : ClaimState} (h : state.next? = some target) :
    state.isFinal = false := by
  revert h
  cases state <;> cases target <;> decide

theorem mayBecome_of_next? {state target : ClaimState} (h : state.next? = some target) :
    state.mayBecome target := by
  revert h
  cases state <;> cases target <;> decide

theorem next?_of_mayBecome {state target : ClaimState} (h : state.mayBecome target)
    (htarget : target.isFinal = false) : state.next? = some target := by
  revert h htarget
  cases state <;> cases target <;> decide

theorem take_path_of_next? {state target : ClaimState} (h : state.next? = some target) :
    path.take (target.rank + 1) = path.take (state.rank + 1) ++ [target] := by
  revert h
  cases state <;> cases target <;> decide

theorem isFinal_of_mayBecome {state target : ClaimState} (h : state.mayBecome target) :
    state.isFinal = false := by
  revert h
  cases state <;> cases target <;> decide

theorem mayBecome_timedOut {state : ClaimState} (h : state.isFinal = false) :
    state.mayBecome .timedOut := by
  revert h
  cases state <;> decide

end ClaimState

/-- A claim that is not final has held exactly the states up to its own. -/
theorem Track.eq_take {history : List ClaimState} {state : ClaimState} (h : Track history state)
    (hstate : state.isFinal = false) :
    history = ClaimState.path.take (state.rank + 1) := by
  induction h with
  | fresh => rfl
  | adopted => cases hstate
  | @next history state target _ hstep ih =>
    have hnext := ClaimState.next?_of_mayBecome hstep hstate
    rw [ih (ClaimState.isFinal_of_next? hnext), ClaimState.take_path_of_next? hnext]

theorem Track.ne_nil {history : List ClaimState} {state : ClaimState} (h : Track history state) :
    history ≠ [] := by
  cases h <;> simp

namespace Claim

def wasAdopted (c : Claim) : Bool := c.history.head? = some .registered

/-- What an owner's claim on a name is at any time. -/
structure IsOf [Suite] (owner : IdentityId) (name : String) (c : Claim) : Prop where
  readable : c.label.IsReadable
  named : c.label.fullName = name
  owned : c.owner = owner
  committed : c.commitment = Enrolment.commitment c.salt c.label owner
  track : Track c.history c.state

def moved (target : ClaimState) (now : Timestamp) (c : Claim) : Claim :=
  (c.advance target now).toOption.getD c

theorem moved_of_next? {target : ClaimState} {now : Timestamp} {c : Claim}
    (h : c.state.next? = some target) : c.moved target now = c.enter target now := by
  simp [moved, advance, ClaimState.mayBecome_of_next? h, Except.toOption]

@[simp] theorem label_enter (c : Claim) (state : ClaimState) (now : Timestamp) :
    (c.enter state now).label = c.label := rfl

@[simp] theorem salt_enter (c : Claim) (state : ClaimState) (now : Timestamp) :
    (c.enter state now).salt = c.salt := rfl

@[simp] theorem commitment_enter (c : Claim) (state : ClaimState) (now : Timestamp) :
    (c.enter state now).commitment = c.commitment := rfl

@[simp] theorem state_enter (c : Claim) (state : ClaimState) (now : Timestamp) :
    (c.enter state now).state = state := rfl

@[simp] theorem history_enter (c : Claim) (state : ClaimState) (now : Timestamp) :
    (c.enter state now).history = c.history ++ [state] := rfl

/-- Neither moving a claim nor timing it out does anything but enter a state that may follow. -/
theorem moved_cases (target : ClaimState) (now : Timestamp) (c : Claim) :
    c.moved target now = c ∨
      c.state.mayBecome target ∧ c.moved target now = c.enter target now := by
  unfold moved advance
  split
  next h => exact .inr ⟨h, rfl⟩
  next => exact .inl rfl

theorem expire_cases (now : Timestamp) (c : Claim) :
    c.expire now = c ∧ c.state.isFinal ∨
      c.state.mayBecome .timedOut ∧ c.expire now = c.enter .timedOut now := by
  unfold expire
  split
  next h => exact .inl ⟨rfl, h⟩
  next h => exact .inr ⟨ClaimState.mayBecome_timedOut (by simpa using h), rfl⟩

theorem moved_of_isFinal {c : Claim} (h : c.state.isFinal = true) (target : ClaimState)
    (now : Timestamp) : c.moved target now = c := by
  rcases c.moved_cases target now with heq | ⟨hstep, -⟩
  · exact heq
  · rw [ClaimState.isFinal_of_mayBecome hstep] at h
    cases h

theorem expire_of_isFinal {c : Claim} (h : c.state.isFinal = true) (now : Timestamp) :
    c.expire now = c := if_pos h

section

variable [Suite] {owner : IdentityId} {name : String} {c : Claim} {now : Timestamp}

/-- A claim that is not final was not adopted, and has held exactly the states up to its own. -/
theorem IsOf.history_eq (h : c.IsOf owner name) (hopen : c.state.isFinal = false) :
    c.wasAdopted = false ∧ c.history = ClaimState.path.take (c.state.rank + 1) := by
  have heq := h.track.eq_take hopen
  refine ⟨?_, heq⟩
  rw [wasAdopted, heq]
  rfl

theorem IsOf.enter {target : ClaimState} (h : c.IsOf owner name) (hstep : c.state.mayBecome target) :
    (c.enter target now).IsOf owner name :=
  ⟨h.readable, h.named, h.owned, h.committed, h.track.next hstep⟩

theorem IsOf.moved {target : ClaimState} (h : c.IsOf owner name) :
    (c.moved target now).IsOf owner name := by
  rcases c.moved_cases target now with heq | ⟨hstep, heq⟩
  · rwa [heq]
  · rw [heq]
    exact h.enter hstep

theorem IsOf.expire (h : c.IsOf owner name) : (c.expire now).IsOf owner name := by
  rcases c.expire_cases now with ⟨heq, -⟩ | ⟨hstep, heq⟩
  · rwa [heq]
  · rw [heq]
    exact h.enter hstep

theorem isOf_fresh {label : Label} (h : label.IsReadable) (salt : Salt) :
    (Claim.fresh label owner salt now).IsOf owner label.fullName :=
  ⟨h, rfl, rfl, rfl, .fresh⟩

theorem isOf_adopted {label : Label} (h : label.IsReadable) (salt : Salt) :
    (Claim.adopted label owner salt now).IsOf owner label.fullName :=
  ⟨h, rfl, rfl, rfl, .adopted⟩

end

end Claim

end Enrolment
