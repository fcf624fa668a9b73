import Enrolment.Proofs.Flow.Commands

/-!
What a flow was told and what came of it.

The account of a flow lists the commands that it carried out with their results. The flow delivers the
first outcome among these, and what registering further names came to is none. An outcome says something
about usernames exactly if the identity is registered and the flow was started with names, so that it is
completed, or something of it timed out, or something of it failed, and never two of these.
-/

namespace Enrolment

/-- An outcome that says something about usernames only if the identity is registered. -/
def FlowOutcome.IsOrderly (labels : List String) (o : FlowOutcome) : Prop :=
  o.usernames.isSome = true ↔ o.identity.isCompleted = true ∧ labels ≠ []

/-- An orderly outcome is counted once. -/
theorem FlowOutcome.IsOrderly.counts {labels : List String} {o : FlowOutcome}
    (h : o.IsOrderly labels) :
    o.isCompleted.toNat + o.isTimedOut.toNat + o.isFailed.toNat = 1 := by
  obtain ⟨identity, usernames⟩ := o
  cases usernames with
  | none => cases identity <;> rfl
  | some usernames =>
    obtain ⟨hcompleted, -⟩ := h.mp rfl
    cases identity with
    | completed id => cases usernames <;> rfl
    | timedOut unfinished => cases hcompleted
    | failed e => cases hcompleted

/-- What may be replied to a command of a flow that was started with some names. -/
def Reply.Suits (labels : List String) : Command → Reply → Prop
  | .register _, .usernames _ => True
  | .register _, .flow _ => False
  | _, .usernames _ => False
  | _, .flow result => ∀ outcome, result = some outcome → outcome.IsOrderly labels

/-- What a command delivers if nothing was delivered before: the outcome that it came to, unless it is
one to register further names. -/
def Command.delivered? : Command → Reply → Option FlowOutcome
  | register _, _ => none
  | _, reply => reply.outcome?

/-- A reply that suits a command has what the command delivers. -/
theorem Reply.Suits.delivered?_eq {labels : List String} {command : Command} {reply : Reply}
    (h : reply.Suits labels command) : command.delivered? reply = reply.outcome? := by
  cases command with
  | register names =>
    cases reply with
    | usernames result => rfl
    | flow result => exact h.elim
  | _ => rfl

/-- What a flow was told: the names that it was started with, the command that it is at, and those that
it carried out with what came of them, oldest first. -/
structure Account where
  labels : List String
  current : Option Command
  results : List (Command × Reply)

namespace Account

def opened (labels : List String) : Account := ⟨labels, some .start, []⟩

/-- The outcome that is delivered: the first that some command delivers. -/
def delivered? (account : Account) : Option FlowOutcome :=
  account.results.findSome? fun (command, reply) => command.delivered? reply

variable [Suite]

/-- The account once a flow has settled: a command that is done is entered with its reply, and the next
one is taken up. -/
def settled (account : Account) (run : FlowRun) : Account :=
  match run.activity with
  | .busy _ (.done _ reply) =>
    { account with
      current := run.queue.head?.map Prod.snd
      results := account.results ++ (account.current.map fun command => (command, reply)).toList }
  | .idle _ => { account with current := run.queue.head?.map Prod.snd }
  | _ => account

/-- What a flow is at, according to its account. -/
def IsAt (account : Account) : Activity → Prop
  | .busy _ task => ∃ command, account.current = some command ∧
      task.Ensures fun f reply => f.labels = account.labels ∧ reply.Suits account.labels command
  | .idle f => f.labels = account.labels
  | .ended => True

/-- A flow has done what its account says. -/
structure Fits (account : Account) (run : FlowRun) : Prop where
  outcome_eq : run.outcome = account.delivered?
  suits : ∀ entry ∈ account.results, entry.2.Suits account.labels entry.1
  replied : ∀ entry ∈ run.replies, ∃ command, (command, entry.2) ∈ account.results
  isAt : account.IsAt run.activity

end Account

variable [Suite] {account : Account} {run run' : FlowRun} {f f' : Flow} {command : Command}
  {reply : Reply} {outcome : FlowOutcome}

namespace Flow

theorem Driven.isOrderly (h : f.Driven f' (some outcome)) : outcome.IsOrderly f.labels := by
  generalize hresult : some outcome = result at h
  cases h with
  | paused => cases hresult
  | @ended r identity _ hends =>
    obtain rfl := Option.some.inj hresult
    constructor
    · intro hnone
      cases hnone
    · rintro ⟨hcompleted, hlabels⟩
      exact absurd (hends hcompleted) hlabels
  | @named r identity f' names _ hcompleted hlabels =>
    have husernames : outcome.identity = identity ∧ outcome.usernames.isSome = true := by
      match names with
      | .ok none => cases hresult
      | .ok (some usernames) =>
        obtain rfl := Option.some.inj hresult
        exact ⟨rfl, rfl⟩
      | .error e =>
        obtain rfl := Option.some.inj hresult
        exact ⟨rfl, rfl⟩
    obtain ⟨rfl, hsome⟩ := husernames
    exact ⟨fun _ => ⟨hcompleted, hlabels⟩, fun _ => hsome⟩

theorem Performed.suits (h : f.Performed command f' reply) : reply.Suits f.labels command := by
  have hdriven {f f' : Flow} {result : Option FlowOutcome} (h : f.Driven f' result) :
      ∀ outcome, result = some outcome → outcome.IsOrderly f.labels := by
    rintro outcome rfl
    exact h.isOrderly
  cases h with
  | started h => exact hdriven h
  | restarted h =>
    have hsuits := hdriven h
    exact hsuits
  | resumed h => exact hdriven h
  | refused => trivial
  | registered => trivial

/-- A command that is begun comes to what its account may list. -/
theorem isAt_perform (hcurrent : account.current = some command) (hlabels : f.labels = account.labels)
    {ticket : Option Nat} : account.IsAt (.busy ticket (perform command f)) := by
  refine ⟨command, hcurrent, (ensures_perform command f).mono ?_⟩
  intro f' reply hperformed
  rw [← hlabels]
  exact ⟨hperformed.labels_eq, hperformed.suits⟩

end Flow

namespace FlowRun

@[simp] theorem outcome_next (run : FlowRun) (f : Flow) : (run.next f).outcome = run.outcome := by
  unfold next
  split
  · rfl
  · split <;> rfl

@[simp] theorem replies_next (run : FlowRun) (f : Flow) : (run.next f).replies = run.replies := by
  unfold next
  split
  · rfl
  · split <;> rfl

@[simp] theorem id_next (run : FlowRun) (f : Flow) : (run.next f).id = run.id := by
  unfold next
  split
  · rfl
  · split <;> rfl

end FlowRun

namespace Account

theorem Fits.launch (f : Flow) : (opened f.labels).Fits (.launch f) :=
  ⟨rfl, by simp [opened], by simp [FlowRun.launch], Flow.isAt_perform rfl rfl⟩

omit [Suite] in
/-- What is delivered is orderly. -/
theorem Fits.isOrderly (h : account.Fits run) (houtcome : run.outcome = some outcome) :
    outcome.IsOrderly account.labels := by
  rw [h.outcome_eq] at houtcome
  obtain ⟨⟨command, reply⟩, hentry, hdelivers⟩ := List.exists_of_findSome?_eq_some houtcome
  have hsuits := h.suits _ hentry
  cases command with
  | register labels => cases hdelivers
  | _ =>
    obtain rfl := Reply.eq_flow hdelivers
    exact hsuits _ rfl

omit [Suite] in
/-- What a flow is at, replied and delivered is all that its account says of it. -/
theorem Fits.congr (h : account.Fits run) (houtcome : run'.outcome = run.outcome)
    (hreplies : run'.replies = run.replies) (hat : account.IsAt run'.activity) :
    account.Fits run' :=
  ⟨houtcome.trans h.outcome_eq, h.suits, hreplies ▸ h.replied, hat⟩

theorem isAt_next (hidle : run.activity = .idle f) (hlabels : f.labels = account.labels)
    (hcurrent : account.current = run.queue.head?.map Prod.snd) :
    account.IsAt (run.next f).activity := by
  rcases FlowRun.activity_next hidle with ⟨ticket, command, rest, hqueue, hbusy⟩ |
    ⟨-, hwaits | hended⟩
  · rw [hqueue] at hcurrent
    rw [hbusy]
    exact Flow.isAt_perform hcurrent hlabels
  · rw [hwaits]
    exact hlabels
  · rw [hended]
    trivial

theorem Fits.settled (h : account.Fits run) : (account.settled run).Fits run.settle := by
  have hat := h.isAt
  unfold Account.settled FlowRun.settle
  cases hactivity : run.activity with
  | ended => exact h
  | idle f =>
    rw [hactivity] at hat
    refine ⟨?_, h.suits, ?_, isAt_next hactivity hat rfl⟩
    · rw [FlowRun.outcome_next]
      exact h.outcome_eq
    · rw [FlowRun.replies_next]
      exact h.replied
  | busy ticket task =>
    cases task with
    | ask f q next => exact h
    | done f reply =>
      rw [hactivity] at hat
      obtain ⟨command, hcurrent, hlabels, hsuits⟩ := hat
      dsimp only
      rw [hcurrent]
      refine ⟨?_, ?_, ?_, isAt_next rfl hlabels rfl⟩
      · rw [FlowRun.outcome_next]
        have houtcome := h.outcome_eq
        unfold delivered? at houtcome
        simp [FlowRun.finish, delivered?, List.findSome?_append, houtcome, hsuits.delivered?_eq]
      · intro entry hentry
        rcases List.mem_append.mp hentry with hold | hnew
        · exact h.suits entry hold
        · obtain rfl : entry = (command, reply) := by simpa using hnew
          exact hsuits
      · intro entry hentry
        rw [FlowRun.replies_next, FlowRun.finish] at hentry
        rcases List.mem_append.mp hentry with hold | hnew
        · obtain ⟨command', hlisted⟩ := h.replied entry hold
          exact ⟨command', List.mem_append_left _ hlisted⟩
        · have hreply : entry.2 = reply := by
            cases ticket with
            | none => cases hnew
            | some ticket =>
              obtain rfl : entry = (ticket, reply) := by simpa using hnew
              rfl
          exact ⟨command, List.mem_append_right _ (by simp [hreply])⟩

end Account

end Enrolment
