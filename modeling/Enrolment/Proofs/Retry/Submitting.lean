import Enrolment.Proofs.Evolution

/-!
What a submission exchanges, and what comes of it. Attempts follow each other, separated by the delays
of the schedule, until one is not refused for a reason that may clear up or until the last one was. An
answer that decides is what the submission ends with, whatever the flag; the flag only keeps further
attempts from being made.
-/

namespace Enrolment

namespace Exchange

/-- What a submission ends with because of an exchange, if it is an attempt that decides. -/
def decision? : Exchange → Option (Submission Receipt)
  | ⟨.submit _, .ok receipt⟩ => some (.accepted receipt)
  | ⟨.submit _, .error (.invalid reason)⟩ => some (.rejected reason)
  | _ => none

/-- An exchange that shows the flag as set. -/
def ShowsFlag : Exchange → Prop
  | ⟨.isCancelled, isSet⟩ => isSet
  | ⟨.pause _, isCut⟩ => isCut
  | _ => False

theorem decision?_of_showsFlag {e : Exchange} (h : e.ShowsFlag) : e.decision? = none := by
  obtain ⟨request, answer⟩ := e
  cases request with
  | submit t => exact h.elim
  | _ => rfl

theorem decision?_of_accepted? {e : Exchange} {t : Transition} (h : e.accepted? = some t) :
    ∃ receipt, e.decision? = some (.accepted receipt) := by
  obtain ⟨request, answer⟩ := e
  cases request with
  | submit t' =>
    cases answer with
    | ok receipt => exact ⟨receipt, rfl⟩
    | error refusal => cases h
  | _ => cases h

/-- An exchange after which a submission goes on. -/
def Passes (e : Exchange) : Prop := e.decision? = none ∧ ¬e.ShowsFlag

theorem passes_isCancelled : Passes ⟨.isCancelled, false⟩ := ⟨rfl, Bool.false_ne_true⟩

theorem passes_pause (millis : Nat) : Passes ⟨.pause millis, false⟩ := ⟨rfl, Bool.false_ne_true⟩

theorem passes_transient (t : Transition) (reason : String) :
    Passes ⟨.submit t, .error (.transient reason)⟩ := ⟨rfl, id⟩

theorem decision?_ne_cancelled (e : Exchange) : e.decision? ≠ some .cancelled := by
  unfold decision?
  split <;> nofun

end Exchange

namespace Schedule

variable {s : Schedule} {t : Transition} {σ : Type} {state : σ} {log : Log} {q : Request}
  {ended : Submission Receipt} {reasons : List String} {e : Exchange}

/-- Attempts that were refused for reasons that may clear up, each with the delay after it. The first of
them has the number `number`. -/
def refusals (s : Schedule) (t : Transition) (number : Nat) : List String → Log
  | [] => []
  | reason :: rest =>
    ⟨.isCancelled, false⟩ :: ⟨.submit t, .error (.transient reason)⟩ ::
      ⟨.pause (s.delayAfter number), false⟩ :: s.refusals t (number + 1) rest

/-- What a submission asks for: before every attempt for the flag, and after an attempt in vain that is
not the last one for the delay. -/
inductive Asks (s : Schedule) (t : Transition) : Log → Request → Prop where
  | reading {reasons : List String} (hleft : reasons.length < s.attempts.toNat) :
      Asks s t (s.refusals t 1 reasons) .isCancelled
  | submitting {reasons : List String} (hleft : reasons.length < s.attempts.toNat) :
      Asks s t (s.refusals t 1 reasons ++ [⟨.isCancelled, false⟩]) (.submit t)
  | pausing {reasons : List String} {reason : String}
      (hleft : reasons.length + 1 < s.attempts.toNat) :
      Asks s t (s.refusals t 1 reasons ++
          [⟨.isCancelled, false⟩, ⟨.submit t, .error (.transient reason)⟩])
        (.pause (s.delayAfter (reasons.length + 1)))

/-- What was exchanged when a submission ended, and what it ended with. -/
inductive Ends (s : Schedule) (t : Transition) : Log → Submission Receipt → Prop where
  | decided {reasons : List String} {answer : Except Refusal Receipt} {ended : Submission Receipt}
      (hleft : reasons.length < s.attempts.toNat)
      (hdecides : Exchange.decision? ⟨.submit t, answer⟩ = some ended) :
      Ends s t (s.refusals t 1 reasons ++ [⟨.isCancelled, false⟩, ⟨.submit t, answer⟩]) ended
  | exhausted {reasons : List String} {last : String}
      (hlast : reasons.length + 1 = s.attempts.toNat) :
      Ends s t (s.refusals t 1 reasons ++
          [⟨.isCancelled, false⟩, ⟨.submit t, .error (.transient last)⟩])
        (.exhausted s.attempts.toNat last)
  | cancelled {log : Log} {q : Request} {answer : q.Answer} (hasks : Asks s t log q)
      (hshows : Exchange.ShowsFlag ⟨q, answer⟩) : Ends s t (log ++ [⟨q, answer⟩]) .cancelled

theorem refusals_append (number : Nat) (reasons : List String) (reason : String) :
    s.refusals t number (reasons ++ [reason]) = s.refusals t number reasons ++
      [⟨.isCancelled, false⟩, ⟨.submit t, .error (.transient reason)⟩,
        ⟨.pause (s.delayAfter (reasons.length + number)), false⟩] := by
  induction reasons generalizing number with
  | nil => simp [refusals]
  | cons first rest ih =>
    have hnumber : rest.length + (number + 1) = rest.length + 1 + number := by omega
    rw [List.cons_append, refusals, ih, hnumber]
    rfl

theorem passes_of_mem_refusals {number : Nat} (h : e ∈ s.refusals t number reasons) : e.Passes := by
  induction reasons generalizing number with
  | nil => cases h
  | cons first rest ih =>
    simp only [refusals, List.mem_cons] at h
    rcases h with rfl | rfl | rfl | h
    · exact Exchange.passes_isCancelled
    · exact Exchange.passes_transient t first
    · exact Exchange.passes_pause _
    · exact ih h

theorem submitted_refusals (number : Nat) (reasons : List String) :
    Log.submitted (s.refusals t number reasons) = List.replicate reasons.length t := by
  induction reasons generalizing number with
  | nil => rfl
  | cons first rest ih => exact congrArg (t :: ·) (ih (number + 1))

/-- As long as a submission asks for something, nothing is decided and the flag has not shown. -/
theorem Asks.passes (h : s.Asks t log q) (hmem : e ∈ log) : e.Passes := by
  cases h with
  | reading _ => exact passes_of_mem_refusals hmem
  | submitting _ =>
    rcases List.mem_append.mp hmem with hold | hnew
    · exact passes_of_mem_refusals hold
    · obtain rfl := List.mem_singleton.mp hnew
      exact Exchange.passes_isCancelled
  | pausing _ =>
    rcases List.mem_append.mp hmem with hold | hnew
    · exact passes_of_mem_refusals hold
    · simp only [List.mem_cons, List.not_mem_nil, or_false] at hnew
      rcases hnew with rfl | rfl
      · exact Exchange.passes_isCancelled
      · exact Exchange.passes_transient _ _

/-- At most as many attempts were made as the schedule allows, all of them with the same transition. -/
theorem Asks.submitted (h : s.Asks t log e.request) :
    ∃ n, n ≤ s.attempts.toNat ∧ Log.submitted (log ++ [e]) = List.replicate n t := by
  obtain ⟨q, answer⟩ := e
  rw [Log.submitted_append]
  cases h with
  | @reading reasons hleft =>
    refine ⟨_, Nat.le_of_lt hleft, ?_⟩
    rw [submitted_refusals]
    exact List.append_nil _
  | @submitting reasons hleft =>
    refine ⟨_, hleft, ?_⟩
    rw [Log.submitted_append, submitted_refusals, List.replicate_succ', List.append_assoc]
    rfl
  | @pausing reasons reason hleft =>
    refine ⟨_, Nat.le_of_lt hleft, ?_⟩
    rw [Log.submitted_append, submitted_refusals, List.replicate_succ', List.append_assoc]
    rfl

/-- A submission ends with the answer to a request: with what that decides, or called off if the flag
shows. -/
theorem Ends.exists_last (h : s.Ends t log ended) :
    ∃ before e, log = before ++ [e] ∧ s.Asks t before e.request ∧
      (∀ decided, e.decision? = some decided → ended = decided) ∧
      (e.ShowsFlag → ended = .cancelled) := by
  cases h with
  | @decided reasons answer ended hleft hdecides =>
    refine ⟨s.refusals t 1 reasons ++ [⟨.isCancelled, false⟩], ⟨.submit t, answer⟩, by simp,
      .submitting hleft, ?_, False.elim⟩
    intro decided hdecided
    exact Option.some.inj (hdecides.symm.trans hdecided)
  | @exhausted reasons last hlast =>
    exact ⟨s.refusals t 1 reasons ++ [⟨.isCancelled, false⟩], ⟨.submit t, .error (.transient last)⟩,
      by simp, .submitting (Nat.le_of_eq hlast), nofun, False.elim⟩
  | @cancelled log q answer hasks hshows =>
    refine ⟨log, ⟨q, answer⟩, rfl, hasks, ?_, fun _ => rfl⟩
    intro decided hdecided
    rw [Exchange.decision?_of_showsFlag hshows] at hdecided
    cases hdecided

/-- What decides is what a submission ends with. -/
theorem Ends.eq_of_decision? (h : s.Ends t log ended) {decided : Submission Receipt} (hmem : e ∈ log)
    (hdecides : e.decision? = some decided) : ended = decided := by
  obtain ⟨before, last, rfl, hasks, hlast, -⟩ := h.exists_last
  rcases List.mem_append.mp hmem with hold | hnew
  · rw [(hasks.passes hold).1] at hdecides
    cases hdecides
  · obtain rfl := List.mem_singleton.mp hnew
    exact hlast decided hdecides

/-- A submission is called off if, and only if, the flag shows. -/
theorem Ends.eq_cancelled_iff (h : s.Ends t log ended) :
    ended = .cancelled ↔ ∃ e ∈ log, e.ShowsFlag := by
  constructor
  · rintro rfl
    cases h with
    | decided _ hdecides => exact (Exchange.decision?_ne_cancelled _ hdecides).elim
    | cancelled _ hshows => exact ⟨_, by simp, hshows⟩
  · rintro ⟨e, hmem, hshows⟩
    obtain ⟨before, last, rfl, hasks, -, hlast⟩ := h.exists_last
    rcases List.mem_append.mp hmem with hold | hnew
    · exact ((hasks.passes hold).2 hshows).elim
    · obtain rfl := List.mem_singleton.mp hnew
      exact hlast hshows

/-- A submission that is called off had nothing accepted. -/
theorem Ends.accepted_of_cancelled (h : s.Ends t log .cancelled) : log.accepted = [] := by
  refine List.filterMap_eq_nil_iff.mpr fun e hmem => ?_
  cases haccepted : e.accepted? with
  | none => rfl
  | some t' =>
    obtain ⟨receipt, hdecides⟩ := Exchange.decision?_of_accepted? haccepted
    cases h.eq_of_decision? hmem hdecides

/-- Unless the flag showed, a submission ends with the first attempt that was not refused for a reason
that may clear up, or with the last one that the schedule allows. -/
theorem Ends.undisturbed (h : s.Ends t log ended) (hflag : ∀ e ∈ log, ¬e.ShowsFlag) :
    ∃ reasons answer,
      log = s.refusals t 1 reasons ++ [⟨.isCancelled, false⟩, ⟨.submit t, answer⟩] ∧
      (reasons.length < s.attempts.toNat ∧ Exchange.decision? ⟨.submit t, answer⟩ = some ended ∨
        reasons.length + 1 = s.attempts.toNat ∧ ∃ last, answer = .error (.transient last) ∧
          ended = .exhausted s.attempts.toNat last) := by
  cases h with
  | decided hleft hdecides => exact ⟨_, _, rfl, .inl ⟨hleft, hdecides⟩⟩
  | exhausted hlast => exact ⟨_, _, rfl, .inr ⟨hlast, _, rfl, rfl⟩⟩
  | cancelled _ hshows => exact (hflag _ (by simp) hshows).elim

/-- A submission leaves the state alone, and exchanges with its surroundings what its schedule says. -/
theorem meets_submitUntilDecided_asks (hattempts : s.attempts ≠ 0) (t : Transition) (state : σ) :
    (submitUntilDecided s (Routine.ask (.submit t)) state).Meets
      (fun log state' q => state' = state ∧ s.Asks t log q)
      (fun log state' ended => state' = state ∧ s.Ends t log ended) [] := by
  have hfrom (left : Nat) (reasons : List String) (hopen : reasons.length < s.attempts.toNat)
      (hleft : reasons.length + left = s.attempts.toNat) :
      (submitFrom s (Routine.ask (.submit t)) (reasons.length + 1) left state).Meets
        (fun log state' q => state' = state ∧ s.Asks t log q)
        (fun log state' ended => state' = state ∧ s.Ends t log ended) (s.refusals t 1 reasons) := by
    induction left generalizing reasons with
    | zero => omega
    | succ left ih =>
      refine Routine.meets_isCancelled ⟨rfl, .reading hopen⟩ fun isSet => ?_
      split
      next hset => exact ⟨rfl, .cancelled (.reading hopen) hset⟩
      next hset =>
        obtain rfl : isSet = false := Bool.eq_false_iff.mpr hset
        refine Routine.meets_ask ⟨rfl, .submitting hopen⟩ fun answer => ?_
        rw [List.append_assoc]
        match answer with
        | .ok receipt => exact ⟨rfl, .decided hopen rfl⟩
        | .error (.invalid reason) => exact ⟨rfl, .decided hopen rfl⟩
        | .error (.transient reason) =>
          dsimp only
          split
          next hlast => exact ⟨rfl, .exhausted (by omega)⟩
          next hmore =>
            have hpausing := @Asks.pausing s t reasons reason (by omega)
            refine Routine.meets_pause ⟨rfl, hpausing⟩ fun isCut => ?_
            split
            next hcut => exact ⟨rfl, .cancelled hpausing hcut⟩
            next hcut =>
              obtain rfl : isCut = false := Bool.eq_false_iff.mpr hcut
              have hnext := ih (reasons ++ [reason]) (by simp; omega) (by simp; omega)
              rw [refusals_append] at hnext
              simpa using hnext
  have hpositive : 0 < s.attempts.toNat :=
    Nat.pos_of_ne_zero fun hzero => hattempts (UInt32.toNat_inj.mp hzero)
  exact hfrom _ [] hpositive (Nat.zero_add _)

section Running

variable {es : Log} {work : Task σ (Submission Receipt)} (hattempts : s.attempts ≠ 0)
include hattempts

/-- A submission makes no more attempts than its schedule allows. -/
theorem exists_submitted_eq
    (hrun : Task.Reaches (submitUntilDecided s (Routine.ask (.submit t)) state) es work) :
    ∃ n, n ≤ s.attempts.toNat ∧ Log.submitted es = List.replicate n t := by
  rcases es.eq_nil_or_concat with rfl | ⟨before, e, rfl⟩
  · exact ⟨0, Nat.zero_le _, rfl⟩
  · rw [List.concat_eq_append] at hrun ⊢
    obtain ⟨_, -, hasks⟩ := (meets_submitUntilDecided_asks hattempts t state).at_request hrun
    exact hasks.submitted

/-- Nothing follows what decides, and that is what comes of the submission. -/
theorem eq_done_of_decision? {before after : Log} {decided : Submission Receipt}
    (hrun : Task.Reaches (submitUntilDecided s (Routine.ask (.submit t)) state)
      (before ++ e :: after) work)
    (hdecides : e.decision? = some decided) : after = [] ∧ work = .done state decided := by
  have hmeets := meets_submitUntilDecided_asks hattempts t state
  have hover {q : Request} {log : Log} (hasks : s.Asks t log q) (hmem : e ∈ log) : False := by
    rw [(hasks.passes hmem).1] at hdecides
    cases hdecides
  cases after with
  | cons next rest =>
    have hlog : before ++ e :: next :: rest = (before ++ [e]) ++ next :: rest := by simp
    rw [hlog] at hrun
    obtain ⟨_, -, hnext⟩ := hmeets.at_request hrun
    exact (hover hnext (by simp)).elim
  | nil =>
    refine ⟨rfl, ?_⟩
    have hpoint := hmeets.reaches hrun
    cases work with
    | ask _ q next => exact (hover hpoint.1.2 (by simp)).elim
    | done state' ended =>
      obtain ⟨rfl, hends⟩ := hpoint
      rw [hends.eq_of_decision? (by simp) hdecides]

end Running

/-- What a submission does and returns, whatever it is answered. It returns, after at most so many
attempts as its schedule allows, all of them with the same transition. After an answer that decides
nothing follows, and the submission ends with what was decided. Unless the flag shows, it ends with the
first answer that decides, or else exhausted with the reason of the last refusal, and the delays of the
schedule separate the attempts. If, and only if, the flag shows it is called off, and then nothing was
accepted. -/
theorem submission_is_decided (hattempts : s.attempts ≠ 0) (t : Transition) (state : σ) :
    (∀ oracle, ∃ es ended, Log.Follows oracle es ∧
      Task.Reaches (submitUntilDecided s (Routine.ask (.submit t)) state) es (.done state ended)) ∧
    ∀ es work, Task.Reaches (submitUntilDecided s (Routine.ask (.submit t)) state) es work →
      es.length ≤ 3 * s.attempts.toNat ∧
      (∃ n, n ≤ s.attempts.toNat ∧ Log.submitted es = List.replicate n t) ∧
      (∀ before e after decided, es = before ++ e :: after → e.decision? = some decided →
        after = [] ∧ work = .done state decided) ∧
      ∀ state' ended, work = .done state' ended → state' = state ∧
        ((∀ e ∈ es, ¬e.ShowsFlag) → ∃ reasons answer,
          es = s.refusals t 1 reasons ++ [⟨.isCancelled, false⟩, ⟨.submit t, answer⟩] ∧
          (reasons.length < s.attempts.toNat ∧ Exchange.decision? ⟨.submit t, answer⟩ = some ended ∨
            reasons.length + 1 = s.attempts.toNat ∧ ∃ last, answer = .error (.transient last) ∧
              ended = .exhausted s.attempts.toNat last)) ∧
        (ended = .cancelled ↔ ∃ e ∈ es, e.ShowsFlag) ∧ (ended = .cancelled → Log.accepted es = []) := by
  have hmeets := meets_submitUntilDecided_asks hattempts t state
  refine ⟨?_, ?_⟩
  · intro oracle
    have hrun := Task.reaches_play oracle [] (submitUntilDecided s (Routine.ask (.submit t)) state)
    obtain ⟨hstate, -⟩ := hmeets.reaches hrun
    rw [hstate] at hrun
    exact ⟨_, _, Task.follows_play oracle _, hrun⟩
  intro es work hrun
  refine ⟨asksAtMost_submitUntilDecided.reaches hrun, exists_submitted_eq hattempts hrun, ?_, ?_⟩
  · rintro before e after decided rfl hdecides
    exact eq_done_of_decision? hattempts hrun hdecides
  · rintro state' ended rfl
    obtain ⟨hstate, hends⟩ := hmeets.reaches hrun
    refine ⟨hstate, hends.undisturbed, hends.eq_cancelled_iff, ?_⟩
    rintro rfl
    exact hends.accepted_of_cancelled

end Schedule

namespace Sample

def committing : Transition := @Transition.sign .standard (.preorder ⟨.zero⟩ [.zero]) .epoch ⟨.zero⟩

/-- The platform is busy twice and then accepts. -/
def acceptedThird : Log :=
  (Schedule.linear 3 50).refusals committing 1 ["busy", "busy"] ++
    [⟨.isCancelled, false⟩, ⟨.submit committing, .ok ⟨.zero⟩⟩]

/-- The platform is busy, and the flag is set during the delay after that. -/
def cutShort : Log :=
  [⟨.isCancelled, false⟩, ⟨.submit committing, .error (.transient "busy")⟩, ⟨.pause 50, true⟩]

end Sample

open Sample in
/-- A transition is accepted at the third of three attempts. If the flag is set in the delay after the
first one, nothing is accepted. -/
theorem Schedule.submission_is_decided_busy :
    (∃ reasons answer, acceptedThird = (linear 3 50).refusals committing 1 reasons ++
        [⟨.isCancelled, false⟩, ⟨.submit committing, answer⟩] ∧ reasons.length < 3 ∧
      Exchange.decision? ⟨.submit committing, answer⟩ = some (.accepted ⟨.zero⟩)) ∧
    Task.Reaches (submitUntilDecided (linear 3 50) (Routine.ask (.submit committing)) ()) cutShort
      (.done () .cancelled) ∧ Log.accepted cutShort = [] := by
  have haccepted : Task.Reaches
      (submitUntilDecided (linear 3 50) (Routine.ask (.submit committing)) ()) acceptedThird
      (.done () (.accepted ⟨.zero⟩)) :=
    .answered _ (.answered _ (.answered _ (.answered _ (.answered _ (.answered _ (.answered _
      (.answered _ (.here _))))))))
  have hcut : Task.Reaches
      (submitUntilDecided (linear 3 50) (Routine.ask (.submit committing)) ()) cutShort
      (.done () .cancelled) :=
    .answered _ (.answered _ (.answered _ (.here _)))
  have hflag : ∀ e ∈ acceptedThird, ¬e.ShowsFlag := by
    simp [acceptedThird, refusals, Exchange.ShowsFlag]
  obtain ⟨-, hruns⟩ := submission_is_decided (s := linear 3 50) (by decide) committing ()
  obtain ⟨-, -, -, haccepts⟩ := hruns acceptedThird _ haccepted
  obtain ⟨-, -, -, hcuts⟩ := hruns cutShort _ hcut
  obtain ⟨-, hundisturbed, -, -⟩ := haccepts () _ rfl
  obtain ⟨-, -, -, hnothing⟩ := hcuts () _ rfl
  refine ⟨?_, hcut, hnothing rfl⟩
  obtain ⟨reasons, answer, hlog, ⟨hleft, hdecides⟩ | ⟨-, last, -, hended⟩⟩ := hundisturbed hflag
  · exact ⟨reasons, answer, hlog, hleft, hdecides⟩
  · cases hended

end Enrolment
