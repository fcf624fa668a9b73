import Enrolment.Registration.Routine
import Enrolment.Retry.Submission

/-!
What routines ask for and are answered, and a logic for them.

A log lists exchanges, oldest first. Some work meets a specification if, whatever it is answered, the
guard holds of the log and the state at every request that it makes and the postcondition holds of
them at its end. What is proved of work this way holds at every point that any run of it reaches.
-/

namespace Enrolment

def Operation.isCreation : Operation → Bool
  | createIdentity .. => true
  | _ => false

structure Exchange where
  request : Request
  answer : request.Answer

/-- Exchanges, oldest first. -/
abbrev Log := List Exchange

namespace Exchange

/-- The transition that was submitted, whatever became of it. -/
def submitted? : Exchange → Option Transition
  | ⟨.submit t, _⟩ => some t
  | _ => none

def accepted? : Exchange → Option Transition
  | ⟨.submit t, .ok _⟩ => some t
  | _ => none

def drawn? : Exchange → Option (Label × Salt)
  | ⟨.drawSalt label, salt⟩ => some (label, salt)
  | _ => none

theorem accepted?_of_submitted? {e : Exchange} (h : e.submitted? = none) : e.accepted? = none := by
  obtain ⟨request, answer⟩ := e
  cases request with
  | submit t => cases h
  | _ => rfl

theorem request_of_accepted? {e : Exchange} {t : Transition} (h : e.accepted? = some t) :
    e.request = .submit t := by
  obtain ⟨request, answer⟩ := e
  cases request with
  | submit t' =>
    cases answer with
    | ok receipt =>
      obtain rfl := Option.some.inj h
      rfl
    | error refusal => cases h
  | _ => cases h

theorem eq_of_submitted? {e : Exchange} {t : Transition} (h : e.submitted? = some t) :
    ∃ answer, e = ⟨.submit t, answer⟩ := by
  obtain ⟨request, answer⟩ := e
  cases request with
  | submit t' =>
    obtain rfl := Option.some.inj h
    exact ⟨answer, rfl⟩
  | _ => cases h

/-- An exchange that neither has a transition accepted nor draws a salt. -/
def IsQuiet (e : Exchange) : Prop := e.accepted? = none ∧ e.drawn? = none

end Exchange

namespace Log

/-- The transitions that were submitted, with every attempt. -/
def submitted (log : Log) : List Transition := log.filterMap Exchange.submitted?

def accepted (log : Log) : List Transition := log.filterMap Exchange.accepted?

def operations (log : Log) : List Operation := log.accepted.map Transition.operation

def drawn (log : Log) : List (Label × Salt) := log.filterMap Exchange.drawn?

/-- A log that goes on from another one by exchanges of one kind only. -/
def Goes (P : Exchange → Prop) (log later : Log) : Prop := ∃ es, later = log ++ es ∧ ∀ e ∈ es, P e

abbrev Lulls : Log → Log → Prop := Goes Exchange.IsQuiet

abbrev Spares : Log → Log → Prop := Goes fun e => e.submitted? = none

section Goes

variable {P Q : Exchange → Prop} {first second third log later : Log}

theorem Goes.refl (log : Log) : Goes P log log := ⟨[], by simp, by simp⟩

theorem Goes.trans (h : Goes P first second) (h' : Goes P second third) : Goes P first third := by
  obtain ⟨es, rfl, hes⟩ := h
  obtain ⟨es', rfl, hes'⟩ := h'
  refine ⟨es ++ es', by simp, ?_⟩
  intro e member
  rcases List.mem_append.mp member with old | new
  · exact hes e old
  · exact hes' e new

theorem Goes.snoc (h : Goes P log later) {e : Exchange} (he : P e) : Goes P log (later ++ [e]) :=
  h.trans ⟨[e], rfl, by simpa using he⟩

theorem Goes.isPrefix (h : Goes P log later) : log <+: later := by
  obtain ⟨es, rfl, -⟩ := h
  exact List.prefix_append log es

end Goes

/-- Every exchange of a log was answered as an oracle answers after the ones before it. -/
def Follows (oracle : Log → (request : Request) → request.Answer) (log : Log) : Prop :=
  ∀ before e after, log = before ++ e :: after → e.answer = oracle before e.request

/-- An exchange of two logs, one after the other, is in the first or in the second. -/
theorem split_append {first second before after : Log} {e : Exchange}
    (h : first ++ second = before ++ e :: after) :
    (∃ rest, first = before ++ e :: rest) ∨
      ∃ rest, before = first ++ rest ∧ second = rest ++ e :: after := by
  rcases List.append_eq_append_iff.mp h with ⟨rest, hbefore, hsecond⟩ | ⟨rest, hfirst, hsecond⟩
  · exact .inr ⟨rest, hbefore, hsecond⟩
  · cases rest with
    | nil => exact .inr ⟨[], by simpa using hfirst.symm, by simpa using hsecond.symm⟩
    | cons e' rest =>
      obtain ⟨rfl, -⟩ : e = e' ∧ after = rest ++ second := by simpa using hsecond
      exact .inl ⟨rest, hfirst⟩

@[simp] theorem submitted_append (first second : Log) :
    submitted (first ++ second) = submitted first ++ submitted second := List.filterMap_append ..

@[simp] theorem accepted_append (first second : Log) :
    accepted (first ++ second) = accepted first ++ accepted second := List.filterMap_append ..

@[simp] theorem operations_append (first second : Log) :
    operations (first ++ second) = operations first ++ operations second := by
  simp [operations]

@[simp] theorem drawn_append (first second : Log) :
    drawn (first ++ second) = drawn first ++ drawn second := List.filterMap_append ..

theorem Lulls.accepted {log later : Log} (h : Lulls log later) : later.accepted = log.accepted := by
  obtain ⟨es, rfl, hes⟩ := h
  have hnone : Log.accepted es = [] := List.filterMap_eq_nil_iff.mpr fun e he => (hes e he).1
  simp [hnone]

theorem Lulls.operations {log later : Log} (h : Lulls log later) :
    later.operations = log.operations := by
  unfold Log.operations
  rw [h.accepted]

theorem split_of_submitted {log : Log} {t : Transition} (h : t ∈ log.submitted) :
    ∃ before answer after, log = before ++ ⟨.submit t, answer⟩ :: after := by
  obtain ⟨e, he, hsubmitted⟩ := List.mem_filterMap.mp h
  obtain ⟨answer, rfl⟩ := Exchange.eq_of_submitted? hsubmitted
  obtain ⟨before, after, rfl⟩ := List.append_of_mem he
  exact ⟨before, answer, after, rfl⟩

theorem Spares.submitted {log later : Log} (h : Spares log later) :
    later.submitted = log.submitted := by
  obtain ⟨es, rfl, hes⟩ := h
  have hnone : Log.submitted es = [] := List.filterMap_eq_nil_iff.mpr hes
  simp [hnone]

theorem Spares.operations {log later : Log} (h : Spares log later) :
    later.operations = log.operations := by
  obtain ⟨es, rfl, hes⟩ := h
  have hnone : Log.accepted es = [] :=
    List.filterMap_eq_nil_iff.mpr fun e he => Exchange.accepted?_of_submitted? (hes e he)
  simp [Log.operations, hnone]

end Log

namespace Task

variable {σ τ α β : Type}

/-- What work can become of other work, over which exchanges. -/
inductive Reaches : Task σ α → Log → Task σ α → Prop where
  | here (t : Task σ α) : Reaches t [] t
  | answered {state : σ} {request : Request} {next : request.Answer → Task σ α}
      (answer : request.Answer) {log : Log} {t : Task σ α} (rest : Reaches (next answer) log t) :
      Reaches (.ask state request next) (⟨request, answer⟩ :: log) t

/-- Whatever the answers, the guard holds at every request of some work and the postcondition at its
end, for the log that the work starts with and goes on to write. -/
def Meets (guard : Log → σ → Request → Prop) (post : Log → σ → α → Prop) : Log → Task σ α → Prop
  | log, .done state result => post log state result
  | log, .ask state request next =>
    guard log state request ∧ ∀ answer, (next answer).Meets guard post (log ++ [⟨request, answer⟩])

/-- What work comes to when every answer follows from the exchanges before it: the exchanges, the state
and the result. -/
def play (oracle : Log → (request : Request) → request.Answer) : Log → Task σ α → Log × σ × α
  | _, .done state result => ([], state, result)
  | log, .ask _ request next =>
    let e : Exchange := ⟨request, oracle log request⟩
    let (es, ended) := (next e.answer).play oracle (log ++ [e])
    (e :: es, ended)

theorem reaches_play (oracle : Log → (request : Request) → request.Answer) (log : Log)
    (t : Task σ α) :
    Reaches t (t.play oracle log).1 (.done (t.play oracle log).2.1 (t.play oracle log).2.2) := by
  induction t generalizing log with
  | done s a => exact .here _
  | ask s q next ih => exact .answered _ (ih _ _)

theorem follows_play (oracle : Log → (request : Request) → request.Answer) (t : Task σ α) :
    Log.Follows oracle (t.play oracle []).1 := by
  have hfrom (log : Log) (t : Task σ α) (before : Log) (e : Exchange) (after : Log)
      (h : (t.play oracle log).1 = before ++ e :: after) :
      e.answer = oracle (log ++ before) e.request := by
    induction t generalizing log before with
    | done s a => simp [play] at h
    | ask s q next ih =>
      cases before with
      | nil =>
        obtain ⟨rfl, -⟩ := List.cons.inj h
        rw [List.append_nil]
      | cons first before =>
        obtain ⟨rfl, hrest⟩ := List.cons.inj h
        have hlater := ih _ _ _ hrest
        rwa [List.append_assoc] at hlater
  exact hfrom [] t

theorem exists_reaches_of_play (oracle : Log → (request : Request) → request.Answer)
    {t : Task σ α} {s : σ} {a : α} (h : (t.play oracle []).2 = (s, a)) :
    ∃ es, Reaches t es (.done s a) := by
  have hrun := t.reaches_play oracle []
  rw [h] at hrun
  exact ⟨_, hrun⟩

variable {guard : Log → σ → Request → Prop} {post : Log → σ → α → Prop} {log : Log}

@[simp] theorem meets_done {state : σ} {result : α} :
    (done state result).Meets guard post log ↔ post log state result := Iff.rfl

@[simp] theorem meets_ask {state : σ} {request : Request} {next : request.Answer → Task σ α} :
    (ask state request next).Meets guard post log ↔
      guard log state request ∧
        ∀ answer, (next answer).Meets guard post (log ++ [⟨request, answer⟩]) := Iff.rfl

theorem Meets.weaken {guard' : Log → σ → Request → Prop} {post' : Log → σ → α → Prop}
    {t : Task σ α} (h : t.Meets guard post log)
    (hguard : ∀ log s q, guard log s q → guard' log s q)
    (hpost : ∀ log s a, post log s a → post' log s a) : t.Meets guard' post' log := by
  induction t generalizing log with
  | done s a => exact hpost _ _ _ h
  | ask s q next ih => exact ⟨hguard _ _ _ h.1, fun answer => ih answer (h.2 answer)⟩

theorem Meets.mono {post' : Log → σ → α → Prop} {t : Task σ α} (h : t.Meets guard post log)
    (hpost : ∀ log s a, post log s a → post' log s a) : t.Meets guard post' log :=
  h.weaken (fun _ _ _ hg => hg) hpost

/-- What holds at the end of the first work is what the second may start from. -/
theorem Meets.bind {t : Task σ α} {f : α → σ → Task σ β} {post' : Log → σ → β → Prop}
    (h : t.Meets guard post log)
    (hf : ∀ log s a, post log s a → (f a s).Meets guard post' log) :
    (t.bind f).Meets guard post' log := by
  induction t generalizing log with
  | done s a => exact hf _ _ _ h
  | ask s q next ih => exact ⟨h.1, fun answer => ih answer (h.2 answer)⟩

/-- Work on a part of a state meets what the part does, read off the larger state. -/
theorem Meets.within {put : σ → τ} {guard : Log → τ → Request → Prop} {post : Log → τ → α → Prop}
    {t : Task σ α}
    (h : t.Meets (fun log s q => guard log (put s) q) (fun log s a => post log (put s) a) log) :
    (t.within put).Meets guard post log := by
  induction t generalizing log with
  | done s a => exact h
  | ask s q next ih => exact ⟨h.1, fun answer => ih answer (h.2 answer)⟩

/-- Work adds exchanges to the log that are of the kind that the guard allows. -/
theorem Meets.goes {P : Exchange → Prop} {t : Task σ α} (h : t.Meets guard post log)
    (hguard : ∀ log s q, guard log s q → ∀ answer, P ⟨q, answer⟩) :
    t.Meets (fun later s q => Log.Goes P log later ∧ guard later s q)
      (fun later s a => Log.Goes P log later ∧ post later s a) log := by
  have hfrom (start log : Log) (t : Task σ α) (hlog : Log.Goes P start log)
      (h : t.Meets guard post log) :
      t.Meets (fun later s q => Log.Goes P start later ∧ guard later s q)
        (fun later s a => Log.Goes P start later ∧ post later s a) log := by
    induction t generalizing log with
    | done s a => exact ⟨hlog, h⟩
    | ask s q next ih =>
      refine ⟨⟨hlog, h.1⟩, ?_⟩
      intro answer
      exact ih answer _ (hlog.snoc (hguard _ _ _ h.1 answer)) (h.2 answer)
  exact hfrom log log t (.refl log) h

theorem Meets.extends {t : Task σ α} (h : t.Meets guard post log) :
    t.Meets (fun later s q => log <+: later ∧ guard later s q)
      (fun later s a => log <+: later ∧ post later s a) log := by
  have hgoes := @Meets.goes σ α guard post log (fun _ => True) t h fun _ _ _ _ _ => trivial
  exact hgoes.weaken (fun _ _ _ h => ⟨h.1.isPrefix, h.2⟩) fun _ _ _ h => ⟨h.1.isPrefix, h.2⟩

/-- Work that starts with a log starts as well with the later part of it. -/
theorem Meets.drop {older : Log} {t : Task σ α} (h : t.Meets guard post (older ++ log)) :
    t.Meets (fun log => guard (older ++ log)) (fun log => post (older ++ log)) log := by
  induction t generalizing log with
  | done s a => exact h
  | ask s q next ih =>
    refine ⟨h.1, fun answer => ih answer ?_⟩
    rw [← List.append_assoc]
    exact h.2 answer

/-- A specification that is met stays met along every run. -/
theorem Meets.reaches {t t' : Task σ α} {es : Log} (h : t.Meets guard post log)
    (hr : Reaches t es t') : t'.Meets guard post (log ++ es) := by
  induction hr generalizing log with
  | here => simpa using h
  | answered answer rest ih => simpa using ih (h.2 answer)

/-- A run over some exchanges passes through the request of each of them. -/
theorem Reaches.split {t t' : Task σ α} {before after : Log} {e : Exchange}
    (h : Reaches t (before ++ e :: after) t') :
    ∃ s next, Reaches t before (.ask s e.request next) ∧ Reaches (next e.answer) after t' := by
  induction before generalizing t with
  | nil =>
    cases h with
    | answered answer rest => exact ⟨_, _, .here _, rest⟩
  | cons first before ih =>
    cases h with
    | answered answer rest =>
      obtain ⟨s, next, hbefore, hafter⟩ := ih rest
      exact ⟨s, next, .answered answer hbefore, hafter⟩

/-- A guard that is met was met at every request that a run has had answered. -/
theorem Meets.at_request {t t' : Task σ α} {before after : Log} {e : Exchange}
    (h : t.Meets guard post log) (hrun : Reaches t (before ++ e :: after) t') :
    ∃ s, guard (log ++ before) s e.request := by
  obtain ⟨s, next, hbefore, -⟩ := hrun.split
  exact ⟨s, (h.reaches hbefore).1⟩

end Task

namespace Routine

variable {σ α β : Type} {guard : Log → σ → Request → Prop} {post : Log → σ → β → Prop} {log : Log}
  {s : σ}

theorem get_bind (k : σ → Routine σ β) (s : σ) : (get >>= k) s = k s s := rfl

theorem meets_get {k : σ → Routine σ β} (hk : (k s s).Meets guard post log) :
    ((get >>= k) s).Meets guard post log := hk

theorem meets_modify {f : σ → σ} {k : PUnit → Routine σ β} (hk : (k ⟨⟩ (f s)).Meets guard post log) :
    ((modify f >>= k) s).Meets guard post log := hk

theorem meets_ite {c : Prop} [Decidable c] {first second : Routine σ β}
    (hfirst : c → (first s).Meets guard post log) (hsecond : ¬c → (second s).Meets guard post log) :
    ((if c then first else second) s).Meets guard post log := by
  split
  next h => exact hfirst h
  next h => exact hsecond h

theorem meets_ask {q : Request} {k : q.Answer → Routine σ β} (hq : guard log s q)
    (hk : ∀ a, (k a s).Meets guard post (log ++ [⟨q, a⟩])) :
    ((ask q >>= k) s).Meets guard post log := ⟨hq, hk⟩

theorem meets_isCancelled {k : Bool → Routine σ β} (hq : guard log s .isCancelled)
    (hk : ∀ a, (k a s).Meets guard post (log ++ [⟨.isCancelled, a⟩])) :
    ((isCancelled >>= k) s).Meets guard post log := ⟨hq, hk⟩

theorem meets_pause {millis : Nat} {k : Bool → Routine σ β} (hq : guard log s (.pause millis))
    (hk : ∀ a, (k a s).Meets guard post (log ++ [⟨.pause millis, a⟩])) :
    ((pause millis >>= k) s).Meets guard post log := ⟨hq, hk⟩

theorem meets_bind {r : Routine σ α} {k : α → Routine σ β} {mid : Log → σ → α → Prop}
    (hr : (r s).Meets guard mid log)
    (hk : ∀ log s a, mid log s a → (k a s).Meets guard post log) :
    ((r >>= k) s).Meets guard post log := Task.Meets.bind hr hk

end Routine

section Loops

variable {σ β : Type} {guard : Log → σ → Request → Prop} {s : σ} {start : Log}

theorem quiet_isCancelled (a : Bool) : Exchange.IsQuiet ⟨.isCancelled, a⟩ := ⟨rfl, rfl⟩

theorem quiet_pause (millis : Nat) (a : Bool) : Exchange.IsQuiet ⟨.pause millis, a⟩ := ⟨rfl, rfl⟩

theorem quiet_time (now : Timestamp) : Exchange.IsQuiet ⟨.time, now⟩ := ⟨rfl, rfl⟩

theorem quiet_refused (t : Transition) (refusal : Refusal) :
    Exchange.IsQuiet ⟨.submit t, .error refusal⟩ := ⟨rfl, rfl⟩

/-- A watch leaves the state alone and is as quiet as its looks. If it is completed, a look saw what
it is completed with. -/
theorem meets_watch {schedule : Schedule} {look : Nat → Routine σ (Look β)}
    {seen : Log → β → Prop} (hflag : ∀ log, guard log s .isCancelled)
    (hpause : ∀ log millis, guard log s (.pause millis))
    (hseen : ∀ log e v, seen log v → seen (log ++ [e]) v)
    (hlook : ∀ number log, Log.Lulls start log → (look number s).Meets guard
      (fun later s' saw => s' = s ∧ Log.Lulls start later ∧ ∀ v, saw = .ready v → seen later v)
      log) :
    (watch schedule look s).Meets guard
      (fun later s' ended => s' = s ∧ Log.Lulls start later ∧
        ∀ v, ended = some (.completed v) → seen later v) start := by
  have hfrom (left number : Nat) (log : Log) (hlog : Log.Lulls start log) :
      (watchFrom schedule look number left s).Meets guard
        (fun later s' ended => s' = s ∧ Log.Lulls start later ∧
          ∀ v, ended = some (.completed v) → seen later v) log := by
    induction left generalizing number log with
    | zero => exact ⟨rfl, hlog, by simp⟩
    | succ left ih =>
      refine Routine.meets_isCancelled (hflag log) fun before => ?_
      have hbefore := hlog.snoc (quiet_isCancelled before)
      split
      · exact ⟨rfl, hbefore, by simp⟩
      refine Routine.meets_bind (hlook number _ hbefore) ?_
      rintro log s' saw ⟨rfl, hlog, hsaw⟩
      refine Routine.meets_isCancelled (hflag log) fun after => ?_
      have hafter := hlog.snoc (quiet_isCancelled after)
      split
      · exact ⟨rfl, hafter, by simp⟩
      cases saw with
      | ready v =>
        refine ⟨rfl, hafter, ?_⟩
        rintro w ⟨rfl⟩
        exact hseen _ _ _ (hsaw v rfl)
      | pending =>
        dsimp only
        split
        · exact ⟨rfl, hafter, by simp⟩
        refine Routine.meets_pause (hpause _ _) fun cut => ?_
        have hpaused := hafter.snoc (quiet_pause (schedule.delayAfter number) cut)
        split
        · exact ⟨rfl, hpaused, by simp⟩
        exact ih (number + 1) _ hpaused
  exact hfrom _ 1 start (.refl start)

/-- What the log has become when the submission of a transition ended: quiet exchanges followed by
the last attempt, if that one decided. -/
def Submission.Writes (t : Transition) (start later : Log) : Submission Receipt → Prop
  | accepted receipt => ∃ log, Log.Lulls start log ∧ later = log ++ [⟨.submit t, .ok receipt⟩]
  | rejected reason =>
    ∃ log, Log.Lulls start log ∧ later = log ++ [⟨.submit t, .error (.invalid reason)⟩]
  | exhausted .. => Log.Lulls start later
  | cancelled => Log.Lulls start later

/-- Submitting a transition until it is decided leaves the state alone, and every attempt but the last
is quiet. -/
theorem meets_submitUntilDecided {schedule : Schedule} {t : Transition}
    (hflag : ∀ log, guard log s .isCancelled)
    (hpause : ∀ log millis, guard log s (.pause millis))
    (hsubmit : ∀ log, Log.Lulls start log → guard log s (.submit t)) :
    (submitUntilDecided schedule (Routine.ask (.submit t)) s).Meets guard
      (fun later s' ended => s' = s ∧ ended.Writes t start later) start := by
  have hfrom (left number : Nat) (log : Log) (hlog : Log.Lulls start log) :
      (submitFrom schedule (Routine.ask (.submit t)) number left s).Meets guard
        (fun later s' ended => s' = s ∧ ended.Writes t start later) log := by
    induction left generalizing number log with
    | zero => exact ⟨rfl, hlog⟩
    | succ left ih =>
      refine Routine.meets_isCancelled (hflag log) fun before => ?_
      have hbefore := hlog.snoc (quiet_isCancelled before)
      split
      · exact ⟨rfl, hbefore⟩
      refine Routine.meets_ask (hsubmit _ hbefore) fun answer => ?_
      match answer with
      | .ok receipt => exact ⟨rfl, _, hbefore, rfl⟩
      | .error (.invalid reason) => exact ⟨rfl, _, hbefore, rfl⟩
      | .error (.transient reason) =>
        have hrefused := hbefore.snoc (quiet_refused t (.transient reason))
        dsimp only
        split
        · exact ⟨rfl, hrefused⟩
        refine Routine.meets_pause (hpause _ _) fun cut => ?_
        have hpaused := hrefused.snoc (quiet_pause (schedule.delayAfter number) cut)
        split
        · exact ⟨rfl, hpaused⟩
        exact ih (number + 1) _ hpaused
  exact hfrom _ 1 start (.refl start)

end Loops

end Enrolment
