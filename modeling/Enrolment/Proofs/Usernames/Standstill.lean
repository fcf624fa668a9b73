import Enrolment.Proofs.Retry.Submitting
import Enrolment.Proofs.Usernames.Calls

/-!
What a call that comes to nothing leaves behind.

Along a run it is remembered in which states something was submitted that the platform has not accepted
since, and whether the flag was shown just now. Every routine of a batch starts with nothing that waits
for acceptance, and lets the batch proceed only if nothing does. Where a batch is refused or paused
instead, the registration is as it was when what still waits was submitted, and a pause follows upon a
flag that was shown.
-/

namespace Enrolment

/-- What is remembered of a run. -/
structure Memory (σ : Type) where
  /-- The states in which something was submitted since the last acceptance. -/
  waiting : List σ
  /-- The last exchange showed the flag as set. -/
  isShown : Prop

namespace Memory

variable {σ : Type} {m : Memory σ} {s : σ} {e : Exchange}

def note (m : Memory σ) (s : σ) (e : Exchange) : Memory σ where
  waiting :=
    match e with
    | ⟨.submit _, .ok _⟩ => []
    | ⟨.submit _, .error _⟩ => s :: m.waiting
    | _ => m.waiting
  isShown := e.ShowsFlag

/-- Whatever waits for acceptance was submitted in a given state. -/
def Fits (m : Memory σ) (s : σ) : Prop := ∀ s' ∈ m.waiting, s' = s

/-- Only an acceptance ends the waiting. -/
theorem subset_note (h : e.accepted? = none) : m.waiting ⊆ (m.note s e).waiting := by
  obtain ⟨request, answer⟩ := e
  cases request with
  | submit t =>
    cases answer with
    | ok receipt => cases h
    | error refusal => exact List.subset_cons_self s m.waiting
  | _ => exact List.Subset.refl _

end Memory

namespace Task

variable {σ α β : Type} {m : Memory σ} {post : Memory σ → σ → α → Prop} {s : σ}

/-- Whatever the answers, the postcondition holds of what is remembered at the end of some work. -/
def Remembers (post : Memory σ → σ → α → Prop) : Memory σ → Task σ α → Prop
  | m, .done s a => post m s a
  | m, .ask s q next => ∀ answer, (next answer).Remembers post (m.note s ⟨q, answer⟩)

theorem Remembers.bind {t : Task σ α} {f : α → σ → Task σ β} {post' : Memory σ → σ → β → Prop}
    (h : t.Remembers post m) (hf : ∀ m s a, post m s a → (f a s).Remembers post' m) :
    (t.bind f).Remembers post' m := by
  induction t generalizing m with
  | done s a => exact hf _ _ _ h
  | ask s q next ih => exact fun answer => ih answer (h answer)

/-- What waits goes on to wait along a run that has nothing accepted. -/
theorem Remembers.reaches {t t' : Task σ α} {es : Log} (h : t.Remembers post m) (hr : Reaches t es t')
    (hes : Log.accepted es = []) : ∃ m', m.waiting ⊆ m'.waiting ∧ t'.Remembers post m' := by
  induction hr generalizing m with
  | here => exact ⟨m, List.Subset.refl _, h⟩
  | @answered s q next answer log t rest ih =>
    have hall := List.filterMap_eq_nil_iff.mp hes
    obtain ⟨hfirst, hrest⟩ := List.forall_mem_cons.mp hall
    obtain ⟨m', hwaiting, hlater⟩ := ih (h answer) (List.filterMap_eq_nil_iff.mpr hrest)
    exact ⟨m', List.Subset.trans (Memory.subset_note hfirst) hwaiting, hlater⟩

/-- What work ends with was shown the flag only by the last exchange of its run. -/
theorem Remembers.ends {t : Task σ α} {es : Log} {a : α} (h : t.Remembers post m)
    (hr : Reaches t es (.done s a)) : ∃ m', post m' s a ∧
      (m'.isShown → m.isShown ∧ es = [] ∨ ∃ before e, es = before ++ [e] ∧ e.ShowsFlag) := by
  generalize hended : Task.done s a = ended at hr
  induction hr generalizing m with
  | here =>
    subst hended
    exact ⟨m, h, fun hshown => .inl ⟨hshown, rfl⟩⟩
  | @answered s q next answer log t rest ih =>
    obtain ⟨m', hpost, hlast⟩ := ih (h answer) hended
    refine ⟨m', hpost, fun hshown => .inr ?_⟩
    rcases hlast hshown with ⟨hfirst, rfl⟩ | ⟨before, e, rfl, he⟩
    · exact ⟨[], ⟨q, answer⟩, rfl, hfirst⟩
    · exact ⟨⟨q, answer⟩ :: before, e, rfl, he⟩

/-- Every request of a run, and the answer to it, is remembered by what comes after. -/
theorem Remembers.at_request {t : Task σ α} {before : Log} {q : Request}
    {next : q.Answer → Task σ α} (h : t.Remembers post m) (hr : Reaches t before (.ask s q next))
    (answer : q.Answer) : ∃ m', (next answer).Remembers post (Memory.note m' s ⟨q, answer⟩) := by
  generalize hlater : Task.ask s q next = later at hr
  induction hr generalizing m with
  | here =>
    subst hlater
    exact ⟨m, h answer⟩
  | answered given _ ih => exact ih (h given) hlater

end Task

namespace Routine

variable {σ α β : Type} {m : Memory σ} {post : Memory σ → σ → β → Prop} {s : σ}

theorem remembers_bind {r : Routine σ α} {k : α → Routine σ β} {mid : Memory σ → σ → α → Prop}
    (hr : (r s).Remembers mid m) (hk : ∀ m s a, mid m s a → (k a s).Remembers post m) :
    ((r >>= k) s).Remembers post m := Task.Remembers.bind hr hk

end Routine

section Loops

variable {σ β : Type} {s : σ} {m : Memory σ}

end Loops

namespace UsernameRegistration

variable {r : UsernameRegistration} {m : Memory UsernameRegistration}

/-- What is remembered of a call that came to nothing: paused, it was shown the flag just now, and refused
or paused, it changed nothing since it submitted what still waits. -/
def Excuses (m : Memory UsernameRegistration) (r : UsernameRegistration) :
    Option UsernameOutcome → Prop
  | none => m.isShown ∧ m.Fits r
  | some (.failed _) => m.Fits r
  | _ => True

/-- The same after a step of a batch. The batch proceeds only if nothing waits. -/
def Allows (m : Memory UsernameRegistration) (r : UsernameRegistration) : Step → Prop
  | .proceed => m.waiting = []
  | .stop outcome => Excuses m r (some outcome)
  | .paused => Excuses m r none

/-- A step that may follow upon any step that let the batch proceed. -/
def IsCandid (work : Work Step) : Prop :=
  ∀ m r, m.waiting = [] → (work r).Remembers Allows m

theorem IsCandid.andThen {first second : Work Step} (hfirst : IsCandid first)
    (hsecond : IsCandid second) : IsCandid (Step.andThen first second) := by
  intro m r hm
  apply Routine.remembers_bind (hfirst m r hm)
  intro m r step hallows
  match step with
  | .proceed => exact hsecond m r hallows
  | .stop outcome => exact hallows
  | .paused => exact hallows

variable {batch : List String}

variable [Suite]

variable {r' : UsernameRegistration} {es : Log} {schedule? : Option Schedule}
  {requests : List String} {outcome : Option UsernameOutcome}

end UsernameRegistration

end Enrolment
