import Enrolment.Proofs.Flow.World

/-!
Work that a platform answers.

A platform answers a request in every way in which it may, and changes by it. Work concludes if, however
the flag is set meanwhile, every request can be answered and every answer leads on, so that the
postcondition holds in the end. Work is finite, so that work which concludes comes to an end.
-/

namespace Enrolment

open Simulation

/-- What a platform may answer to a request under a flag, and what it has become by then. When a call
is answered does not matter. -/
def Simulation.Platform.Answers [Suite] (p : Platform) (flag : Bool) :
    (q : Request) → q.Answer → Platform → Prop
  | .isCancelled, set, p' => set = flag ∧ p' = p
  | .clearFlag, _, p' => p' = p
  | .pause _, cut, p' => (cut = true → flag = true) ∧ p' = p
  | .submit t, answer, p' => ∃ now, p.submit t now = (answer, p')
  | .awaitDepth tx required, answer, p' => p' = p ∧
    match answer with
    | none => flag = true
    | some (.ok depth) => depth = p.depth tx ∧ required ≤ depth
    | some (.error _) => False
  | .findIdentity id, answer, p' => p.findIdentity id = (answer, p')
  | .findDocuments kind filter, answer, p' => p.findDocuments kind filter = (answer, p')
  | .drawSalt _, _, p' => p' = p
  | .time, _, p' => p' = p

theorem Simulation.Platform.Answers.admits [Suite] {p p' : Platform} {flag : Bool} {q : Request}
    {answer : q.Answer}
    (h : p.Answers flag q answer p') : q.Admits flag answer := by
  cases q with
  | isCancelled => exact h.1
  | pause millis => exact h.1
  | awaitDepth tx required =>
    obtain ⟨-, h⟩ := h
    match answer with
    | none => exact h
    | some (.ok depth) => exact h.2
    | some (.error e) => exact h.elim
  | _ => trivial

namespace Task

variable [Suite] {σ τ α β : Type}

/-- However the flag is set while some work goes on, the platform can answer every request, and the
postcondition holds at the end of the work whatever the answers were. -/
def Concludes (post : Bool → Platform → σ → α → Prop) : Bool → Platform → Task σ α → Prop
  | flag, p, .done state result => post flag p state result
  | flag, p, .ask _ q next => ∀ new, (flag = true → new = true) →
    (∃ answer p', p.Answers new q answer p') ∧
      ∀ answer p', p.Answers new q answer p' →
        (next answer).Concludes post (q.flagAfter new) p'

variable {post post' : Bool → Platform → σ → α → Prop} {flag : Bool} {p : Platform}

theorem Concludes.mono {t : Task σ α} (h : t.Concludes post flag p)
    (hpost : ∀ flag p s a, post flag p s a → post' flag p s a) : t.Concludes post' flag p := by
  induction t generalizing flag p with
  | done s a => exact hpost _ _ _ _ h
  | ask s q next ih =>
    intro new hnew
    obtain ⟨hanswers, hnext⟩ := h new hnew
    refine ⟨hanswers, ?_⟩
    intro answer p' hanswer
    exact ih answer (hnext answer p' hanswer)

/-- What holds at the end of the first work is what the second may start from. -/
theorem Concludes.bind {t : Task σ α} {f : α → σ → Task σ β}
    {post' : Bool → Platform → σ → β → Prop} (h : t.Concludes post flag p)
    (hf : ∀ flag p s a, post flag p s a → (f a s).Concludes post' flag p) :
    (t.bind f).Concludes post' flag p := by
  induction t generalizing flag p with
  | done s a => exact hf _ _ _ _ h
  | ask s q next ih =>
    intro new hnew
    obtain ⟨hanswers, hnext⟩ := h new hnew
    refine ⟨hanswers, ?_⟩
    intro answer p' hanswer
    exact ih answer (hnext answer p' hanswer)

/-- Work on a part of a state concludes as the part does, read off the larger state. -/
theorem Concludes.within {put : σ → τ} {post : Bool → Platform → τ → α → Prop} {t : Task σ α}
    (h : t.Concludes (fun flag p s a => post flag p (put s) a) flag p) :
    (t.within put).Concludes post flag p := by
  induction t generalizing flag p with
  | done s a => exact h
  | ask s q next ih =>
    intro new hnew
    obtain ⟨hanswers, hnext⟩ := h new hnew
    refine ⟨hanswers, ?_⟩
    intro answer p' hanswer
    exact ih answer (hnext answer p' hanswer)

/-- Work that concludes does so when the flag is set at once, if its end may be under a set flag. -/
theorem Concludes.set {t : Task σ α} (h : t.Concludes post flag p)
    (hpost : ∀ p s a, post false p s a → post true p s a) : t.Concludes post true p := by
  cases t with
  | done s a =>
    cases flag with
    | true => exact h
    | false => exact hpost _ _ _ h
  | ask s q next =>
    intro new hnew
    exact h new fun _ => hnew rfl

end Task

namespace Routine

variable [Suite] {σ α β : Type} {post : Bool → Platform → σ → β → Prop} {flag : Bool} {p : Platform}
  {s : σ}

theorem concludes_get {k : σ → Routine σ β} (hk : (k s s).Concludes post flag p) :
    ((get >>= k) s).Concludes post flag p := hk

theorem concludes_modify {f : σ → σ} {k : PUnit → Routine σ β}
    (hk : (k ⟨⟩ (f s)).Concludes post flag p) : ((modify f >>= k) s).Concludes post flag p := hk

theorem concludes_ite {c : Prop} [Decidable c] {first second : Routine σ β}
    (hfirst : c → (first s).Concludes post flag p)
    (hsecond : ¬c → (second s).Concludes post flag p) :
    ((if c then first else second) s).Concludes post flag p := by
  split
  next h => exact hfirst h
  next h => exact hsecond h

theorem concludes_bind {r : Routine σ α} {k : α → Routine σ β}
    {mid : Bool → Platform → σ → α → Prop} (hr : (r s).Concludes mid flag p)
    (hk : ∀ flag p s a, mid flag p s a → (k a s).Concludes post flag p) :
    ((r >>= k) s).Concludes post flag p := Task.Concludes.bind hr hk

theorem concludes_time {k : Timestamp → Routine σ β}
    (hk : ∀ flag' now, (flag = true → flag' = true) → (k now s).Concludes post flag' p) :
    ((ask .time >>= k) s).Concludes post flag p := by
  intro new hnew
  refine ⟨⟨.epoch, p, rfl⟩, ?_⟩
  rintro now p' rfl
  exact hk new now hnew

theorem concludes_drawSalt {label : Label} {k : Salt → Routine σ β}
    (hk : ∀ flag' salt, (flag = true → flag' = true) → (k salt s).Concludes post flag' p) :
    ((ask (.drawSalt label) >>= k) s).Concludes post flag p := by
  intro new hnew
  refine ⟨⟨⟨.zero⟩, p, rfl⟩, ?_⟩
  rintro salt p' rfl
  exact hk new salt hnew

/-- The flag is what is read of it. -/
theorem concludes_isCancelled {k : Bool → Routine σ β}
    (hk : ∀ read, (flag = true → read = true) → (k read s).Concludes post read p) :
    ((isCancelled >>= k) s).Concludes post flag p := by
  intro new hnew
  refine ⟨⟨new, p, rfl, rfl⟩, ?_⟩
  rintro read p' ⟨rfl, rfl⟩
  exact hk read hnew

/-- A pause is cut short only under a set flag. -/
theorem concludes_pause {millis : Nat} {k : Bool → Routine σ β}
    (hk : ∀ flag' cut, (flag = true → flag' = true) → (cut = true → flag' = true) →
      (k cut s).Concludes post flag' p) : ((pause millis >>= k) s).Concludes post flag p := by
  intro new hnew
  refine ⟨⟨false, p, nofun, rfl⟩, ?_⟩
  rintro cut p' ⟨hcut, rfl⟩
  exact hk new cut hnew hcut

/-- Waiting for a depth that there is ends, under a set flag possibly without it. -/
theorem concludes_awaitDepth {tx : TxId} {required : UInt64}
    {k : Option (Except RegistrationError UInt64) → Routine σ β} (hdeep : required ≤ p.depth tx)
    (hnone : (k none s).Concludes post true p)
    (hsome : ∀ flag', (flag = true → flag' = true) →
      (k (some (.ok (p.depth tx))) s).Concludes post flag' p) :
    ((ask (.awaitDepth tx required) >>= k) s).Concludes post flag p := by
  intro new hnew
  refine ⟨⟨some (.ok (p.depth tx)), p, rfl, rfl, hdeep⟩, ?_⟩
  rintro answer p' ⟨rfl, hanswer⟩
  match answer with
  | none =>
    obtain rfl : new = true := hanswer
    exact hnone
  | some (.ok depth) =>
    obtain ⟨rfl, -⟩ := hanswer
    exact hsome new hnew
  | some (.error e) => exact hanswer.elim

theorem concludes_submit {t : Transition} {k : Except Refusal Receipt → Routine σ β}
    (hk : ∀ flag' now, (flag = true → flag' = true) →
      (k (p.submit t now).1 s).Concludes post flag' (p.submit t now).2) :
    ((ask (.submit t) >>= k) s).Concludes post flag p := by
  intro new hnew
  refine ⟨⟨_, _, .epoch, rfl⟩, ?_⟩
  rintro answer p' ⟨now, hsubmitted⟩
  have hnext := hk new now hnew
  rwa [hsubmitted] at hnext

theorem concludes_findIdentity {id : IdentityId}
    {k : Except RegistrationError (Option Identity) → Routine σ β}
    (hk : ∀ flag', (flag = true → flag' = true) →
      (k (p.findIdentity id).1 s).Concludes post flag' (p.findIdentity id).2) :
    ((ask (.findIdentity id) >>= k) s).Concludes post flag p := by
  intro new hnew
  refine ⟨⟨_, _, rfl⟩, ?_⟩
  rintro answer p' hfound
  have hnext := hk new hnew
  rwa [show p.findIdentity id = (answer, p') from hfound] at hnext

theorem concludes_findDocuments {kind : DocumentKind} {filter : Filter}
    {k : Except RegistrationError (List Document) → Routine σ β}
    (hk : ∀ flag', (flag = true → flag' = true) →
      (k (p.findDocuments kind filter).1 s).Concludes post flag' (p.findDocuments kind filter).2) :
    ((ask (.findDocuments kind filter) >>= k) s).Concludes post flag p := by
  intro new hnew
  refine ⟨⟨_, _, rfl⟩, ?_⟩
  rintro answer p' hfound
  have hnext := hk new hnew
  rwa [show p.findDocuments kind filter = (answer, p') from hfound] at hnext

end Routine

/-- What is left of a wait after some looks. A wait is for a number of looks, or for ever. -/
def waitAfter (looks : Nat) (wait : Option Nat) : Option Nat := wait.map (· - looks)

/-- Whether one of some looks sees what is waited for. -/
def endsWithin (looks : Nat) (wait : Option Nat) : Bool := wait.any (· < looks)

theorem waitAfter_zero (wait : Option Nat) : waitAfter 0 wait = wait := by
  cases wait <;> rfl

theorem waitAfter_waitAfter (first second : Nat) (wait : Option Nat) :
    waitAfter second (waitAfter first wait) = waitAfter (first + second) wait := by
  cases wait with
  | none => rfl
  | some n => simp [waitAfter, Nat.sub_sub]

theorem endsWithin_waitAfter {looks : Nat} {wait : Option Nat} (passed : Nat)
    (h : endsWithin looks wait = true) : endsWithin looks (waitAfter passed wait) = true := by
  cases wait with
  | none => cases h
  | some n =>
    simp only [endsWithin, waitAfter, Option.map_some, Option.any_some, decide_eq_true_eq] at h ⊢
    omega

/-- A wait that ends within some looks ends. -/
theorem exists_waitAfter {looks : Nat} {wait : Option Nat} (h : endsWithin looks wait = true) :
    ∃ passed, waitAfter passed wait = some 0 := by
  cases wait with
  | none => cases h
  | some n => exact ⟨n, by simp [waitAfter]⟩

/-- The look after some in vain sees what is waited for just if nothing is left of the wait. -/
theorem endsWithin_succ {looks : Nat} {wait : Option Nat} (h : endsWithin looks wait = false) :
    endsWithin (looks + 1) wait = true ↔ waitAfter looks wait = some 0 := by
  cases wait with
  | none => simp [endsWithin, waitAfter]
  | some n =>
    simp only [endsWithin, waitAfter, Option.map_some, Option.any_some, decide_eq_true_eq,
      decide_eq_false_iff_not, Option.some.injEq] at h ⊢
    omega

/-- How a watch ends that has a total of looks and has made some, by the wait that it began with. -/
def WatchEnds {β : Type} (total passed : Nat) (wait : Option Nat) (flag : Bool) :
    Option (WatchOutcome β) → Prop
  | none => flag = true
  | some (.completed _) => endsWithin total wait = true ∧ waitAfter passed wait = some 0
  | some (.timedOut _) => endsWithin total wait = false

section Loops

variable [Suite] {σ β : Type} {s : σ} {flag : Bool} {p : Platform}

/-- A watch for something that is hidden from a number of looks ends by the number of looks that it
has, or because the flag was set. -/
theorem concludes_watch {schedule : Schedule} {look : Nat → Routine σ (Look β)}
    (awaits : Option Nat → Platform → Prop) {wait : Option Nat}
    (hlook : ∀ number wait flag p, awaits wait p → (look number s).Concludes
      (fun _ p' s' saw => s' = s ∧ awaits (waitAfter 1 wait) p' ∧
        ((∃ v, saw = .ready v) ↔ wait = some 0)) flag p) (h : awaits wait p) :
    (watch schedule look s).Concludes
      (fun flag p' s' ended => s' = s ∧ ∃ passed, awaits (waitAfter passed wait) p' ∧
        WatchEnds schedule.attempts.toNat passed wait flag ended) flag p := by
  have hfrom (left number done : Nat) (flag : Bool) (p : Platform)
      (htotal : done + left = schedule.attempts.toNat) (hvain : endsWithin done wait = false)
      (h : awaits (waitAfter done wait) p) :
      (watchFrom schedule look number left s).Concludes
        (fun flag p' s' ended => s' = s ∧ ∃ passed, awaits (waitAfter passed wait) p' ∧
          WatchEnds schedule.attempts.toNat passed wait flag ended) flag p := by
    induction left generalizing number done flag p with
    | zero =>
      rw [Nat.add_zero] at htotal
      exact ⟨rfl, done, h, htotal ▸ hvain⟩
    | succ left ih =>
      refine Routine.concludes_isCancelled fun before _ => ?_
      split
      next hset => exact ⟨rfl, done, h, hset⟩
      refine Routine.concludes_bind (hlook number _ _ _ h) ?_
      rintro flag p s' saw ⟨rfl, hawaits, hsaw⟩
      rw [waitAfter_waitAfter] at hawaits
      refine Routine.concludes_isCancelled fun after _ => ?_
      split
      next hset => exact ⟨rfl, done + 1, hawaits, hset⟩
      cases saw with
      | ready v =>
        have hover : waitAfter done wait = some 0 := hsaw.mp ⟨v, rfl⟩
        refine ⟨rfl, done + 1, hawaits, ?_, ?_⟩
        · have hend := (endsWithin_succ hvain).mpr hover
          cases wait with
          | none => cases hover
          | some n =>
            simp only [endsWithin, Option.any_some, decide_eq_true_eq] at hend ⊢
            omega
        · rw [← waitAfter_waitAfter, hover]
          rfl
      | pending =>
        have hmore : endsWithin (done + 1) wait = false := by
          apply Bool.eq_false_iff.mpr
          intro hend
          obtain ⟨v, hv⟩ := hsaw.mpr ((endsWithin_succ hvain).mp hend)
          cases hv
        dsimp only
        split
        next hlast =>
          have hall : done + 1 = schedule.attempts.toNat := by omega
          exact ⟨rfl, done + 1, hawaits, hall ▸ hmore⟩
        refine Routine.concludes_pause fun flag' cut _ hcut => ?_
        split
        next hset => exact ⟨rfl, done + 1, hawaits, hcut hset⟩
        exact ih (number + 1) (done + 1) _ _ (by omega) hmore hawaits
  have hnone : endsWithin 0 wait = false := by cases wait <;> rfl
  exact hfrom _ 1 0 flag p (by simp) hnone (by rwa [waitAfter_zero])

/-- Checks look at nothing but what the platform keeps. -/
theorem check_congr {p p' : Platform} (hidentities : p'.identities = p.identities)
    (hdocuments : p'.documents = p.documents) (t : Transition) : p'.check t = p.check t := by
  have hentry : p'.checkEntry = p.checkEntry := by
    unfold Platform.checkEntry
    rw [hdocuments]
  unfold Platform.check Platform.checkOperation
  rw [hentry, hidentities]

/-- A transition that passes the checks is accepted after fewer passing refusals than there are
attempts, unless the flag is set. -/
theorem concludes_submitUntilDecided {schedule : Schedule} {t : Transition}
    (htransient : ∀ refusal ∈ p.refusals, ∃ reason, refusal = .transient reason)
    (hfew : p.refusals.length < schedule.attempts.toNat) (hcheck : p.check t = .ok ()) :
    (submitUntilDecided schedule (Routine.ask (.submit t)) s).Concludes
      (fun flag p' s' ended => s' = s ∧
        match ended with
        | .accepted _ => ∃ submissions now,
          p' = { p with refusals := [], submissions }.apply t now
        | .cancelled => flag = true ∧ ∃ refusals submissions, refusals <:+ p.refusals ∧
          p' = { p with refusals, submissions }
        | _ => False) flag p := by
  have hfrom (left number : Nat) (flag : Bool) (refusals : List Refusal) (submissions : Nat)
      (hrefusals : refusals <:+ p.refusals) (hleft : refusals.length < left) :
      (submitFrom schedule (Routine.ask (.submit t)) number left s).Concludes
        (fun flag p' s' ended => s' = s ∧
          match ended with
          | .accepted _ => ∃ submissions now,
            p' = { p with refusals := [], submissions }.apply t now
          | .cancelled => flag = true ∧ ∃ refusals submissions, refusals <:+ p.refusals ∧
            p' = { p with refusals, submissions }
          | _ => False) flag { p with refusals, submissions } := by
    induction left generalizing number flag refusals submissions with
    | zero => omega
    | succ left ih =>
      refine Routine.concludes_isCancelled fun before _ => ?_
      split
      next hset => exact ⟨rfl, hset, refusals, submissions, hrefusals, rfl⟩
      refine Routine.concludes_submit fun flag' now _ => ?_
      cases refusals with
      | nil =>
        have haccepts : { p with refusals := [], submissions }.submit t now =
            (.ok ⟨t.id⟩, { p with refusals := [], submissions := submissions + 1 }.apply t now) := by
          have hpasses : { p with refusals := [], submissions := submissions + 1 }.check t = .ok () :=
            (check_congr rfl rfl t).trans hcheck
          simp only [Platform.submit, hpasses]
        rw [haccepts]
        exact ⟨rfl, submissions + 1, now, rfl⟩
      | cons refusal rest =>
        obtain ⟨reason, rfl⟩ := htransient refusal (hrefusals.subset List.mem_cons_self)
        have hrest : rest <:+ p.refusals := (List.suffix_cons _ rest).trans hrefusals
        have hmore : left ≠ 0 := by
          simp only [List.length_cons] at hleft
          omega
        change (Task.Concludes _ _ _ ((if left = 0 then _ else _ : Routine σ _) s))
        rw [if_neg hmore]
        refine Routine.concludes_pause fun flag'' cut _ hcut => ?_
        split
        next hset => exact ⟨rfl, hcut hset, rest, submissions + 1, hrest, rfl⟩
        refine ih (number + 1) flag'' rest (submissions + 1) hrest ?_
        simpa using hleft
  exact hfrom _ 1 flag p.refusals p.submissions (List.suffix_refl _) hfew

end Loops

end Enrolment
