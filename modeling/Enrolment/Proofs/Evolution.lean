import Enrolment.Proofs.Trace

/-!
How work changes its state along the way, and how long it goes on.

Work evolves along a relation if, from one request to the next and on to its end, its state changes only
as the relation allows. This adds to the logic of logs what that one cannot say: it compares the states
at two points of one run. The number of requests that work can make bounds all of its runs.
-/

namespace Enrolment

namespace Task

variable {σ α β : Type} {R : σ → σ → Prop} {guard : Log → σ → Request → Prop}
  {post : Log → σ → α → Prop} {log : Log} {s s₀ : σ}

/-- Work meets a specification, and changes the state that it goes on from only along a relation. -/
def Evolves (R : σ → σ → Prop) (guard : Log → σ → Request → Prop) (post : Log → σ → α → Prop) :
    σ → Log → Task σ α → Prop
  | s, log, .done s' result => R s s' ∧ post log s' result
  | s, log, .ask s' request next => R s s' ∧ guard log s' request ∧
    ∀ answer, (next answer).Evolves R guard post s' (log ++ [⟨request, answer⟩])

theorem Evolves.meets {t : Task σ α} (h : t.Evolves R guard post s log) :
    t.Meets guard post log := by
  induction t generalizing s log with
  | done s' a => exact h.2
  | ask s' q next ih => exact ⟨h.2.1, fun answer => ih answer (h.2.2 answer)⟩

/-- What has evolved by now may go on to evolve. -/
theorem Evolves.after (htrans : ∀ a b c, R a b → R b c → R a c) {t : Task σ α} (hs : R s₀ s)
    (h : t.Evolves R guard post s log) : t.Evolves R guard post s₀ log := by
  cases t with
  | done s' a => exact ⟨htrans _ _ _ hs h.1, h.2⟩
  | ask s' q next => exact ⟨htrans _ _ _ hs h.1, h.2⟩

theorem Evolves.bind (htrans : ∀ a b c, R a b → R b c → R a c) {t : Task σ α}
    {f : α → σ → Task σ β} {post' : Log → σ → β → Prop} (h : t.Evolves R guard post s log)
    (hf : ∀ log s a, post log s a → (f a s).Evolves R guard post' s log) :
    (t.bind f).Evolves R guard post' s log := by
  induction t generalizing s log with
  | done s' a => exact (hf _ _ _ h.2).after htrans h.1
  | ask s' q next ih => exact ⟨h.1, h.2.1, fun answer => ih answer (h.2.2 answer)⟩

/-- Work that leaves its state alone evolves along every relation that allows for that. -/
theorem Meets.evolves (hrefl : R s s) {t : Task σ α}
    (h : t.Meets (fun log s' q => s' = s ∧ guard log s' q) (fun log s' a => s' = s ∧ post log s' a)
      log) :
    t.Evolves R guard (fun log s' a => s' = s ∧ post log s' a) s log := by
  induction t generalizing log with
  | done s' a =>
    obtain ⟨rfl, hpost⟩ := h
    exact ⟨hrefl, rfl, hpost⟩
  | ask s' q next ih =>
    obtain ⟨⟨rfl, hguard⟩, hnext⟩ := h
    exact ⟨hrefl, hguard, fun answer => ih answer (hnext answer)⟩

/-- Every point of a run has evolved from where it started, and what comes later evolves from there. -/
theorem Evolves.reaches (hrefl : ∀ s, R s s) (htrans : ∀ a b c, R a b → R b c → R a c)
    {t t' : Task σ α} {es : Log} (h : t.Evolves R guard post s log) (hr : Reaches t es t') :
    R s t'.state ∧ t'.Evolves R guard post t'.state (log ++ es) := by
  induction hr generalizing s log with
  | here t =>
    rw [List.append_nil]
    cases t with
    | done s' a => exact ⟨h.1, hrefl s', h.2⟩
    | ask s' q next => exact ⟨h.1, hrefl s', h.2⟩
  | answered answer rest ih =>
    obtain ⟨hstate, hrest⟩ := ih (h.2.2 answer)
    exact ⟨htrans _ _ _ h.1 hstate, by simpa using hrest⟩

theorem Reaches.of_done {a : α} {t : Task σ α} {es : Log} (h : Reaches (.done s a) es t) :
    es = [] ∧ t = .done s a := by
  cases h
  exact ⟨rfl, rfl⟩

/-- A run goes on with the runs of what it reached. -/
theorem Reaches.trans {t t' t'' : Task σ α} {es es' : Log} (h : Reaches t es t')
    (h' : Reaches t' es' t'') : Reaches t (es ++ es') t'' := by
  induction h with
  | here => exact h'
  | answered answer _ ih => exact .answered answer (ih h')

/-- However it is answered, work makes at most so many requests. -/
def AsksAtMost : Task σ α → Nat → Prop
  | .done _ _, _ => True
  | .ask _ _ _, 0 => False
  | .ask _ _ next, n + 1 => ∀ answer, (next answer).AsksAtMost n

theorem AsksAtMost.mono {m n : Nat} (hle : m ≤ n) {t : Task σ α} (h : t.AsksAtMost m) :
    t.AsksAtMost n := by
  induction t generalizing m n with
  | done s a => trivial
  | ask s q next ih =>
    cases m with
    | zero => exact h.elim
    | succ m =>
      cases n with
      | zero => omega
      | succ n => exact fun answer => ih answer (Nat.le_of_succ_le_succ hle) (h answer)

theorem AsksAtMost.bind {m n : Nat} {t : Task σ α} {f : α → σ → Task σ β} (h : t.AsksAtMost m)
    (hf : ∀ a s, (f a s).AsksAtMost n) : (t.bind f).AsksAtMost (m + n) := by
  induction t generalizing m with
  | done s a => exact (hf a s).mono (Nat.le_add_left n m)
  | ask s q next ih =>
    cases m with
    | zero => exact h.elim
    | succ m =>
      rw [Nat.succ_add]
      exact fun answer => ih answer (h answer)

theorem AsksAtMost.reaches {n : Nat} {t t' : Task σ α} {es : Log} (h : t.AsksAtMost n)
    (hr : Reaches t es t') : es.length ≤ n := by
  induction hr generalizing n with
  | here => exact Nat.zero_le n
  | answered answer _ ih =>
    cases n with
    | zero => exact h.elim
    | succ n => exact Nat.succ_le_succ (ih (h answer))

end Task

namespace Routine

variable {σ α β : Type} {s : σ}

section Evolving

variable {R : σ → σ → Prop} {guard : Log → σ → Request → Prop} {post : Log → σ → β → Prop} {log : Log}

theorem evolves_get {k : σ → Routine σ β} (hk : (k s s).Evolves R guard post s log) :
    ((get >>= k) s).Evolves R guard post s log := hk

theorem evolves_modify (htrans : ∀ a b c, R a b → R b c → R a c) {f : σ → σ}
    {k : PUnit → Routine σ β} (hf : R s (f s)) (hk : (k ⟨⟩ (f s)).Evolves R guard post (f s) log) :
    ((modify f >>= k) s).Evolves R guard post s log := hk.after htrans hf

theorem evolves_ite {c : Prop} [Decidable c] {first second : Routine σ β}
    (hfirst : c → (first s).Evolves R guard post s log)
    (hsecond : ¬c → (second s).Evolves R guard post s log) :
    ((if c then first else second) s).Evolves R guard post s log := by
  split
  next h => exact hfirst h
  next h => exact hsecond h

theorem evolves_ask {q : Request} {k : q.Answer → Routine σ β} (hrefl : R s s) (hq : guard log s q)
    (hk : ∀ a, (k a s).Evolves R guard post s (log ++ [⟨q, a⟩])) :
    ((ask q >>= k) s).Evolves R guard post s log := ⟨hrefl, hq, hk⟩

theorem evolves_isCancelled {k : Bool → Routine σ β} (hrefl : R s s) (hq : guard log s .isCancelled)
    (hk : ∀ a, (k a s).Evolves R guard post s (log ++ [⟨.isCancelled, a⟩])) :
    ((isCancelled >>= k) s).Evolves R guard post s log := ⟨hrefl, hq, hk⟩

theorem evolves_bind (htrans : ∀ a b c, R a b → R b c → R a c) {r : Routine σ α}
    {k : α → Routine σ β} {mid : Log → σ → α → Prop} (hr : (r s).Evolves R guard mid s log)
    (hk : ∀ log s a, mid log s a → (k a s).Evolves R guard post s log) :
    ((r >>= k) s).Evolves R guard post s log := Task.Evolves.bind htrans hr hk

end Evolving

section Counting

variable {m n : Nat}

theorem asksAtMost_get {k : σ → Routine σ β} (hk : (k s s).AsksAtMost n) :
    ((get >>= k) s).AsksAtMost n := hk

theorem asksAtMost_ask {q : Request} {k : q.Answer → Routine σ β} (hk : ∀ a, (k a s).AsksAtMost n) :
    ((ask q >>= k) s).AsksAtMost (n + 1) := hk

theorem asksAtMost_isCancelled {k : Bool → Routine σ β} (hk : ∀ a, (k a s).AsksAtMost n) :
    ((isCancelled >>= k) s).AsksAtMost (n + 1) := hk

theorem asksAtMost_pause {millis : Nat} {k : Bool → Routine σ β} (hk : ∀ a, (k a s).AsksAtMost n) :
    ((pause millis >>= k) s).AsksAtMost (n + 1) := hk

theorem asksAtMost_bind {r : Routine σ α} {k : α → Routine σ β} (hr : (r s).AsksAtMost m)
    (hk : ∀ a s, (k a s).AsksAtMost n) : ((r >>= k) s).AsksAtMost (m + n) := Task.AsksAtMost.bind hr hk

end Counting

end Routine

section Loops

variable {σ β : Type} {s : σ}

/-- Every attempt of a watch reads the flag twice, looks, and pauses. -/
theorem asksAtMost_watch {schedule : Schedule} {look : Nat → Routine σ (Look β)} {n : Nat}
    (hlook : ∀ number s, (look number s).AsksAtMost n) :
    (watch schedule look s).AsksAtMost ((n + 3) * schedule.attempts.toNat) := by
  have hfrom (left number : Nat) (s : σ) :
      (watchFrom schedule look number left s).AsksAtMost ((n + 3) * left) := by
    induction left generalizing number s with
    | zero => exact trivial
    | succ left ih =>
      have hattempt : n + ((n + 3) * left + 1 + 1) + 1 = (n + 3) * (left + 1) := by
        rw [Nat.mul_succ]
        omega
      rw [← hattempt]
      refine Routine.asksAtMost_isCancelled fun before => ?_
      split
      · exact trivial
      refine Routine.asksAtMost_bind (hlook number s) fun saw s => ?_
      refine Routine.asksAtMost_isCancelled fun after => ?_
      split
      · exact trivial
      cases saw with
      | ready v => exact trivial
      | pending =>
        dsimp only
        split
        · exact trivial
        refine Routine.asksAtMost_pause fun cut => ?_
        split
        · exact trivial
        exact ih (number + 1) s
  exact hfrom _ 1 s

/-- Every attempt to submit reads the flag, submits, and pauses. -/
theorem asksAtMost_submitUntilDecided {schedule : Schedule} {t : Transition} :
    (submitUntilDecided schedule (Routine.ask (.submit t)) s).AsksAtMost
      (3 * schedule.attempts.toNat) := by
  have hfrom (left number : Nat) (s : σ) :
      (submitFrom schedule (Routine.ask (.submit t)) number left s).AsksAtMost (3 * left) := by
    induction left generalizing number s with
    | zero => exact trivial
    | succ left ih =>
      have hattempt : 3 * left + 1 + 1 + 1 = 3 * (left + 1) := by omega
      rw [← hattempt]
      refine Routine.asksAtMost_isCancelled fun before => ?_
      split
      · exact trivial
      refine Routine.asksAtMost_ask fun answer => ?_
      match answer with
      | .ok receipt => exact trivial
      | .error (.invalid reason) => exact trivial
      | .error (.transient reason) =>
        dsimp only
        split
        · exact trivial
        refine Routine.asksAtMost_pause fun cut => ?_
        split
        · exact trivial
        exact ih (number + 1) s
  exact hfrom _ 1 s

end Loops

end Enrolment
