import Enrolment.Credit.Ledger
import Enrolment.Proofs.Credit.Funding

/-!
What a ledger holds after any calls. Every lock is found by its transaction and by its identity, and the
counters tell how many observations succeeded and how many locks were evicted. This needs that the
observed transactions lock outpoints of different identities; nothing is assumed of other outpoints.
-/

namespace Enrolment

/-- The locks on different outpoints are for different identities. -/
abbrev CreditLock.Distinct (locks : List CreditLock) : Prop :=
  ∀ lock ∈ locks, ∀ other ∈ locks, lock.identity = other.identity → lock.outPoint = other.outPoint

namespace Ledger

/-- The calls that may change a ledger. -/
inductive Call where
  | observe (tx : Transaction)
  | evict (id : TxId)

inductive Answer where
  | observed (lock : CreditLock)
  | refused (e : Error)
  | evicted (lock : CreditLock)
  /-- There was nothing to evict. -/
  | unknown

def Answer.isObserved : Answer → Bool
  | observed _ => true
  | _ => false

def Answer.isEvicted : Answer → Bool
  | evicted _ => true
  | _ => false

/-- The ledger with a lock of a transaction that it held none of. -/
def added (l : Ledger) (lock : CreditLock) : Ledger :=
  { l with
    locks := l.locks.insert lock.transaction lock
    byIdentity := l.byIdentity.insert lock.identity lock.transaction
    created := l.created + 1 }

def removed (l : Ledger) (id : TxId) (lock : CreditLock) : Ledger :=
  { l with locks := l.locks.erase id, byIdentity := l.byIdentity.erase lock.identity }

section Lookups

variable {l : Ledger} {lock : CreditLock} {id other : TxId} {identity : IdentityId}

@[simp] theorem find?_added :
    (l.added lock).find? other = if other = lock.transaction then some lock else l.find? other :=
  Table.find?_insert ..

@[simp] theorem find?_removed :
    (l.removed id lock).find? other = if other = id then none else l.find? other :=
  Table.find?_erase ..

@[simp] theorem byIdentity_added : (l.added lock).byIdentity.find? identity =
    if identity = lock.identity then some lock.transaction else l.byIdentity.find? identity :=
  Table.find?_insert ..

@[simp] theorem byIdentity_removed : (l.removed id lock).byIdentity.find? identity =
    if identity = lock.identity then none else l.byIdentity.find? identity :=
  Table.find?_erase ..

theorem size_added (h : l.find? lock.transaction = none) : (l.added lock).size = l.size + 1 :=
  Table.size_insert l.locks lock (congrArg Option.isSome h)

theorem size_removed (h : l.find? id = some lock) : (l.removed id lock).size + 1 = l.size :=
  Table.size_erase l.locks (congrArg Option.isSome h)

end Lookups

variable [Suite]

/-- The lock that a call may add. -/
def Call.lock? : Call → Option CreditLock
  | observe tx => (CreditLock.ofTransaction tx).toOption
  | evict _ => none

def answer (l : Ledger) : Call → Answer × Ledger
  | .observe tx =>
    match l.observe tx with
    | .ok (lock, l') => (.observed lock, l')
    | .error e => (.refused e, l)
  | .evict id =>
    match l.evict id with
    | (some lock, l') => (.evicted lock, l')
    | (none, l') => (.unknown, l')

/-- The answers to some calls, one after the other, and the ledger that they lead to. -/
def serve (l : Ledger) : List Call → List Answer × Ledger
  | [] => ([], l)
  | call :: rest =>
    let (answer, l) := l.answer call
    let (answers, l) := l.serve rest
    (answer :: answers, l)

/-- All that a call can do: what it answers, and the ledger that it leaves. -/
inductive Answers (l : Ledger) : Call → Answer → Ledger → Prop
  | held {tx : Transaction} {lock : CreditLock} (hheld : l.find? tx.txid = some lock) :
      Answers l (.observe tx) (.observed lock) { l with repeated := l.repeated + 1 }
  | added {tx : Transaction} {lock : CreditLock} (hnew : l.find? tx.txid = none)
      (hlock : CreditLock.ofTransaction tx = .ok lock) :
      Answers l (.observe tx) (.observed lock) (l.added lock)
  | refused {tx : Transaction} {e : Error} (hnew : l.find? tx.txid = none)
      (herror : CreditLock.ofTransaction tx = .error e) : Answers l (.observe tx) (.refused e) l
  | evicted {id : TxId} {lock : CreditLock} (hheld : l.find? id = some lock) :
      Answers l (.evict id) (.evicted lock) (l.removed id lock)
  | unknown {id : TxId} (hnew : l.find? id = none) : Answers l (.evict id) .unknown l

variable {l l' : Ledger} {tx : Transaction} {lock : CreditLock} {id : TxId} {call : Call}
  {given : Answer}

theorem Call.lock?_observe :
    (Call.observe tx).lock? = some lock ↔ CreditLock.ofTransaction tx = .ok lock := by
  cases hlock : CreditLock.ofTransaction tx <;> simp [lock?, hlock, Except.toOption]

theorem observe_of_held (h : l.find? tx.txid = some lock) :
    l.observe tx = .ok (lock, { l with repeated := l.repeated + 1 }) := by
  unfold observe
  rw [h]

/-- A transaction that is not held is answered with the lock that it gives by itself. -/
theorem observe_of_new (h : l.find? tx.txid = none) :
    l.observe tx = (CreditLock.ofTransaction tx).map fun lock => (lock, l.added lock) := by
  unfold observe
  rw [h]
  cases hlock : CreditLock.ofTransaction tx with
  | error e => rfl
  | ok lock =>
    obtain ⟨hname, -⟩ := CreditLock.named_of_ofTransaction hlock
    simp only [Except.map, added, hname]
    rfl

omit [Suite] in
theorem evict_of_held (h : l.find? id = some lock) : l.evict id = (some lock, l.removed id lock) := by
  unfold evict
  rw [h]
  rfl

omit [Suite] in
theorem evict_of_new (h : l.find? id = none) : l.evict id = (none, l) := by
  unfold evict
  rw [h]

omit [Suite] in
theorem find?_of_evict (h : (l.evict id).1 = some lock) : l.find? id = some lock := by
  cases hfound : l.find? id with
  | none => simp [evict_of_new hfound] at h
  | some other => simpa [evict_of_held hfound] using h

omit [Suite] in
/-- Nothing is held under a name that was evicted, whether there was anything or not. -/
theorem find?_evict_self (l : Ledger) (id : TxId) : (l.evict id).2.find? id = none := by
  cases hfound : l.find? id with
  | none => rw [evict_of_new hfound, hfound]
  | some lock => rw [evict_of_held hfound, find?_removed, if_pos rfl]

theorem observe_of_built (hnew : l.find? tx.txid = none) (hlock : CreditLock.ofTransaction tx = .ok lock) :
    l.observe tx = .ok (lock, l.added lock) := by
  rw [observe_of_new hnew, hlock]
  rfl

theorem answers_answer (l : Ledger) (call : Call) :
    l.Answers call (l.answer call).1 (l.answer call).2 := by
  cases call with
  | observe tx =>
    cases hheld : l.find? tx.txid with
    | some lock =>
      simp only [answer, observe_of_held hheld]
      exact .held hheld
    | none =>
      cases hlock : CreditLock.ofTransaction tx with
      | error e =>
        simp only [answer, observe_of_new hheld, hlock, Except.map]
        exact .refused hheld hlock
      | ok lock =>
        simp only [answer, observe_of_new hheld, hlock, Except.map]
        exact .added hheld hlock
  | evict id =>
    cases hheld : l.find? id with
    | some lock =>
      simp only [answer, evict_of_held hheld]
      exact .evicted hheld
    | none =>
      simp only [answer, evict_of_new hheld]
      exact .unknown hheld

/-- How a call moves the counters and the size. -/
theorem Answers.counts (h : l.Answers call given l') :
    l'.created + l'.repeated = l.created + l.repeated + (if given.isObserved then 1 else 0) ∧
      l'.size + (if given.isEvicted then 1 else 0) + l.created = l.size + l'.created := by
  cases h with
  | held hheld => exact ⟨rfl, rfl⟩
  | @added tx lock hnew hlock =>
    obtain ⟨hname, -⟩ := CreditLock.named_of_ofTransaction hlock
    have hcreated : (l.added lock).created = l.created + 1 := rfl
    have hrepeated : (l.added lock).repeated = l.repeated := rfl
    have hsize : (l.added lock).size = l.size + 1 := size_added (hname ▸ hnew)
    simp only [Answer.isObserved, Answer.isEvicted, if_true, Bool.false_eq_true, if_false]
    omega
  | refused hnew herror => exact ⟨rfl, rfl⟩
  | @evicted id lock hheld =>
    have hcreated : (l.removed id lock).created = l.created := rfl
    have hrepeated : (l.removed id lock).repeated = l.repeated := rfl
    have hsize : (l.removed id lock).size + 1 = l.size := size_removed hheld
    simp only [Answer.isObserved, Answer.isEvicted, if_true, Bool.false_eq_true, if_false]
    omega
  | unknown hnew => exact ⟨rfl, rfl⟩

/-- Over any calls the counters move by what was observed, and the size by what was added and evicted. -/
theorem counts_serve (l : Ledger) (calls : List Call) :
    (l.serve calls).2.created + (l.serve calls).2.repeated =
        l.created + l.repeated + (l.serve calls).1.countP Answer.isObserved ∧
      (l.serve calls).2.size + (l.serve calls).1.countP Answer.isEvicted + l.created =
        l.size + (l.serve calls).2.created := by
  induction calls generalizing l with
  | nil => exact ⟨rfl, rfl⟩
  | cons call rest ih =>
    obtain ⟨hcounters, hsize⟩ := (l.answers_answer call).counts
    obtain ⟨hcounters', hsize'⟩ := ih (l.answer call).2
    simp only [serve, List.countP_cons]
    omega

/-- Both ways to find a lock agree, and what is found is one of some locks. -/
structure Agrees (l : Ledger) (locks : List CreditLock) : Prop where
  held : ∀ id lock, l.find? id = some lock → lock.transaction = id ∧ lock ∈ locks
  indexed : ∀ id lock, l.find? id = some lock → l.byIdentity.find? lock.identity = some id
  found : ∀ identity id, l.byIdentity.find? identity = some id →
    ∃ lock, l.find? id = some lock ∧ lock.identity = identity

omit [Suite] in
theorem agrees_empty (locks : List CreditLock) : empty.Agrees locks := ⟨nofun, nofun, nofun⟩

section Agreement

variable {locks : List CreditLock}

omit [Suite] in
theorem Agrees.added (h : l.Agrees locks) (hmem : lock ∈ locks) (hnew : l.find? lock.transaction = none)
    (hdistinct : ∀ other ∈ locks, other.identity = lock.identity →
      other.transaction = lock.transaction) : (l.added lock).Agrees locks where
  held id other hother := by
    rw [find?_added] at hother
    split at hother
    next hid =>
      obtain rfl := Option.some.inj hother
      exact ⟨hid.symm, hmem⟩
    next => exact h.held id other hother
  indexed id other hother := by
    rw [find?_added] at hother
    rw [byIdentity_added]
    split at hother
    next hid =>
      obtain rfl := Option.some.inj hother
      rw [if_pos rfl, hid]
    next hid =>
      obtain ⟨rfl, hold⟩ := h.held id other hother
      rw [if_neg fun hidentity => hid (hdistinct other hold hidentity)]
      exact h.indexed _ other hother
  found identity id hid := by
    rw [byIdentity_added] at hid
    split at hid
    next hidentity =>
      obtain rfl := Option.some.inj hid
      exact ⟨lock, by rw [find?_added, if_pos rfl], hidentity.symm⟩
    next =>
      obtain ⟨other, hother, rfl⟩ := h.found identity id hid
      have hne : id ≠ lock.transaction := by
        rintro rfl
        rw [hnew] at hother
        cases hother
      exact ⟨other, by rw [find?_added, if_neg hne, hother], rfl⟩

omit [Suite] in
theorem Agrees.removed (h : l.Agrees locks) (hheld : l.find? id = some lock)
    (hdistinct : ∀ other ∈ locks, other.identity = lock.identity →
      other.transaction = lock.transaction) : (l.removed id lock).Agrees locks where
  held other lock' hother := by
    rw [find?_removed] at hother
    split at hother
    next => cases hother
    next => exact h.held other lock' hother
  indexed other lock' hother := by
    rw [find?_removed] at hother
    rw [byIdentity_removed]
    split at hother
    next => cases hother
    next hne =>
      obtain ⟨rfl, hold⟩ := h.held other lock' hother
      obtain ⟨rfl, -⟩ := h.held id lock hheld
      rw [if_neg fun hidentity => hne (hdistinct lock' hold hidentity)]
      exact h.indexed _ lock' hother
  found identity other hother := by
    rw [byIdentity_removed] at hother
    split at hother
    next => cases hother
    next hidentity =>
      obtain ⟨lock', hlock', rfl⟩ := h.found identity other hother
      have hne : other ≠ id := by
        rintro rfl
        obtain rfl := Option.some.inj (hheld.symm.trans hlock')
        exact hidentity rfl
      exact ⟨lock', by rw [find?_removed, if_neg hne, hlock'], rfl⟩

theorem Answers.agrees (h : l.Answers call given l') (hagrees : l.Agrees locks)
    (hcall : ∀ lock, call.lock? = some lock → lock ∈ locks)
    (hdistinct : ∀ lock ∈ locks, ∀ other ∈ locks, lock.identity = other.identity →
      lock.transaction = other.transaction) : l'.Agrees locks := by
  cases h with
  | held hheld => exact ⟨hagrees.held, hagrees.indexed, hagrees.found⟩
  | @added tx lock hnew hlock =>
    have hmem : lock ∈ locks := hcall lock (Call.lock?_observe.mpr hlock)
    obtain ⟨hname, -⟩ := CreditLock.named_of_ofTransaction hlock
    exact hagrees.added hmem (hname ▸ hnew) fun other hother => hdistinct other hother lock hmem
  | refused hnew herror => exact hagrees
  | @evicted id lock hheld =>
    obtain ⟨-, hmem⟩ := hagrees.held id lock hheld
    exact hagrees.removed hheld fun other hother => hdistinct other hother lock hmem
  | unknown hnew => exact hagrees

theorem Agrees.serve {calls : List Call} (h : l.Agrees locks)
    (hcalls : ∀ call ∈ calls, ∀ lock, call.lock? = some lock → lock ∈ locks)
    (hdistinct : ∀ lock ∈ locks, ∀ other ∈ locks, lock.identity = other.identity →
      lock.transaction = other.transaction) : (l.serve calls).2.Agrees locks := by
  induction calls generalizing l with
  | nil => exact h
  | cons call rest ih =>
    have hfirst := (l.answers_answer call).agrees h (hcalls call List.mem_cons_self) hdistinct
    exact ih hfirst fun other hother => hcalls other (List.mem_cons_of_mem call hother)

/-- Locks of different transactions are on different outpoints, so that they are for different
identities. -/
theorem transaction_eq_of_distinct {calls : List Call}
    (hdistinct : CreditLock.Distinct (calls.filterMap Call.lock?)) :
    ∀ lock ∈ calls.filterMap Call.lock?, ∀ other ∈ calls.filterMap Call.lock?,
      lock.identity = other.identity → lock.transaction = other.transaction := by
  have hnamed (lock : CreditLock) (hmem : lock ∈ calls.filterMap Call.lock?) :
      lock.transaction = lock.outPoint.txid := by
    obtain ⟨call, -, hlock⟩ := List.mem_filterMap.mp hmem
    cases call with
    | evict id => cases hlock
    | observe tx =>
      obtain ⟨hname, houtpoint⟩ := CreditLock.named_of_ofTransaction (Call.lock?_observe.mp hlock)
      exact hname.trans houtpoint.symm
  intro lock hlock other hother hidentity
  rw [hnamed lock hlock, hnamed other hother, hdistinct lock hlock other hother hidentity]

theorem agrees_serve_empty {calls : List Call}
    (hdistinct : CreditLock.Distinct (calls.filterMap Call.lock?)) :
    (empty.serve calls).2.Agrees (calls.filterMap Call.lock?) := by
  refine (agrees_empty _).serve ?_ (transaction_eq_of_distinct hdistinct)
  exact fun call hcall lock hlock => List.mem_filterMap.mpr ⟨call, hcall, hlock⟩

omit [Suite] in
theorem Agrees.findFor?_eq_some (h : l.Agrees locks) {identity : IdentityId} :
    l.findFor? identity = some lock ↔
      lock.identity = identity ∧ l.find? lock.transaction = some lock := by
  unfold findFor?
  constructor
  · intro hfound
    obtain ⟨id, hid, hlock⟩ := Option.bind_eq_some_iff.mp hfound
    obtain ⟨lock', hlock', rfl⟩ := h.found identity id hid
    obtain rfl := Option.some.inj (hlock'.symm.trans hlock)
    obtain ⟨rfl, -⟩ := h.held id lock' hlock'
    exact ⟨rfl, hlock'⟩
  · rintro ⟨rfl, hlock⟩
    rw [h.indexed _ lock hlock]
    exact hlock

omit [Suite] in
/-- A lock that is evicted and added again is found as before, and so is every other one. -/
theorem Agrees.added_removed (h : l.Agrees locks) (hheld : l.find? id = some lock) :
    ((l.removed id lock).added lock).find? = l.find? ∧
      ((l.removed id lock).added lock).findFor? = l.findFor? := by
  obtain ⟨rfl, -⟩ := h.held id lock hheld
  have hlocks : ((l.removed lock.transaction lock).added lock).find? = l.find? := by
    funext id
    rw [find?_added, find?_removed]
    by_cases hid : id = lock.transaction
    · rw [if_pos hid, hid, hheld]
    · rw [if_neg hid, if_neg hid]
  refine ⟨hlocks, funext fun identity => ?_⟩
  unfold findFor?
  rw [hlocks, byIdentity_added, byIdentity_removed]
  by_cases hidentity : identity = lock.identity
  · rw [if_pos hidentity, hidentity, h.indexed _ lock hheld]
  · rw [if_neg hidentity, if_neg hidentity]

end Agreement

/-- After any calls the two ways to find a lock agree and the counters tell what was done. A call that
fails changes nothing, a transaction that is held is answered with the lock that is held, and a lock
that was evicted is had back from the transaction that gave it, at once or later. Once the name of a
transaction is evicted the transaction gives its own lock, also if it was answered with another one
before. -/
theorem indexes_agree (calls : List Call)
    (hdistinct : CreditLock.Distinct (calls.filterMap Call.lock?)) :
    let answers := (empty.serve calls).1
    let l := (empty.serve calls).2
    (∀ id lock, l.find? id = some lock →
      lock.transaction = id ∧ l.findFor? lock.identity = some lock) ∧
    (∀ identity lock, l.findFor? identity = some lock →
      lock.identity = identity ∧ l.find? lock.transaction = some lock) ∧
    l.size + answers.countP Answer.isEvicted = l.created ∧
    l.created + l.repeated = answers.countP Answer.isObserved ∧
    (∀ tx e, l.observe tx = .error e → l.answer (.observe tx) = (.refused e, l)) ∧
    (∀ id, l.find? id = none → l.answer (.evict id) = (.unknown, l)) ∧
    (∀ tx lock, l.find? tx.txid = some lock →
      l.observe tx = .ok (lock, { l with repeated := l.repeated + 1 })) ∧
    (∀ tx lock, CreditLock.ofTransaction tx = .ok lock → (l.evict tx.txid).1 = some lock →
      (∃ l', (l.evict tx.txid).2.observe tx = .ok (lock, l') ∧ l'.find? = l.find? ∧
        l'.findFor? = l.findFor?) ∧
      ∀ later, ((l.evict tx.txid).2.serve later).2.find? tx.txid = none →
        ∃ l', ((l.evict tx.txid).2.serve later).2.observe tx = .ok (lock, l')) ∧
    ∀ tx lock, CreditLock.ofTransaction tx = .ok lock →
      ∃ l', (l.evict tx.txid).2.observe tx = .ok (lock, l') := by
  intro answers l
  have hagrees : l.Agrees _ := agrees_serve_empty hdistinct
  obtain ⟨hcounters, hsize⟩ := counts_serve empty calls
  refine ⟨?_, fun identity lock => hagrees.findFor?_eq_some.mp, ?_, ?_, ?_, ?_,
    fun tx lock => observe_of_held, ?_, ?_⟩
  · intro id lock hlock
    obtain ⟨rfl, -⟩ := hagrees.held id lock hlock
    exact ⟨rfl, hagrees.findFor?_eq_some.mpr ⟨rfl, hlock⟩⟩
  · exact hsize.trans (Nat.zero_add _)
  · exact hcounters.trans (Nat.zero_add _)
  · intro tx e herror
    simp only [answer, herror]
  · intro id hnew
    simp only [answer, evict_of_new hnew]
  · intro tx lock hlock hevicted
    have hheld := find?_of_evict hevicted
    have hback := observe_of_built (l.find?_evict_self tx.txid) hlock
    rw [evict_of_held hheld] at hback ⊢
    exact ⟨⟨_, hback, hagrees.added_removed hheld⟩, fun later hnew => ⟨_, observe_of_built hnew hlock⟩⟩
  · intro tx lock hlock
    exact ⟨_, observe_of_built (l.find?_evict_self tx.txid) hlock⟩

end Ledger

namespace Sample

/-- A transaction of another name. -/
def burningElsewhere : Transaction := ⟨⟨.ofPadded [1]⟩, [⟨8, .creditBurn .neutral⟩]⟩

def observing : List Ledger.Call :=
  [.observe burningTwice, .observe burningElsewhere, .observe burningTwice, .evict ⟨.zero⟩,
    .observe burningTwice]

end Sample

namespace Ledger

open Sample

/-- Two transactions of different names, one of which is observed, evicted and observed again. -/
theorem indexes_agree_burningTwice :
    let l := (@serve .standard empty observing).2
    CreditLock.Distinct (observing.filterMap (@Call.lock? .standard)) ∧
      ∃ lock, l.find? ⟨.zero⟩ = some lock ∧ l.findFor? lock.identity = some lock ∧
        l.size + 1 = l.created := by
  intro l
  have hdistinct : CreditLock.Distinct (observing.filterMap (@Call.lock? .standard)) := by
    decide +kernel
  obtain ⟨hfound, -, hsize, -⟩ := @indexes_agree .standard observing hdistinct
  obtain ⟨lock, hlock⟩ : ∃ lock, l.find? ⟨.zero⟩ = some lock := ⟨_, rfl⟩
  exact ⟨hdistinct, lock, hlock, (hfound _ lock hlock).2, hsize⟩

/-- Of two transactions of one name, the second is answered with the lock of the first until that is
evicted, and with another one from then on. -/
theorem observed_again_differs :
    let calls : List Call :=
      [.observe burningTwice, .observe burningOnce, .evict ⟨.zero⟩, .observe burningOnce]
    CreditLock.Distinct (calls.filterMap (@Call.lock? .standard)) ∧
      ∃ lock other, (@serve .standard empty calls).1 =
        [.observed lock, .observed lock, .evicted lock, .observed other] ∧ other ≠ lock := by
  intro calls
  refine ⟨by decide +kernel, _, _, rfl, ?_⟩
  intro h
  exact absurd (congrArg CreditLock.amount h) (by decide)

end Ledger

end Enrolment
