import Enrolment.Proofs.Usernames.Stages

/-!
What becomes of a batch. A batch is formed from the requested names after the platform may have been
asked which names it lists, and then passes its stages. Whatever stops it, the claims of a batch end
together: all registered, all timed out, or all on their way and none behind where it was.
-/

namespace Enrolment

section Reading

variable {α β ε : Type} {f : α → Except ε β} {x : α} {xs : List α} {y : β} {ys : List β}

theorem of_mapM_cons_ok (h : (x :: xs).mapM f = .ok ys) :
    ∃ first rest, f x = .ok first ∧ xs.mapM f = .ok rest ∧ ys = first :: rest := by
  rw [List.mapM_cons] at h
  cases hx : f x with
  | error e => simp [hx, bind, Except.bind] at h
  | ok first =>
    cases hxs : xs.mapM f with
    | error e => simp [hx, hxs, bind, Except.bind] at h
    | ok rest =>
      have heq : first :: rest = ys := by
        simpa [hx, hxs, bind, Except.bind, pure, Except.pure] using h
      exact ⟨first, rest, rfl, rfl, heq.symm⟩

/-- Reading each of some things by a function that may fail reads each of them. -/
theorem exists_of_mapM_ok (h : xs.mapM f = .ok ys) (hy : y ∈ ys) : ∃ x ∈ xs, f x = .ok y := by
  induction xs generalizing ys with
  | nil =>
    simp only [List.mapM_nil, pure, Except.pure, Except.ok.injEq] at h
    simp [← h] at hy
  | cons x xs ih =>
    obtain ⟨first, rest, hx, hxs, rfl⟩ := of_mapM_cons_ok h
    rcases List.mem_cons.mp hy with rfl | hrest
    · exact ⟨x, by simp, hx⟩
    · obtain ⟨x', hx', hread⟩ := ih hxs hrest
      exact ⟨x', by simp [hx'], hread⟩

/-- What reads each of some things leaves none out. -/
theorem mem_of_mapM_ok (h : xs.mapM f = .ok ys) (hx : x ∈ xs) (hy : f x = .ok y) : y ∈ ys := by
  induction xs generalizing ys with
  | nil => simp at hx
  | cons x' xs ih =>
    obtain ⟨first, rest, hfirst, hxs, rfl⟩ := of_mapM_cons_ok h
    rcases List.mem_cons.mp hx with rfl | hmem
    · rw [hfirst] at hy
      simp [Except.ok.inj hy]
    · exact List.mem_cons_of_mem _ (ih hxs hmem)

/-- All of some things are read exactly if each of them can be read. -/
theorem exists_mapM_ok_iff : (∃ ys, xs.mapM f = .ok ys) ↔ ∀ x ∈ xs, ∃ y, f x = .ok y := by
  induction xs with
  | nil => exact iff_of_true ⟨[], rfl⟩ nofun
  | cons x xs ih =>
    rw [List.forall_mem_cons, ← ih]
    constructor
    · rintro ⟨ys, h⟩
      obtain ⟨first, rest, hfirst, hrest, -⟩ := of_mapM_cons_ok h
      exact ⟨⟨first, hfirst⟩, rest, hrest⟩
    · rintro ⟨⟨first, hfirst⟩, rest, hrest⟩
      refine ⟨first :: rest, ?_⟩
      rw [List.mapM_cons, hfirst, hrest]
      rfl

/-- What keeps some things from being read is wrong with one of them. -/
theorem exists_of_mapM_error {e : ε} (h : xs.mapM f = .error e) : ∃ x ∈ xs, f x = .error e := by
  induction xs with
  | nil => cases h
  | cons x xs ih =>
    rw [List.mapM_cons] at h
    cases hx : f x with
    | error e' =>
      rw [hx] at h
      obtain rfl : e' = e := Except.error.inj h
      exact ⟨x, by simp, hx⟩
    | ok y =>
      cases hxs : xs.mapM f with
      | error e' =>
        rw [hx, hxs] at h
        obtain rfl : e' = e := Except.error.inj h
        obtain ⟨x', hx', hread⟩ := ih hxs
        exact ⟨x', by simp [hx'], hread⟩
      | ok ys =>
        rw [hx, hxs] at h
        cases h

end Reading

/-- The full names that are requested, however they are written. -/
def Settings.Names (s : Settings) (requests : List String) (name : String) : Prop :=
  ∃ request ∈ requests, ∃ l, s.naming.resolve request = .ok l ∧ l.fullName = name

namespace UsernameRegistration

section Requests

theorem distinct_sublist (labels : List Label) : (distinct labels).Sublist labels := by
  induction labels with
  | nil => exact .slnil
  | cons label rest ih => exact .cons_cons label (List.filter_sublist.trans ih)

theorem nodup_distinct (labels : List Label) : ((distinct labels).map Label.fullName).Nodup := by
  induction labels with
  | nil => simp [distinct]
  | cons label rest ih =>
    simp only [distinct, List.map_cons, List.nodup_cons]
    refine ⟨?_, ih.sublist (List.filter_sublist.map _)⟩
    simp

theorem readRequests_of_readBatch {r : UsernameRegistration} {preorder domain : Schedule}
    {requests : List String} {labels : List Label}
    (h : r.readBatch preorder domain requests = .ok labels) :
    r.readRequests requests = .ok labels := by
  unfold readBatch at h
  cases hp : preorder.validate with
  | error e => simp [hp, bind, Except.bind] at h
  | ok u =>
    cases hd : domain.validate with
    | error e => simp [hp, hd, bind, Except.bind] at h
    | ok u => simpa [hp, hd, bind, Except.bind] using h

/-- Every full name is kept once. -/
theorem map_fullName_distinct_subset (labels : List Label) :
    labels.map Label.fullName ⊆ (distinct labels).map Label.fullName := by
  induction labels with
  | nil => simp [distinct]
  | cons label rest ih =>
    intro name hname
    by_cases heq : name = label.fullName
    · simp [distinct, heq]
    · have hrest : name ∈ rest.map Label.fullName := by simpa [heq] using hname
      obtain ⟨l, hl, hfull⟩ := List.mem_map.mp (ih hrest)
      have hother : l.fullName ≠ label.fullName := by rwa [hfull]
      refine List.mem_map.mpr ⟨l, ?_, hfull⟩
      simp [distinct, hl, hother]

theorem eq_distinct_of_readBatch {r : UsernameRegistration} {preorder domain : Schedule}
    {requests : List String} {labels : List Label}
    (h : r.readBatch preorder domain requests = .ok labels) :
    ∃ all, requests.mapM r.settings.naming.resolve = .ok all ∧ labels = distinct all := by
  have hread := readRequests_of_readBatch h
  unfold readRequests at hread
  split at hread
  next all hall => exact ⟨all, hall, (Except.ok.inj hread).symm⟩
  next => cases hread

/-- A batch that was read consists of readable labels with distinct full names. -/
theorem readBatch_eq_ok {r : UsernameRegistration} {preorder domain : Schedule}
    {requests : List String} {labels : List Label}
    (h : r.readBatch preorder domain requests = .ok labels) :
    (∀ l ∈ labels, l.IsReadable) ∧ (labels.map Label.fullName).Nodup := by
  obtain ⟨all, hall, rfl⟩ := eq_distinct_of_readBatch h
  refine ⟨?_, nodup_distinct all⟩
  intro l hl
  obtain ⟨request, -, hparse⟩ := exists_of_mapM_ok hall ((distinct_sublist all).subset hl)
  exact ⟨request, _, hparse⟩

/-- A batch that was read has the names that were requested. -/
theorem mem_readBatch_iff {r : UsernameRegistration} {preorder domain : Schedule}
    {requests : List String} {labels : List Label}
    (h : r.readBatch preorder domain requests = .ok labels) {name : String} :
    name ∈ labels.map Label.fullName ↔ r.settings.Names requests name := by
  obtain ⟨all, hall, rfl⟩ := eq_distinct_of_readBatch h
  constructor
  · intro hname
    obtain ⟨l, hl, hfull⟩ := List.mem_map.mp hname
    obtain ⟨request, hrequest, hresolve⟩ :=
      exists_of_mapM_ok hall ((distinct_sublist all).subset hl)
    exact ⟨request, hrequest, l, hresolve, hfull⟩
  · rintro ⟨request, hrequest, l, hresolve, rfl⟩
    exact map_fullName_distinct_subset all
      (List.mem_map_of_mem (mem_of_mapM_ok hall hrequest hresolve))

end Requests

variable {r r' : UsernameRegistration} {log later : Log} {batch names : List String}

section Recovery

variable [Suite]

/-- How asking the platform for the listed names ends. -/
inductive Recovery (log : Log) (r : UsernameRegistration) :
    Log → UsernameRegistration → Except RegistrationError (List String) → Prop where
  | unanswered (e : RegistrationError) :
      Recovery log r (log ++ [⟨.findDocuments .domain (.ownedBy r.owner), .error e⟩]) r (.error e)
  | answered (documents : List Document) (now : Timestamp) :
      Recovery log r
        (log ++ [⟨.findDocuments .domain (.ownedBy r.owner), .ok documents⟩, ⟨.time, now⟩])
        (r.adoptAll documents now).2 (.ok (r.adoptAll documents now).1)

theorem meets_recover {guard : Log → UsernameRegistration → Request → Prop}
    (hfind : ∀ log r kind filter, guard log r (.findDocuments kind filter))
    (htime : ∀ log r, guard log r .time) : (recover r).Meets guard (Recovery log r) log := by
  refine Routine.meets_get (Routine.meets_ask (hfind _ _ _ _) fun answer => ?_)
  match answer with
  | .error e => exact .unanswered e
  | .ok documents =>
    refine Routine.meets_ask (htime _ _) fun now => ?_
    rw [List.append_assoc]
    exact Recovery.answered documents now

/-- What taking up each of some documents keeps holds once all of them are taken up. -/
theorem adoptAll_keeps {Q : UsernameRegistration → Prop} {documents : List Document}
    {now : Timestamp} (h : Q r) (hadopt : ∀ s, ∀ d ∈ documents, Q s → Q (s.adopt d now).2) :
    Q (r.adoptAll documents now).2 := by
  unfold adoptAll
  apply List.foldlRecOn (motive := fun (taken : List String × UsernameRegistration) => Q taken.2)
    _ _ h
  intro taken htaken d hd
  exact hadopt taken.2 d hd htaken

theorem setup_adoptAll (documents : List Document) (now : Timestamp) :
    (r.adoptAll documents now).2.setup = r.setup := by
  apply adoptAll_keeps (Q := fun s => s.setup = r.setup) rfl
  exact fun s d _ hsame => setup_adopt.trans hsame

/-- Taking up documents leaves a claim where it is, or makes a registered one. -/
theorem stateOf?_adoptAll_cases (documents : List Document) (now : Timestamp) (name : String) :
    (r.adoptAll documents now).2.stateOf? name = r.stateOf? name ∨
      (r.adoptAll documents now).2.stateOf? name = some .registered := by
  apply adoptAll_keeps (Q := fun s =>
    s.stateOf? name = r.stateOf? name ∨ s.stateOf? name = some .registered) (.inl rfl)
  intro s d _ hs
  rcases s.stateOf?_adopt_cases d now name with hsame | hregistered
  · rwa [hsame]
  · exact .inr hregistered

theorem Course.adoptAll {start : UsernameRegistration} {documents : List Document}
    (now : Timestamp) (h : Course start log r)
    (hlisted : ⟨.findDocuments .domain (.ownedBy r.owner), .ok documents⟩ ∈ log) :
    Course start log (r.adoptAll documents now).2 := by
  have hboth : Course start log (r.adoptAll documents now).2 ∧
      (r.adoptAll documents now).2.owner = r.owner := by
    apply adoptAll_keeps (Q := fun s => Course start log s ∧ s.owner = r.owner) ⟨h, rfl⟩
    rintro s d hd ⟨hs, howner⟩
    exact ⟨hs.adopted now (howner ▸ hlisted) hd, (owner_eq_of_setup setup_adopt).trans howner⟩
  exact hboth.1

theorem Recovery.course {start : UsernameRegistration}
    {result : Except RegistrationError (List String)} (hend : Recovery log r later r' result)
    (h : Course start log r) : Course start later r' := by
  cases hend with
  | unanswered e => exact h.idle ⟨by simp [Exchange.accepted?], rfl⟩
  | answered documents now =>
    refine Course.adoptAll now (h.lulls ⟨_, rfl, ?_⟩) (by simp)
    simp [Exchange.IsQuiet, Exchange.accepted?, Exchange.drawn?]

theorem Recovery.spares {result : Except RegistrationError (List String)}
    (hend : Recovery log r later r' result) : Log.Spares log later := by
  cases hend with
  | unanswered e => exact ⟨_, rfl, by simp [Exchange.submitted?]⟩
  | answered documents now => exact ⟨_, rfl, by simp [Exchange.submitted?]⟩

end Recovery

def openLabels (r : UsernameRegistration) (labels : List Label) : List Label :=
  labels.filter fun l => r.stateOf? l.fullName ≠ some .registered

/-- The state that a name has in a batch that was just formed, from the one that it had before: names
without a claim and those that timed out start over. -/
def enlistedState : Option ClaimState → ClaimState
  | none | some .timedOut => .unregistered
  | some state => state

section Enlisting

/-- What forming a batch does. -/
structure Enlisted (labels : List Label) (log : Log) (r : UsernameRegistration) (later : Log)
    (r' : UsernameRegistration) (batch : List String) : Prop where
  spares : Log.Spares log later
  batch_eq : batch = (r.openLabels labels).map Label.fullName
  setup_eq : r'.setup = r.setup
  primaries_eq : r'.primaries = r.primaries
  stateOf?_eq : ∀ name, r'.stateOf? name =
    if name ∈ batch then some (enlistedState (r.stateOf? name)) else r.stateOf? name

variable {label : Label} {rest : List Label}

/-- The names of a batch are the requested ones that are not registered. -/
theorem mem_map_openLabels {labels : List Label} {name : String} :
    name ∈ (r.openLabels labels).map Label.fullName ↔
      name ∈ labels.map Label.fullName ∧ r.stateOf? name ≠ some .registered := by
  constructor
  · intro hmem
    obtain ⟨l, hl, rfl⟩ := List.mem_map.mp hmem
    obtain ⟨hrequested, hopen⟩ := List.mem_filter.mp hl
    exact ⟨List.mem_map_of_mem hrequested, of_decide_eq_true hopen⟩
  · rintro ⟨hmem, hopen⟩
    obtain ⟨l, hl, rfl⟩ := List.mem_map.mp hmem
    exact List.mem_map_of_mem (List.mem_filter.mpr ⟨hl, decide_eq_true hopen⟩)

theorem Enlisted.nodup {labels : List Label} (h : Enlisted labels log r later r' batch)
    (hnodup : (labels.map Label.fullName).Nodup) : batch.Nodup := by
  rw [h.batch_eq]
  exact hnodup.sublist (List.filter_sublist.map _)

theorem openLabels_cons_open (hstate : r.stateOf? label.fullName ≠ some .registered) :
    r.openLabels (label :: rest) = label :: r.openLabels rest := by
  simp [openLabels, hstate]

theorem Enlisted.not_mem (h : Enlisted rest log r later r' batch)
    (hfresh : label.fullName ∉ rest.map Label.fullName) : label.fullName ∉ batch := by
  intro hmem
  rw [h.batch_eq] at hmem
  exact hfresh (mem_map_openLabels.mp hmem).1

theorem Enlisted.skip (h : Enlisted rest log r later r' batch)
    (hstate : r.stateOf? label.fullName = some .registered) :
    Enlisted (label :: rest) log r later r' batch := by
  refine ⟨h.spares, ?_, h.setup_eq, h.primaries_eq, h.stateOf?_eq⟩
  rw [h.batch_eq]
  simp [openLabels, hstate]

theorem Enlisted.keep {state : ClaimState} (h : Enlisted rest log r later r' batch)
    (hfresh : label.fullName ∉ rest.map Label.fullName)
    (hstate : r.stateOf? label.fullName = some state) (hopen : state.isFinal = false) :
    Enlisted (label :: rest) log r later r' (label.fullName :: batch) := by
  have hne : r.stateOf? label.fullName ≠ some .registered := by
    rw [hstate]
    rintro ⟨rfl⟩
    cases hopen
  refine ⟨h.spares, ?_, h.setup_eq, h.primaries_eq, ?_⟩
  · rw [openLabels_cons_open hne, h.batch_eq, List.map_cons]
  · intro name
    rw [h.stateOf?_eq]
    by_cases hname : name = label.fullName
    · subst hname
      have henlisted : enlistedState (some state) = state := by
        cases state <;> first | rfl | cases hopen
      simp [h.not_mem hfresh, hstate, henlisted]
    · simp [hname]

variable [Suite]

/-- A name without a claim, or with one that timed out, starts over under a fresh salt. -/
theorem Enlisted.renew {salt : Salt} {now : Timestamp}
    (h : Enlisted rest (log ++ [⟨.drawSalt label, salt⟩, ⟨.time, now⟩])
      (r.put (.fresh label r.owner salt now)) later r' batch)
    (hfresh : label.fullName ∉ rest.map Label.fullName)
    (hstate : r.stateOf? label.fullName = none ∨ r.stateOf? label.fullName = some .timedOut) :
    Enlisted (label :: rest) log r later r' (label.fullName :: batch) := by
  have hput (name : String) : (r.put (.fresh label r.owner salt now)).stateOf? name =
      if name = label.fullName then some .unregistered else r.stateOf? name := stateOf?_put _
  have hopen : (r.put (.fresh label r.owner salt now)).openLabels rest = r.openLabels rest := by
    apply List.filter_congr
    intro l hl
    have hne : l.fullName ≠ label.fullName := by
      intro heq
      exact hfresh (heq ▸ List.mem_map_of_mem hl)
    rw [hput, if_neg hne]
  have hne : r.stateOf? label.fullName ≠ some .registered := by
    rcases hstate with hstate | hstate <;> simp [hstate]
  refine ⟨Log.Goes.trans ⟨_, rfl, by simp [Exchange.submitted?]⟩ h.spares, ?_, h.setup_eq,
    h.primaries_eq, ?_⟩
  · rw [openLabels_cons_open hne, h.batch_eq, hopen, List.map_cons]
  · intro name
    rw [h.stateOf?_eq, hput]
    by_cases hname : name = label.fullName
    · subst hname
      have henlisted : enlistedState (r.stateOf? label.fullName) = .unregistered := by
        rcases hstate with hstate | hstate <;> rw [hstate] <;> rfl
      simp [h.not_mem hfresh, henlisted]
    · simp [hname]

/-- Names that are all in one state and did not time out are enlisted as they are, or left out if they
are registered. -/
theorem enlist_eq {state : ClaimState} {labels : List Label} (hopen : state ≠ .timedOut)
    (hstate : ∀ l ∈ labels, r.stateOf? l.fullName = some state) :
    enlist labels r =
      .done r (if state = .registered then [] else labels.map Label.fullName) := by
  induction labels with
  | nil => simp [enlist, pure]
  | cons label rest ih =>
    have hrest := ih fun l hl => hstate l (List.mem_cons_of_mem _ hl)
    unfold enlist
    rw [Routine.get_bind, hstate label List.mem_cons_self]
    cases state with
    | registered => exact hrest
    | timedOut => exact absurd rfl hopen
    | _ =>
      change (enlist rest r).bind _ = _
      rw [hrest]
      rfl

theorem meets_enlist {guard : Log → UsernameRegistration → Request → Prop}
    {start : UsernameRegistration} (hsalt : ∀ log r label, guard log r (.drawSalt label))
    (htime : ∀ log r, guard log r .time) (labels : List Label) (h : Course start log r)
    (hlabels : ∀ l ∈ labels, l.IsReadable) (hnodup : (labels.map Label.fullName).Nodup) :
    (enlist labels r).Meets guard
      (fun later r' batch => Course start later r' ∧ Enlisted labels log r later r' batch) log := by
  induction labels generalizing log r with
  | nil => exact ⟨h, .refl log, rfl, rfl, rfl, by simp⟩
  | cons label rest ih =>
    obtain ⟨hlabel, hrest⟩ := List.forall_mem_cons.mp hlabels
    obtain ⟨hfresh, hnodup⟩ := List.nodup_cons.mp hnodup
    have hkeep {state : ClaimState} (hstate : r.stateOf? label.fullName = some state)
        (hopen : state.isFinal = false) :
        ((do return label.fullName :: (← enlist rest)) r).Meets guard (fun later r' batch =>
          Course start later r' ∧ Enlisted (label :: rest) log r later r' batch) log := by
      refine Routine.meets_bind (ih h hrest hnodup) ?_
      rintro later r' batch ⟨hcourse, henlisted⟩
      exact ⟨hcourse, henlisted.keep hfresh hstate hopen⟩
    have hrenew (hstate : r.stateOf? label.fullName = none ∨
        r.stateOf? label.fullName = some .timedOut) :
        ((do
          let salt ← Routine.ask (.drawSalt label)
          let now ← Routine.ask .time
          modify fun r : UsernameRegistration => r.put (.fresh label r.owner salt now)
          return label.fullName :: (← enlist rest)) r).Meets guard (fun later r' batch =>
            Course start later r' ∧ Enlisted (label :: rest) log r later r' batch) log := by
      refine Routine.meets_ask (hsalt _ _ _) fun salt => Routine.meets_ask (htime _ _) fun now => ?_
      rw [List.append_assoc]
      refine Routine.meets_modify (Routine.meets_bind
        (ih (h.enlisted salt now hlabel hstate) hrest hnodup) ?_)
      rintro later r' batch ⟨hcourse, henlisted⟩
      exact ⟨hcourse, henlisted.renew hfresh hstate⟩
    refine Routine.meets_get ?_
    generalize hstate : r.stateOf? label.fullName = state
    cases state with
    | none => exact hrenew (.inl hstate)
    | some state =>
      cases state with
      | registered =>
        refine (ih h hrest hnodup).mono ?_
        rintro later r' batch ⟨hcourse, henlisted⟩
        exact ⟨hcourse, henlisted.skip hstate⟩
      | timedOut => exact hrenew (.inr hstate)
      | _ => exact hkeep hstate rfl

end Enlisting

section Ends

/-- Every claim of a batch is on its way, no place behind where it was when the batch was formed and
at least at a given one. -/
def Standing (formed r : UsernameRegistration) (batch : List String) (least : Nat) : Prop :=
  ∀ name ∈ batch, ∃ s s', formed.stateOf? name = some s ∧ r.stateOf? name = some s' ∧
    s'.isFinal = false ∧ s.rank ≤ s'.rank ∧ least ≤ s'.rank

variable {formed : UsernameRegistration} {stage : Stage} {step : Step}

theorem Standing.weaken {least least' : Nat} (h : Standing formed r batch least)
    (hle : least' ≤ least) : Standing formed r batch least' := by
  intro name hname
  obtain ⟨s, s', hs, hs', hopen, hrank, hleast⟩ := h name hname
  exact ⟨s, s', hs, hs', hopen, hrank, Nat.le_trans hle hleast⟩

/-- What was found in the state of a stage moves past it, and what was not is past it already. -/
theorem Standing.shift (h : Standing formed r batch stage.source.rank) (hbatch : batch.Nodup)
    (now : Timestamp) (hopen : stage.target.isFinal = false) :
    Standing formed (stage.shift batch now r) batch stage.target.rank := by
  have hnext := ClaimState.rank_of_next? stage.next
  intro name hname
  obtain ⟨s, s', hs, hs', hopen', hrank, hleast⟩ := h name hname
  rw [stage.stateOf?_shift hbatch]
  split
  next hmem =>
    obtain rfl : stage.source = s' := by
      have heq := (mem_inState.mp hmem).2
      rw [hs'] at heq
      exact (Option.some.inj heq).symm
    exact ⟨s, stage.target, hs, rfl, hopen, by omega, Nat.le_refl _⟩
  next hmem =>
    have hne : s' ≠ stage.source := by
      rintro rfl
      exact hmem (mem_inState.mpr ⟨hname, hs'⟩)
    have hranks := mt ClaimState.rank_inj hne
    exact ⟨s, s', hs, hs', hopen', hrank, by omega⟩

theorem Standing.passed (h : Standing formed r batch stage.source.rank)
    (hnone : r.inState batch stage.source = []) : Standing formed r batch stage.target.rank := by
  have hnext := ClaimState.rank_of_next? stage.next
  intro name hname
  obtain ⟨s, s', hs, hs', hopen, hrank, hleast⟩ := h name hname
  have hne : s' ≠ stage.source := by
    rintro rfl
    have hmem : name ∈ r.inState batch stage.source := mem_inState.mpr ⟨hname, hs'⟩
    simp [hnone] at hmem
  have hranks := mt ClaimState.rank_inj hne
  exact ⟨s, s', hs, hs', hopen, hrank, by omega⟩

/-- A stage that lets a batch proceed leaves none of its claims behind. -/
theorem Standing.proceed (h : Standing formed r batch stage.source.rank) (hbatch : batch.Nodup)
    (hend : stage.Ends batch log r later r' .proceed) (hopen : stage.target.isFinal = false) :
    Standing formed r' batch stage.target.rank := by
  cases hend with
  | passed hnone => exact h.passed hnone
  | moved now => exact h.shift hbatch now hopen

theorem Standing.registered (h : Standing formed r batch ClaimState.domainSubmitted.rank)
    (hbatch : batch.Nodup) (hend : Stage.registering.Ends batch log r later r' .proceed) :
    ∀ name ∈ batch, r'.stateOf? name = some .registered := by
  intro name hname
  obtain ⟨-, s', -, hs', hopen, -, hleast⟩ := h name hname
  obtain rfl : s' = .domainSubmitted := ClaimState.eq_domainSubmitted hopen hleast
  have hmem : name ∈ r.inState batch Stage.registering.source := mem_inState.mpr ⟨hname, hs'⟩
  cases hend with
  | passed hnone =>
    rw [hnone] at hmem
    simp at hmem
  | moved now =>
    rw [Stage.stateOf?_shift _ hbatch, if_pos hmem]
    rfl

/-- What is left of a batch once it proceeded through all stages or was stopped. -/
inductive BatchEnds (formed : UsernameRegistration) (batch : List String)
    (reported : List String) : Log → UsernameRegistration → Step → Prop where
  | completed {later : Log} {r : UsernameRegistration}
      (h : ∀ name ∈ batch, r.stateOf? name = some .registered) :
      BatchEnds formed batch reported later r .proceed
  | timedOut {later : Log} {r : UsernameRegistration}
      (h : ∀ name ∈ batch, r.stateOf? name = some .timedOut) :
      BatchEnds formed batch reported later r (.stop (.timedOut reported))
  | failed {before : Log} {r : UsernameRegistration} (t : Transition) (reason : String)
      (h : Standing formed r batch 0) :
      BatchEnds formed batch reported (before ++ [⟨.submit t, .error (.invalid reason)⟩]) r
        (.stop (.failed (.rejected reason)))
  | paused {later : Log} {r : UsernameRegistration} (h : Standing formed r batch 0) :
      BatchEnds formed batch reported later r .paused

/-- A stage that stops a batch leaves all of its claims alike. -/
theorem Stage.Ends.batchEnds (hend : stage.Ends batch log r later r' step)
    (hstep : step ≠ .proceed) (h : Standing formed r batch stage.source.rank)
    (hbatch : batch.Nodup) :
    BatchEnds formed batch (r.overdue batch) later r' step := by
  cases hend with
  | passed => exact absurd rfl hstep
  | moved => exact absurd rfl hstep
  | held now _ hopen => exact .paused ((h.shift hbatch now hopen).weaken (Nat.zero_le _))
  | paused => exact .paused (h.weaken (Nat.zero_le _))
  | refused t reason => exact .failed t reason (h.weaken (Nat.zero_le _))
  | expired now =>
    apply BatchEnds.timedOut
    intro name hname
    obtain ⟨-, s', -, hs', hopen, -⟩ := h name hname
    simp [stateOf?_expire hbatch, hname, hs', hopen]

/-- A timeout reports every name of a batch, in its order, if none of them is final. -/
theorem overdue_eq [Suite] {labels : List Label} (hkept : r.IsKept)
    (hlabels : ∀ l ∈ labels, l.IsReadable)
    (hopen : Standing formed r (labels.map Label.fullName) 0) :
    r.overdue (labels.map Label.fullName) = labels.map r.reportName := by
  induction labels with
  | nil => rfl
  | cons label rest ih =>
    obtain ⟨hlabel, hrest⟩ := List.forall_mem_cons.mp hlabels
    obtain ⟨-, s', -, hs', hs'open, -⟩ := hopen label.fullName (by simp)
    obtain ⟨c, hc, rfl⟩ := stateOf?_eq_some.mp hs'
    have hreport : r.reportName c.label = r.reportName label := by
      have hof := hkept _ _ hc
      obtain ⟨hnormalized, hparent⟩ := Label.fullName_inj hof.readable hlabel hof.named
      simp [reportName, Label.fullName, hnormalized, hparent]
    have hne : c.state ≠ .registered := by
      intro heq
      simp [heq, ClaimState.isFinal] at hs'open
    have htail := ih hrest fun name hname => hopen name (by simp_all)
    simp only [overdue, unfinished, claimsOn] at htail ⊢
    simpa [hc, hne, hreport] using htail

theorem reportName_eq_of_setup (h : r'.setup = r.setup) : r'.reportName = r.reportName := by
  have hsettings : r'.settings = r.settings := congrArg (fun s => s.2.2) h
  funext label
  simp only [reportName, hsettings]

section

variable [Suite]

theorem IsKept.shift (h : r.IsKept) (hbatch : batch.Nodup) (now : Timestamp) :
    (stage.shift batch now r).IsKept := by
  have hadvance := h.advance (nodup_inState (r := r) hbatch stage.source) stage.target now
  unfold Stage.shift
  exact hadvance.of_find? (stage.find?_finish _ _) (stage.setup_finish _ _)

/-- A stage that lets a batch proceed keeps the claims in order and the settings as they are. -/
theorem Stage.Ends.kept (hend : stage.Ends batch log r later r' .proceed) (hbatch : batch.Nodup)
    (h : r.IsKept) : r'.IsKept ∧ r'.setup = r.setup := by
  cases hend with
  | passed => exact ⟨h, rfl⟩
  | moved now => exact ⟨h.shift hbatch now, stage.setup_shift batch now r⟩

/-- A batch that went through its stages ended as one. -/
theorem Carried.batchEnds {labels : List Label} (hkept : r.IsKept)
    (hlabels : ∀ l ∈ labels, l.IsReadable) (hbatch : (labels.map Label.fullName).Nodup)
    (h : Standing r r (labels.map Label.fullName) 0)
    (hcarried : Carried (labels.map Label.fullName) stages log r later r' step) :
    BatchEnds r (labels.map Label.fullName) (labels.map r.reportName) later r' step := by
  have hstop {stage : Stage} {log later : Log} {r₁ r' : UsernameRegistration} {step : Step}
      (hend : stage.Ends (labels.map Label.fullName) log r₁ later r' step)
      (hstep : step ≠ .proceed) (hkept₁ : r₁.IsKept) (hsetup : r₁.setup = r.setup)
      (h₁ : Standing r r₁ (labels.map Label.fullName) stage.source.rank) :
      BatchEnds r (labels.map Label.fullName) (labels.map r.reportName) later r' step := by
    have hends := hend.batchEnds hstep h₁ hbatch
    rwa [overdue_eq hkept₁ hlabels (h₁.weaken (Nat.zero_le _)),
      reportName_eq_of_setup hsetup] at hends
  cases hcarried with
  | stopped hend hstep => exact hstop hend hstep hkept rfl h
  | passed hend₁ hrest =>
  have h₁ := h.proceed hbatch hend₁ rfl
  obtain ⟨hkept₁, hsetup₁⟩ := hend₁.kept hbatch hkept
  cases hrest with
  | stopped hend hstep => exact hstop hend hstep hkept₁ hsetup₁ h₁
  | passed hend₂ hrest =>
  have h₂ := h₁.proceed hbatch hend₂ rfl
  obtain ⟨hkept₂, hsetup₂⟩ := hend₂.kept hbatch hkept₁
  have hsetup₂ := hsetup₂.trans hsetup₁
  cases hrest with
  | stopped hend hstep => exact hstop hend hstep hkept₂ hsetup₂ h₂
  | passed hend₃ hrest =>
  have h₃ := h₂.proceed hbatch hend₃ rfl
  obtain ⟨hkept₃, hsetup₃⟩ := hend₃.kept hbatch hkept₂
  have hsetup₃ := hsetup₃.trans hsetup₂
  cases hrest with
  | stopped hend hstep => exact hstop hend hstep hkept₃ hsetup₃ h₃
  | passed hend₄ hrest =>
  cases hrest
  exact .completed (h₃.registered hbatch hend₄)

end

end Ends

theorem Carried.stateOf?_eq {stages : List Stage} {step : Step}
    (hcarried : Carried batch stages log r later r' step) (hbatch : batch.Nodup) {name : String}
    (hname : name ∉ batch) : r'.stateOf? name = r.stateOf? name := by
  have hend {stage : Stage} {log later : Log} {r r' : UsernameRegistration} {step : Step}
      (hend : stage.Ends batch log r later r' step) : r'.stateOf? name = r.stateOf? name := by
    have hout : name ∉ r.inState batch stage.source := fun hmem => hname (mem_inState.mp hmem).1
    cases hend with
    | passed => rfl
    | moved now => rw [stage.stateOf?_shift hbatch, if_neg hout]
    | held now => rw [stage.stateOf?_shift hbatch, if_neg hout]
    | paused => rfl
    | refused => rfl
    | expired now => rw [stateOf?_expire hbatch, if_neg hname]
  induction hcarried with
  | finished => rfl
  | stopped hstopped => exact hend hstopped
  | passed hpassed _ ih => exact ih.trans (hend hpassed)

section Registering

/-- The outcome that a step makes of a call, given what a completed call reports. -/
def Step.outcome (reported : List String) : Step → Option UsernameOutcome
  | proceed => some (.completed reported)
  | stop outcome => some outcome
  | paused => none

theorem carried_nil (log : Log) (r : UsernameRegistration) :
    Carried [] stages log r log r .proceed :=
  .passed (.passed rfl) (.passed (.passed rfl) (.passed (.passed rfl) (.passed (.passed rfl)
    .finished)))

variable [Suite]

/-- The platform is asked for the listed names if some requested name timed out before. -/
def Looked (labels : List Label) (log : Log) (r : UsernameRegistration) (found : Log)
    (looked : UsernameRegistration) : Prop :=
  if labels.any fun l => r.stateOf? l.fullName = some .timedOut then
    ∃ result, Recovery log r found looked result
  else found = log ∧ looked = r

theorem Looked.spares {labels : List Label} {found : Log} {looked : UsernameRegistration}
    (h : Looked labels log r found looked) : Log.Spares log found := by
  unfold Looked at h
  split at h
  · obtain ⟨result, hend⟩ := h
    exact hend.spares
  · obtain ⟨rfl, -⟩ := h
    exact .refl _

/-- What registering names that were read comes to. -/
inductive Registers (start : UsernameRegistration) (labels : List Label) (log : Log)
    (r : UsernameRegistration) :
    Log → UsernameRegistration → Option UsernameOutcome → Prop where
  | intro {found formedLog later : Log} {looked formed r' : UsernameRegistration}
      {batch : List String} {step : Step} (hlooked : Looked labels log r found looked)
      (hfound : Course start found looked) (hformed : Course start formedLog formed)
      (henlisted : Enlisted labels found looked formedLog formed batch)
      (hextends : formedLog <+: later)
      (hempty : batch = [] → later = formedLog ∧ r' = formed ∧ step = .proceed)
      (hcarried : Carried batch stages formedLog formed later r' step) :
      Registers start labels log r later r' (step.outcome (labels.map r.reportName))

/-- What is left of a call once the platform was asked again for names that timed out. -/
def registerLooked (preorder domain : Schedule) (labels : List Label) (reported : List String) :
    Work (Option UsernameOutcome) := do
  let batch ← enlist labels
  if batch.isEmpty then return some (.completed reported)
  match ← carryOut preorder domain batch with
  | .proceed => return some (.completed reported)
  | .stop outcome => return some outcome
  | .paused => return none

theorem registerLabels_eq (preorder domain : Schedule) (labels : List Label) :
    registerLabels preorder domain labels = (do
      let r ← get
      if labels.any fun label => r.stateOf? label.fullName = some .timedOut then
        let _ ← recover
      registerLooked preorder domain labels (labels.map r.reportName)) := rfl

variable {start : UsernameRegistration}

theorem meets_registerLabels (preorder domain : Schedule) {labels : List Label}
    (h : Course start log r) (hlabels : ∀ l ∈ labels, l.IsReadable)
    (hnodup : (labels.map Label.fullName).Nodup) :
    (registerLabels preorder domain labels r).Meets (Permits start)
      (fun later r' outcome =>
        Course start later r' ∧ Registers start labels log r later r' outcome) log := by
  have hrest {found : Log} {looked : UsernameRegistration} (hcourse : Course start found looked)
      (hlooked : Looked labels log r found looked) :
      (registerLooked preorder domain labels (labels.map r.reportName) looked).Meets (Permits start)
        (fun later r' outcome =>
          Course start later r' ∧ Registers start labels log r later r' outcome) found := by
    refine Routine.meets_bind (meets_enlist (fun _ _ _ => trivial) (fun _ _ => trivial) labels
      hcourse hlabels hnodup) ?_
    rintro formedLog formed batch ⟨hformed, henlisted⟩
    refine Routine.meets_ite (fun hnone => ?_) fun hsome => ?_
    · obtain rfl : batch = [] := List.isEmpty_iff.mp hnone
      exact ⟨hformed, .intro hlooked hcourse hformed henlisted (List.prefix_refl _)
        (fun _ => ⟨rfl, rfl, rfl⟩) (carried_nil _ _)⟩
    have hbatch : batch.Nodup := henlisted.nodup hnodup
    have hcarry := (meets_carryOut preorder domain hformed hbatch).extends
    refine Routine.meets_bind (hcarry.weaken (fun _ _ _ h => h.2) fun _ _ _ h => h) ?_
    rintro later r' step ⟨hextends, hlater, hcarried⟩
    have hregisters := Registers.intro hlooked hcourse hformed henlisted hextends
      (fun hnone => absurd (List.isEmpty_iff.mpr hnone) hsome) hcarried
    cases step with
    | proceed => exact ⟨hlater, hregisters⟩
    | stop outcome => exact ⟨hlater, hregisters⟩
    | paused => exact ⟨hlater, hregisters⟩
  rw [registerLabels_eq]
  refine Routine.meets_get (Routine.meets_ite (fun htimedOut => ?_) fun hnone => ?_)
  · refine Routine.meets_bind (meets_recover (fun _ _ _ _ => trivial) fun _ _ => trivial) ?_
    intro found looked result hrecovery
    apply hrest (hrecovery.course h)
    rw [Looked, if_pos htimedOut]
    exact ⟨result, hrecovery⟩
  · apply hrest h
    rw [Looked, if_neg hnone]
    exact ⟨rfl, rfl⟩

/-- What a call to register requested names comes to: an error leaves everything as it is. -/
def Answers (start : UsernameRegistration) (preorder domain : Schedule) (requests : List String)
    (log : Log) (r : UsernameRegistration) (later : Log) (r' : UsernameRegistration)
    (result : Except RegistrationError (Option UsernameOutcome)) : Prop :=
  match r.readBatch preorder domain requests with
  | .error e => result = .error e ∧ later = log ∧ r' = r
  | .ok labels => ∃ outcome, result = .ok outcome ∧ Registers start labels log r later r' outcome

theorem meets_registerOn (preorder domain : Schedule) (requests : List String)
    (h : Course start log r) :
    (registerOn preorder domain requests r).Meets (Permits start)
      (fun later r' result => Course start later r' ∧
        Answers start preorder domain requests log r later r' result) log := by
  refine Routine.meets_get ?_
  unfold Answers
  generalize hread : r.readBatch preorder domain requests = read
  cases read with
  | error e => exact ⟨h, rfl, rfl, rfl⟩
  | ok labels =>
    obtain ⟨hlabels, hnodup⟩ := readBatch_eq_ok hread
    refine Routine.meets_bind (meets_registerLabels preorder domain h hlabels hnodup) ?_
    rintro later r' outcome ⟨hcourse, hregisters⟩
    exact ⟨hcourse, outcome, rfl, hregisters⟩

end Registering

end UsernameRegistration

end Enrolment
