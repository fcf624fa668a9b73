import Enrolment.Proofs.Usernames.Calls
import Enrolment.Proofs.Usernames.Recovering
import Enrolment.Proofs.Usernames.Upholding

/-!
What becomes of claims over the calls of a registration.

A call leaves a claim as it is, lets it grow, starts a name over under a fresh salt, or adopts what the
platform lists. Only the last can happen to a name that the call was not asked for, and nothing happens
to a registered claim. All of this holds at every request of a call, so that a call may be given up
anywhere.
-/

namespace Enrolment

namespace Claim

/-- How a claim grows: it enters states that may follow. -/
inductive Grows (c : Claim) : Claim → Prop where
  | refl : Grows c c
  | enter {c' : Claim} {target : ClaimState} {now : Timestamp} (h : Grows c c')
      (hstep : c'.state.mayBecome target) : Grows c (c'.enter target now)

variable {c c' : Claim}

theorem Grows.moved (h : c.Grows c') (target : ClaimState) (now : Timestamp) :
    c.Grows (c'.moved target now) := by
  rcases c'.moved_cases target now with heq | ⟨hstep, heq⟩
  · rwa [heq]
  · rw [heq]
    exact h.enter hstep

theorem Grows.expire (h : c.Grows c') (now : Timestamp) : c.Grows (c'.expire now) := by
  rcases c'.expire_cases now with ⟨heq, -⟩ | ⟨hstep, heq⟩
  · rwa [heq]
  · rw [heq]
    exact h.enter hstep

/-- A claim that grew is on the same name, under the same salt, and has held more states. -/
theorem Grows.keeps (h : c.Grows c') :
    c'.label = c.label ∧ c'.salt = c.salt ∧ c'.commitment = c.commitment ∧
      c.history <+: c'.history := by
  induction h with
  | refl => exact ⟨rfl, rfl, rfl, List.prefix_refl _⟩
  | enter _ _ ih =>
    obtain ⟨hlabel, hsalt, hcommitment, hhistory⟩ := ih
    exact ⟨hlabel, hsalt, hcommitment, hhistory.trans (List.prefix_append _ _)⟩

theorem Grows.isOf [Suite] {owner : IdentityId} {name : String} (h : c.Grows c')
    (hof : c.IsOf owner name) : c'.IsOf owner name := by
  induction h with
  | refl => exact hof
  | enter _ hstep ih => exact ih.enter hstep

end Claim

namespace UsernameRegistration

/-- The names that were asked for, without those that are still to be enlisted. -/
def Passed (asked : String → Prop) (labels : List Label) (name : String) : Prop :=
  asked name ∧ name ∉ labels.map Label.fullName

theorem Passed.of_cons {asked : String → Prop} {label : Label} {rest : List Label} {name : String}
    (h : Passed asked (label :: rest) name) : Passed asked rest name :=
  ⟨h.1, fun hmem => h.2 (List.mem_cons_of_mem _ hmem)⟩

section

variable [Suite] {asked asked' : String → Prop} {r s : UsernameRegistration} {log later : Log}
  {name : String} {batch : List String}

/-- A claim on a name that was adopted from what the platform listed for an owner when it was asked
first of all. -/
def IsListed (owner : IdentityId) (log : Log) (name : String) (c : Claim) : Prop :=
  ∃ documents label salt record now,
    [⟨.findDocuments .domain (.ownedBy owner), .ok documents⟩, ⟨.time, now⟩] <+: log ∧
    Document.firstListing? documents name = some (label, salt, record) ∧
    c = .adopted label owner salt now

/-- What a call makes of the claim on a name, by the names that it is asked for. -/
inductive Succeeds (asked : String → Prop) (r : UsernameRegistration) (log : Log) (name : String) :
    Option Claim → Prop where
  | kept : Succeeds asked r log name (r.find? name)
  | adopted {c : Claim} (hstate : r.stateOf? name ≠ some .registered)
      (hlisted : IsListed r.owner log name c) : Succeeds asked r log name (some c)
  | grown {c c' : Claim} (hasked : asked name) (hc : r.find? name = some c)
      (hopen : c.state.isFinal = false) (hgrows : c.Grows c') : Succeeds asked r log name (some c')
  /-- The name starts over under a salt that was drawn for it. -/
  | renewed {label : Label} {salt : Salt} {now : Timestamp} {c : Claim} (hasked : asked name)
      (hstate : r.stateOf? name = none ∨ r.stateOf? name = some .timedOut)
      (hlabel : label.IsReadable) (hname : label.fullName = name)
      (hdrawn : (label, salt) ∈ log.drawn) (hgrows : (Claim.fresh label r.owner salt now).Grows c) :
      Succeeds asked r log name (some c)

theorem IsListed.extend {owner : IdentityId} {c : Claim} (h : IsListed owner log name c)
    (hlog : log <+: later) : IsListed owner later name c := by
  obtain ⟨documents, label, salt, record, now, hlisted, hfirst, hc⟩ := h
  exact ⟨documents, label, salt, record, now, hlisted.trans hlog, hfirst, hc⟩

theorem IsListed.state_eq {owner : IdentityId} {c : Claim} (h : IsListed owner log name c) :
    c.state = .registered := by
  obtain ⟨documents, label, salt, record, now, -, -, rfl⟩ := h
  rfl

theorem IsListed.isOf {owner : IdentityId} {c : Claim} (h : IsListed owner log name c) :
    c.IsOf owner name := by
  obtain ⟨documents, label, salt, record, now, -, hfirst, rfl⟩ := h
  obtain ⟨rfl, d, -, hlisted⟩ := Document.of_firstListing? hfirst
  exact Claim.isOf_adopted (Document.readable_of_listed? hlisted) salt

section Succeeding

variable {c? : Option Claim}

theorem Succeeds.mono (h : Succeeds asked r log name c?) (hasked : asked name → asked' name)
    (hlog : log <+: later) : Succeeds asked' r later name c? := by
  cases h with
  | kept => exact .kept
  | adopted hstate hlisted => exact .adopted hstate (hlisted.extend hlog)
  | grown hname hc hopen hgrows => exact .grown (hasked hname) hc hopen hgrows
  | renewed hname hstate hlabel heq hdrawn hgrows =>
    exact .renewed (hasked hname) hstate hlabel heq ((hlog.filterMap _).subset hdrawn) hgrows

/-- The claim on a name that was asked for may grow on, unless it is final. -/
theorem Succeeds.change {f : Claim → Claim} {c : Claim} (h : Succeeds asked r log name (some c))
    (hasked : asked name) (hgrows : ∀ c c' : Claim, c.Grows c' → c.Grows (f c'))
    (hfinal : ∀ c : Claim, c.state.isFinal = true → f c = c) :
    Succeeds asked r log name (some (f c)) := by
  generalize hc? : some c = c? at h
  cases h with
  | kept =>
    cases hopen : c.state.isFinal with
    | true =>
      rw [hfinal c hopen, hc?]
      exact .kept
    | false => exact .grown hasked hc?.symm hopen (hgrows c c .refl)
  | adopted hstate hlisted =>
    obtain rfl := Option.some.inj hc?
    rw [hfinal c (by rw [hlisted.state_eq]; rfl)]
    exact .adopted hstate hlisted
  | grown _ hc hopen h =>
    obtain rfl := Option.some.inj hc?
    exact .grown hasked hc hopen (hgrows _ _ h)
  | renewed _ hstate hlabel hname hdrawn h =>
    obtain rfl := Option.some.inj hc?
    exact .renewed hasked hstate hlabel hname hdrawn (hgrows _ _ h)

/-- A name that a call was not asked for has the claim that it had, or one that is listed. -/
theorem Succeeds.of_not_asked (h : Succeeds asked r log name c?) (hasked : ¬ asked name) :
    c? = r.find? name ∨ ∃ c, c? = some c ∧ IsListed r.owner log name c := by
  cases h with
  | kept => exact .inl rfl
  | adopted _ hlisted => exact .inr ⟨_, rfl, hlisted⟩
  | grown hname => exact absurd hname hasked
  | renewed hname => exact absurd hname hasked

theorem Succeeds.isOf {c : Claim} (h : Succeeds asked r log name c?) (hr : r.IsKept)
    (hc : c? = some c) : c.IsOf r.owner name := by
  cases h with
  | kept => exact hr name c hc
  | adopted _ hlisted =>
    obtain rfl := Option.some.inj hc
    exact hlisted.isOf
  | grown _ hold _ hgrows =>
    obtain rfl := Option.some.inj hc
    exact hgrows.isOf (hr name _ hold)
  | renewed _ _ hlabel hname _ hgrows =>
    obtain rfl := Option.some.inj hc
    exact hname ▸ hgrows.isOf (Claim.isOf_fresh hlabel _)

theorem Succeeds.isSome (h : Succeeds asked r log name c?) (hsome : (r.find? name).isSome) :
    c?.isSome := by
  cases h with
  | kept => exact hsome
  | adopted => rfl
  | grown => rfl
  | renewed => rfl

theorem Succeeds.of_registered {c : Claim} (h : Succeeds asked r log name c?)
    (hc : r.find? name = some c) (hregistered : c.state = .registered) : c? = some c := by
  have hstate : r.stateOf? name = some .registered := stateOf?_eq_some.mpr ⟨c, hc, hregistered⟩
  cases h with
  | kept => exact hc
  | adopted hother => exact absurd hstate hother
  | grown _ hold hopen =>
    obtain rfl := Option.some.inj (hc.symm.trans hold)
    rw [hregistered] at hopen
    cases hopen
  | renewed _ hother =>
    rw [hstate] at hother
    simp at hother

theorem Succeeds.of_isFinal_eq_false {c : Claim}
    (h : Succeeds asked r log name c?) (hc : r.find? name = some c)
    (hopen : c.state.isFinal = false) :
    ∃ c', c? = some c' ∧ (c.Grows c' ∨ IsListed r.owner log name c') := by
  cases h with
  | kept => exact ⟨c, hc, .inl .refl⟩
  | adopted _ hlisted => exact ⟨_, rfl, .inr hlisted⟩
  | grown _ hold _ hgrows =>
    obtain rfl := Option.some.inj (hc.symm.trans hold)
    exact ⟨_, rfl, .inl hgrows⟩
  | renewed _ hother =>
    rw [stateOf?, hc, Option.map_some] at hother
    rcases hother with hother | hother
    · cases hother
    · rw [Option.some.inj hother] at hopen
      cases hopen

theorem Succeeds.salt_cases {c' : Claim} (h : Succeeds asked r log name c?)
    (hc' : c? = some c') :
    (∃ c, r.find? name = some c ∧ c'.salt = c.salt) ∨ IsListed r.owner log name c' ∨
      ∃ label, label.fullName = name ∧ (label, c'.salt) ∈ log.drawn := by
  cases h with
  | kept => exact .inl ⟨c', hc', rfl⟩
  | adopted _ hlisted =>
    obtain rfl := Option.some.inj hc'
    exact .inr (.inl hlisted)
  | grown _ hold _ hgrows =>
    obtain rfl := Option.some.inj hc'
    exact .inl ⟨_, hold, hgrows.keeps.2.1⟩
  | @renewed label salt _ _ _ _ _ hname hdrawn hgrows =>
    obtain rfl := Option.some.inj hc'
    exact .inr (.inr ⟨label, hname, hgrows.keeps.2.1 ▸ hdrawn⟩)

end Succeeding

/-- What a call has made of the claims of a registration. -/
structure Succession (asked : String → Prop) (r : UsernameRegistration) (log : Log)
    (s : UsernameRegistration) : Prop where
  setup_eq : s.setup = r.setup
  succeeds : ∀ name, Succeeds asked r log name (s.find? name)

theorem Succession.refl (asked : String → Prop) (r : UsernameRegistration) (log : Log) :
    Succession asked r log r := ⟨rfl, fun _ => .kept⟩

theorem Succession.mono (h : Succession asked r log s) (hasked : ∀ name, asked name → asked' name)
    (hlog : log <+: later) : Succession asked' r later s :=
  ⟨h.setup_eq, fun name => (h.succeeds name).mono (hasked name) hlog⟩

theorem Succession.extend (h : Succession asked r log s) (hlog : log <+: later) :
    Succession asked r later s := h.mono (fun _ hname => hname) hlog

theorem Succession.isKept (h : Succession asked r log s) (hr : r.IsKept) : s.IsKept := by
  intro name c hc
  rw [owner_eq_of_setup h.setup_eq]
  exact (h.succeeds name).isOf hr hc

/-- A batch of names that a call was asked for succeeds to the claims before it. -/
theorem isUpheldFor_succession (hbatch : ∀ name ∈ batch, asked name) :
    IsUpheldFor batch (Succession asked r log) where
  advanced target now hnames h := by
    refine ⟨h.setup_eq, fun name => ?_⟩
    refine Table.foldl_adjust_keeps (f := Claim.moved target now) (P := Succeeds asked r log name)
      (h.succeeds name) ?_
    intro hmem c hc
    exact hc.change (hbatch name (hnames hmem)) (fun _ _ hgrows => hgrows.moved target now)
      fun _ hfinal => Claim.moved_of_isFinal hfinal target now
  expired now h := by
    refine ⟨h.setup_eq, fun name => ?_⟩
    refine Table.foldl_adjust_keeps (P := Succeeds asked r log name) (h.succeeds name) ?_
    intro hmem c hc
    exact hc.change (hbatch name hmem) (fun _ _ hgrows => hgrows.expire now)
      fun _ hfinal => Claim.expire_of_isFinal hfinal now
  noted names h := by
    refine ⟨(setup_notePrimary names).trans h.setup_eq, fun name => ?_⟩
    rw [find?_notePrimary]
    exact h.succeeds name
  settled h := by
    refine ⟨setup_settlePrimary.trans h.setup_eq, fun name => ?_⟩
    rw [find?_settlePrimary]
    exact h.succeeds name

/-- A salt is drawn for a name that was asked for and that has no claim, or one that timed out, as it
did when the call began. -/
def DrawsFor (asked : String → Prop) (r s : UsernameRegistration) (name : String) : Prop :=
  asked name ∧ s.stateOf? name = r.stateOf? name ∧
    (s.stateOf? name = none ∨ s.stateOf? name = some .timedOut)

/-- A call asks while the claims are what it may have made of them. -/
def Minds (asked : String → Prop) (r : UsernameRegistration) (log : Log) (s : UsernameRegistration)
    (q : Request) : Prop :=
  Succession asked r log s ∧ ∀ label, q = .drawSalt label → DrawsFor asked r s label.fullName

theorem Succession.minds (h : Succession asked r log s) {q : Request}
    (hq : ∀ label, q ≠ .drawSalt label) : Minds asked r log s q :=
  ⟨h, fun label heq => absurd heq (hq label)⟩

theorem Minds.mono {q : Request} (h : Minds asked r log s q)
    (hasked : ∀ name, asked name → asked' name) : Minds asked' r log s q := by
  refine ⟨h.1.mono hasked (List.prefix_refl log), ?_⟩
  intro label heq
  exact (h.2 label heq).imp_left (hasked _)

/-- What the platform lists is adopted, whatever names were asked for. -/
theorem meets_recover_succession (asked : String → Prop) (r : UsernameRegistration) :
    (recover r).Meets (Minds asked r) (fun later s _ => Succession asked r later s) [] := by
  refine Routine.meets_get (Routine.meets_ask ((Succession.refl asked r []).minds nofun)
    fun answer => ?_)
  match answer with
  | .error e => exact .refl asked r _
  | .ok documents =>
    refine Routine.meets_ask ((Succession.refl asked r _).minds nofun) fun now => ?_
    refine ⟨setup_adoptAll documents now, fun name => ?_⟩
    change Succeeds asked r _ name ((r.adoptAll documents now).2.find? name)
    rw [find?_adoptAll]
    split
    next => exact .kept
    next hstate =>
      split
      next label salt record hfirst =>
        exact .adopted hstate
          ⟨documents, label, salt, record, now, List.prefix_refl _, hfirst, rfl⟩
      next => exact .kept

section Enlisting

variable {label : Label} {labels rest : List Label}

/-- A name that is still to be enlisted is in the state that it was in, unless it was adopted. -/
theorem Succession.stateOf?_eq (h : Succession asked r log s) (hname : ¬ asked name)
    (hstate : s.stateOf? name ≠ some .registered) : s.stateOf? name = r.stateOf? name := by
  rcases (h.succeeds name).of_not_asked hname with hkept | ⟨c, hc, hlisted⟩
  · exact congrArg (Option.map Claim.state) hkept
  · rw [stateOf?, hc, Option.map_some, hlisted.state_eq] at hstate
    exact absurd rfl hstate

theorem Succession.renew {salt : Salt} (now : Timestamp)
    (h : Succession (Passed asked (label :: rest)) r log s) (hasked : asked label.fullName)
    (hlabel : label.IsReadable) (hfresh : label.fullName ∉ rest.map Label.fullName)
    (hstate : r.stateOf? label.fullName = none ∨ r.stateOf? label.fullName = some .timedOut)
    (hdrawn : (label, salt) ∈ log.drawn) :
    Succession (Passed asked rest) r log (s.put (.fresh label s.owner salt now)) := by
  refine ⟨h.setup_eq, fun name => ?_⟩
  rw [find?_put, owner_eq_of_setup h.setup_eq]
  split
  next hname =>
    obtain rfl : name = label.fullName := hname
    exact .renewed ⟨hasked, hfresh⟩ hstate hlabel rfl hdrawn .refl
  next => exact (h.succeeds name).mono Passed.of_cons (List.prefix_refl log)

/-- Enlisting starts over names that had no claim or one that timed out, and no others. -/
theorem meets_enlist_succession (hlabels : ∀ l ∈ labels, l.IsReadable)
    (hnodup : (labels.map Label.fullName).Nodup) (hasked : ∀ l ∈ labels, asked l.fullName)
    (h : Succession (Passed asked labels) r log s) :
    (enlist labels s).Meets (Minds asked r)
      (fun later s batch => Succession asked r later s ∧ ∀ name ∈ batch, asked name) log := by
  have hwhole {labels : List Label} {log : Log} {s : UsernameRegistration}
      (h : Succession (Passed asked labels) r log s) : Succession asked r log s :=
    h.mono (fun _ hname => hname.1) (List.prefix_refl log)
  induction labels generalizing s log with
  | nil => exact ⟨hwhole h, nofun⟩
  | cons label rest ih =>
    obtain ⟨hlabel, hrest⟩ := List.forall_mem_cons.mp hlabels
    obtain ⟨hfresh, hnodup⟩ := List.nodup_cons.mp hnodup
    obtain ⟨hname, hnames⟩ := List.forall_mem_cons.mp hasked
    have hskip : Succession (Passed asked rest) r log s :=
      h.mono (fun _ => Passed.of_cons) (List.prefix_refl log)
    have hnamed {log : Log} {s : UsernameRegistration} (h : Succession (Passed asked rest) r log s) :
        ((do return label.fullName :: (← enlist rest) : Work (List String)) s).Meets (Minds asked r)
          (fun later s batch => Succession asked r later s ∧ ∀ name ∈ batch, asked name) log := by
      refine Routine.meets_bind (ih hrest hnodup hnames h) ?_
      rintro later s batch ⟨h, hbatch⟩
      exact ⟨h, List.forall_mem_cons.mpr ⟨hname, hbatch⟩⟩
    have hrenewed (hstate : s.stateOf? label.fullName = none ∨
        s.stateOf? label.fullName = some .timedOut) :
        ((do
          let salt ← Routine.ask (.drawSalt label)
          let now ← Routine.ask .time
          modify fun r : UsernameRegistration => r.put (.fresh label r.owner salt now)
          return label.fullName :: (← enlist rest) : Work (List String)) s).Meets (Minds asked r)
            (fun later s batch => Succession asked r later s ∧ ∀ name ∈ batch, asked name) log := by
      have hsame : s.stateOf? label.fullName = r.stateOf? label.fullName := by
        refine h.stateOf?_eq (fun hname => hname.2 List.mem_cons_self) ?_
        rcases hstate with hstate | hstate <;> simp [hstate]
      refine Routine.meets_ask ⟨hwhole h, ?_⟩ fun salt => ?_
      · rintro l ⟨rfl⟩
        exact ⟨hname, hsame, hstate⟩
      rw [hsame] at hstate
      have hdrawn := h.extend (List.prefix_append log [⟨.drawSalt label, salt⟩])
      refine Routine.meets_ask ((hwhole hdrawn).minds nofun) fun now => Routine.meets_modify ?_
      refine hnamed ((hdrawn.extend (List.prefix_append _ _)).renew now hname hlabel hfresh hstate ?_)
      simp [Log.drawn, Exchange.drawn?]
    refine Routine.meets_get ?_
    generalize hstate : s.stateOf? label.fullName = state
    cases state with
    | none => exact hrenewed (.inl hstate)
    | some state =>
      cases state with
      | registered => exact ih hrest hnodup hnames hskip
      | timedOut => exact hrenewed (.inr hstate)
      | unregistered => exact hnamed hskip
      | preorderSubmitted => exact hnamed hskip
      | preorderConfirmed => exact hnamed hskip
      | domainSubmitted => exact hnamed hskip

end Enlisting

section Calling

variable {preorder domain : Schedule} {labels : List Label} {requests : List String}

theorem meets_carryOut_succession (preorder domain : Schedule) (hbatch : ∀ name ∈ batch, asked name)
    (h : Succession asked r log s) :
    (carryOut preorder domain batch s).Meets (Minds asked r)
      (fun later s _ => Succession asked r later s) log := by
  have hupholds : Upholds (Succession asked r log) log (carryOut preorder domain batch s) :=
    upholds_carryOut (isUpheldFor_succession hbatch) preorder domain h
  refine hupholds.extends.weaken ?_ ?_
  · rintro later s q ⟨hlog, h, hq⟩
    exact (h.extend hlog).minds hq
  · rintro later s step ⟨hlog, h⟩
    exact h.extend hlog

theorem meets_registerLabels_succession (preorder domain : Schedule)
    (hlabels : ∀ l ∈ labels, l.IsReadable) (hnodup : (labels.map Label.fullName).Nodup)
    (hasked : ∀ l ∈ labels, asked l.fullName) :
    (registerLabels preorder domain labels r).Meets (Minds asked r)
      (fun later s _ => Succession asked r later s) [] := by
  have hrest {log : Log} {looked : UsernameRegistration}
      (h : Succession (Passed asked labels) r log looked) (reported : List String) :
      (registerLooked preorder domain labels reported looked).Meets (Minds asked r)
        (fun later s _ => Succession asked r later s) log := by
    refine Routine.meets_bind (meets_enlist_succession hlabels hnodup hasked h) ?_
    rintro log formed batch ⟨h, hbatch⟩
    refine Routine.meets_ite (fun _ => h) fun _ => ?_
    refine Routine.meets_bind (meets_carryOut_succession preorder domain hbatch h) ?_
    intro later s step h
    cases step with
    | proceed => exact h
    | stop outcome => exact h
    | paused => exact h
  rw [registerLabels_eq]
  refine Routine.meets_get (Routine.meets_ite (fun _ => ?_) fun _ => ?_)
  · -- nothing is enlisted yet, so that only listed names can have changed
    refine Routine.meets_bind ((meets_recover_succession (Passed asked labels) r).weaken
      (fun _ _ _ h => h.mono fun _ hname => hname.1) fun _ _ _ h => h) fun _ _ _ h => hrest h _
  · exact hrest (.refl _ r []) _

theorem meets_register_succession (schedule? : Option Schedule) (requests : List String) :
    (register schedule? requests r).Meets (Minds (r.settings.Names requests) r)
      (fun later s _ => Succession (r.settings.Names requests) r later s) [] := by
  refine Routine.meets_get (Routine.meets_get ?_)
  cases hread : r.readBatch (schedule?.getD r.settings.preorder)
      (schedule?.getD r.settings.domain) requests with
  | error e => exact .refl _ r []
  | ok labels =>
    obtain ⟨hlabels, hnodup⟩ := readBatch_eq_ok hread
    refine Routine.meets_bind (meets_registerLabels_succession _ _ hlabels hnodup ?_)
      fun _ _ _ h => h
    exact fun l hl => (mem_readBatch_iff hread).mp (List.mem_map_of_mem hl)

end Calling

section Leaving

variable {α : Type} {work : Task UsernameRegistration α}

/-- What a call that has become some work has left of the claims that it began with. -/
structure Leaves (asked : String → Prop) (r : UsernameRegistration) (log : Log)
    (work : Task UsernameRegistration α) : Prop where
  lasting : ∀ name, (r.find? name).isSome → (work.state.find? name).isSome
  registered : ∀ name c, r.find? name = some c → c.state = .registered →
    work.state.find? name = some c
  unfinished : ∀ name c, r.find? name = some c → c.state.isFinal = false →
    ∃ c', work.state.find? name = some c' ∧
      (c'.salt = c.salt ∧ c'.commitment = c.commitment ∧ c.history <+: c'.history ∨
        c'.state = .registered ∧ IsListed r.owner log name c')
  /-- A salt is that of the claim before, or listed, or it was drawn for the name. -/
  salted : ∀ name c', work.state.find? name = some c' →
    (∃ c, r.find? name = some c ∧ c'.salt = c.salt) ∨ IsListed r.owner log name c' ∨
      ∃ label, label.fullName = name ∧ (label, c'.salt) ∈ log.drawn
  drawing : ∀ s label next, work = .ask s (.drawSalt label) next →
    DrawsFor asked r s label.fullName
  unasked : ∀ name, ¬ asked name → work.state.find? name = r.find? name ∨
    ∃ c', work.state.find? name = some c' ∧ c'.state = .registered ∧
      IsListed r.owner log name c'

/-- Work that meets the law of succession leaves every claim as a call may leave it. -/
theorem leaves_of_reaches {t : Task UsernameRegistration α}
    (h : t.Meets (Minds asked r) (fun later s _ => Succession asked r later s) [])
    (hrun : Task.Reaches t log work) :
    Succession asked r log work.state ∧ Leaves asked r log work := by
  have hmeets := h.reaches hrun
  rw [List.nil_append] at hmeets
  have hstate : Succession asked r log work.state := by
    cases work with
    | done s result => exact hmeets
    | ask s q next => exact hmeets.1.1
  refine ⟨hstate, ?_⟩
  exact {
    lasting := fun name => (hstate.succeeds name).isSome
    registered := fun name c => (hstate.succeeds name).of_registered
    unfinished := by
      intro name c hc hopen
      obtain ⟨c', hc', hgrows | hlisted⟩ := (hstate.succeeds name).of_isFinal_eq_false hc hopen
      · exact ⟨c', hc', .inl hgrows.keeps.2⟩
      · exact ⟨c', hc', .inr ⟨hlisted.state_eq, hlisted⟩⟩
    salted := fun name c' => (hstate.succeeds name).salt_cases
    drawing := by
      rintro s label next rfl
      exact hmeets.1.2 label rfl
    unasked := by
      intro name hname
      refine ((hstate.succeeds name).of_not_asked hname).imp_right ?_
      rintro ⟨c', hc', hlisted⟩
      exact ⟨c', hc', hlisted.state_eq, hlisted⟩ }

/-- What a registration can become by calls on it, one after the other. Each of them may be given up at
any request. -/
inductive Attempts (first : UsernameRegistration) : UsernameRegistration → Prop where
  | begun : Attempts first first
  | registering {r : UsernameRegistration} {schedule? : Option Schedule} {requests : List String}
      {log : Log} {work : Task UsernameRegistration (Except RegistrationError (Option UsernameOutcome))}
      (h : Attempts first r) (hrun : Task.Reaches (register schedule? requests r) log work) :
      Attempts first work.state
  | recovering {r : UsernameRegistration} {log : Log}
      {work : Task UsernameRegistration (Except RegistrationError (List String))}
      (h : Attempts first r) (hrun : Task.Reaches (recover r) log work) : Attempts first work.state

/-- What every call keeps, it keeps from the names that it succeeds to. -/
theorem Attempts.keeps {first : UsernameRegistration} {P : UsernameRegistration → Prop}
    (h : Attempts first r) (hfirst : P first)
    (hstep : ∀ asked r log s, Succession asked r log s → P r → P s) : P r := by
  induction h with
  | begun => exact hfirst
  | registering _ hrun ih =>
    exact hstep _ _ _ _ (leaves_of_reaches (meets_register_succession _ _) hrun).1 ih
  | recovering _ hrun ih =>
    exact hstep _ _ _ _ (leaves_of_reaches (meets_recover_succession (fun _ => False) _) hrun).1 ih

theorem Attempts.setup_eq {first : UsernameRegistration} (h : Attempts first r) :
    r.setup = first.setup :=
  h.keeps (P := fun s => s.setup = first.setup) rfl
    fun _ _ _ _ hsuccession hsame => hsuccession.setup_eq.trans hsame

theorem Attempts.isKept {first : UsernameRegistration} (h : Attempts first r)
    (hfirst : first.IsKept) : r.IsKept :=
  h.keeps hfirst fun _ _ _ _ hsuccession => hsuccession.isKept

/-- In every state that a registration can reach, each claim is under the full name of its label, is
that of the owner, and has the commitment that goes with its salt. A call, whatever becomes of it,
loses no name and touches no registered claim, ever again. It leaves a claim that is not final under its
salt and commitment, with more states in its history, unless the platform lists the name for the owner.
It draws a salt only for a name without a claim or with one that timed out. Names that it was not asked
for are as they were or listed. -/
theorem claims_last_across_calls {owner : IdentityId} {key : SecretKey} {settings : Settings}
    {first : UsernameRegistration} (hfirst : create owner key settings = .ok first)
    (h : Attempts first r) :
    (r.owner = owner ∧ ∀ name c, r.find? name = some c → c.label.fullName = name ∧
      c.owner = owner ∧ c.commitment = commitment c.salt c.label owner) ∧
    (∀ schedule? requests log work, Task.Reaches (register schedule? requests r) log work →
      Leaves (r.settings.Names requests) r log work) ∧
    (∀ log work, Task.Reaches (recover r) log work → Leaves (fun _ => False) r log work) ∧
    ∀ later name c, Attempts r later → r.find? name = some c → c.state = .registered →
      later.find? name = some c := by
  have howner : r.owner = owner := by
    have hsetup : r.setup = first.setup :=
      h.keeps (P := fun s => s.setup = first.setup) rfl
      fun _ _ _ _ hsuccession hsame => hsuccession.setup_eq.trans hsame
    rw [owner_eq_of_setup hsetup, create_eq_ok hfirst]
  have hkept : r.IsKept :=
    h.keeps (isKept_of_create hfirst) fun _ _ _ _ hsuccession => hsuccession.isKept
  refine ⟨⟨howner, ?_⟩, ?_, ?_, ?_⟩
  · intro name c hc
    have hof := hkept name c hc
    rw [howner] at hof
    exact ⟨hof.named, hof.owned, hof.committed⟩
  · intro schedule? requests log work hrun
    exact (leaves_of_reaches (meets_register_succession _ _) hrun).2
  · intro log work hrun
    exact (leaves_of_reaches (meets_recover_succession _ _) hrun).2
  · intro later name c hlater hc hregistered
    refine hlater.keeps (P := fun s => s.find? name = some c) hc ?_
    intro asked r log s hsuccession hc
    exact (hsuccession.succeeds name).of_registered hc hregistered

end Leaving

end

open Sample in
/-- The first name of a registration is registered, and stays so. -/
theorem claims_last_across_calls_alice :
    create identity signingKey .default = .ok registration ∧
      Attempts registration registered.2.1 ∧
      Leaves (Settings.default.Names ["alice"]) registration registered.1
        (.done registered.2.1 registered.2.2) ∧
      ∃ c, registered.2.1.find? alice.fullName = some c ∧ c.label.fullName = alice.fullName ∧
        c.commitment = commitment c.salt c.label identity ∧ c.state = .registered ∧
        ∀ later, Attempts registered.2.1 later → later.find? alice.fullName = some c := by
  have hcreate : create identity signingKey .default = .ok registration := rfl
  have hattempts : Attempts registration registered.2.1 := by
    have hcall := Attempts.begun.registering reaches_registered
    rwa [Task.state] at hcall
  have hstate : registered.2.1.stateOf? alice.fullName = some .registered := by decide +kernel
  obtain ⟨c, hc, hregistered⟩ := stateOf?_eq_some.mp hstate
  obtain ⟨⟨-, hclaims⟩, -, -, hlasts⟩ := claims_last_across_calls hcreate hattempts
  obtain ⟨-, hleaves, -, -⟩ := claims_last_across_calls hcreate .begun
  obtain ⟨hname, -, hcommitment⟩ := hclaims _ c hc
  refine ⟨hcreate, hattempts, hleaves none ["alice"] _ _ reaches_registered, c, hc, hname,
    hcommitment, hregistered, ?_⟩
  intro later hlater
  exact hlasts later _ c hlater hc hregistered

end UsernameRegistration

end Enrolment
