import Enrolment.Proofs.Name.Grammar
import Enrolment.Proofs.Pausing.Continuing
import Enrolment.Proofs.Usernames.Mistakes

/-!
How names are reported. A name under the configured parent is reported without it, however the parent is
spelt in the settings, and what is reported resolves to the full name again. So reported names are told
apart just as full names are, and the names that a call reports as timed out address the claims that it
timed out.
-/

namespace Enrolment

namespace Label

/-- The case of letters in the given domain changes nothing. -/
theorem read_eq_of_lower {request given given' : List Char} (h : lower given = lower given') :
    read request given = read request given' := by
  unfold read
  generalize Text.trim request = text
  have hdivides := divides_split text given
  generalize split text given = parts at hdivides ⊢
  obtain ⟨label, domain⟩ := parts
  cases hdivides with
  | bare hdot =>
    rw [(Divides.bare hdot).split_eq]
    dsimp only
    rw [h]
  | dotted hdot => rw [(Divides.dotted hdot).split_eq]

theorem parse_eq_of_lower {request given given' : String}
    (h : lower given.toList = lower given'.toList) : parse request given = parse request given' := by
  rw [parse, parse, read_eq_of_lower h]

end Label

namespace UsernameRegistration

variable {r r' start : UsernameRegistration} {log later : Log} {request : String} {l l' : Label}
  {labels : List Label} {names : List String}

section Reports

/-- What is reported of a label resolves to it again, but for the spelling. -/
theorem resolve_reportName (h : l.IsReadable) :
    r.settings.naming.resolve (r.reportName l) = .ok { l with display := l.normalized } := by
  unfold reportName
  split
  next hparent =>
    -- the parent was left out for being the configured one but for its spelling
    have hresolve : Label.parse l.normalized l.parent =
        Label.parse l.normalized r.settings.parent := Label.parse_eq_of_lower hparent
    exact hresolve.symm.trans h.parse_normalized
  next => exact h.parse_fullName _

theorem claim?_reportName (h : l.IsReadable) : r.claim? (r.reportName l) = r.find? l.fullName := by
  rw [claim?, resolve_reportName h]
  rfl

theorem reportName_eq_iff (h : l.IsReadable) (h' : l'.IsReadable) :
    r.reportName l = r.reportName l' ↔ l.fullName = l'.fullName := by
  constructor
  · intro heq
    have hresolve := @resolve_reportName r l h
    rw [heq, resolve_reportName h'] at hresolve
    have hsame := Except.ok.inj hresolve
    exact (congrArg Label.fullName hsame).symm
  · intro hname
    obtain ⟨hnormalized, hparent⟩ := Label.fullName_inj h h' hname
    rw [reportName, reportName, hnormalized, hparent, hname]

theorem distinct_eq_self (h : (labels.map Label.fullName).Nodup) : distinct labels = labels := by
  induction labels with
  | nil => rfl
  | cons label rest ih =>
    obtain ⟨hfresh, hrest⟩ := List.nodup_cons.mp h
    have hkept : ∀ other ∈ rest, decide (other.fullName ≠ label.fullName) = true := by
      intro other hother
      apply decide_eq_true
      intro heq
      exact hfresh (heq ▸ List.mem_map_of_mem hother)
    rw [distinct, ih hrest, List.filter_eq_self.mpr hkept]

/-- Labels of distinct names are read again from what is reported of them. -/
theorem readRequests_map_reportName (h : ∀ l ∈ labels, l.IsReadable)
    (hnodup : (labels.map Label.fullName).Nodup) :
    r.readRequests (labels.map r.reportName) =
      .ok (labels.map fun l => { l with display := l.normalized }) := by
  have hread : (labels.map r.reportName).mapM r.settings.naming.resolve =
      .ok (labels.map fun l => { l with display := l.normalized }) := by
    clear hnodup
    induction labels with
    | nil => rfl
    | cons label rest ih =>
      obtain ⟨hlabel, hrest⟩ := List.forall_mem_cons.mp h
      rw [List.map_cons, List.mapM_cons, resolve_reportName hlabel, ih hrest]
      rfl
  have hnames : ((labels.map fun l => { l with display := l.normalized }).map Label.fullName).Nodup := by
    rw [List.map_map]
    exact hnodup
  unfold readRequests
  rw [hread]
  dsimp only
  rw [distinct_eq_self hnames]

end Reports

variable [Suite]

/-- A call that ends in a timeout reports, in the order requested, the names that it leaves timed out. -/
theorem Registers.timedOut_eq (h : Registers r labels log r later r' (some (.timedOut names)))
    (hkept : r.IsKept) (hlabels : ∀ l ∈ labels, l.IsReadable)
    (hnodup : (labels.map Label.fullName).Nodup) :
    names = (labels.filter fun l => r'.stateOf? l.fullName = some .timedOut).map r.reportName := by
  generalize hended : some (Outcome.timedOut names) = ended at h
  cases h with
  | @intro found formedLog later looked formed r' batch step _ _ hformed henlisted _ _ hcarried =>
    have hbatch : batch.Nodup := henlisted.nodup hnodup
    have hends := henlisted.batchEnds (hformed.isKept hkept) hlabels hnodup hcarried
    obtain rfl := henlisted.batch_eq
    cases hends with
    | completed => cases hended
    | failed => cases hended
    | paused => cases hended
    | timedOut htimedOut =>
      have hreport : formed.reportName = r.reportName := reportName_eq_of_setup hformed.setup_eq
      have hleft : looked.openLabels labels =
          labels.filter fun l => r'.stateOf? l.fullName = some .timedOut := by
        apply List.filter_congr
        intro l hl
        apply decide_eq_decide.mpr
        by_cases hopen : looked.stateOf? l.fullName = some .registered
        · -- the batch leaves out what is registered already, and what it leaves out stays so
          have hout : l.fullName ∉ (looked.openLabels labels).map Label.fullName :=
            fun hmem => (mem_map_openLabels.mp hmem).2 hopen
          have hregistered : r'.stateOf? l.fullName = some .registered := by
            rw [hcarried.stateOf?_eq hbatch hout, henlisted.stateOf?_eq, if_neg hout]
            exact hopen
          simp [hopen, hregistered]
        · have hmem : l.fullName ∈ (looked.openLabels labels).map Label.fullName :=
            mem_map_openLabels.mpr ⟨List.mem_map_of_mem hl, hopen⟩
          exact iff_of_true hopen (htimedOut _ hmem)
      obtain rfl := Outcome.timedOut.inj (Option.some.inj hended)
      rw [hreport, hleft]

/-- The names that a call reports as timed out are read again, in the order requested, as the names that
it leaves timed out. -/
theorem Registers.exists_readRequests_timedOut
    (h : Registers r labels log r later r' (some (.timedOut names)))
    (hkept : r.IsKept) (hlabels : ∀ l ∈ labels, l.IsReadable)
    (hnodup : (labels.map Label.fullName).Nodup) (hsetup : r'.setup = r.setup) :
    ∃ again, r'.readRequests names = .ok again ∧ again.map Label.fullName =
      (labels.map Label.fullName).filter fun name => r'.stateOf? name = some .timedOut := by
  let left := labels.filter fun l => r'.stateOf? l.fullName = some .timedOut
  have hnames : names = left.map r'.reportName := by
    rw [reportName_eq_of_setup hsetup]
    exact h.timedOut_eq hkept hlabels hnodup
  have hreadable : ∀ l ∈ left, l.IsReadable := fun l hl => hlabels l (List.mem_filter.mp hl).1
  have hdistinct : (left.map Label.fullName).Nodup := hnodup.sublist (List.filter_sublist.map _)
  refine ⟨left.map fun l => { l with display := l.normalized }, ?_, ?_⟩
  · rw [hnames]
    exact readRequests_map_reportName hreadable hdistinct
  · rw [List.map_map, List.filter_map]
    rfl

/-- Reported names resolve to the full names that they are reported for, whatever the configured parent
is and however it is spelt, so that they lead to the claims on these and are distinct just if these are. In
every state that a registration can reach, each claim is found by what is reported of its label. The names
that a call reports as timed out are read again as the names, in the order requested, that it leaves timed
out; every other name that is timed out was not requested, and had timed out before. -/
theorem reported_names_lead_back (r : UsernameRegistration) :
    (∀ request l, r.settings.naming.resolve request = .ok l →
      (∃ l', r.settings.naming.resolve (r.reportName l) = .ok l' ∧ l'.fullName = l.fullName) ∧
        r.claim? (r.reportName l) = r.find? l.fullName) ∧
    (∀ request request' l l', r.settings.naming.resolve request = .ok l →
      r.settings.naming.resolve request' = .ok l' →
        (r.reportName l = r.reportName l' ↔ l.fullName = l'.fullName)) ∧
    ∀ owner key settings first, create owner key settings = .ok first → Attempts first r →
      (∀ name c, r.find? name = some c → r.claim? (r.reportName c.label) = some c) ∧
      ∀ schedule? requests es r' names,
        Task.Reaches (register schedule? requests r) es (.done r' (.ok (some (.timedOut names)))) →
        ∃ labels again, r.readCall schedule? requests = .ok labels ∧
          r'.readRequests names = .ok again ∧
          again.map Label.fullName =
            (labels.map Label.fullName).filter (fun name => r'.stateOf? name = some .timedOut) ∧
          ∀ name, r'.stateOf? name = some .timedOut → name ∉ again.map Label.fullName →
            name ∉ labels.map Label.fullName ∧ r.stateOf? name = some .timedOut := by
  refine ⟨?_, ?_, ?_⟩
  · intro request l hresolve
    have hl : l.IsReadable := ⟨request, r.settings.parent, hresolve⟩
    exact ⟨⟨_, resolve_reportName hl, rfl⟩, claim?_reportName hl⟩
  · intro request request' l l' hresolve hresolve'
    exact reportName_eq_iff ⟨request, _, hresolve⟩ ⟨request', _, hresolve'⟩
  · intro owner key settings first hcreate hattempts
    have hkept : r.IsKept := hattempts.isKept (isKept_of_create hcreate)
    constructor
    · intro name c hc
      have hof := hkept name c hc
      rw [claim?_reportName hof.readable, hof.named, hc]
    intro schedule? requests es r' names hrun
    obtain ⟨hcourse, hanswers⟩ :=
      (meets_register schedule? requests (.begun : Course r [] r)).reaches hrun
    cases hread : r.readCall schedule? requests with
    | error e =>
      rw [register_of_readCall_error hread] at hrun
      cases hrun
    | ok labels =>
      obtain ⟨hlabels, hnodup⟩ := readBatch_eq_ok hread
      rw [readCall] at hread
      rw [Answers, hread] at hanswers
      obtain ⟨outcome, houtcome, hregisters⟩ := hanswers
      obtain rfl := Except.ok.inj houtcome
      obtain ⟨again, hagain, hnames⟩ :=
        hregisters.exists_readRequests_timedOut hkept hlabels hnodup hcourse.setup_eq
      refine ⟨labels, again, rfl, hagain, hnames, ?_⟩
      intro name htimedOut hout
      have hforeign : name ∉ labels.map Label.fullName := by
        intro hmem
        rw [hnames] at hout
        exact hout (List.mem_filter.mpr ⟨hmem, decide_eq_true htimedOut⟩)
      rcases hregisters.stateOf?_cases hnodup hforeign with hsame | hregistered
      · exact ⟨hforeign, hsame.symm.trans htimedOut⟩
      · rw [htimedOut] at hregistered
        cases hregistered

end UsernameRegistration

namespace Sample

/-- A registration whose settings spell the parent in letters of both cases. -/
def mixed : UsernameRegistration :=
  ⟨identity, signingKey, { Settings.default with parent := "DaSh" }, .empty, none, none⟩

/-- A call for a name under this parent and one under another, while the platform is out of order. -/
def mixedCall : Log × UsernameRegistration × Except RegistrationError (Option UsernameOutcome) :=
  (UsernameRegistration.register none ["Bob.dASh", "carol.Test"] mixed).play
    (oracle (.error (.transient "busy")) none fun _ _ => []) []

theorem reaches_mixedCall :
    Task.Reaches (UsernameRegistration.register none ["Bob.dASh", "carol.Test"] mixed) mixedCall.1
      (.done mixedCall.2.1 mixedCall.2.2) := by
  unfold mixedCall
  exact Task.reaches_play _ _ _

end Sample

open Sample UsernameRegistration in
/-- A name under the parent of the settings is reported without it and one under another parent with it,
and both are read again. -/
theorem UsernameRegistration.reported_names_lead_back_carol :
    create identity signingKey mixed.settings = .ok mixed ∧
      mixed.reportName ⟨"Bob", "bob", "dash"⟩ = "bob" ∧
      (∃ l, mixed.settings.naming.resolve "bob" = .ok l ∧ l.fullName = "bob.dash") ∧
      mixed.reportName ⟨"carol", "carol", "test"⟩ = "carol.test" ∧
      mixedCall.2.2 = .ok (some (.timedOut ["bob", "carol.test"])) ∧
      ∃ again, mixedCall.2.1.readRequests ["bob", "carol.test"] = .ok again ∧
        again.map Label.fullName = ["bob.dash", "carol.test"] := by
  have hcreate : create identity signingKey mixed.settings = .ok mixed := rfl
  have hbob : mixed.settings.naming.resolve "Bob.dASh" = .ok ⟨"Bob", "bob", "dash"⟩ := by rfl
  have hread : mixed.readCall none ["Bob.dASh", "carol.Test"] =
      .ok [⟨"Bob", "bob", "dash"⟩, ⟨"carol", "carol", "test"⟩] := by rfl
  have hresult : mixedCall.2.2 = .ok (some (.timedOut ["bob", "carol.test"])) := by decide +kernel
  have hleft : ["bob.dash", "carol.test"].filter
      (fun name => mixedCall.2.1.stateOf? name = some .timedOut) = ["bob.dash", "carol.test"] := by
    decide +kernel
  have hrun := reaches_mixedCall
  rw [hresult] at hrun
  obtain ⟨hresolves, -, hcalls⟩ := reported_names_lead_back mixed
  obtain ⟨hagain, -⟩ := hresolves "Bob.dASh" _ hbob
  obtain ⟨-, htimedOut⟩ := hcalls identity signingKey mixed.settings mixed hcreate .begun
  obtain ⟨labels, again, hlabels, hreported, hnames, -⟩ := htimedOut none _ _ _ _ hrun
  obtain rfl := Except.ok.inj (hread.symm.trans hlabels)
  exact ⟨hcreate, rfl, hagain, rfl, hresult, again, hreported, hnames.trans hleft⟩

end Enrolment
