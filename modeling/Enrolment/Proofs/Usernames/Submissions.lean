import Enrolment.Proofs.Usernames.Calls
import Mathlib.Data.List.Nodup

/-!
What is submitted of each claim. A claim keeps in its history whether its commitment and its name were
taken by the platform, and the history agrees with the log of accepted transitions, whatever was
retried, paused, timed out or replaced in between. Salts are assumed to hide names well: those that
were drawn give distinct commitments.
-/

namespace Enrolment

/-- The commitments that an operation publishes. -/
def Operation.committed : Operation → List Digest
  | preorder _ commitments => commitments
  | _ => []

/-- The full names that an operation reveals, with their salts. -/
def Operation.revealed : Operation → List (String × Salt)
  | registerDomains _ domains => domains.map fun e => (e.toLabel.fullName, e.salt)
  | _ => []

namespace Log

variable {first second log : Log}

def committed (log : Log) : List Digest := log.operations.flatMap Operation.committed

def revealed (log : Log) : List (String × Salt) := log.operations.flatMap Operation.revealed

@[simp] theorem committed_append :
    committed (first ++ second) = committed first ++ committed second := by
  simp [committed]

@[simp] theorem revealed_append :
    revealed (first ++ second) = revealed first ++ revealed second := by
  simp [revealed]

variable [Suite]

/-- The salts that were drawn give distinct commitments of an owner. -/
def HidesNames (owner : IdentityId) (log : Log) : Prop :=
  (log.drawn.map fun drawn => commitment drawn.2 drawn.1 owner).Nodup

instance (owner : IdentityId) (log : Log) : Decidable (HidesNames owner log) :=
  inferInstanceAs (Decidable (List.Nodup _))

theorem HidesNames.of_append {owner : IdentityId} (h : HidesNames owner (first ++ second)) :
    HidesNames owner first := by
  unfold HidesNames at h ⊢
  rw [drawn_append, List.map_append] at h
  exact h.of_append_left

/-- A commitment tells what it was made of. -/
theorem HidesNames.inj {owner : IdentityId} (h : HidesNames owner log) {label label' : Label}
    {salt salt' : Salt} (hdrawn : (label, salt) ∈ log.drawn) (hdrawn' : (label', salt') ∈ log.drawn)
    (heq : commitment salt label owner = commitment salt' label' owner) :
    label = label' ∧ salt = salt' :=
  Prod.mk.inj (List.inj_on_of_nodup_map h hdrawn hdrawn' heq)

/-- A salt that is drawn next commits to its name as no earlier one did. -/
theorem HidesNames.fresh {owner : IdentityId} {label label' : Label} {salt salt' : Salt}
    (h : HidesNames owner (log ++ [⟨.drawSalt label, salt⟩])) (hdrawn : (label', salt') ∈ log.drawn) :
    commitment salt label owner ≠ commitment salt' label' owner := by
  unfold HidesNames at h
  rw [drawn_append, List.map_append] at h
  intro heq
  refine List.disjoint_of_nodup_append h (List.mem_map_of_mem hdrawn) ?_
  exact List.mem_singleton.mpr heq.symm

end Log

theorem Exchange.IsIdle.no_account {e : Exchange} (h : e.IsIdle) :
    Log.committed [e] = [] ∧ Log.revealed [e] = [] ∧ Log.drawn [e] = [] := by
  have hdrawn : Log.drawn [e] = [] := by simp [Log.drawn, h.2]
  cases haccepted : e.accepted? with
  | none => simp [Log.committed, Log.revealed, Log.operations, Log.accepted, haccepted, hdrawn]
  | some t =>
    have hcreation := h.1 t haccepted
    cases hoperation : t.operation with
    | createIdentity =>
      simp [Log.committed, Log.revealed, Log.operations, Log.accepted, haccepted, hdrawn,
        hoperation, Operation.committed, Operation.revealed]
    | preorder => simp [hoperation, Operation.isCreation] at hcreation
    | registerDomains => simp [hoperation, Operation.isCreation] at hcreation

/-- The history of a claim agrees with what was accepted: its commitment and its name were taken by the
platform if the claim says so. Claims that were adopted are not spoken of. -/
structure Claim.Accounted (log : Log) (name : String) (c : Claim) : Prop where
  drawn : (c.label, c.salt) ∈ log.drawn
  committed : c.commitment ∈ log.committed ↔ .preorderSubmitted ∈ c.history
  revealed : (name, c.salt) ∈ log.revealed ↔ .domainSubmitted ∈ c.history

namespace UsernameRegistration

/-- A registration whose claims all agree with a log that published and revealed nothing twice. -/
structure Accounted [Suite] (log : Log) (r : UsernameRegistration) : Prop where
  claims : ∀ name c, r.find? name = some c → c.wasAdopted = false → c.Accounted log name
  committed : ∀ d ∈ log.committed, ∃ label salt, (label, salt) ∈ log.drawn ∧
    d = commitment salt label r.owner
  revealed : ∀ name salt, (name, salt) ∈ log.revealed → ∃ label, (label, salt) ∈ log.drawn ∧
    name = label.fullName
  nodup_committed : log.committed.Nodup
  nodup_revealed : log.revealed.Nodup

end UsernameRegistration

namespace Claim

variable {log : Log} {name : String} {c : Claim} {now : Timestamp}

/-- Nothing is accounted for by entering a state that no acceptance leads to. -/
theorem Accounted.enter {state : ClaimState} (h : c.Accounted log name)
    (hpreorder : state ≠ .preorderSubmitted) (hdomain : state ≠ .domainSubmitted) :
    (c.enter state now).Accounted log name := by
  refine ⟨h.drawn, ?_, ?_⟩
  · simpa [hpreorder.symm] using h.committed
  · simpa [hdomain.symm] using h.revealed

/-- A longer log accounts for a claim if what it adds does not concern the claim. -/
theorem Accounted.extend {es : Log} (h : c.Accounted log name)
    (hcommitted : c.commitment ∉ Log.committed es) (hrevealed : (name, c.salt) ∉ Log.revealed es) :
    c.Accounted (log ++ es) name := by
  constructor
  · simp [h.drawn]
  · simpa [hcommitted] using h.committed
  · simpa [hrevealed] using h.revealed

theorem wasAdopted_enter {state : ClaimState} (h : c.history ≠ []) :
    (c.enter state now).wasAdopted = c.wasAdopted := by
  obtain ⟨first, rest, heq⟩ := List.exists_cons_of_ne_nil h
  simp [wasAdopted, heq]

end Claim

namespace UsernameRegistration

theorem revealed_entries (r : UsernameRegistration) (claims : List Claim) :
    (Operation.registerDomains r.owner (r.entries claims)).revealed =
      claims.map fun c => (c.label.fullName, c.salt) :=
  r.map_entries claims fun _ _ => rfl

section

variable [Suite] {log es : Log} {r r' : UsernameRegistration} {names batch : List String}
  {now : Timestamp}

theorem Accounted.of_find? (h : r.Accounted log) (hfind : ∀ name, r'.find? name = r.find? name)
    (hsetup : r'.setup = r.setup) : r'.Accounted log := by
  refine ⟨fun name c hc => h.claims name c (hfind name ▸ hc), ?_, h.revealed, h.nodup_committed,
    h.nodup_revealed⟩
  rw [owner_eq_of_setup hsetup]
  exact h.committed

/-- Moving claims on without an acceptance changes nothing that is accounted for. -/
theorem Accounted.advance {source target : ClaimState} (h : r.Accounted log) (hkept : r.IsKept)
    (hnames : names.Nodup) (hstate : ∀ name ∈ names, r.stateOf? name = some source)
    (hnext : source.next? = some target) (hpreorder : target ≠ .preorderSubmitted)
    (hdomain : target ≠ .domainSubmitted) : (r.advance names target now).Accounted log := by
  refine ⟨?_, h.committed, h.revealed, h.nodup_committed,
    h.nodup_revealed⟩
  intro name c hc hadopted
  rcases find?_advance_cases hnames hstate hnext hc with ⟨old, -, hold, rfl⟩ | ⟨-, hold⟩
  · rw [Claim.wasAdopted_enter (hkept name old hold).track.ne_nil] at hadopted
    exact (h.claims name old hold hadopted).enter hpreorder hdomain
  · exact h.claims name c hold hadopted

theorem Accounted.expire (h : r.Accounted log) (hkept : r.IsKept) (hbatch : batch.Nodup) :
    (r.expire batch now).Accounted log := by
  refine ⟨?_, h.committed, h.revealed, h.nodup_committed,
    h.nodup_revealed⟩
  intro name c hc hadopted
  rcases find?_expire_cases hbatch hc with hold | ⟨old, hold, rfl⟩
  · exact h.claims name c hold hadopted
  · rw [Claim.wasAdopted_enter (hkept name old hold).track.ne_nil] at hadopted
    exact (h.claims name old hold hadopted).enter (by decide) (by decide)

theorem Accounted.adopt (h : r.Accounted log) (d : Document) :
    (r.adopt d now).2.Accounted log := by
  have howner : (r.adopt d now).2.owner = r.owner := owner_eq_of_setup setup_adopt
  refine ⟨?_, howner ▸ h.committed, h.revealed, h.nodup_committed,
    h.nodup_revealed⟩
  intro name c hc hadopted
  rcases r.find?_adopt_cases d now name with hsame | ⟨-, label, salt, -, -, hfound⟩
  · exact h.claims name c (hsame ▸ hc) hadopted
  · rw [hfound] at hc
    obtain rfl := Option.some.inj hc
    cases hadopted

/-- Exchanges that publish, reveal and draw nothing need no account. -/
theorem Accounted.idle (h : r.Accounted log) (hcommitted : Log.committed es = [])
    (hrevealed : Log.revealed es = []) (hdrawn : Log.drawn es = []) :
    r.Accounted (log ++ es) := by
  constructor
  · intro name c hc hadopted
    exact (h.claims name c hc hadopted).extend (by simp [hcommitted]) (by simp [hrevealed])
  · simpa [hcommitted, hdrawn] using h.committed
  · simpa [hrevealed, hdrawn] using h.revealed
  · simpa [hcommitted] using h.nodup_committed
  · simpa [hrevealed] using h.nodup_revealed

theorem Accounted.enlist {label : Label} {salt : Salt} (h : r.Accounted log)
    (hhides : Log.HidesNames r.owner (log ++ [⟨.drawSalt label, salt⟩])) :
    (r.put (.fresh label r.owner salt now)).Accounted
      (log ++ [⟨.drawSalt label, salt⟩, ⟨.time, now⟩]) := by
  have hcommitted : Log.committed [⟨.drawSalt label, salt⟩, ⟨.time, now⟩] = [] := rfl
  have hrevealed : Log.revealed [⟨.drawSalt label, salt⟩, ⟨.time, now⟩] = [] := rfl
  have hdrawn : Log.drawn [⟨.drawSalt label, salt⟩, ⟨.time, now⟩] = [(label, salt)] := rfl
  have hnew : commitment salt label r.owner ∉ log.committed := by
    intro hmem
    obtain ⟨label', salt', hold, heq⟩ := h.committed _ hmem
    exact hhides.fresh hold heq
  have hhidden : (label.fullName, salt) ∉ log.revealed := by
    intro hmem
    obtain ⟨label', hold, heq⟩ := h.revealed _ _ hmem
    exact hhides.fresh hold (commitment_congr heq salt r.owner)
  constructor
  · intro name c hc hadopted
    rw [find?_put] at hc
    split at hc
    next heq =>
      obtain rfl := Option.some.inj hc
      have hname : name = label.fullName := heq
      refine ⟨by simp [hdrawn, Claim.fresh, Claim.start], ?_, ?_⟩
      · simpa [hcommitted, Claim.fresh, Claim.start] using hnew
      · simpa [hrevealed, hname, Claim.fresh, Claim.start] using hhidden
    next =>
      exact (h.claims name c hc hadopted).extend (by simp [hcommitted]) (by simp [hrevealed])
  · intro d hd
    obtain ⟨label', salt', hold, heq⟩ := h.committed d (by simpa [hcommitted] using hd)
    exact ⟨label', salt', by simp [hold], heq⟩
  · intro name salt' hmem
    obtain ⟨label', hold, heq⟩ := h.revealed name salt' (by simpa [hrevealed] using hmem)
    exact ⟨label', by simp [hold], heq⟩
  · simpa [hcommitted] using h.nodup_committed
  · simpa [hrevealed] using h.nodup_revealed

/-- The claims on some names that are all in one open state: none of them was adopted, and their
histories lead up to that state. -/
theorem of_mem_claimsOn {state : ClaimState} (hkept : r.IsKept)
    (hstate : ∀ name ∈ names, r.stateOf? name = some state) (hopen : state.isFinal = false)
    {c : Claim} (hc : c ∈ r.claimsOn names) :
    c.label.fullName ∈ names ∧ r.find? c.label.fullName = some c ∧ c.wasAdopted = false ∧
      c.history = ClaimState.path.take (state.rank + 1) := by
  obtain ⟨name, hname, hfound⟩ := mem_claimsOn.mp hc
  have hof := hkept name c hfound
  obtain ⟨c', hc', rfl⟩ := stateOf?_eq_some.mp (hstate name hname)
  obtain rfl : c' = c := Option.some.inj (hc'.symm.trans hfound)
  obtain ⟨hadopted, hhistory⟩ := hof.history_eq hopen
  rw [hof.named]
  exact ⟨hname, hfound, hadopted, hhistory⟩

theorem nodup_fullNames (hkept : r.IsKept) (hnames : names.Nodup) :
    ((r.claimsOn names).map fun c => c.label.fullName).Nodup := by
  induction names with
  | nil => simp [claimsOn]
  | cons name rest ih =>
    obtain ⟨hfresh, hrest⟩ := List.nodup_cons.mp hnames
    have htail := ih hrest
    cases hc : r.find? name with
    | none => simpa [claimsOn, hc] using htail
    | some c =>
      have hmem : ∀ c' ∈ r.claimsOn rest, c'.label.fullName ≠ c.label.fullName := by
        intro c' hc' heq
        obtain ⟨name', hname', hfound'⟩ := mem_claimsOn.mp hc'
        rw [(hkept name' c' hfound').named, (hkept name c hc).named] at heq
        exact hfresh (heq ▸ hname')
      simp only [claimsOn, List.filterMap_cons_some hc, List.map_cons, List.nodup_cons]
      refine ⟨?_, htail⟩
      intro hin
      obtain ⟨c', hc', heq⟩ := List.mem_map.mp hin
      exact hmem c' hc' heq

/-- Claims with one commitment are on one name. -/
theorem Accounted.name_eq (h : r.Accounted log) (hkept : r.IsKept)
    (hhides : Log.HidesNames r.owner log) {name name' : String} {c c' : Claim}
    (hc : r.find? name = some c) (hc' : r.find? name' = some c') (hadopted : c.wasAdopted = false)
    (hadopted' : c'.wasAdopted = false) (heq : c.commitment = c'.commitment) : name = name' := by
  have hof := hkept name c hc
  have hof' := hkept name' c' hc'
  rw [hof.committed, hof'.committed] at heq
  obtain ⟨hlabel, -⟩ := hhides.inj (h.claims name c hc hadopted).drawn
    (h.claims name' c' hc' hadopted').drawn heq
  rw [← hof.named, ← hof'.named, hlabel]

theorem Accounted.nodup_commitmentsOn (h : r.Accounted log) (hkept : r.IsKept)
    (hhides : Log.HidesNames r.owner log) (hnames : names.Nodup)
    (hstate : ∀ name ∈ names, r.stateOf? name = some .unregistered) :
    (r.commitmentsOn names).Nodup := by
  refine List.Nodup.map_on ?_ (nodup_fullNames hkept hnames).of_map
  intro c hc c' hc' heq
  obtain ⟨-, hfound, hadopted, -⟩ := of_mem_claimsOn hkept hstate rfl hc
  obtain ⟨-, hfound', hadopted', -⟩ := of_mem_claimsOn hkept hstate rfl hc'
  have hname := h.name_eq hkept hhides hfound hfound' hadopted hadopted' heq
  rw [hname, hfound'] at hfound
  exact (Option.some.inj hfound).symm

/-- Claims that the platform took something of agree with the longer log, if nothing was taken of other
claims. -/
theorem Accounted.accept {source target : ClaimState} (h : r.Accounted log) (hkept : r.IsKept)
    (hnames : names.Nodup) (hstate : ∀ name ∈ names, r.stateOf? name = some source)
    (hopen : source.isFinal = false) (hnext : source.next? = some target)
    (hmoved : ∀ name c, c ∈ r.claimsOn names → name = c.label.fullName → c.Accounted log name →
      (c.enter target now).Accounted (log ++ es) name)
    (hothers : ∀ name c, name ∉ names → r.find? name = some c → c.wasAdopted = false →
      c.commitment ∉ Log.committed es ∧ (name, c.salt) ∉ Log.revealed es)
    (hcommitted : Log.committed es ⊆ r.commitmentsOn names)
    (hrevealed : Log.revealed es ⊆ (r.claimsOn names).map fun c => (c.label.fullName, c.salt))
    (hnodup_committed : (Log.committed (log ++ es)).Nodup)
    (hnodup_revealed : (Log.revealed (log ++ es)).Nodup) :
    (r.advance names target now).Accounted (log ++ es) := by
  refine ⟨?_, ?_, ?_, hnodup_committed, hnodup_revealed⟩
  · intro name c hc hadopted
    rcases find?_advance_cases hnames hstate hnext hc with
      ⟨old, hname, hold, rfl⟩ | ⟨hname, hold⟩
    · have hclaim : old ∈ r.claimsOn names := mem_claimsOn.mpr ⟨name, hname, hold⟩
      obtain ⟨-, -, hown, -⟩ := of_mem_claimsOn hkept hstate hopen hclaim
      exact hmoved name old hclaim (hkept name old hold).named.symm (h.claims name old hold hown)
    · obtain ⟨hcommitment, hshown⟩ := hothers name c hname hold hadopted
      exact (h.claims name c hold hadopted).extend hcommitment hshown
  · intro d hd
    rw [Log.committed_append] at hd
    rcases List.mem_append.mp hd with hold | hnew
    · obtain ⟨label, salt, hdrawn, heq⟩ := h.committed d hold
      exact ⟨label, salt, by simp [hdrawn], heq⟩
    · obtain ⟨c, hclaim, rfl⟩ := List.mem_map.mp (hcommitted hnew)
      obtain ⟨-, hfound, hown, -⟩ := of_mem_claimsOn hkept hstate hopen hclaim
      have hdrawn := (h.claims _ c hfound hown).drawn
      exact ⟨c.label, c.salt, by simp [hdrawn], (hkept _ c hfound).committed⟩
  · intro name salt hmem
    rw [Log.revealed_append] at hmem
    rcases List.mem_append.mp hmem with hold | hnew
    · obtain ⟨label, hdrawn, heq⟩ := h.revealed name salt hold
      exact ⟨label, by simp [hdrawn], heq⟩
    · obtain ⟨c, hclaim, heq⟩ := List.mem_map.mp (hrevealed hnew)
      obtain ⟨rfl, rfl⟩ := Prod.mk.inj heq
      obtain ⟨-, hfound, hown, -⟩ := of_mem_claimsOn hkept hstate hopen hclaim
      have hdrawn := (h.claims _ c hfound hown).drawn
      exact ⟨c.label, by simp [hdrawn], rfl⟩

theorem Accounted.preorder (h : r.Accounted log) (hkept : r.IsKept)
    (hhides : Log.HidesNames r.owner log) (hnames : names.Nodup)
    (hstate : ∀ name ∈ names, r.stateOf? name = some .unregistered)
    (hcommitted : Log.committed es = r.commitmentsOn names) (hrevealed : Log.revealed es = []) :
    (r.advance names .preorderSubmitted now).Accounted (log ++ es) := by
  have hnew : (Log.committed (log ++ es)).Nodup := by
    rw [Log.committed_append, hcommitted]
    apply List.Nodup.append h.nodup_committed (h.nodup_commitmentsOn hkept hhides hnames hstate)
    intro d hold hnew
    obtain ⟨c, hclaim, rfl⟩ := List.mem_map.mp hnew
    obtain ⟨-, hfound, hown, hhistory⟩ := of_mem_claimsOn hkept hstate rfl hclaim
    have hpublished := (h.claims _ c hfound hown).committed.mp hold
    rw [hhistory] at hpublished
    exact absurd hpublished (by decide)
  refine h.accept hkept hnames hstate rfl rfl ?_ ?_ (by simp [hcommitted]) (by simp [hrevealed]) hnew
    (by simpa [hrevealed] using h.nodup_revealed)
  · intro name c hclaim heq hold
    have hpublished : c.commitment ∈ Log.committed es := by
      rw [hcommitted]
      exact List.mem_map_of_mem hclaim
    refine ⟨by simp [hold.drawn], by simp [hpublished], ?_⟩
    simpa [hrevealed] using hold.revealed
  · intro name c hname hfound hown
    refine ⟨?_, by simp [hrevealed]⟩
    intro hmem
    rw [hcommitted] at hmem
    obtain ⟨c', hclaim, heq⟩ := List.mem_map.mp hmem
    obtain ⟨hname', hfound', hown', -⟩ := of_mem_claimsOn hkept hstate rfl hclaim
    exact hname (h.name_eq hkept hhides hfound' hfound hown' hown heq ▸ hname')

theorem Accounted.reveal (h : r.Accounted log) (hkept : r.IsKept) (hnames : names.Nodup)
    (hstate : ∀ name ∈ names, r.stateOf? name = some .preorderConfirmed)
    (hcommitted : Log.committed es = [])
    (hrevealed : Log.revealed es = (r.claimsOn names).map fun c => (c.label.fullName, c.salt)) :
    (r.advance names .domainSubmitted now).Accounted (log ++ es) := by
  have hnew : (Log.revealed (log ++ es)).Nodup := by
    have hshown : ((r.claimsOn names).map fun c => (c.label.fullName, c.salt)).Nodup := by
      have hfst := nodup_fullNames hkept hnames
      apply List.Nodup.of_map Prod.fst
      rwa [List.map_map]
    rw [Log.revealed_append, hrevealed]
    apply List.Nodup.append h.nodup_revealed hshown
    intro shown hold hnew
    obtain ⟨c, hclaim, rfl⟩ := List.mem_map.mp hnew
    obtain ⟨-, hfound, hown, hhistory⟩ := of_mem_claimsOn hkept hstate rfl hclaim
    have hdomain := (h.claims _ c hfound hown).revealed.mp hold
    rw [hhistory] at hdomain
    exact absurd hdomain (by decide)
  refine h.accept hkept hnames hstate rfl rfl ?_ ?_ (by simp [hcommitted]) (by simp [hrevealed])
    (by simpa [hcommitted] using h.nodup_committed) hnew
  · intro name c hclaim heq hold
    have hshown : (name, c.salt) ∈ Log.revealed es := by
      rw [hrevealed, heq]
      exact List.mem_map_of_mem hclaim
    refine ⟨by simp [hold.drawn], ?_, by simp [hshown]⟩
    simpa [hcommitted] using hold.committed
  · intro name c hname hfound hown
    refine ⟨by simp [hcommitted], ?_⟩
    intro hmem
    rw [hrevealed] at hmem
    obtain ⟨c', hclaim, heq⟩ := List.mem_map.mp hmem
    obtain ⟨hname', -, -, -⟩ := of_mem_claimsOn hkept hstate rfl hclaim
    exact hname ((Prod.mk.inj heq).1 ▸ hname')

variable {start : UsernameRegistration}

/-- Every course accounts for the claims of a registration that starts without any. -/
theorem Course.accounted (h : Course start log r) (hstart : ∀ name, start.find? name = none)
    (hhides : Log.HidesNames start.owner log) : r.Accounted log := by
  have hkept {log : Log} {r : UsernameRegistration} (h : Course start log r) : r.IsKept :=
    h.isKept (isKept_of_empty hstart)
  induction h with
  | begun =>
    refine ⟨?_, ?_, ?_, List.nodup_nil, List.nodup_nil⟩
    · intro name c hc
      rw [hstart] at hc
      cases hc
    · exact fun d hd => absurd hd List.not_mem_nil
    · exact fun name salt hmem => absurd hmem List.not_mem_nil
  | @idle log r e _ he ih =>
    obtain ⟨hcommitted, hrevealed, hdrawn⟩ := he.no_account
    exact (ih hhides.of_append).idle hcommitted hrevealed hdrawn
  | @enlisted log r label salt now h hlabel hstate ih =>
    rw [List.append_cons] at hhides
    apply (ih hhides.of_append.of_append).enlist
    rw [owner_eq_of_setup h.setup_eq]
    exact hhides.of_append
  | @preordered log r names signed receipt now h hnames hstate ih =>
    have hlog := hhides.of_append
    have hcommitted : Log.committed [⟨.submit (.sign (r.preorderOf names) signed r.key),
        .ok receipt⟩, ⟨.time, now⟩] = r.commitmentsOn names := List.append_nil _
    refine (ih hlog).preorder (hkept h) ?_ hnames hstate hcommitted rfl
    rwa [owner_eq_of_setup h.setup_eq]
  | confirmed now h hnames hstate _ _ ih =>
    exact (ih hhides).advance (hkept h) hnames hstate rfl (by decide) (by decide)
  | @revealed log r names signed receipt now h hnames hstate ih =>
    have hlog := hhides.of_append
    have hrevealed : Log.revealed [⟨.submit (.sign (r.revealOf names) signed r.key),
        .ok receipt⟩, ⟨.time, now⟩] = (r.claimsOn names).map fun c => (c.label.fullName, c.salt) :=
      (List.append_nil _).trans (revealed_entries _ _)
    have hmoved : (r.advance names .domainSubmitted now).Accounted (log ++ _) :=
      (ih hlog).reveal (hkept h) hnames hstate rfl hrevealed
    exact hmoved.of_find? (by simp) (by simp)
  | @registered log r names now h hnames hstate ih =>
    have hmoved : (r.advance names .registered now).Accounted log :=
      (ih hhides).advance (hkept h) hnames hstate rfl (by decide) (by decide)
    exact hmoved.of_find? (by simp) (by simp)
  | expired now h hbatch ih => exact (ih hhides).expire (hkept h) hbatch
  | adopted now _ _ _ ih => exact (ih hhides).adopt _

/-- A transition that has nothing to do with a name: it does not reveal the name, and what it commits to
are other names under salts that were drawn for these. -/
def Avoids (owner : IdentityId) (log : Log) (name : String) (t : Transition) : Prop :=
  (∀ shown ∈ t.operation.revealed, shown.1 ≠ name) ∧
    ∀ d ∈ t.operation.committed,
      (∃ label salt, (label, salt) ∈ log.drawn ∧ d = commitment salt label owner) ∧
      ∀ label salt, (label, salt) ∈ log.drawn → d = commitment salt label owner →
        label.fullName ≠ name

/-- What a registration offers has nothing to do with the names that are registered. -/
theorem Offers.avoids {name : String} {t : Transition} (hoffers : r.Offers names t)
    (hkept : r.IsKept) (haccounted : r.Accounted log) (hlog : log <+: es)
    (hhides : Log.HidesNames r.owner es) (hname : r.stateOf? name = some .registered) :
    Avoids r.owner es name t := by
  have hdrawn {label : Label} {salt : Salt} (h : (label, salt) ∈ log.drawn) :
      (label, salt) ∈ Log.drawn es := by
    obtain ⟨more, rfl⟩ := hlog
    simp [h]
  cases hoffers with
  | preorder signed hstate =>
    have hout := not_mem_of_stateOf? hstate hname (by decide)
    refine ⟨fun shown hshown => absurd hshown List.not_mem_nil, ?_⟩
    intro d hd
    obtain ⟨c, hclaim, rfl⟩ := List.mem_map.mp hd
    obtain ⟨hmem, hfound, hopen, -⟩ := of_mem_claimsOn hkept hstate rfl hclaim
    have hown := hdrawn (haccounted.claims _ c hfound hopen).drawn
    have hcommitment := (hkept _ c hfound).committed
    refine ⟨⟨c.label, c.salt, hown, hcommitment⟩, ?_⟩
    intro label salt hother heq
    obtain ⟨rfl, -⟩ := hhides.inj hown hother (hcommitment.symm.trans heq)
    exact ne_of_mem_of_not_mem hmem hout
  | reveal signed hstate =>
    have hout := not_mem_of_stateOf? hstate hname (by decide)
    refine ⟨?_, fun d hd => absurd hd List.not_mem_nil⟩
    intro shown hshown
    have hshown : shown ∈ (Operation.registerDomains r.owner
        (r.entries (r.claimsOn names))).revealed := hshown
    rw [revealed_entries] at hshown
    obtain ⟨c, hclaim, rfl⟩ := List.mem_map.mp hshown
    obtain ⟨hmem, -, -, -⟩ := of_mem_claimsOn hkept hstate rfl hclaim
    exact ne_of_mem_of_not_mem hmem hout

/-- Nothing is lost and nothing is sent twice. Every claim that was not adopted was made under a salt
drawn for its name; its commitment and its name were taken by the platform once if its history says
so, and never if not. No salt that was ever drawn was used twice. A name that is registered when a
call has ended is left out of all that is submitted from then on, also by a call that is still under
way. -/
theorem register_submits_once {owner : IdentityId} {key : SecretKey} {settings : Settings}
    {first : UsernameRegistration} (hcreate : create owner key settings = .ok first)
    (hcalls : Calls first log r) (hhides : Log.HidesNames owner log) :
    (∀ name c, r.find? name = some c → c.wasAdopted = false →
      (c.label, c.salt) ∈ log.drawn ∧
      log.committed.count c.commitment = (if .preorderSubmitted ∈ c.history then 1 else 0) ∧
      log.revealed.count (name, c.salt) = (if .domainSubmitted ∈ c.history then 1 else 0)) ∧
    (∀ label salt, (label, salt) ∈ log.drawn →
      log.committed.count (commitment salt label owner) ≤ 1 ∧
      log.revealed.count (label.fullName, salt) ≤ 1) ∧
    ∀ name, r.stateOf? name = some .registered →
      ∀ later r' schedule? requests es work, Calls r later r' →
        Task.Reaches (register schedule? requests r') es work →
        Log.HidesNames owner (log ++ later ++ es) →
        ∀ t ∈ Log.submitted (later ++ es), Avoids owner (log ++ later ++ es) name t := by
  obtain rfl := create_eq_ok hcreate
  have hempty (name : String) : find? ⟨owner, key, settings, .empty, none, none⟩ name = none := rfl
  have haccounted := hcalls.course.accounted hempty hhides
  refine ⟨?_, ?_, ?_⟩
  · intro name c hc hadopted
    have hclaim := haccounted.claims name c hc hadopted
    refine ⟨hclaim.drawn, ?_, ?_⟩
    · rw [haccounted.nodup_committed.count]
      simp only [hclaim.committed]
    · rw [haccounted.nodup_revealed.count]
      simp only [hclaim.revealed]
  · intro label salt _
    exact ⟨List.nodup_iff_count_le_one.mp haccounted.nodup_committed _,
      List.nodup_iff_count_le_one.mp haccounted.nodup_revealed _⟩
  · intro name hname later r' schedule? requests es work hlater hrun hall t ht
    obtain ⟨before, answer, after, hsplit⟩ := Log.split_of_submitted ht
    obtain ⟨s, names, hcourse, hoffers⟩ := hlater.offers_underway hrun hsplit
    have hwhole := hcalls.course.append hcourse
    rw [List.append_assoc, hsplit, ← List.append_assoc] at hall ⊢
    have hs := hwhole.accounted hempty hall.of_append
    have howner : s.owner = owner := owner_eq_of_setup hwhole.setup_eq
    have hkept := hwhole.isKept (isKept_of_create hcreate)
    have havoids := hoffers.avoids hkept hs (List.prefix_append _ _) (howner ▸ hall)
      (hcourse.stateOf?_registered hname)
    rwa [howner] at havoids

end

end UsernameRegistration

namespace Sample

/-- A call for a further name after one was registered, whose preorder is refused. -/
def refused : Log × UsernameRegistration × Except RegistrationError (Option UsernameOutcome) :=
  (UsernameRegistration.register none ["Bob", "alice"] registered.2.1).play
    (oracle (.error (.invalid "unfunded")) none (shown alice)) []

theorem reaches_refused :
    Task.Reaches (UsernameRegistration.register none ["Bob", "alice"] registered.2.1) refused.1
      (.done refused.2.1 refused.2.2) := by
  unfold refused
  exact Task.reaches_play _ _ _

end Sample

open Sample UsernameRegistration in
/-- A name that was registered is requested again together with a further one. -/
theorem UsernameRegistration.register_submits_once_alice :
    Calls registration registered.1 registered.2.1 ∧
      Log.HidesNames identity (registered.1 ++ [] ++ refused.1) ∧
      registered.2.1.stateOf? alice.fullName = some .registered ∧
      (∃ c, registered.2.1.find? alice.fullName = some c ∧
        registered.1.committed.count c.commitment = 1 ∧
        registered.1.revealed.count (alice.fullName, c.salt) = 1) ∧
      ∀ t ∈ Log.submitted ([] ++ refused.1),
        Avoids identity (registered.1 ++ [] ++ refused.1) alice.fullName t := by
  have hcreate : create identity signingKey .default = .ok registration := rfl
  have hcalls : Calls registration registered.1 registered.2.1 := by
    have hcall := Calls.begun.registered reaches_registered
    rwa [List.nil_append] at hcall
  have hhides : Log.HidesNames identity registered.1 := by decide +kernel
  have hall : Log.HidesNames identity (registered.1 ++ [] ++ refused.1) := by decide +kernel
  have hname : registered.2.1.stateOf? alice.fullName = some .registered := by decide +kernel
  have hhistory : (registered.2.1.find? alice.fullName).map Claim.history =
      some ClaimState.path := by decide +kernel
  obtain ⟨c, hc, hpath⟩ := Option.map_eq_some_iff.mp hhistory
  have hadopted : c.wasAdopted = false := by
    rw [Claim.wasAdopted, hpath]
    rfl
  obtain ⟨hclaims, -, havoids⟩ := register_submits_once hcreate hcalls hhides
  obtain ⟨-, hcommitted, hrevealed⟩ := hclaims _ c hc hadopted
  rw [hpath] at hcommitted hrevealed
  exact ⟨hcalls, hall, hname, ⟨c, hc, hcommitted, hrevealed⟩,
    havoids alice.fullName hname [] _ _ _ _ _ .begun reaches_refused hall⟩

end Enrolment
