import Enrolment.Proofs.Trace
import Enrolment.Proofs.Usernames.Outliving

/-!
The courses that a registration of usernames can take, and that its routines take no other.

A course says once what can happen to a registration and which exchanges it takes: a salt that is drawn
makes a claim, a transition that is accepted moves the claims it is about, an answer that shows their
documents moves them on, a batch times out, a listed name is adopted. Laws of registrations are proved
by induction on it.
-/

namespace Enrolment

/-- An exchange that moves no claim: it draws no salt, and what it has accepted creates an identity. -/
def Exchange.IsIdle (e : Exchange) : Prop :=
  (∀ t, e.accepted? = some t → t.operation.isCreation) ∧ e.drawn? = none

theorem Exchange.IsQuiet.isIdle {e : Exchange} (h : e.IsQuiet) : e.IsIdle :=
  ⟨fun t ht => by simp [h.1] at ht, h.2⟩

def DomainEntry.toLabel (e : DomainEntry) : Label := ⟨e.label, e.normalized, e.parent⟩

namespace UsernameRegistration

/-- What the revealed names have of their claims is read off these one by one. -/
theorem map_entries {α : Type} {f : DomainEntry → α} {g : Claim → α} (r : UsernameRegistration)
    (claims : List Claim)
    (h : ∀ c record,
      f ⟨c.label.display, c.label.normalized, c.label.parent, c.salt, record⟩ = g c) :
    (r.entries claims).map f = claims.map g := by
  have hfst : claims.zipIdx.map Prod.fst = claims := List.zipIdx_map_fst ..
  rw [entries, List.map_map]
  calc
    _ = claims.zipIdx.map (g ∘ Prod.fst) := List.map_congr_left fun entry _ => h entry.1 _
    _ = (claims.zipIdx.map Prod.fst).map g := List.map_map.symm
    _ = claims.map g := by rw [hfst]

theorem mem_entries {r : UsernameRegistration} {claims : List Claim} {e : DomainEntry}
    (he : e ∈ r.entries claims) : ∃ c ∈ claims, e.toLabel = c.label ∧ e.salt = c.salt := by
  have hread : (r.entries claims).map (fun e => (e.toLabel, e.salt)) =
      claims.map fun c => (c.label, c.salt) := r.map_entries claims fun _ _ => rfl
  have hmem : (e.toLabel, e.salt) ∈ claims.map fun c => (c.label, c.salt) := by
    rw [← hread]
    exact List.mem_map_of_mem he
  obtain ⟨c, hc, heq⟩ := List.mem_map.mp hmem
  obtain ⟨hlabel, hsalt⟩ := Prod.mk.inj heq
  exact ⟨c, hc, hlabel.symm, hsalt.symm⟩

variable [Suite]

def commitmentsOn (r : UsernameRegistration) (names : List String) : List Digest :=
  (r.claimsOn names).map Claim.commitment

def preorderOf (r : UsernameRegistration) (names : List String) : Operation :=
  .preorder r.owner (r.commitmentsOn names)

def revealOf (r : UsernameRegistration) (names : List String) : Operation :=
  .registerDomains r.owner (r.entries (r.claimsOn names))

/-- The transitions that a registration may submit: what it preorders is unregistered, what it reveals
has its preorder confirmed, and neither is nothing. -/
inductive Offers (r : UsernameRegistration) : List String → Transition → Prop where
  | preorder {names : List String} (signed : Timestamp)
      (hstate : ∀ name ∈ names, r.stateOf? name = some .unregistered) (hsome : names ≠ []) :
      Offers r names (.sign (r.preorderOf names) signed r.key)
  | reveal {names : List String} (signed : Timestamp)
      (hstate : ∀ name ∈ names, r.stateOf? name = some .preorderConfirmed) (hsome : names ≠ []) :
      Offers r names (.sign (r.revealOf names) signed r.key)

/-- What a registration can become over which exchanges. -/
inductive Course (start : UsernameRegistration) : Log → UsernameRegistration → Prop where
  | begun : Course start [] start
  | idle {log : Log} {r : UsernameRegistration} {e : Exchange} (h : Course start log r)
      (he : e.IsIdle) : Course start (log ++ [e]) r
  /-- A salt is drawn for a name that has no claim, or one that timed out. -/
  | enlisted {log : Log} {r : UsernameRegistration} {label : Label} (salt : Salt)
      (now : Timestamp) (h : Course start log r) (hlabel : label.IsReadable)
      (hstate : r.stateOf? label.fullName = none ∨
        r.stateOf? label.fullName = some .timedOut) :
      Course start (log ++ [⟨.drawSalt label, salt⟩, ⟨.time, now⟩])
        (r.put (.fresh label r.owner salt now))
  | preordered {log : Log} {r : UsernameRegistration} {names : List String} (signed : Timestamp)
      (receipt : Receipt) (now : Timestamp) (h : Course start log r) (hnames : names.Nodup)
      (hstate : ∀ name ∈ names, r.stateOf? name = some .unregistered) :
      Course start
        (log ++ [⟨.submit (.sign (r.preorderOf names) signed r.key), .ok receipt⟩, ⟨.time, now⟩])
        (r.advance names .preorderSubmitted now)
  | confirmed {log : Log} {r : UsernameRegistration} {names : List String}
      {documents : List Document} (now : Timestamp) (h : Course start log r)
      (hnames : names.Nodup)
      (hstate : ∀ name ∈ names, r.stateOf? name = some .preorderSubmitted)
      (hshown : ⟨.findDocuments .preorder (.commitmentIn (r.commitmentsOn names)),
        .ok documents⟩ ∈ log)
      (hholds : holdsPreorders r.owner (r.commitmentsOn names) documents) :
      Course start log (r.advance names .preorderConfirmed now)
  | revealed {log : Log} {r : UsernameRegistration} {names : List String} (signed : Timestamp)
      (receipt : Receipt) (now : Timestamp) (h : Course start log r) (hnames : names.Nodup)
      (hstate : ∀ name ∈ names, r.stateOf? name = some .preorderConfirmed) :
      Course start
        (log ++ [⟨.submit (.sign (r.revealOf names) signed r.key), .ok receipt⟩, ⟨.time, now⟩])
        ((r.advance names .domainSubmitted now).notePrimary names)
  | registered {log : Log} {r : UsernameRegistration} {names : List String} (now : Timestamp)
      (h : Course start log r) (hnames : names.Nodup)
      (hstate : ∀ name ∈ names, r.stateOf? name = some .domainSubmitted) :
      Course start log (r.advance names .registered now).settlePrimary
  | expired {log : Log} {r : UsernameRegistration} {batch : List String} (now : Timestamp)
      (h : Course start log r) (hbatch : batch.Nodup) : Course start log (r.expire batch now)
  /-- A document that the platform lists is taken up. -/
  | adopted {log : Log} {r : UsernameRegistration} {d : Document} {documents : List Document}
      (now : Timestamp) (h : Course start log r)
      (hlisted : ⟨.findDocuments .domain (.ownedBy r.owner), .ok documents⟩ ∈ log)
      (hd : d ∈ documents) : Course start log (r.adopt d now).2

variable {start r r' : UsernameRegistration} {log later : Log} {batch names : List String}

theorem Course.goes (h : Course start log r) (hlog : Log.Goes Exchange.IsIdle log later) :
    Course start later r := by
  obtain ⟨es, rfl, hes⟩ := hlog
  induction es generalizing log with
  | nil => simpa using h
  | cons e es ih =>
    have hrest := ih (h.idle (hes e (by simp))) fun e' he' => hes e' (by simp [he'])
    simpa using hrest

theorem Course.lulls (h : Course start log r) (hlog : Log.Lulls log later) :
    Course start later r := by
  obtain ⟨es, rfl, hes⟩ := hlog
  exact h.goes ⟨es, rfl, fun e he => (hes e he).isIdle⟩

/-- A course goes on from where another one ended. -/
theorem Course.append (h : Course start log r) (h' : Course r later r') :
    Course start (log ++ later) r' := by
  induction h' with
  | begun => simpa using h
  | idle _ he ih => simpa using ih.idle he
  | enlisted salt now _ hlabel hstate ih => simpa using ih.enlisted salt now hlabel hstate
  | preordered signed receipt now _ hnames hstate ih =>
    simpa using ih.preordered signed receipt now hnames hstate
  | confirmed now _ hnames hstate hshown hholds ih =>
    exact ih.confirmed now hnames hstate (List.mem_append_right log hshown) hholds
  | revealed signed receipt now _ hnames hstate ih =>
    simpa using ih.revealed signed receipt now hnames hstate
  | registered now _ hnames hstate ih => exact ih.registered now hnames hstate
  | expired now _ hbatch ih => exact ih.expired now hbatch
  | adopted now _ hlisted hd ih => exact ih.adopted now (List.mem_append_right log hlisted) hd

theorem Course.setup_eq (h : Course start log r) : r.setup = start.setup := by
  induction h with
  | begun => rfl
  | _ => simp_all

/-- The claims of a registration are what claims of its owner on their names are. -/
def IsKept (r : UsernameRegistration) : Prop :=
  ∀ name c, r.find? name = some c → c.IsOf r.owner name

theorem isKept_of_empty (h : ∀ name, r.find? name = none) : r.IsKept := by
  intro name c hc
  rw [h] at hc
  cases hc

theorem IsKept.put (h : r.IsKept) {c : Claim} (hc : c.IsOf r.owner c.label.fullName) :
    (r.put c).IsKept := by
  intro name c' hc'
  rw [find?_put] at hc'
  split at hc'
  next heq =>
    obtain rfl : c = c' := by simpa using hc'
    exact heq ▸ hc
  next => exact h name c' hc'

theorem IsKept.advance (h : r.IsKept) (hnames : names.Nodup) (target : ClaimState)
    (now : Timestamp) : (r.advance names target now).IsKept := by
  intro name c hc
  rw [find?_advance hnames] at hc
  split at hc
  · obtain ⟨c', hc', rfl⟩ := Option.map_eq_some_iff.mp hc
    exact (h name c' hc').moved
  · exact h name c hc

theorem IsKept.expire (h : r.IsKept) (hbatch : batch.Nodup) (now : Timestamp) :
    (r.expire batch now).IsKept := by
  intro name c hc
  rw [find?_expire hbatch] at hc
  split at hc
  · obtain ⟨c', hc', rfl⟩ := Option.map_eq_some_iff.mp hc
    exact (h name c' hc').expire
  · exact h name c hc

/-- A registration with the same claims and the same owner is kept as well. -/
theorem IsKept.of_find? (h : r.IsKept) (hfind : ∀ name, r'.find? name = r.find? name)
    (hsetup : r'.setup = r.setup) : r'.IsKept := by
  intro name c hc
  rw [owner_eq_of_setup hsetup]
  exact h name c (hfind name ▸ hc)

theorem IsKept.adopt (h : r.IsKept) (d : Document) (now : Timestamp) : (r.adopt d now).2.IsKept := by
  cases hd : d.listed? with
  | none => rwa [adopt_unlisted hd]
  | some listed =>
    obtain ⟨label, salt, record⟩ := listed
    have hmark : (r.mark record label.fullName).IsKept := h.of_find? (by simp) (by simp)
    rw [adopt_listed hd]
    split
    · exact hmark
    · apply hmark.put
      rw [owner_eq_of_setup (setup_mark record label.fullName)]
      exact Claim.isOf_adopted (Document.readable_of_listed? hd) salt

theorem Course.isKept (h : Course start log r) (hstart : start.IsKept) : r.IsKept := by
  induction h with
  | begun => exact hstart
  | idle _ _ ih => exact ih
  | enlisted salt now _ hlabel _ ih => exact ih.put (Claim.isOf_fresh hlabel salt)
  | preordered _ _ now _ hnames _ ih => exact ih.advance hnames _ now
  | confirmed now _ hnames _ _ _ ih => exact ih.advance hnames _ now
  | revealed _ _ now _ hnames _ ih =>
    exact (ih.advance hnames .domainSubmitted now).of_find? (by simp) (by simp)
  | registered now _ hnames _ ih =>
    exact (ih.advance hnames .registered now).of_find? (by simp) (by simp)
  | expired now _ hbatch ih => exact ih.expire hbatch now
  | adopted now _ _ _ ih => exact ih.adopt _ now

theorem Course.outlives (h : Course start log r) : start.Outlives r := by
  induction h with
  | begun => exact .refl start
  | idle _ _ ih => exact ih
  | enlisted _ _ _ _ hstate ih => exact ih.trans (outlives_renewed hstate)
  | preordered _ _ now _ _ _ ih => exact ih.trans (outlives_advance _ _ now)
  | confirmed now _ _ _ _ _ ih => exact ih.trans (outlives_advance _ _ now)
  | revealed _ _ now _ _ _ ih =>
    exact (ih.trans (outlives_advance _ _ now)).trans (.of_find? fun _ => find?_notePrimary _)
  | registered now _ _ _ ih =>
    exact (ih.trans (outlives_advance _ _ now)).trans (.of_find? fun _ => find?_settlePrimary)
  | expired now _ _ ih => exact ih.trans (outlives_expire _ now)
  | adopted now _ _ _ ih => exact ih.trans (outlives_adopt _ now)

theorem Course.stateOf?_registered (h : Course start log r) {name : String}
    (hname : start.stateOf? name = some .registered) : r.stateOf? name = some .registered :=
  h.outlives.stateOf?_registered hname

/-- The platform showed a document of an owner that preorders a commitment. -/
def ShowsPreorder (owner : IdentityId) (log : Log) (d : Digest) : Prop :=
  ∃ filter documents, ⟨.findDocuments .preorder filter, .ok documents⟩ ∈ log ∧
    ∃ document ∈ documents, document.owner = owner ∧ document.commitment? = some d

omit [Suite] in
theorem ShowsPreorder.extend {owner : IdentityId} {d : Digest} (h : ShowsPreorder owner log d)
    (hlog : log <+: later) : ShowsPreorder owner later d := by
  obtain ⟨filter, documents, hmem, hdocument⟩ := h
  exact ⟨filter, documents, hlog.subset hmem, hdocument⟩

omit [Suite] in
theorem showsPreorder_of_holds {owner : IdentityId} {filter : Filter} {documents : List Document}
    {commitments : List Digest} (hshown : ⟨.findDocuments .preorder filter, .ok documents⟩ ∈ log)
    (hholds : holdsPreorders owner commitments documents) {d : Digest} (hd : d ∈ commitments) :
    ShowsPreorder owner log d := by
  unfold holdsPreorders at hholds
  have hfound := of_decide_eq_true (List.all_eq_true.mp hholds d hd)
  obtain ⟨document, hmem, hcommitment⟩ := List.mem_filterMap.mp hfound
  obtain ⟨hmem, howner⟩ := List.mem_filter.mp hmem
  exact ⟨filter, documents, hshown, document, hmem, of_decide_eq_true howner, hcommitment⟩

omit [Suite] in
/-- A claim is confirmed after some claims moved on if it is one of those that were confirmed now, or
was confirmed before. -/
theorem confirmed_of_advance {source target : ClaimState} (hnames : names.Nodup)
    (hstate : ∀ name ∈ names, r.stateOf? name = some source) (hnext : source.next? = some target)
    {name : String} {c : Claim} (hc : (r.advance names target now).find? name = some c)
    (hconfirmed : c.state = .preorderConfirmed) :
    target = .preorderConfirmed ∧ c.commitment ∈ r.commitmentsOn names ∨
      r.find? name = some c := by
  rcases find?_advance_cases hnames hstate hnext hc with ⟨old, hname, hold, rfl⟩ | ⟨-, hold⟩
  · have hclaim : old ∈ r.claimsOn names := mem_claimsOn.mpr ⟨name, hname, hold⟩
    have hcommitment : old.commitment ∈ r.commitmentsOn names := List.mem_map_of_mem hclaim
    exact .inl ⟨hconfirmed, hcommitment⟩
  · exact .inr hold

/-- The preorder of a claim is confirmed only by a document of the owner that the platform showed. -/
theorem Course.shows_confirmed (h : Course start log r) (hstart : ∀ name, start.find? name = none)
    {name : String} {c : Claim} (hc : r.find? name = some c) (hstate : c.state = .preorderConfirmed) :
    ShowsPreorder r.owner log c.commitment := by
  induction h generalizing c with
  | begun =>
    rw [hstart] at hc
    cases hc
  | idle _ _ ih => exact (ih hc hstate).extend (List.prefix_append _ _)
  | enlisted salt now _ _ _ ih =>
    rw [find?_put] at hc
    split at hc
    · obtain rfl := Option.some.inj hc
      cases hstate
    · exact (ih hc hstate).extend (List.prefix_append _ _)
  | preordered _ _ _ _ hnames hold ih =>
    rcases confirmed_of_advance hnames hold rfl hc hstate with ⟨htarget, -⟩ | hbefore
    · cases htarget
    · exact (ih hbefore hstate).extend (List.prefix_append _ _)
  | confirmed _ _ hnames hold hshown hholds ih =>
    rcases confirmed_of_advance hnames hold rfl hc hstate with ⟨-, hmem⟩ | hbefore
    · exact showsPreorder_of_holds hshown hholds hmem
    · exact ih hbefore hstate
  | revealed _ _ _ _ hnames hold ih =>
    rw [find?_notePrimary] at hc
    rcases confirmed_of_advance hnames hold rfl hc hstate with ⟨htarget, -⟩ | hbefore
    · cases htarget
    · rw [owner_eq_of_setup (setup_notePrimary _)]
      exact (ih hbefore hstate).extend (List.prefix_append _ _)
  | registered _ _ hnames hold ih =>
    rw [find?_settlePrimary] at hc
    rcases confirmed_of_advance hnames hold rfl hc hstate with ⟨htarget, -⟩ | hbefore
    · cases htarget
    · rw [owner_eq_of_setup setup_settlePrimary]
      exact ih hbefore hstate
  | expired now _ hbatch ih =>
    rcases find?_expire_cases hbatch hc with hbefore | ⟨old, -, rfl⟩
    · exact ih hbefore hstate
    · cases hstate
  | @adopted log r d _ now _ _ _ ih =>
    rw [owner_eq_of_setup setup_adopt]
    rcases r.find?_adopt_cases d now name with hsame | ⟨-, label, salt, -, -, hfound⟩
    · exact ih (hsame ▸ hc) hstate
    · rw [hfound] at hc
      obtain rfl := Option.some.inj hc
      cases hstate

end UsernameRegistration

end Enrolment
