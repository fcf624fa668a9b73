import Enrolment.Proofs.Platform.Share

/-!
What can happen to a platform, and what work does to one together with others.

Whatever others do to a platform is one of a few acts, and so is what it does to answer a request. An act
is characterised once by what it leaves of documents and of identities. Work plays with a platform if
its requests are answered one after the other while others act in between.
-/

namespace Enrolment

open Simulation

namespace Simulation

/-- What can be done to a platform. -/
inductive Act where
  | setDepth (transaction : TxId) (depth : UInt64)
  | refuseNext (refusals : List Refusal)
  | failNext (count : Nat)
  | releaseIdentities
  | releaseDocuments (kind : DocumentKind)
  | insertIdentity (identity : Identity)
  | insertDocuments (documents : List Document)
  | submit (t : Transition) (now : Timestamp)
  | findIdentity (id : IdentityId)
  | findDocuments (kind : DocumentKind) (filter : Filter)

namespace Platform

/-- A look for documents fails, or is answered with those that it concerns and can be seen. -/
theorem findDocuments_cases (p : Platform) (kind : DocumentKind) (filter : Filter) :
    (∃ e, (p.findDocuments kind filter).1 = .error e ∧
      (p.findDocuments kind filter).2.documents = p.documents) ∨
    ((p.findDocuments kind filter).1 = .ok ((p.documents.filter fun h =>
        concerns kind filter h.item).filterMap fun h => h.observe.1) ∧
      (p.findDocuments kind filter).2.documents =
        p.documents.map (observeThose (concerns kind filter))) := by
  unfold findDocuments query
  cases p.failing with
  | succ n => exact .inl ⟨_, rfl, rfl⟩
  | zero => exact .inr ⟨rfl, rfl⟩

theorem findIdentity_of_running {p : Platform} (hrunning : p.failing = 0) (owner : IdentityId) :
    p.findIdentity owner = (.ok ((p.identities.find? owner).bind fun h => h.observe.1),
      { p with
        queries := p.queries + 1
        identities := match p.identities.find? owner with
          | none => p.identities
          | some h => p.identities.insert owner h.observe.2 }) := by
  simp only [findIdentity, query, hrunning, seeIdentity]
  cases p.identities.find? owner <;> rfl

theorem findDocuments_of_running {p : Platform} (hrunning : p.failing = 0) (kind : DocumentKind)
    (filter : Filter) :
    p.findDocuments kind filter = (.ok ((p.documents.filter fun h =>
        concerns kind filter h.item).filterMap fun h => h.observe.1),
      { p with
        queries := p.queries + 1
        documents := p.documents.map (observeThose (concerns kind filter)) }) := by
  simp only [findDocuments, query, hrunning, seeDocuments]
  rfl

theorem findIdentity_documents (p : Platform) (id : IdentityId) :
    (p.findIdentity id).2.documents = p.documents := by
  unfold findIdentity query
  cases p.failing with
  | succ n => rfl
  | zero =>
    dsimp only [seeIdentity]
    split <;> rfl

variable [Suite]

/-- The platform after an act. -/
def after (p : Platform) : Act → Platform
  | .setDepth transaction depth => p.setDepth transaction depth
  | .refuseNext refusals => p.refuseNext refusals
  | .failNext count => p.failNext count
  | .releaseIdentities => p.releaseIdentities
  | .releaseDocuments kind => p.releaseDocuments kind
  | .insertIdentity identity => p.insertIdentity identity
  | .insertDocuments documents => p.insertDocuments documents
  | .submit t now => (p.submit t now).2
  | .findIdentity id => (p.findIdentity id).2
  | .findDocuments kind filter => (p.findDocuments kind filter).2

/-- What an answer does to the platform that gives it: nothing, or the act that was asked for. -/
def Answered (p : Platform) : Request → Platform → Prop
  | .submit t, p' => ∃ now, p' = p.after (.submit t now)
  | .findIdentity id, p' => p' = p.after (.findIdentity id)
  | .findDocuments kind filter, p' => p' = p.after (.findDocuments kind filter)
  | _, p' => p' = p

variable {p p' : Platform} {flag : Bool} {q : Request} {answer : q.Answer} {t : Transition}
  {now : Timestamp}

theorem Answers.answered (h : p.Answers flag q answer p') : p.Answered q p' := by
  cases q with
  | submit t =>
    obtain ⟨now, hnow⟩ := h
    exact ⟨now, (congrArg Prod.snd hnow).symm⟩
  | findIdentity id => exact (congrArg Prod.snd h).symm
  | findDocuments kind filter => exact (congrArg Prod.snd h).symm
  | isCancelled => exact h.2
  | pause millis => exact h.2
  | awaitDepth transaction depth => exact h.1
  | clearFlag => exact h
  | drawSalt label => exact h
  | time => exact h

/-- What acts preserve is preserved while requests are answered. -/
theorem Answered.keeps {P : Platform → Prop} (h : p.Answered q p')
    (hacts : ∀ act, P (p.after act)) (hp : P p) : P p' := by
  cases q with
  | submit t =>
    obtain ⟨now, rfl⟩ := h
    exact hacts _
  | findIdentity id =>
    rw [show p' = _ from h]
    exact hacts _
  | findDocuments kind filter =>
    rw [show p' = _ from h]
    exact hacts _
  | _ =>
    rw [show p' = p from h]
    exact hp

/-- A submission that no scripted refusal answers is decided by its check. -/
theorem submit_of_clear (hclear : p.refusals = []) (t : Transition) (now : Timestamp) :
    p.submit t now =
      match p.check t with
      | .error reason => (.error (.invalid reason), { p with submissions := p.submissions + 1 })
      | .ok () => (.ok ⟨t.id⟩, { p with submissions := p.submissions + 1 }.apply t now) := by
  unfold submit
  simp only [hclear]
  rfl

/-- A submission is carried out, or leaves identities and documents alone. -/
theorem submit_cases (p : Platform) (t : Transition) (now : Timestamp) :
    (p.refusals = [] ∧ p.check t = .ok () ∧ (p.submit t now).1 = .ok ⟨t.id⟩ ∧
      (p.submit t now).2 = { p with submissions := p.submissions + 1 }.apply t now) ∨
    ((∃ refusal, (p.submit t now).1 = .error refusal) ∧
      (p.submit t now).2.identities = p.identities ∧
      (p.submit t now).2.documents = p.documents) := by
  by_cases hclear : p.refusals = []
  · rw [submit_of_clear hclear]
    cases hcheck : p.check t with
    | error reason => exact .inr ⟨⟨_, rfl⟩, rfl, rfl⟩
    | ok u => exact .inl ⟨hclear, rfl, rfl, rfl⟩
  · obtain ⟨refusal, rest, hrefusals⟩ := List.exists_cons_of_ne_nil hclear
    have hrefused : p.submit t now = (.error refusal,
        { p with submissions := p.submissions + 1, refusals := rest }) := by
      unfold submit
      simp only [hrefusals]
    rw [hrefused]
    exact .inr ⟨⟨refusal, rfl⟩, rfl, rfl⟩

end Platform

namespace Hidden

variable {α : Type} {h : Hidden α}

theorem isVisible_iff : h.isVisible = true ↔ h.remaining = some 0 := decide_eq_true_iff

/-- What can be seen is seen, and is not changed by that. -/
theorem observe_of_isVisible (hvisible : h.isVisible = true) : h.observe = (some h.item, h) := by
  unfold observe
  rw [isVisible_iff.mp hvisible]

theorem release_of_isVisible (hvisible : h.isVisible = true) : h.release = h := by
  obtain ⟨item, remaining⟩ := h
  rw [isVisible_iff] at hvisible
  simp_all [release]

end Hidden

theorem observeThose_of_isVisible {h : Hidden Document} (concerned : Document → Bool)
    (hvisible : h.isVisible = true) : observeThose concerned h = h := by
  unfold observeThose
  rw [Hidden.observe_of_isVisible hvisible]
  exact ite_self h

namespace Platform

variable {p : Platform} {h : Hidden Document}

/-- A look sees the documents that it concerns and that can be seen. -/
theorem mem_seen {documents : List (Hidden Document)} {concerned : Document → Bool} {d : Document} :
    d ∈ (documents.filter fun h => concerned h.item).filterMap (fun h => h.observe.1) ↔
      concerned d ∧ ∃ h ∈ documents, h.item = d ∧ h.isVisible = true := by
  simp only [List.mem_filterMap, List.mem_filter, fst_observe]
  constructor
  · rintro ⟨h, ⟨hmem, hconcerned⟩, hseen⟩
    split at hseen
    next hremaining =>
      obtain rfl := Option.some.inj hseen
      exact ⟨hconcerned, h, hmem, rfl, Hidden.isVisible_iff.mpr hremaining⟩
    next => cases hseen
  · rintro ⟨hconcerned, h, hmem, rfl, hvisible⟩
    exact ⟨h, ⟨hmem, hconcerned⟩, if_pos (Hidden.isVisible_iff.mp hvisible)⟩

/-- Documents that a look was answered with are what was looked for, and can be seen by then. -/
theorem visible_of_findDocuments {kind : DocumentKind} {filter : Filter} {documents : List Document}
    {d : Document} (hfound : (p.findDocuments kind filter).1 = .ok documents) (hd : d ∈ documents) :
    concerns kind filter d ∧
      ∃ h ∈ (p.findDocuments kind filter).2.documents, h.item = d ∧ h.isVisible = true := by
  rcases p.findDocuments_cases kind filter with ⟨e, herror, -⟩ | ⟨hok, hafter⟩
  · rw [herror] at hfound
    cases hfound
  · rw [hok] at hfound
    obtain rfl := Except.ok.inj hfound
    obtain ⟨hconcerned, h, hmem, hitem, hvisible⟩ := mem_seen.mp hd
    refine ⟨hconcerned, h, ?_, hitem, hvisible⟩
    rw [hafter]
    exact List.mem_map.mpr ⟨h, hmem, observeThose_of_isVisible _ hvisible⟩

variable [Suite]

/-- What can be seen of documents stays so, whatever happens. -/
theorem mem_documents_after (act : Act) (hmem : h ∈ p.documents) (hvisible : h.isVisible = true) :
    h ∈ (p.after act).documents := by
  cases act with
  | releaseDocuments kind =>
    refine List.mem_map.mpr ⟨h, hmem, ?_⟩
    rw [Hidden.release_of_isVisible hvisible]
    exact ite_self h
  | insertDocuments documents => exact List.mem_append_left _ hmem
  | submit t now =>
    rcases p.submit_cases t now with ⟨-, -, -, hafter⟩ | ⟨-, -, hafter⟩
    · rw [after, hafter]
      exact List.mem_append_left _ hmem
    · rwa [after, hafter]
  | findIdentity id => rwa [after, findIdentity_documents]
  | findDocuments kind filter =>
    rcases p.findDocuments_cases kind filter with ⟨-, -, hafter⟩ | ⟨-, hafter⟩
    · rwa [after, hafter]
    · rw [after, hafter]
      exact List.mem_map.mpr ⟨h, hmem, observeThose_of_isVisible _ hvisible⟩
  | _ => exact hmem

/-- Whatever happens, a document that is kept was kept before, was inserted, or is left by a transition
that passed its check. -/
theorem of_mem_documents_after (act : Act) (hmem : h ∈ (p.after act).documents) :
    (∃ h₀ ∈ p.documents, h₀.item = h.item) ∨
    (∃ documents, act = .insertDocuments documents ∧ h.item ∈ documents) ∨
    ∃ t now, act = .submit t now ∧ p.check t = .ok () ∧ h.item ∈ Document.ofTransition t := by
  cases act with
  | releaseDocuments kind =>
    obtain ⟨h₀, hmem₀, rfl⟩ := List.mem_map.mp hmem
    refine .inl ⟨h₀, hmem₀, ?_⟩
    split <;> rfl
  | insertDocuments documents =>
    rcases List.mem_append.mp hmem with hold | hnew
    · exact .inl ⟨h, hold, rfl⟩
    · obtain ⟨d, hd, rfl⟩ := List.mem_map.mp hnew
      exact .inr (.inl ⟨documents, rfl, hd⟩)
  | submit t now =>
    rcases p.submit_cases t now with ⟨-, hcheck, -, hafter⟩ | ⟨-, -, hafter⟩
    · rw [after, hafter] at hmem
      rcases List.mem_append.mp hmem with hold | hnew
      · exact .inl ⟨h, hold, rfl⟩
      · obtain ⟨d, hd, rfl⟩ := List.mem_map.mp hnew
        exact .inr (.inr ⟨t, now, rfl, hcheck, hd⟩)
    · rw [after, hafter] at hmem
      exact .inl ⟨h, hmem, rfl⟩
  | findIdentity id =>
    rw [after, findIdentity_documents] at hmem
    exact .inl ⟨h, hmem, rfl⟩
  | findDocuments kind filter =>
    rcases p.findDocuments_cases kind filter with ⟨-, -, hafter⟩ | ⟨-, hafter⟩
    · rw [after, hafter] at hmem
      exact .inl ⟨h, hmem, rfl⟩
    · rw [after, hafter] at hmem
      obtain ⟨h₀, hmem₀, rfl⟩ := List.mem_map.mp hmem
      exact .inl ⟨h₀, hmem₀, (item_observeThose _ h₀).symm⟩
  | _ => exact .inl ⟨h, hmem, rfl⟩

/-- A document that is kept after an answer was kept before, or is left by a transition that was
accepted. -/
theorem of_mem_documents_answered {p' : Platform} {flag : Bool} {q : Request} {answer : q.Answer}
    (hanswer : p.Answers flag q answer p') (hmem : h ∈ p'.documents) :
    (∃ h₀ ∈ p.documents, h₀.item = h.item) ∨
      ∃ t, Exchange.accepted? ⟨q, answer⟩ = some t ∧ h.item ∈ Document.ofTransition t := by
  have hact (act : Act) (hafter : p' = p.after act) (hinserts : ∀ ds, act ≠ .insertDocuments ds)
      (hsubmits : ∀ t now, act ≠ .submit t now) : ∃ h₀ ∈ p.documents, h₀.item = h.item := by
    rw [hafter] at hmem
    rcases of_mem_documents_after act hmem with hold | ⟨ds, heq, -⟩ | ⟨t, now, heq, -⟩
    · exact hold
    · exact absurd heq (hinserts ds)
    · exact absurd heq (hsubmits t now)
  have hanswered := hanswer.answered
  cases q with
  | submit t =>
    obtain ⟨now, hdecided⟩ := hanswer
    rcases p.submit_cases t now with ⟨-, -, hok, hafter⟩ | ⟨-, -, hafter⟩
    · rw [hdecided] at hok hafter
      obtain rfl : answer = .ok ⟨t.id⟩ := hok
      obtain rfl : p' = _ := hafter
      rcases List.mem_append.mp hmem with hold | hnew
      · exact .inl ⟨h, hold, rfl⟩
      · obtain ⟨d, hd, rfl⟩ := List.mem_map.mp hnew
        exact .inr ⟨t, rfl, hd⟩
    · rw [hdecided] at hafter
      exact .inl ⟨h, hafter ▸ hmem, rfl⟩
  | findIdentity id =>
    exact .inl (hact (.findIdentity id) hanswered (by simp) (by simp))
  | findDocuments kind filter =>
    exact .inl (hact (.findDocuments kind filter) hanswered (by simp) (by simp))
  | _ =>
    obtain rfl : p' = p := hanswered
    exact .inl ⟨h, hmem, rfl⟩

end Platform

end Simulation

namespace Task

variable [Suite] {σ α : Type}

/-- What work and a platform become when the platform answers the work and others act in between. When
the flag is set and cleared does not matter. -/
inductive Plays (others : Act → Prop) (p : Platform) (t : Task σ α) :
    Log → Platform → Task σ α → Prop where
  | here : Plays others p t [] p t
  | disturbed {es : Log} {p' : Platform} {t' : Task σ α} (h : Plays others p t es p' t') (act : Act)
      (hact : others act) : Plays others p t es (p'.after act) t'
  | answered {es : Log} {p' p'' : Platform} {s : σ} {q : Request} {next : q.Answer → Task σ α}
      (flag : Bool) (answer : q.Answer) (h : Plays others p t es p' (.ask s q next))
      (hanswer : p'.Answers flag q answer p'') :
      Plays others p t (es ++ [⟨q, answer⟩]) p'' (next answer)

variable {others : Act → Prop} {p p' : Platform} {t t' : Task σ α} {es log : Log}

theorem Plays.reaches (h : Plays others p t es p' t') : Reaches t es t' := by
  induction h with
  | here => exact .here t
  | disturbed _ _ _ ih => exact ih
  | answered _ answer _ _ ih => exact ih.trans (.answered answer (.here _))

/-- What every act of others and every answer preserves holds along a play. What is known of a request
may be used for its answer. -/
theorem Plays.keeps_guarded {guard : Log → σ → Request → Prop} {post : Log → σ → α → Prop}
    {J : Log → Platform → Prop} (h : Plays others p t es p' t') (hmeets : t.Meets guard post log)
    (hstart : J log p) (hother : ∀ log p act, others act → J log p → J log (p.after act))
    (hanswer : ∀ log p s flag q answer p', guard log s q → p.Answers flag q answer p' → J log p →
      J (log ++ [⟨q, answer⟩]) p') :
    J (log ++ es) p' := by
  induction h with
  | here => simpa using hstart
  | disturbed _ act hact ih => exact hother _ _ act hact ih
  | answered flag answer hplays hanswered ih =>
    have hguard := (hmeets.reaches hplays.reaches).1
    rw [← List.append_assoc]
    exact hanswer _ _ _ flag _ answer _ hguard hanswered ih

theorem Plays.keeps {J : Log → Platform → Prop} (h : Plays others p t es p' t') (hstart : J log p)
    (hother : ∀ log p act, others act → J log p → J log (p.after act))
    (hanswer : ∀ log p flag q answer p', p.Answers flag q answer p' → J log p →
      J (log ++ [⟨q, answer⟩]) p') :
    J (log ++ es) p' := by
  induction h with
  | here => simpa using hstart
  | disturbed _ act hact ih => exact hother _ _ act hact ih
  | answered flag answer _ hanswered ih =>
    rw [← List.append_assoc]
    exact hanswer _ _ flag _ answer _ hanswered ih

/-- An answer that comes first. -/
theorem Plays.cons {s : σ} {q : Request} {next : q.Answer → Task σ α} {p'' : Platform} (flag : Bool)
    (answer : q.Answer) (hanswer : p.Answers flag q answer p')
    (h : Plays others p' (next answer) es p'' t') :
    Plays others p (.ask s q next) (⟨q, answer⟩ :: es) p'' t' := by
  induction h with
  | here => exact Plays.here.answered flag answer hanswer
  | disturbed _ act hact ih => exact ih.disturbed act hact
  | answered flag' answer' _ hanswer' ih => exact ih.answered flag' answer' hanswer'

end Task

/-- How a platform answers if nothing interferes and no time passes. -/
def Simulation.Platform.reply [Suite] (p : Platform) : (q : Request) → q.Answer × Platform
  | .isCancelled => (false, p)
  | .clearFlag => ((), p)
  | .pause _ => (false, p)
  | .submit t => p.submit t .epoch
  | .awaitDepth transaction required =>
    (if required ≤ p.depth transaction then some (.ok (p.depth transaction)) else none, p)
  | .findIdentity id => p.findIdentity id
  | .findDocuments kind filter => p.findDocuments kind filter
  | .drawSalt _ => (⟨.zero⟩, p)
  | .time => (.epoch, p)

theorem Simulation.Platform.answers_reply [Suite] (p : Platform) (q : Request) :
    ∃ flag, p.Answers flag q (p.reply q).1 (p.reply q).2 := by
  cases q with
  | isCancelled => exact ⟨false, rfl, rfl⟩
  | clearFlag => exact ⟨false, rfl⟩
  | pause millis => exact ⟨false, nofun, rfl⟩
  | submit t => exact ⟨false, .epoch, rfl⟩
  | awaitDepth transaction required =>
    by_cases hdeep : required ≤ p.depth transaction
    · have hreply : p.reply (.awaitDepth transaction required) =
          (some (.ok (p.depth transaction)), p) := by simp [reply, hdeep]
      rw [hreply]
      exact ⟨false, rfl, rfl, hdeep⟩
    · have hreply : p.reply (.awaitDepth transaction required) = (none, p) := by simp [reply, hdeep]
      rw [hreply]
      exact ⟨true, rfl, rfl⟩
  | findIdentity id => exact ⟨false, rfl⟩
  | findDocuments kind filter => exact ⟨false, rfl⟩
  | drawSalt label => exact ⟨false, rfl⟩
  | time => exact ⟨false, rfl⟩

namespace Task

variable {σ α : Type}

/-- The transition that work is about to submit. -/
def submitting? : Task σ α → Option Transition
  | .ask _ (.submit t) _ => some t
  | _ => none

theorem eq_of_submitting? {work : Task σ α} {t : Transition} (h : work.submitting? = some t) :
    ∃ s next, work = .ask s (.submit t) next := by
  unfold submitting? at h
  split at h
  next s t' next =>
    obtain rfl := Option.some.inj h
    exact ⟨s, next, rfl⟩
  next => cases h

theorem eq_done_of_result? {work : Task σ α} {a : α} (h : work.result? = some a) :
    work = .done work.state a := by
  cases work with
  | done s b =>
    obtain rfl := Option.some.inj h
    rfl
  | ask s q next => cases h

variable [Suite]

/-- Work that a platform answers by itself, up to a request at which it is to halt. -/
def playOn (halt : Request → Bool) : Platform → Task σ α → Log × Platform × Task σ α
  | p, .done s a => ([], p, .done s a)
  | p, .ask s q next =>
    if halt q then ([], p, .ask s q next)
    else
      let (answer, p') := p.reply q
      let (es, ended) := (next answer).playOn halt p'
      (⟨q, answer⟩ :: es, ended)

theorem plays_playOn (others : Act → Prop) (halt : Request → Bool) (p : Platform) (t : Task σ α) :
    Plays others p t (t.playOn halt p).1 (t.playOn halt p).2.1 (t.playOn halt p).2.2 := by
  induction t generalizing p with
  | done s a => exact .here
  | ask s q next ih =>
    unfold playOn
    split
    · exact .here
    · obtain ⟨flag, hanswer⟩ := p.answers_reply q
      exact .cons flag _ hanswer (ih _ _)

end Task

end Enrolment
