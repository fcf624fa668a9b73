import Enrolment.Proofs.Platform.Names

/-!
What documents are named by. The bytes that a document is named by hold a tag and then a commitment, or a
parent domain and a label with nothing between them. They determine the kind of a document, its
commitment and, within a parent, its label. Where the end of a parent can be read as the beginning of a
label, two names share their bytes.
-/

namespace Enrolment

namespace Document

/-- The bytes whose digest names a document. -/
def idBytes (d : Document) : Bytes :=
  match d.data with
  | .preorder commitment => preorderName commitment
  | .domain _ normalized parent _ _ => domainName normalized parent

/-- Documents of one commitment, or of one name. -/
def SameSubject (d d' : Document) : Prop := d.commitment? = d'.commitment? ∧ d.name? = d'.name?

/-- A document whose name, if it has one, is spelt as it reads. -/
def IsPlain (d : Document) : Prop := d.name? ≠ none → d.SpellsItself

/-- Names of which one begins its label with what the other ends its parent with. -/
def Straddles (name other : String × String) : Prop :=
  ∃ shared : String, shared ≠ "" ∧ '.' ∉ shared.toList ∧ name.1 = shared ++ other.1 ∧
    other.2 = name.2 ++ shared

variable {name other : String × String}

theorem Straddles.joined_eq (h : Straddles name other) :
    name.2 ++ name.1 = other.2 ++ other.1 := by
  obtain ⟨shared, -, -, hlabel, hparent⟩ := h
  rw [hlabel, hparent, String.append_assoc]

/-- A label that goes on where its parent ends is the other label, or straddles. -/
theorem eq_or_straddles {shared : List Char} (hdot : '.' ∉ name.1.toList)
    (hlabel : name.1.toList = shared ++ other.1.toList)
    (hparent : other.2.toList = name.2.toList ++ shared) : name = other ∨ Straddles name other := by
  by_cases hshared : shared = []
  · subst hshared
    refine .inl (Prod.ext (String.toList_inj.mp hlabel) (String.toList_inj.mp ?_))
    rw [hparent, List.append_nil]
  · refine .inr ⟨String.ofList shared, by simpa using hshared, ?_, ?_, ?_⟩
    · rw [hlabel] at hdot
      simp_all
    · exact String.toList_inj.mp (by simp [hlabel])
    · exact String.toList_inj.mp (by simp [hparent])

theorem joined_eq_iff (hname : '.' ∉ name.1.toList) (hother : '.' ∉ other.1.toList) :
    name.2 ++ name.1 = other.2 ++ other.1 ↔
      name = other ∨ Straddles name other ∨ Straddles other name := by
  constructor
  · intro h
    have hchars : name.2.toList ++ name.1.toList = other.2.toList ++ other.1.toList := by
      simpa using congrArg String.toList h
    rcases List.append_eq_append_iff.mp hchars with ⟨shared, hparent, hlabel⟩ |
      ⟨shared, hparent, hlabel⟩
    · exact (eq_or_straddles hname hlabel hparent).imp_right .inl
    · exact (eq_or_straddles hother hlabel hparent).elim (.inl ·.symm) (.inr ∘ .inr)
  · rintro (rfl | h | h)
    · rfl
    · exact h.joined_eq
    · exact h.joined_eq.symm

theorem preorderName_inj {c c' : Digest} (h : preorderName c = preorderName c') : c = c' :=
  Bytes32.toList_inj.mp (List.append_cancel_left h)

theorem domainName_eq_iff :
    domainName name.1 name.2 = domainName other.1 other.2 ↔
      name.2 ++ name.1 = other.2 ++ other.1 := by
  unfold domainName
  rw [List.append_assoc, List.append_assoc, List.append_cancel_left_eq, ← Bytes.ofText_append,
    ← Bytes.ofText_append, Bytes.ofText_inj]

/-- The tags differ in their first letter. -/
theorem preorderName_ne_domainName (c : Digest) (normalized parent : String) :
    preorderName c ≠ domainName normalized parent := by
  intro h
  have hpreorder : (Bytes.ofText "preorder").head? = some 112 := by decide
  have hdomain : (Bytes.ofText "domain").head? = some 100 := by decide
  have hfirst := congrArg List.head? h
  simp [preorderName, domainName, List.head?_append, hpreorder, hdomain] at hfirst

variable {d d' : Document}

theorem IsPlain.dot_not_mem (h : d.IsPlain) (hname : d.name? = some name) :
    '.' ∉ name.1.toList := by
  obtain ⟨label, hread, hlabel⟩ := h (by simp [hname])
  cases hname.symm.trans hlabel
  exact hread.dot_not_mem

theorem idBytes_of_commitment? {c : Digest} (h : d.commitment? = some c) :
    d.idBytes = preorderName c ∧ d.name? = none := by
  unfold commitment? at h
  unfold idBytes name?
  split at h
  · cases h
    simp_all
  · cases h

theorem idBytes_of_name? (h : d.name? = some name) :
    d.idBytes = domainName name.1 name.2 ∧ d.commitment? = none := by
  unfold name? at h
  unfold idBytes commitment?
  split at h
  · cases h
  · cases h
    simp_all

theorem commitment?_or_name? (d : Document) :
    (∃ c, d.commitment? = some c) ∨ ∃ name, d.name? = some name := by
  unfold commitment? name?
  cases d.data with
  | preorder c => exact .inl ⟨c, rfl⟩
  | domain label normalized parent salt record => exact .inr ⟨_, rfl⟩

section Naming

variable [Suite] {t t' : Transition}

theorem id_of_mem (h : d ∈ ofTransition t) : d.id = Suite.hash d.idBytes := by
  unfold ofTransition at h
  split at h
  · cases h
  · obtain ⟨c, -, rfl⟩ := List.mem_map.mp h
    rfl
  · obtain ⟨e, -, rfl⟩ := List.mem_map.mp h
    rfl

/-- Documents of accepted transitions are named by one digest of bytes that tell the subjects apart,
except for names that straddle. -/
theorem idBytes_eq_iff (hd : d ∈ ofTransition t) (hd' : d' ∈ ofTransition t') (hplain : d.IsPlain)
    (hplain' : d'.IsPlain) :
    d.id = Suite.hash d.idBytes ∧ d'.id = Suite.hash d'.idBytes ∧
      (d.idBytes = d'.idBytes ↔ d.SameSubject d' ∨
        ∃ name other, d.name? = some name ∧ d'.name? = some other ∧
          (Straddles name other ∨ Straddles other name)) := by
  refine ⟨id_of_mem hd, id_of_mem hd', ?_⟩
  unfold SameSubject
  rcases d.commitment?_or_name? with ⟨c, hc⟩ | ⟨name, hname⟩ <;>
    rcases d'.commitment?_or_name? with ⟨c', hc'⟩ | ⟨other, hother⟩
  · obtain ⟨hbytes, hnone⟩ := idBytes_of_commitment? hc
    obtain ⟨hbytes', hnone'⟩ := idBytes_of_commitment? hc'
    have hinj : preorderName c = preorderName c' ↔ c = c' :=
      ⟨preorderName_inj, congrArg preorderName⟩
    simp [hbytes, hbytes', hc, hc', hnone, hnone', hinj]
  · obtain ⟨hbytes, hnone⟩ := idBytes_of_commitment? hc
    obtain ⟨hbytes', hnone'⟩ := idBytes_of_name? hother
    simp [hbytes, hbytes', hc, hnone, hnone', preorderName_ne_domainName]
  · obtain ⟨hbytes, hnone⟩ := idBytes_of_name? hname
    obtain ⟨hbytes', hnone'⟩ := idBytes_of_commitment? hc'
    simp [hbytes, hbytes', hc', hnone, hnone', (preorderName_ne_domainName _ _ _).symm]
  · obtain ⟨hbytes, hnone⟩ := idBytes_of_name? hname
    obtain ⟨hbytes', hnone'⟩ := idBytes_of_name? hother
    have hjoined := joined_eq_iff (hplain.dot_not_mem hname) (hplain'.dot_not_mem hother)
    simp [hbytes, hbytes', hname, hother, hnone, hnone', domainName_eq_iff, hjoined]

end Naming

end Document

namespace Sample

/-- The document that a name leaves. -/
def documentOf (normalized parent : String) : Document :=
  @Document.ofEntry .standard ⟨.zero⟩ .epoch
    ⟨normalized, normalized, parent, ⟨.zero⟩, .unique ⟨.zero⟩⟩

/-- The document that a commitment leaves. -/
def committedZero : Document := @Document.ofCommitment .standard ⟨.zero⟩ .epoch .zero

/-- A registration of two names that straddle. -/
def straddling : Transition :=
  @Transition.sign .standard
    (.registerDomains ⟨.zero⟩ [⟨"alice", "alice", "dash", ⟨.zero⟩, .unique ⟨.zero⟩⟩,
      ⟨"halice", "halice", "das", ⟨.zero⟩, .unique ⟨.zero⟩⟩])
    .epoch ⟨.zero⟩

def committingZero : Transition :=
  @Transition.sign .standard (.preorder ⟨.zero⟩ [.zero]) .epoch ⟨.zero⟩

theorem isPlain_documentOf {normalized parent : String}
    (h : Label.parse normalized parent = .ok ⟨normalized, normalized, parent⟩) :
    (documentOf normalized parent).IsPlain :=
  fun _ => ⟨⟨normalized, normalized, parent⟩, ⟨normalized, parent, h⟩, rfl⟩

end Sample

namespace Document

open Sample

/-- A name and a commitment have bytes of their own; two names that straddle do not. -/
theorem idBytes_eq_iff_alice :
    (documentOf "alice" "dash").idBytes ≠ committedZero.idBytes ∧
      (documentOf "alice" "dash").idBytes = (documentOf "halice" "das").idBytes := by
  have halice : documentOf "alice" "dash" ∈ @ofTransition .standard straddling := by decide +kernel
  have hhalice : documentOf "halice" "das" ∈ @ofTransition .standard straddling := by decide +kernel
  have hzero : committedZero ∈ @ofTransition .standard committingZero := by decide +kernel
  have hplain : (documentOf "alice" "dash").IsPlain := isPlain_documentOf rfl
  constructor
  · obtain ⟨-, -, hiff⟩ := @idBytes_eq_iff _ _ .standard _ _ halice hzero hplain nofun
    rw [ne_eq, hiff]
    rintro (hsame | ⟨name, other, -, hother, -⟩)
    · exact absurd hsame.1 (by decide)
    · exact nomatch hother
  · obtain ⟨-, -, hiff⟩ := @idBytes_eq_iff _ _ .standard _ _ halice hhalice hplain (isPlain_documentOf rfl)
    exact hiff.mpr (.inr ⟨_, _, rfl, rfl, .inr ⟨"h", by decide, by decide, rfl, rfl⟩⟩)

/-- Two names of one registration, both spelt as they read, leave documents of one digest. -/
theorem exists_id_eq_of_straddling :
    ∃ d ∈ @ofTransition .standard straddling, ∃ d' ∈ @ofTransition .standard straddling,
      d.IsPlain ∧ d'.IsPlain ∧ d.idBytes = d'.idBytes ∧ d.id = d'.id ∧ ¬ d.SameSubject d' := by
  refine ⟨documentOf "alice" "dash", by decide +kernel, documentOf "halice" "das", by decide +kernel,
    isPlain_documentOf rfl, isPlain_documentOf rfl, by decide, by decide +kernel, ?_⟩
  exact fun h => absurd h.2 (by decide)

end Document

end Enrolment
