import Enrolment.Identity.Record
import Enrolment.Name.Claim
import Enrolment.Proofs.Codec.Records
import Enrolment.Registration.Settings
import Enrolment.Registry.Document

/-!
Every value that is stored or exchanged reads back from what is written of it, as bytes and as JSON.
The bytes that are signed therefore determine what is signed.

The formats are gone through from the parts to the whole. The names of the fields of a record are
compared once, where its format is put together, and so are those of the cases of a type.
-/

namespace Enrolment

open Fields (isLawful_last)

namespace Format

section Credit

theorem isLawful_txId : txId.IsLawful := isLawful_bytes32.via fun _ => rfl

theorem isLawful_identityId : identityId.IsLawful := isLawful_bytes32.via fun _ => rfl

theorem isLawful_outPoint : outPoint.IsLawful :=
  ((isLawful_last isLawful_uint32 _).cons isLawful_txId (by decide)).record fun _ => rfl

theorem isLawful_outputKind : outputKind.IsLawful := by
  apply isLawful_cases _ (by decide) (by decide)
  · rintro (_ | _) <;> simp [Case.record]
  · simp only [List.forall_mem_cons, List.not_mem_nil, false_implies, implies_true, and_true]
    constructor
    · apply Case.isLawful_record (isLawful_last isLawful_bytes32 _)
      rintro (_ | _) _ ⟨⟩
      rfl
    · apply Case.isLawful_record (isLawful_last isLawful_publicKey _)
      rintro (_ | _) _ ⟨⟩
      rfl

theorem isLawful_txOutput : txOutput.IsLawful :=
  ((isLawful_last isLawful_outputKind _).cons isLawful_uint64 (by decide)).record fun _ => rfl

theorem isLawful_transaction : transaction.IsLawful :=
  ((isLawful_last isLawful_txOutput.list _).cons isLawful_txId (by decide)).record fun _ => rfl

theorem isLawful_creditLock : creditLock.IsLawful :=
  ((isLawful_last isLawful_identityId _).cons isLawful_publicKey (by decide)
    |>.cons isLawful_uint64 (by decide) |>.cons isLawful_outPoint (by decide)
    |>.cons isLawful_txId (by decide)).record fun _ => rfl

end Credit

section Identities

theorem isLawful_identityState : identityState.IsLawful := by
  apply isLawful_cases _ (by decide) (by decide)
  · rintro (_ | _) <;> simp [Case.single]
  · simp [Case.isLawful_single]

theorem isLawful_identity : identity.IsLawful := by
  have hregistered := isLawful_timestamp.option fun t => by simp [timestamp, refine, text]
  exact ((isLawful_last hregistered _).cons isLawful_creditLock (by decide)
    |>.cons isLawful_identityState (by decide) |>.cons isLawful_keySet (by decide)
    |>.cons isLawful_identityId (by decide)).record fun _ => rfl

end Identities

section Names

theorem isLawful_label : label.IsLawful :=
  ((isLawful_last isLawful_text _).cons isLawful_text (by decide)
    |>.cons isLawful_text (by decide)).record fun _ => rfl

theorem isLawful_salt : salt.IsLawful := isLawful_bytes32.via fun _ => rfl

theorem isLawful_claimState : claimState.IsLawful := by
  apply isLawful_cases _ (by decide) (by decide)
  · rintro (_ | _ | _ | _ | _ | _) <;> simp [Case.single]
  · simp [Case.isLawful_single]

theorem isLawful_claim : claim.IsLawful :=
  ((isLawful_last isLawful_timestamp _).cons isLawful_claimState.list (by decide)
    |>.cons isLawful_claimState (by decide) |>.cons isLawful_bytes32 (by decide)
    |>.cons isLawful_salt (by decide) |>.cons isLawful_identityId (by decide)
    |>.cons isLawful_label (by decide)).record fun _ => rfl

end Names

section Transitions

theorem isLawful_domainRecord : domainRecord.IsLawful := by
  apply isLawful_cases _ (by decide) (by decide)
  · rintro (_ | _) <;> simp [Case.wrapped]
  · simp only [List.forall_mem_cons, List.not_mem_nil, false_implies, implies_true, and_true]
    constructor
    · apply Case.isLawful_wrapped isLawful_identityId
      rintro (_ | _) _ ⟨⟩
      rfl
    · apply Case.isLawful_wrapped isLawful_identityId
      rintro (_ | _) _ ⟨⟩
      rfl

theorem isLawful_domainEntry : domainEntry.IsLawful :=
  ((isLawful_last isLawful_domainRecord _).cons isLawful_salt (by decide)
    |>.cons isLawful_text (by decide) |>.cons isLawful_text (by decide)
    |>.cons isLawful_text (by decide)).record fun _ => rfl

theorem isLawful_operation : operation.IsLawful := by
  apply isLawful_cases _ (by decide) (by decide)
  · rintro (_ | _ | _) <;> simp [Case.record]
  · simp only [List.forall_mem_cons, List.not_mem_nil, false_implies, implies_true, and_true]
    refine ⟨?_, ?_, ?_⟩
    · apply Case.isLawful_record ((isLawful_last isLawful_publicKey.list _).cons isLawful_creditLock
        (by decide) |>.cons isLawful_identityId (by decide))
      rintro (_ | _ | _) _ ⟨⟩
      rfl
    · apply Case.isLawful_record ((isLawful_last isLawful_bytes32.list _).cons isLawful_identityId
        (by decide))
      rintro (_ | _ | _) _ ⟨⟩
      rfl
    · apply Case.isLawful_record ((isLawful_last isLawful_domainEntry.list _).cons
        isLawful_identityId (by decide))
      rintro (_ | _ | _) _ ⟨⟩
      rfl

theorem isLawful_signed : signed.IsLawful :=
  ((isLawful_last isLawful_publicKey _).cons isLawful_timestamp (by decide)
    |>.cons isLawful_operation (by decide)).record fun _ => rfl

theorem isLawful_transition : transition.IsLawful :=
  ((isLawful_last isLawful_signature _).cons isLawful_publicKey (by decide)
    |>.cons isLawful_timestamp (by decide) |>.cons isLawful_operation (by decide)).record fun _ => rfl

end Transitions

section Documents

theorem isLawful_documentData : documentData.IsLawful := by
  apply isLawful_cases _ (by decide) (by decide)
  · rintro (_ | _) <;> simp [Case.record]
  · simp only [List.forall_mem_cons, List.not_mem_nil, false_implies, implies_true, and_true]
    constructor
    · apply Case.isLawful_record (isLawful_last isLawful_bytes32 _)
      rintro (_ | _) _ ⟨⟩
      rfl
    · apply Case.isLawful_record ((isLawful_last isLawful_domainRecord _).cons isLawful_salt
        (by decide) |>.cons isLawful_text (by decide) |>.cons isLawful_text (by decide)
        |>.cons isLawful_text (by decide))
      rintro (_ | _) _ ⟨⟩
      rfl

theorem isLawful_document : document.IsLawful :=
  ((isLawful_last isLawful_timestamp _).cons isLawful_documentData (by decide)
    |>.cons isLawful_identityId (by decide) |>.cons isLawful_bytes32 (by decide)).record fun _ => rfl

theorem isLawful_filter : filter.IsLawful := by
  apply isLawful_cases _ (by decide) (by decide)
  · rintro (_ | _ | _) <;> simp [Case.record, Case.wrapped]
  · simp only [List.forall_mem_cons, List.not_mem_nil, false_implies, implies_true, and_true]
    refine ⟨?_, ?_, ?_⟩
    · apply Case.isLawful_wrapped isLawful_bytes32.list
      rintro (_ | _ | _) _ ⟨⟩
      rfl
    · apply Case.isLawful_record ((isLawful_last isLawful_text.list _).cons isLawful_text (by decide))
      rintro (_ | _ | _) _ ⟨⟩
      rfl
    · apply Case.isLawful_wrapped isLawful_identityId
      rintro (_ | _ | _) _ ⟨⟩
      rfl

end Documents

section Schedules

theorem isLawful_backoff : backoff.IsLawful := by
  apply isLawful_cases _ (by decide) (by decide)
  · rintro (_ | _ | _) <;> simp [Case.single, Case.record]
  · simp only [List.forall_mem_cons, List.not_mem_nil, false_implies, implies_true, and_true]
    refine ⟨Case.isLawful_single _ _, Case.isLawful_single _ _, ?_⟩
    apply Case.isLawful_record (isLawful_last isLawful_uint16 _)
    rintro (_ | _ | _) _ ⟨⟩
    rfl

theorem isLawful_schedule : schedule.IsLawful := by
  have hbound := isLawful_uint64.option fun n => by simp [uint64, via, natural]
  exact ((isLawful_last hbound _).cons isLawful_backoff (by decide)
    |>.cons isLawful_uint64 (by decide) |>.cons isLawful_uint32 (by decide)).record fun _ => rfl

theorem isLawful_settings : settings.IsLawful :=
  ((isLawful_last isLawful_text _).cons isLawful_schedule (by decide)
    |>.cons isLawful_schedule (by decide) |>.cons isLawful_schedule (by decide)
    |>.cons isLawful_schedule (by decide) |>.cons isLawful_uint64 (by decide)).record fun _ => rfl

end Schedules

/-- A value reads back from its JSON form, and from its byte form where the length of that fits a field
of eight bytes, as it does for every byte string in a memory. -/
def ReadsBack {α : Type} (f : Format α) : Prop :=
  ∀ a, f.ofJson? (f.toJson a) = some a ∧
    ((f.encode a).length < Nat.pow 256 8 → f.ofBytes (f.encode a) = .ok a)

theorem IsLawful.readsBack {α : Type} {f : Format α} (hf : f.IsLawful) : f.ReadsBack := by
  intro a
  constructor
  · exact hf.ofJson?_toJson a
  · intro h
    simpa using hf.ofBytes_encode h []

/-- Both forms of a value that is stored or exchanged read back as that value, so that they read back
alike. -/
theorem values_readsBack :
    transaction.ReadsBack ∧ creditLock.ReadsBack ∧ identity.ReadsBack ∧ claim.ReadsBack ∧
      transition.ReadsBack ∧ document.ReadsBack ∧ filter.ReadsBack ∧ schedule.ReadsBack ∧
      settings.ReadsBack := by
  refine ⟨?_, ?_, ?_, ?_, ?_, ?_, ?_, ?_, ?_⟩
  · exact isLawful_transaction.readsBack
  · exact isLawful_creditLock.readsBack
  · exact isLawful_identity.readsBack
  · exact isLawful_claim.readsBack
  · exact isLawful_transition.readsBack
  · exact isLawful_document.readsBack
  · exact isLawful_filter.readsBack
  · exact isLawful_schedule.readsBack
  · exact isLawful_settings.readsBack

/-- The bytes of the settings that are used where none are given. -/
theorem default_settings_readBack :
    (settings.encode .default).length < Nat.pow 256 8 ∧
      settings.ofBytes (settings.encode .default) = .ok .default := by
  have hlength : (settings.encode .default).length < Nat.pow 256 8 := by decide +kernel
  exact ⟨hlength, (values_readsBack.2.2.2.2.2.2.2.2 .default).2 hlength⟩

end Format

namespace Transition

theorem signed_inj {t u : Transition} (hlength : t.signedBytes.length < Nat.pow 256 8)
    (h : t.signedBytes = u.signedBytes) :
    t.operation = u.operation ∧ t.createdAt = u.createdAt ∧ t.signer = u.signer := by
  have heq := Format.isLawful_signed.encode_inj hlength h
  simpa using heq

/-- The signed bytes determine the operation, its time and the signing key. A transition is read off
the head of any byte string that it begins, its signature included. Signing signs the signed bytes of
the transition that it makes. The lengths of the bytes in question are taken to fit fields of eight
bytes, as they do in every memory: such fields are what the lengths among them are written in. -/
theorem signedBytes_determine [Suite] :
    (∀ t u : Transition, t.signedBytes.length < Nat.pow 256 8 → t.signedBytes = u.signedBytes →
      t.operation = u.operation ∧ t.createdAt = u.createdAt ∧ t.signer = u.signer) ∧
    (∀ (t : Transition) (rest : Bytes), (Format.transition.encode t).length < Nat.pow 256 8 →
      Format.transition.decode.run (Format.transition.encode t ++ rest) = .ok (t, rest)) ∧
    ∀ operation now (key : SecretKey),
      let t := sign operation now key
      t.operation = operation ∧ t.createdAt = now ∧ t.signer = key.publicKey ∧
        t.signature = key.sign t.signedBytes := by
  refine ⟨?_, ?_, ?_⟩
  · intro t u hlength h
    exact signed_inj hlength h
  · intro t rest hlength
    exact Format.isLawful_transition.decode_encode t rest hlength
  · intro operation now key
    exact ⟨rfl, rfl, rfl, rfl⟩

/-- A preorder of one commitment that nobody signed. -/
def unsigned : Transition := ⟨.preorder ⟨.zero⟩ [.zero], .epoch, .neutral, .empty⟩

/-- Another signature changes nothing of what is signed, and the transition is read off the head of
a longer byte string. -/
theorem unsigned_determined :
    let other : Transition := { unsigned with signature := ⟨.ofNatLE 1, .zero⟩ }
    (unsigned ≠ other ∧ unsigned.operation = other.operation ∧
      unsigned.createdAt = other.createdAt ∧ unsigned.signer = other.signer) ∧
    Format.transition.decode.run (Format.transition.encode unsigned ++ [7]) = .ok (unsigned, [7]) ∧
    (@sign .standard unsigned.operation .epoch ⟨.zero⟩).createdAt = .epoch := by
  obtain ⟨hdetermine, hdecode, hsign⟩ := @signedBytes_determine .standard
  refine ⟨⟨by decide, ?_⟩, ?_, ?_⟩
  · exact hdetermine unsigned _ (by decide +kernel) rfl
  · exact hdecode unsigned [7] (by decide +kernel)
  · exact (hsign unsigned.operation .epoch ⟨.zero⟩).2.1

end Transition

end Enrolment
