import Enrolment.Codec.Record
import Enrolment.Proofs.Codec.Formats

/-!
Reading inverts writing, for records and for types with several cases.

The names of the fields of a record differ, so that the member of each name is the one that was
written for it; the names of the cases of a type differ likewise, and every value belongs to some
case.
-/

namespace Enrolment

namespace Fields

variable {α β : Type}

/-- What is written field after field reads back. Before the members of these fields, whose names are
given, there may be those of other fields. -/
structure IsLawful (fs : Fields α) (names : List String) : Prop where
  encode_ne_nil (a : α) : fs.encode a ≠ []
  decode_encode (a : α) (rest : Bytes) (h : (fs.encode a).length < Nat.pow 256 8) :
    fs.decode.run (fs.encode a ++ rest) = .ok (a, rest)
  ofMembers?_toMembers (a : α) (before : List (String × Json))
    (h : ∀ m ∈ before, m.1 ∉ names) : fs.ofMembers? (before ++ fs.toMembers a) = some a

/-- The member that was written for a field is the one that is found. -/
theorem member?_append {f : Format α} (hf : f.IsLawful) {name : String} (a : α)
    {before : List (String × Json)} (h : ∀ m ∈ before, m.1 ≠ name) (after : List (String × Json)) :
    member? f name (before ++ (name, f.toJson a) :: after) = some a := by
  have hbefore : before.lookup name = none := by
    rw [List.lookup_eq_none_iff]
    intro m hm
    simpa using (h m hm).symm
  simp [member?, List.lookup_append, hbefore, hf.ofJson?_toJson]

theorem isLawful_last {f : Format α} (hf : f.IsLawful) (name : String) :
    (last name f).IsLawful [name] where
  encode_ne_nil := hf.encode_ne_nil
  decode_encode := hf.decode_encode
  ofMembers?_toMembers a before h := by
    apply member?_append hf
    intro m hm
    simpa using h m hm

theorem IsLawful.cons {f : Format α} {fs : Fields β} {name : String} {names : List String}
    (hfs : fs.IsLawful names) (hf : f.IsLawful) (hname : name ∉ names) :
    (cons name f fs).IsLawful (name :: names) where
  encode_ne_nil p := by
    simp [Fields.cons, hf.encode_ne_nil]
  decode_encode p rest h := by
    simp only [Fields.cons, List.length_append] at h
    have hhead := hf.decode_encode p.1 (fs.encode p.2 ++ rest) (by omega)
    have htail := hfs.decode_encode p.2 rest (by omega)
    simp only [Fields.cons, List.append_assoc, Reader.run_bind_of_eq_ok _ hhead,
      Reader.run_bind_of_eq_ok _ htail]
    rfl
  ofMembers?_toMembers p before h := by
    have hhead : member? f name (before ++ (name, f.toJson p.1) :: fs.toMembers p.2) = some p.1 := by
      apply member?_append hf
      intro m hm heq
      apply h m hm
      simp [heq]
    have htail : fs.ofMembers? (before ++ (name, f.toJson p.1) :: fs.toMembers p.2) = some p.2 := by
      rw [List.append_cons]
      apply hfs.ofMembers?_toMembers
      intro m hm
      rcases List.mem_append.mp hm with hm | hm
      · intro hmem
        apply h m hm
        simp [hmem]
      · cases List.mem_singleton.mp hm
        exact hname
    simp [Fields.cons, hhead, htail]

end Fields

/-- A record is read back from its fields. -/
theorem Fields.IsLawful.record {α β : Type} {fs : Fields β} {names : List String}
    (hfs : fs.IsLawful names) {write : α → β} {read : β → α} (hread : ∀ a, read (write a) = a) :
    (Format.record fs write read).IsLawful where
  encode_ne_nil a := hfs.encode_ne_nil (write a)
  decode_encode a rest h := by
    have hrun := Reader.run_map_of_eq_ok read (hfs.decode_encode (write a) rest h)
    rwa [hread] at hrun
  ofJson?_toJson a := by
    have hmembers := hfs.ofMembers?_toMembers (write a) [] (by simp)
    rw [List.nil_append] at hmembers
    simp [Format.record, hmembers, hread]

namespace Case

variable {α β : Type}

/-- What is written in a case reads back in it, and a value has a byte form in the case exactly if it
has a JSON form. -/
structure IsLawful (c : Case α) : Prop where
  isSome_toJson? (a : α) : (c.toJson? a).isSome = (c.encode? a).isSome
  decode_encode? {a : α} {payload : Bytes} (h : c.encode? a = some payload) (rest : Bytes)
    (hlength : payload.length < Nat.pow 256 8) : c.decode.run (payload ++ rest) = .ok (a, rest)
  ofJson?_toJson? {a : α} {payload? : Option Json} (h : c.toJson? a = some payload?) :
    c.ofJson? payload? = some a

theorem isLawful_single [DecidableEq α] (name : String) (value : α) :
    (single name value).IsLawful where
  isSome_toJson? a := by
    by_cases h : a = value <;> simp [single, h]
  decode_encode? {a payload} h rest _ := by
    by_cases ha : a = value
    · simp only [single, ha, ↓reduceIte, Option.some.injEq] at h
      subst h ha
      rfl
    · simp [single, ha] at h
  ofJson?_toJson? {a payload?} h := by
    by_cases ha : a = value
    · simp only [single, ha, ↓reduceIte, Option.some.injEq] at h
      subst h ha
      rfl
    · simp [single, ha] at h

theorem isLawful_wrapped {f : Format β} (hf : f.IsLawful) (name : String) {write? : α → Option β}
    {read : β → α} (hread : ∀ a b, write? a = some b → read b = a) :
    (wrapped name f write? read).IsLawful where
  isSome_toJson? a := by
    simp [wrapped]
  decode_encode? {a payload} h rest hlength := by
    obtain ⟨b, hb, rfl⟩ := Option.map_eq_some_iff.mp h
    have hrun := Reader.run_map_of_eq_ok read (hf.decode_encode b rest hlength)
    rwa [hread a b hb] at hrun
  ofJson?_toJson? {a payload?} h := by
    obtain ⟨b, hb, rfl⟩ := Option.map_eq_some_iff.mp h
    simp [wrapped, hf.ofJson?_toJson, hread a b hb]

theorem isLawful_record {fs : Fields β} {names : List String} (hfs : fs.IsLawful names)
    (name : String) {write? : α → Option β} {read : β → α}
    (hread : ∀ a b, write? a = some b → read b = a) : (record name fs write? read).IsLawful where
  isSome_toJson? a := by
    simp [record]
  decode_encode? {a payload} h rest hlength := by
    obtain ⟨b, hb, rfl⟩ := Option.map_eq_some_iff.mp h
    have hrun := Reader.run_map_of_eq_ok read (hfs.decode_encode b rest hlength)
    rwa [hread a b hb] at hrun
  ofJson?_toJson? {a payload?} h := by
    obtain ⟨b, hb, rfl⟩ := Option.map_eq_some_iff.mp h
    have hmembers := hfs.ofMembers?_toMembers b [] (by simp)
    rw [List.nil_append] at hmembers
    simp [record, hmembers, hread a b hb]

/-- The bytes of a value of some case: the number of a case that it belongs to, and its bytes
there. -/
theorem encodeAmong_eq {cs : List (Case α)} {a : α} (index : Nat)
    (h : ∃ c ∈ cs, (c.encode? a).isSome) :
    ∃ i c payload, cs[i]? = some c ∧ c.encode? a = some payload ∧
      encodeAmong index a cs = Bytes.ofNatLE 4 (index + i) ++ payload := by
  induction cs generalizing index with
  | nil => simp at h
  | cons c cs ih =>
    cases hc : c.encode? a with
    | some payload =>
      refine ⟨0, c, payload, rfl, hc, ?_⟩
      simp [encodeAmong, hc]
    | none =>
      obtain ⟨d, hd, hsome⟩ := h
      have hrest : ∃ d ∈ cs, (d.encode? a).isSome := by
        rcases List.mem_cons.mp hd with rfl | hd
        · simp [hc] at hsome
        · exact ⟨d, hd, hsome⟩
      obtain ⟨i, e, payload, he, hpayload, heq⟩ := ih (index + 1) hrest
      refine ⟨i + 1, e, payload, by simpa using he, hpayload, ?_⟩
      rw [encodeAmong, hc]
      rw [heq, Nat.add_right_comm, Nat.add_assoc]

/-- The JSON form of a value of some case is that in a case that it belongs to. -/
theorem toJsonAmong_eq {cs : List (Case α)} {a : α} (h : ∃ c ∈ cs, (c.toJson? a).isSome) :
    ∃ c ∈ cs, ∃ payload?, c.toJson? a = some payload? ∧
      toJsonAmong a cs =
        match payload? with
        | some payload => .object [(c.name, payload)]
        | none => .text c.name := by
  induction cs with
  | nil => simp at h
  | cons c cs ih =>
    cases hc : c.toJson? a with
    | some payload? =>
      refine ⟨c, by simp, payload?, hc, ?_⟩
      cases payload? <;> simp [toJsonAmong, hc]
    | none =>
      obtain ⟨d, hd, hsome⟩ := h
      have hrest : ∃ d ∈ cs, (d.toJson? a).isSome := by
        rcases List.mem_cons.mp hd with rfl | hd
        · simp [hc] at hsome
        · exact ⟨d, hd, hsome⟩
      obtain ⟨e, he, payload?, hpayload, heq⟩ := ih hrest
      refine ⟨e, by simp [he], payload?, hpayload, ?_⟩
      rw [toJsonAmong, hc]
      exact heq

/-- Cases of different names are found by name. -/
theorem find?_name {cs : List (Case α)} (hnames : (cs.map Case.name).Nodup) {c : Case α}
    (hc : c ∈ cs) : cs.find? (·.name = c.name) = some c := by
  induction cs with
  | nil => cases hc
  | cons d cs ih =>
    obtain ⟨hd, hrest⟩ := List.nodup_cons.mp hnames
    rcases List.mem_cons.mp hc with rfl | hc
    · simp
    · have hne : d.name ≠ c.name := fun heq => hd (heq ▸ List.mem_map_of_mem hc)
      rw [List.find?_cons_of_neg (by simpa using hne)]
      exact ih hrest hc

end Case

/-- A type with cases reads back, as long as its cases have different names and each of its values
belongs to some case. -/
theorem Format.isLawful_cases {α : Type} {cs : List (Case α)} (hcases : ∀ c ∈ cs, c.IsLawful)
    (hnames : (cs.map Case.name).Nodup) (hcount : cs.length < Nat.pow 256 4)
    (hcover : ∀ a, ∃ c ∈ cs, (c.encode? a).isSome) : (Format.cases cs).IsLawful where
  encode_ne_nil a := by
    obtain ⟨i, c, payload, -, -, heq⟩ := Case.encodeAmong_eq 0 (hcover a)
    apply List.ne_nil_of_length_pos
    simp only [cases, heq, List.length_append, Bytes.length_ofNatLE]
    omega
  decode_encode a rest h := by
    obtain ⟨i, c, payload, hc, hpayload, heq⟩ := Case.encodeAmong_eq 0 (hcover a)
    have hmem : c ∈ cs := List.mem_of_getElem? hc
    have hi : i < Nat.pow 256 4 := by
      obtain ⟨hi, -⟩ := List.getElem?_eq_some_iff.mp hc
      omega
    rw [Nat.zero_add] at heq
    simp only [cases, heq, List.length_append] at h
    have hnumber := Reader.run_number hi (payload ++ rest)
    have hcase := (hcases c hmem).decode_encode? hpayload rest (by omega)
    simp only [cases, heq, List.append_assoc, Reader.run_bind_of_eq_ok _ hnumber, hc, hcase]
  ofJson?_toJson a := by
    have hsome : ∃ c ∈ cs, (c.toJson? a).isSome := by
      obtain ⟨c, hc, hsome⟩ := hcover a
      exact ⟨c, hc, (hcases c hc).isSome_toJson? a ▸ hsome⟩
    obtain ⟨c, hc, payload?, hpayload, heq⟩ := Case.toJsonAmong_eq hsome
    have hread := (hcases c hc).ofJson?_toJson? hpayload
    have hfind := Case.find?_name hnames hc
    simp only [cases, heq]
    cases payload? with
    | none => simp [hfind, hread]
    | some payload => simp [hfind, hread]

end Enrolment
