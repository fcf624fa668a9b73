import Enrolment.Codec.Format
import Enrolment.Proofs.Codec.Timestamp

/-!
Reading inverts writing, for the formats of single values and for lists, options and sets of them.

Lengths are fields of eight bytes, so that a byte form is only promised to read back where its own
length fits such a field; no machine holds a longer one. A JSON form always reads back.
-/

namespace Enrolment

namespace Reader

variable {α β : Type} {input rest : Bytes} {a : α}

theorem run_bind_of_eq_ok {reader : Reader α} (next : α → Reader β)
    (h : reader.run input = .ok (a, rest)) : (reader >>= next).run input = (next a).run rest := by
  rw [StateT.run_bind, h]
  rfl

theorem run_map_of_eq_ok {reader : Reader α} (g : α → β) (h : reader.run input = .ok (a, rest)) :
    (g <$> reader).run input = .ok (g a, rest) := by
  rw [StateT.run_map, h]
  rfl

theorem run_take {n : Nat} {bytes : Bytes} (fault : DecodeFault) (h : bytes.length = n)
    (rest : Bytes) : (take n fault).run (bytes ++ rest) = .ok (bytes, rest) := by
  simp [StateT.run, take, ← h]

theorem run_number {width n : Nat} (h : n < Nat.pow 256 width) (rest : Bytes) :
    (number width).run (Bytes.ofNatLE width n ++ rest) = .ok (n, rest) := by
  have hlength := Bytes.length_ofNatLE width n
  have hlong : ¬ (Bytes.ofNatLE width n ++ rest).length < width := by
    simp
  have htake : (Bytes.ofNatLE width n ++ rest).take width = Bytes.ofNatLE width n :=
    List.take_left' hlength
  have hdrop : (Bytes.ofNatLE width n ++ rest).drop width = rest := List.drop_left' hlength
  simp only [StateT.run, number, hlong, ↓reduceIte, htake, hdrop, Bytes.toNatLE_ofNatLE,
    Nat.mod_eq_of_lt h]

end Reader

namespace KeySet

/-- A key above all others is inserted behind them. -/
theorem insertKey_of_forall_lt {k : PublicKey} {keys : List PublicKey} (h : ∀ x ∈ keys, x < k) :
    insertKey k keys = keys ++ [k] := by
  induction keys with
  | nil => rfl
  | cons x keys ih =>
    have hx : x < k := h x (by simp)
    have hk : ¬ k < x := Nat.lt_asymm hx
    have htail := ih fun y hy => h y (by simp [hy])
    simp [insertKey, hk, hx, htail]

theorem toList_foldl_insert {keys : List PublicKey} {s : KeySet}
    (h : (s.toList ++ keys).Pairwise (· < ·)) :
    (keys.foldl insert s).toList = s.toList ++ keys := by
  induction keys generalizing s with
  | nil => simp
  | cons k keys ih =>
    have hbelow : ∀ x ∈ s.toList, x < k := fun x hx =>
      (List.pairwise_append.mp h).2.2 x hx k (by simp)
    have hinsert : (s.insert k).toList = s.toList ++ [k] := insertKey_of_forall_lt hbelow
    have hrest : ((s.insert k).toList ++ keys).Pairwise (· < ·) := by
      rwa [hinsert, List.append_assoc]
    rw [List.foldl_cons, ih hrest, hinsert, List.append_assoc]
    rfl

theorem toList_inj {s t : KeySet} : s.toList = t.toList ↔ s = t := by
  cases s
  cases t
  simp

/-- Keys that are in order already make the set of just these keys. -/
theorem ofList_toList (s : KeySet) : ofList s.toList = s := by
  apply toList_inj.mp
  exact toList_foldl_insert s.ascending

end KeySet

namespace Format

variable {α β : Type}

/-- What is written in a format reads back as what was written, from bytes whatever follows them. -/
structure IsLawful (f : Format α) : Prop where
  /-- A list therefore has no more entries than bytes. -/
  encode_ne_nil (a : α) : f.encode a ≠ []
  decode_encode (a : α) (rest : Bytes) (h : (f.encode a).length < Nat.pow 256 8) :
    f.decode.run (f.encode a ++ rest) = .ok (a, rest)
  ofJson?_toJson (a : α) : f.ofJson? (f.toJson a) = some a

namespace IsLawful

variable {f : Format α}

/-- Of two values that begin the same bytes, neither is the longer one. -/
theorem encode_inj (hf : f.IsLawful) {a b : α} (h : (f.encode a).length < Nat.pow 256 8)
    (heq : f.encode a = f.encode b) : a = b := by
  have ha := hf.decode_encode a [] h
  have hb := hf.decode_encode b [] (heq ▸ h)
  rw [heq, hb] at ha
  cases ha
  rfl

theorem ofBytes_encode (hf : f.IsLawful) {a : α} (h : (f.encode a).length < Nat.pow 256 8)
    (rest : Bytes) : f.ofBytes (f.encode a ++ rest) = .ok a := by
  rw [ofBytes, hf.decode_encode a rest h]
  rfl

theorem via {f : Format β} (hf : f.IsLawful) {write : α → β} {read : β → α}
    (hread : ∀ a, read (write a) = a) : (f.via write read).IsLawful where
  encode_ne_nil a := hf.encode_ne_nil (write a)
  decode_encode a rest h := by
    have hrun := Reader.run_map_of_eq_ok read (hf.decode_encode (write a) rest h)
    rwa [hread] at hrun
  ofJson?_toJson a := by
    simp [Format.via, hf.ofJson?_toJson, hread]

theorem refine {f : Format β} (hf : f.IsLawful) {fault : DecodeFault} {write : α → β}
    {read? : β → Option α} (hread : ∀ a, read? (write a) = some a) :
    (f.refine fault write read?).IsLawful where
  encode_ne_nil a := hf.encode_ne_nil (write a)
  decode_encode a rest h := by
    have hdecode := hf.decode_encode (write a) rest h
    simp only [Format.refine, Reader.run_bind_of_eq_ok _ hdecode, hread]
    rfl
  ofJson?_toJson a := by
    simp [Format.refine, hf.ofJson?_toJson, hread]

end IsLawful

section Numbers

theorem ofJson?_natural {width n : Nat} (h : n < Nat.pow 256 width) :
    (natural width).ofJson? (.int n) = some n := by
  have hfits : 0 ≤ (n : Int) ∧ (n : Int).toNat < Nat.pow 256 width := ⟨Int.natCast_nonneg n, h⟩
  exact if_pos hfits

/-- A number that fits its field reads back. -/
theorem isLawful_natural_via {width : Nat} {write : α → Nat} {read : Nat → α} (hpos : width ≠ 0)
    (hfits : ∀ a, write a < Nat.pow 256 width) (hread : ∀ a, read (write a) = a) :
    ((natural width).via write read).IsLawful where
  encode_ne_nil a := by
    apply List.ne_nil_of_length_pos
    rw [Format.via, natural, Bytes.length_ofNatLE]
    omega
  decode_encode a rest _ := by
    have hrun := Reader.run_map_of_eq_ok read (Reader.run_number (hfits a) rest)
    rwa [hread] at hrun
  ofJson?_toJson a := by
    have hjson := ofJson?_natural (hfits a)
    simp only [Format.via, natural] at hjson ⊢
    rw [hjson, Option.map_some, hread]

theorem isLawful_uint16 : uint16.IsLawful := by
  apply isLawful_natural_via (by decide)
  · exact UInt16.toNat_lt
  · simp

theorem isLawful_uint32 : uint32.IsLawful := by
  apply isLawful_natural_via (by decide)
  · exact UInt32.toNat_lt
  · simp

theorem isLawful_uint64 : uint64.IsLawful := by
  apply isLawful_natural_via (by decide)
  · exact UInt64.toNat_lt
  · simp

end Numbers

section Fixed

theorem byteItems?_map (bytes : Bytes) :
    byteItems? (bytes.map fun b => .int b.toNat) = some bytes := by
  induction bytes with
  | nil => rfl
  | cons b rest ih =>
    have hb : (natural 1).ofJson? (.int b.toNat) = some b.toNat := ofJson?_natural b.toNat_lt
    unfold byteItems? at ih ⊢
    rw [List.map_cons, List.mapM_cons, hb, ih]
    simp

theorem length_encode_bytes32 (v : Bytes32) : (bytes32.encode v).length = 32 := v.length_toList

theorem isLawful_bytes32 : bytes32.IsLawful where
  encode_ne_nil v := by
    apply List.ne_nil_of_length_pos
    rw [length_encode_bytes32]
    decide
  decode_encode v rest _ := by
    have htake := Reader.run_take .endOfInput v.length_toList rest
    have hpadded : Bytes32.ofPadded v.toList = v := by
      apply Bytes32.toList_inj.mp
      simp [Bytes32.ofPadded, ← v.length_toList]
    simp only [bytes32, Reader.run_bind_of_eq_ok _ htake, hpadded]
    rfl
  ofJson?_toJson v := by
    simp [bytes32, byteItems?_map]

theorem isLawful_publicKey : publicKey.IsLawful := isLawful_bytes32.refine PublicKey.ofBytes?_bytes

theorem isLawful_signature : signature.IsLawful where
  encode_ne_nil s := by
    simp [signature, isLawful_bytes32.encode_ne_nil]
  decode_encode s rest h := by
    have hlength : ∀ v, (bytes32.encode v).length < Nat.pow 256 8 := fun v => by
      rw [length_encode_bytes32]
      decide
    have hfirst := isLawful_bytes32.decode_encode s.first (bytes32.encode s.second ++ rest)
      (hlength s.first)
    have hsecond := isLawful_bytes32.decode_encode s.second rest (hlength s.second)
    simp only [signature, List.append_assoc, Reader.run_bind_of_eq_ok _ hfirst,
      Reader.run_bind_of_eq_ok _ hsecond]
    rfl
  ofJson?_toJson s := by
    simp [signature, isLawful_bytes32.ofJson?_toJson]

end Fixed

section Texts

theorem isLawful_text : text.IsLawful where
  encode_ne_nil s := by
    apply List.ne_nil_of_length_pos
    rw [text, List.length_append, Bytes.length_ofNatLE]
    omega
  decode_encode s rest h := by
    have hlength : (Bytes.ofText s).length < Nat.pow 256 8 := by
      rw [text, List.length_append] at h
      omega
    have hnumber := Reader.run_number hlength (Bytes.ofText s ++ rest)
    have htake := Reader.run_take .endOfText (rfl : (Bytes.ofText s).length = _) rest
    simp only [text, List.append_assoc, Reader.run_bind_of_eq_ok _ hnumber,
      Reader.run_bind_of_eq_ok _ htake, Bytes.toText_ofText]
    rfl
  ofJson?_toJson s := rfl

theorem isLawful_timestamp : timestamp.IsLawful := isLawful_text.refine Timestamp.parse?_render

end Texts

section Lists

variable {f : Format α}

theorem length_le_length_flatMap (hf : f.IsLawful) (xs : List α) :
    xs.length ≤ (xs.flatMap f.encode).length := by
  induction xs with
  | nil => simp
  | cons x xs ih =>
    have hpos := List.length_pos_iff.mpr (hf.encode_ne_nil x)
    rw [List.flatMap_cons, List.length_append, List.length_cons]
    omega

theorem run_repeated (hf : f.IsLawful) (xs : List α) (rest : Bytes)
    (h : (xs.flatMap f.encode).length < Nat.pow 256 8) :
    (Reader.repeated f.decode xs.length).run (xs.flatMap f.encode ++ rest) = .ok (xs, rest) := by
  induction xs with
  | nil => rfl
  | cons x xs ih =>
    rw [List.flatMap_cons, List.length_append] at h
    have hhead := hf.decode_encode x (xs.flatMap f.encode ++ rest) (by omega)
    have htail := ih (by omega)
    rw [List.flatMap_cons, List.append_assoc, List.length_cons, Reader.repeated,
      Reader.run_bind_of_eq_ok _ hhead, Reader.run_bind_of_eq_ok _ htail]
    rfl

theorem IsLawful.list (hf : f.IsLawful) : (list f).IsLawful where
  encode_ne_nil xs := by
    apply List.ne_nil_of_length_pos
    rw [Format.list, List.length_append, Bytes.length_ofNatLE]
    omega
  decode_encode xs rest h := by
    rw [Format.list, List.length_append, Bytes.length_ofNatLE] at h
    have hentries := length_le_length_flatMap hf xs
    have hlength : xs.length < Nat.pow 256 8 := by
      omega
    have hnumber := Reader.run_number hlength (xs.flatMap f.encode ++ rest)
    simp only [Format.list, List.append_assoc, Reader.run_bind_of_eq_ok _ hnumber]
    exact run_repeated hf xs rest (by omega)
  ofJson?_toJson xs := by
    show (xs.map f.toJson).mapM f.ofJson? = some xs
    induction xs with
    | nil => rfl
    | cons x xs ih => simp [hf.ofJson?_toJson, ih]

/-- A value whose JSON form is null could not be told from a missing one. -/
theorem IsLawful.option (hf : f.IsLawful) (hnull : ∀ a, f.toJson a ≠ .null) :
    (option f).IsLawful where
  encode_ne_nil a? := by
    cases a? <;> simp [Format.option]
  decode_encode a? rest h := by
    cases a? with
    | none => rfl
    | some a =>
      have htag : (Reader.number 1).run (1 :: (f.encode a ++ rest)) = .ok (1, f.encode a ++ rest) :=
        Reader.run_number (by decide) (f.encode a ++ rest)
      have hlength : (f.encode a).length < Nat.pow 256 8 := by
        simp only [Format.option, List.length_cons] at h
        omega
      have hvalue := Reader.run_map_of_eq_ok some (hf.decode_encode a rest hlength)
      simp only [Format.option, List.cons_append, Reader.run_bind_of_eq_ok _ htag]
      exact hvalue
  ofJson?_toJson a? := by
    cases a? with
    | none => rfl
    | some a =>
      have hsome := hnull a
      simp only [Format.option, hf.ofJson?_toJson, Option.map_some]

end Lists

theorem isLawful_keySet : keySet.IsLawful := isLawful_publicKey.list.via KeySet.ofList_toList

end Format

end Enrolment
