import Tfm.Core.LTS
import Tfm.Core.Tlv

/-!
# Boot data

The boot loader leaves TLV entries in a shared area. A call copies the entries of one major
type into a buffer of the caller. On its way it renumbers boot records in the area itself, so
each call changes what the next one finds.

The area is the bytes from `BOOT_TFM_SHARED_DATA_BASE` on. The loop over it has fuel, and `none`
is a loop that does not end.

Results:
* `copyLoop_deliver`: the loop on the bytes is `deliver` on the entries.
* `boot_data_delivered`: in every run, whatever was called before, a call gives exactly the
  entries that are asked for, when no entry for others has the claim of a boot record.
* `boot_data_takes_fwu_record`: what happens to such an entry.
-/
namespace Tfm.L4.BootData
open Tfm.Tlv Tfm.Bytes

/-! ## TLV types -/

/-- mirrors secure_fw/spm/include/tfm_boot_status.h:22-24 -/
def tlvMajorIas : Nat := 0x1

def tlvMajorFwu : Nat := 0x2

/-- mirrors secure_fw/spm/include/tfm_boot_status.h:69-76 -/
def swGeneral : Nat := 0x00

def swSpe : Nat := 0x04

def swNspe : Nat := 0x05

def swMax : Nat := 0x07

/-- mirrors secure_fw/spm/include/tfm_boot_status.h:87 -/
def swBootRecord : Nat := 0x3F

/-- mirrors secure_fw/spm/include/tfm_boot_status.h:144-165 -/
def setTlvType (major minor : Nat) : Nat := (major &&& 0xF) <<< 12 ||| minor &&& 0xFFF

def getMajor (tlvType : Nat) : Nat := tlvType >>> 12

def getMinor (tlvType : Nat) : Nat := tlvType &&& 0xFFF

def getIasModule (tlvType : Nat) : Nat := getMinor tlvType >>> 6

def getIasClaim (tlvType : Nat) : Nat := getMinor tlvType &&& 0x3F

def setIasMinor (swModule claim : Nat) : Nat := swModule <<< 6 ||| claim

def sharedDataTlvInfoMagic : Nat := 0x2016

def sharedDataHeaderSize : Nat := 4

/-! ## The handler -/

/-- The partition ids are generated. -/
structure Setup where
  tfmSpInitialAttestation : Int
  tfmSpFwu : Int

/-- mirrors secure_fw/spm/ffm/tfm_boot_data.c:73-76 -/
def accessPolicyTable (S : Setup) : List (Int × Nat) :=
  [(S.tfmSpInitialAttestation, tlvMajorIas), (S.tfmSpFwu, tlvMajorFwu)]

/-- mirrors secure_fw/spm/ffm/tfm_boot_data.c:84-110 -/
def checkBootDataAccessPolicy (S : Setup) (partitionId : Int) (majorType : Nat) : Bool :=
  (accessPolicyTable S).any fun p => decide (partitionId = p.1) && decide (majorType = p.2)

/-- The shared area and `is_boot_data_valid`. -/
structure St where
  area : List UInt8
  valid : Bool
  deriving DecidableEq

/-- The running partition, its arguments, and whether it may write to its buffer. -/
structure Call where
  partitionId : Int
  majorType : Nat
  bufSize : Nat
  accessible : Bool
  deriving DecidableEq

/-- What is behind the header in the buffer, and the length in the header. -/
structure Out where
  data : List UInt8
  tlvTotLen : Nat
  deriving DecidableEq

/-- mirrors secure_fw/spm/ffm/tfm_boot_data.c:120-134 -/
def validateBootData (area : List UInt8) : St :=
  ⟨area, decide (readType area 0 = sharedDataTlvInfoMagic)⟩

/-- mirrors secure_fw/spm/ffm/tfm_boot_data.c:225-233 -/
def remap (tlvType : Nat) : Nat :=
  if getIasClaim tlvType = swBootRecord then
    if getIasModule tlvType = 0 then setTlvType tlvMajorIas (setIasMinor swSpe swBootRecord)
    else if getIasModule tlvType = 1 then setTlvType tlvMajorIas (setIasMinor swNspe swBootRecord)
    else tlvType
  else tlvType

/-- mirrors secure_fw/spm/ffm/tfm_boot_data.c:217-250 -/
def copyLoop (tlvMajor bufSize tlvEnd : Nat) :
    Nat → Nat → List UInt8 → Out → Option (Bool × List UInt8 × Out)
  | 0, _, _, _ => none
  | fuel + 1, offset, area, out =>
    if offset < tlvEnd then
      let nextTlvOffset := headerSize + readLen area offset
      let tlvType := remap (readType area offset)
      let area := writeAt area offset (header tlvType (readLen area offset))
      if getMajor tlvType = tlvMajor then
        if sharedDataHeaderSize + out.data.length + nextTlvOffset > bufSize then
          some (false, area, out)
        else
          copyLoop tlvMajor bufSize tlvEnd fuel (offset + nextTlvOffset) area
            ⟨out.data ++ slice area offset nextTlvOffset, (out.tlvTotLen + nextTlvOffset) % 2 ^ 16⟩
      else copyLoop tlvMajor bufSize tlvEnd fuel (offset + nextTlvOffset) area out
    else some (true, area, out)

/-- The contents of the buffer; `none` is `TFM_ERROR_INVALID_PARAMETER`. -/
abbrev Reply := Option (List UInt8)

/-- mirrors secure_fw/spm/ffm/tfm_boot_data.c:137-257 -/
def getBootDataHandler (S : Setup) (s : St) (c : Call) : Option (Reply × St) :=
  let tlvMajor := c.majorType % 2 ^ 8
  let bufSize := c.bufSize % 2 ^ 16
  if !c.accessible then some (none, s)
  else if !s.valid then some (none, s)
  else if !checkBootDataAccessPolicy S c.partitionId tlvMajor then some (none, s)
  else if bufSize < sharedDataHeaderSize then some (none, s)
  else
    (copyLoop tlvMajor bufSize (readLen s.area 0) (s.area.length + 1) sharedDataHeaderSize s.area
        ⟨[], sharedDataHeaderSize⟩).map fun (ok, area, out) =>
      (if ok then some (header sharedDataTlvInfoMagic out.tlvTotLen ++ out.data) else none,
        { s with area := area })

/-! ## Entries -/

/-- An area with these entries. -/
def areaOf (es : List Entry) (rest : List UInt8) : List UInt8 :=
  header sharedDataTlvInfoMagic (sharedDataHeaderSize + (encode es).length) ++ (encode es ++ rest)

def major (e : Entry) : Nat := getMajor e.type.toNat

/-- The types of the boot records that get the number of the SPE or of the NSPE. -/
def renumbered (e : Entry) : Entry :=
  if e.type = 0x103F then { e with type := 0x113F }
  else if e.type = 0x107F then { e with type := 0x117F }
  else e

/-- What a caller should get of major type `m`. -/
def wanted (es : List Entry) (m : Nat) : List Entry := (es.filter (major · = m)).map renumbered

/-- A boot record of module 0 or 1, whoever it is for. -/
def Record (e : Entry) : Prop :=
  getIasClaim e.type.toNat = swBootRecord ∧ getIasModule e.type.toNat ≤ 1

/-- The boot records of modules 0 and 1 are the attestation service's. -/
def OnlyIas (es : List Entry) : Prop := ∀ e ∈ es, Record e → major e = tlvMajorIas

def remapEntry (e : Entry) : Entry := { e with type := UInt16.ofNat (remap e.type.toNat) }

/-- The loop on entries: what is left in the area, and the bytes that were copied. -/
def deliver (m bufSize : Nat) : List Entry → List UInt8 → Bool × List Entry × List UInt8
  | [], data => (true, [], data)
  | e :: es, data =>
    if major (remapEntry e) = m then
      if sharedDataHeaderSize + data.length + (remapEntry e).bytes.length > bufSize then
        (false, remapEntry e :: es, data)
      else
        let r := deliver m bufSize es (data ++ (remapEntry e).bytes)
        (r.1, remapEntry e :: r.2.1, r.2.2)
    else
      let r := deliver m bufSize es data
      (r.1, remapEntry e :: r.2.1, r.2.2)

/-! ## Renumbering -/

theorem remap_lt {t : Nat} (h : t < 2 ^ 16) : remap t < 2 ^ 16 := by
  unfold remap
  split_ifs
  · decide
  · decide
  · exact h
  · exact h

theorem remapEntry_type (e : Entry) : (remapEntry e).type.toNat = remap e.type.toNat := by
  rw [remapEntry, UInt16.toNat_ofNat_of_lt' (remap_lt e.type.toNat_lt)]

theorem getMajor_eq (t : Nat) : getMajor t = t / 4096 := Nat.shiftRight_eq_div_pow t 12

theorem getMinor_eq (t : Nat) : getMinor t = t % 4096 := Nat.and_two_pow_sub_one_eq_mod t 12

theorem getIasModule_eq (t : Nat) : getIasModule t = t % 4096 / 64 := by
  rw [getIasModule, getMinor_eq]
  exact Nat.shiftRight_eq_div_pow _ 6

theorem getIasClaim_eq (t : Nat) : getIasClaim t = t % 4096 % 64 := by
  rw [getIasClaim, getMinor_eq]
  exact Nat.and_two_pow_sub_one_eq_mod _ 6

theorem remap_idem (t : Nat) : remap (remap t) = remap t := by
  have hspe : remap (setTlvType tlvMajorIas (setIasMinor swSpe swBootRecord)) =
      setTlvType tlvMajorIas (setIasMinor swSpe swBootRecord) := by decide
  have hnspe : remap (setTlvType tlvMajorIas (setIasMinor swNspe swBootRecord)) =
      setTlvType tlvMajorIas (setIasMinor swNspe swBootRecord) := by decide
  by_cases hclaim : getIasClaim t = swBootRecord
  · by_cases h0 : getIasModule t = 0
    · simp only [remap, if_pos hclaim, if_pos h0] at hspe ⊢
      exact hspe
    · by_cases h1 : getIasModule t = 1
      · have ht : remap t = setTlvType tlvMajorIas (setIasMinor swNspe swBootRecord) := by
          rw [remap, if_pos hclaim, if_neg h0, if_pos h1]
        rw [ht, hnspe]
      · have ht : remap t = t := by rw [remap, if_pos hclaim, if_neg h0, if_neg h1]
        rw [ht, ht]
  · have ht : remap t = t := by rw [remap, if_neg hclaim]
    rw [ht, ht]

@[simp] theorem remapEntry_remapEntry (e : Entry) : remapEntry (remapEntry e) = remapEntry e := by
  have ht := remapEntry_type e
  rw [remapEntry, ht, remap_idem]
  rfl

@[simp] theorem remapEntry_data (e : Entry) : (remapEntry e).data = e.data := rfl

theorem remapEntry_of_not {e : Entry} (h : ¬ Record e) : remapEntry e = e := by
  have ht : remap e.type.toNat = e.type.toNat := by
    unfold remap
    split_ifs with hclaim h0 h1
    · exact absurd ⟨hclaim, by omega⟩ h
    · exact absurd ⟨hclaim, by omega⟩ h
    · rfl
    · rfl
  rw [remapEntry, ht, UInt16.ofNat_toNat]

theorem type_eq_iff (e : Entry) (t : UInt16) : e.type = t ↔ e.type.toNat = t.toNat :=
  UInt16.toNat_inj.symm

/-- What is done to a boot record of the attestation service. -/
theorem remapEntry_of_ias {e : Entry} (h : Record e → major e = tlvMajorIas) :
    remapEntry e = renumbered e := by
  by_cases hr : Record e
  · have hm := h hr
    obtain ⟨hclaim, hmodule⟩ := id hr
    rw [getIasClaim_eq, swBootRecord] at hclaim
    rw [getIasModule_eq] at hmodule
    rw [major, getMajor_eq, tlvMajorIas] at hm
    have htype : e.type.toNat = 0x103F ∨ e.type.toNat = 0x107F := by omega
    rcases htype with htype | htype
    · have ht : e.type = 0x103F := (type_eq_iff e 0x103F).2 htype
      rw [remapEntry, renumbered, if_pos ht, htype]
      rfl
    · have ht : e.type = 0x107F := (type_eq_iff e 0x107F).2 htype
      rw [remapEntry, renumbered, ht, if_neg (by decide), if_pos rfl, ← ht, htype]
      rfl
  · rw [remapEntry_of_not hr, renumbered]
    split_ifs with h1 h2
    · exact absurd (show Record e by rw [Record, h1]; decide) hr
    · exact absurd (show Record e by rw [Record, h2]; decide) hr
    · rfl

/-- A boot record of the attestation service stays its. -/
theorem major_remapEntry {e : Entry} (h : Record e → major e = tlvMajorIas) :
    major (remapEntry e) = major e := by
  by_cases hr : Record e
  · rw [h hr, major, remapEntry_type]
    obtain ⟨hclaim, hmodule⟩ := hr
    have hcase : getIasModule e.type.toNat = 0 ∨ getIasModule e.type.toNat = 1 := by omega
    rcases hcase with h0 | h1
    · rw [remap, if_pos hclaim, if_pos h0]
      decide
    · rw [remap, if_pos hclaim, if_neg (by omega), if_pos h1]
      decide
  · rw [remapEntry_of_not hr]

/-! ## The loop -/

/-- What is copied of major type `m`. -/
def selected (es : List Entry) (m : Nat) : List Entry := (es.map remapEntry).filter (major · = m)

/-- It is copied if there is room for all of it. -/
theorem deliver_ok (m z : Nat) :
    ∀ (es : List Entry) (data : List UInt8), sharedDataHeaderSize + data.length ≤ z →
      ((deliver m z es data).1 = true ↔
        sharedDataHeaderSize + data.length + (encode (selected es m)).length ≤ z)
  | [], data, h => by simp [deliver, selected, h]
  | e :: es, data, h => by
    by_cases hm : major (remapEntry e) = m
    · have hsel : selected (e :: es) m = remapEntry e :: selected es m := by simp [selected, hm]
      rw [hsel, encode_cons, List.length_append]
      by_cases hroom : sharedDataHeaderSize + data.length + (remapEntry e).bytes.length > z
      · simp only [deliver, if_pos hm, if_pos hroom, Bool.false_eq_true, false_iff]
        omega
      · have ih := deliver_ok m z es (data ++ (remapEntry e).bytes)
          (by rw [List.length_append]; omega)
        simp only [deliver, if_pos hm, if_neg hroom, ih, List.length_append]
        omega
    · have hsel : selected (e :: es) m = selected es m := by simp [selected, hm]
      rw [hsel]
      simp only [deliver, if_neg hm]
      exact deliver_ok m z es data h

theorem deliver_data (m z : Nat) :
    ∀ (es : List Entry) (data : List UInt8), (deliver m z es data).1 = true →
      (deliver m z es data).2.2 = data ++ encode (selected es m)
  | [], data, _ => by simp [deliver, selected]
  | e :: es, data, h => by
    by_cases hm : major (remapEntry e) = m
    · have hsel : selected (e :: es) m = remapEntry e :: selected es m := by simp [selected, hm]
      by_cases hroom : sharedDataHeaderSize + data.length + (remapEntry e).bytes.length > z
      · simp only [deliver, if_pos hm, if_pos hroom, Bool.false_eq_true] at h
      · simp only [deliver, if_pos hm, if_neg hroom] at h ⊢
        rw [deliver_data m z es _ h, hsel, encode_cons, List.append_assoc]
    · have hsel : selected (e :: es) m = selected es m := by simp [selected, hm]
      simp only [deliver, if_neg hm] at h ⊢
      rw [deliver_data m z es data h, hsel]

/-- Some entries were renumbered. -/
abbrev Renum (es es' : List Entry) : Prop :=
  List.Forall₂ (fun e e' => e' = e ∨ e' = remapEntry e) es es'

theorem renum_refl (es : List Entry) : Renum es es := by
  induction es with
  | nil => exact .nil
  | cons e es ih => exact .cons (.inl rfl) ih

/-- What is left in the area. -/
theorem deliver_renum (m z : Nat) :
    ∀ (es : List Entry) (data : List UInt8), Renum es (deliver m z es data).2.1
  | [], _ => .nil
  | e :: es, data => by
    by_cases hm : major (remapEntry e) = m
    · by_cases hroom : sharedDataHeaderSize + data.length + (remapEntry e).bytes.length > z
      · simp only [deliver, if_pos hm, if_pos hroom]
        exact .cons (.inr rfl) (renum_refl es)
      · simp only [deliver, if_pos hm, if_neg hroom]
        exact .cons (.inr rfl) (deliver_renum m z es _)
    · simp only [deliver, if_neg hm]
      exact .cons (.inr rfl) (deliver_renum m z es data)

theorem renum_length {es es' : List Entry} (h : Renum es es') :
    (encode es').length = (encode es).length := by
  induction h with
  | nil => rfl
  | cons he _ ih =>
    rcases he with rfl | rfl
    · simp [ih]
    · simp [ih]

/-- The loop on the bytes of an area is the loop on its entries. -/
theorem copyLoop_deliver (m : Nat) {z : Nat} (hz : z < 2 ^ 16) (post : List UInt8) :
    ∀ (es : List Entry) (pre : List UInt8) (data : List UInt8) (fuel : Nat), Short es →
      es.length < fuel →
      copyLoop m z (pre.length + (encode es).length) fuel pre.length (pre ++ (encode es ++ post))
          ⟨data, sharedDataHeaderSize + data.length⟩ =
        some ((deliver m z es data).1, pre ++ (encode (deliver m z es data).2.1 ++ post),
          ⟨(deliver m z es data).2.2, sharedDataHeaderSize + (deliver m z es data).2.2.length⟩)
  | [], pre, data, fuel + 1, _, _ => by simp [copyLoop, deliver]
  | e :: es, pre, data, fuel + 1, hs, hf => by
    obtain ⟨he, hs⟩ := short_cons.1 hs
    rw [List.length_cons] at hf
    have hwrite : writeAt (pre ++ (e.bytes ++ (encode es ++ post))) pre.length
        (header (remap e.type.toNat) e.data.length) =
        pre ++ ((remapEntry e).bytes ++ (encode es ++ post)) := by
      rw [← remapEntry_type]
      exact writeHeader_at rfl (remapEntry e).type
    have hslice : slice (pre ++ ((remapEntry e).bytes ++ (encode es ++ post))) pre.length
        (headerSize + e.data.length) = (remapEntry e).bytes := slice_at rfl
    have hbytes : (remapEntry e).bytes.length = headerSize + e.data.length := length_bytes _
    have hmajor : getMajor (remap e.type.toNat) = major (remapEntry e) := by
      rw [major, remapEntry_type]
    have hlt : pre.length < pre.length + (encode (e :: es)).length := by
      rw [encode_cons, List.length_append, length_bytes, headerSize]
      omega
    -- the rest of the loop, behind this entry
    have hrest : ∀ data', copyLoop m z (pre.length + (encode (e :: es)).length) fuel
        (pre.length + (headerSize + e.data.length))
        (pre ++ ((remapEntry e).bytes ++ (encode es ++ post)))
        ⟨data', sharedDataHeaderSize + data'.length⟩ =
        some ((deliver m z es data').1,
          pre ++ (encode (remapEntry e :: (deliver m z es data').2.1) ++ post),
          ⟨(deliver m z es data').2.2, sharedDataHeaderSize + (deliver m z es data').2.2.length⟩) := by
      intro data'
      have ih := copyLoop_deliver m hz post es (pre ++ (remapEntry e).bytes) data' fuel hs (by omega)
      rw [List.length_append, hbytes] at ih
      rw [encode_cons, List.length_append, length_bytes, ← Nat.add_assoc]
      simpa only [List.append_assoc, encode_cons] using ih
    rw [copyLoop, if_pos hlt]
    rw [encode_cons, List.append_assoc] at *
    simp only [readType_at rfl, readLen_at rfl he, hwrite, hmajor, hslice]
    by_cases hm : major (remapEntry e) = m
    · by_cases hroom : sharedDataHeaderSize + data.length + (remapEntry e).bytes.length > z
      · rw [hbytes] at hroom
        simp only [deliver, hbytes, if_pos hm, if_pos hroom, encode_cons, List.append_assoc]
      · rw [hbytes] at hroom
        have htot : (sharedDataHeaderSize + data.length + (headerSize + e.data.length)) % 2 ^ 16 =
            sharedDataHeaderSize + (data ++ (remapEntry e).bytes).length := by
          rw [Nat.mod_eq_of_lt (by omega), List.length_append, hbytes, Nat.add_assoc]
        simp only [deliver, hbytes, if_pos hm, if_neg hroom, htot]
        exact hrest _
    · simp only [deliver, if_neg hm]
      exact hrest data

/-! ## A call -/

theorem readLen_areaOf {es : List Entry} (rest : List UInt8)
    (h : sharedDataHeaderSize + (encode es).length < 2 ^ 16) :
    readLen (areaOf es rest) 0 = sharedDataHeaderSize + (encode es).length := by
  rw [areaOf, ← List.nil_append (header _ _ ++ _)]
  exact readLen_header rfl h

theorem readType_areaOf (es : List Entry) (rest : List UInt8) :
    readType (areaOf es rest) 0 = sharedDataTlvInfoMagic := by
  rw [areaOf, ← List.nil_append (header _ _ ++ _)]
  exact readType_header rfl (by decide)

/-- The call may be made, and the buffer may be written. -/
def Permitted (S : Setup) (c : Call) : Prop :=
  c.accessible = true ∧ checkBootDataAccessPolicy S c.partitionId (c.majorType % 2 ^ 8) = true

/-- A call in an area with the entries `es`. -/
theorem handler_eq {S : Setup} {c : Call} (hp : Permitted S c) {es : List Entry} (rest : List UInt8)
    (hlen : sharedDataHeaderSize + (encode es).length < 2 ^ 16)
    (hroom : sharedDataHeaderSize ≤ c.bufSize % 2 ^ 16) :
    getBootDataHandler S ⟨areaOf es rest, true⟩ c =
      some (if (deliver (c.majorType % 2 ^ 8) (c.bufSize % 2 ^ 16) es []).1 then
          some (header sharedDataTlvInfoMagic (sharedDataHeaderSize +
              (deliver (c.majorType % 2 ^ 8) (c.bufSize % 2 ^ 16) es []).2.2.length) ++
            (deliver (c.majorType % 2 ^ 8) (c.bufSize % 2 ^ 16) es []).2.2)
        else none,
        ⟨areaOf (deliver (c.majorType % 2 ^ 8) (c.bufSize % 2 ^ 16) es []).2.1 rest, true⟩) := by
  obtain ⟨hacc, hpolicy⟩ := hp
  have hz : c.bufSize % 2 ^ 16 < 2 ^ 16 := Nat.mod_lt _ (by decide)
  have hshort : Short es := short_of_length (by omega)
  have hfuel : es.length < (areaOf es rest).length + 1 := by
    have hle := length_le_encode es
    simp only [areaOf, List.length_append]
    omega
  have hloop := copyLoop_deliver (c.majorType % 2 ^ 8) hz rest es
    (header sharedDataTlvInfoMagic (sharedDataHeaderSize + (encode es).length)) []
    ((areaOf es rest).length + 1) hshort hfuel
  have hsize : (header sharedDataTlvInfoMagic (sharedDataHeaderSize + (encode es).length)).length =
      sharedDataHeaderSize := length_header _ _
  rw [hsize] at hloop
  have hnot : ¬ c.bufSize % 2 ^ 16 < sharedDataHeaderSize := by omega
  simp only [getBootDataHandler, hacc, hpolicy, Bool.not_true, Bool.false_eq_true, if_false,
    if_neg hnot, readLen_areaOf rest hlen]
  have hleft : areaOf (deliver (c.majorType % 2 ^ 8) (c.bufSize % 2 ^ 16) es []).2.1 rest =
      header sharedDataTlvInfoMagic (sharedDataHeaderSize + (encode es).length) ++
        (encode (deliver (c.majorType % 2 ^ 8) (c.bufSize % 2 ^ 16) es []).2.1 ++ rest) := by
    rw [areaOf, renum_length (deliver_renum _ _ es [])]
  rw [hleft]
  exact congrArg (Option.map _) hloop

/-- Another call changes nothing. -/
theorem handler_denied {S : Setup} {c : Call} {s : St}
    (h : ¬ (Permitted S c ∧ sharedDataHeaderSize ≤ c.bufSize % 2 ^ 16)) :
    getBootDataHandler S s c = some (none, s) := by
  simp only [getBootDataHandler]
  split_ifs with hacc hvalid hpolicy hroom
  · rfl
  · rfl
  · rfl
  · rfl
  · simp only [Bool.not_eq_true', Bool.not_eq_false] at hacc hpolicy
    exact absurd ⟨⟨hacc, hpolicy⟩, by omega⟩ h

/-! ## Runs -/

/-- After the start of the SPM. -/
def Init (es₀ : List Entry) (rest : List UInt8) (s : St) : Prop :=
  s = validateBootData (areaOf es₀ rest)

/-- Any partition may call with any arguments. -/
def step (S : Setup) (s : St) (c : Call) : Option St := (getBootDataHandler S s c).map Prod.snd

def lts (S : Setup) (es₀ : List Entry) (rest : List UInt8) : LTS St Call :=
  LTS.ofFn (Init es₀ rest) (step S)

/-- The area has the entries of the start, some of them renumbered. -/
def Inv (es₀ : List Entry) (rest : List UInt8) (s : St) : Prop :=
  s.valid = true ∧ ∃ es, Renum es₀ es ∧ s.area = areaOf es rest

theorem renum_trans {es₁ es₂ es₃ : List Entry} (h : Renum es₁ es₂) (h' : Renum es₂ es₃) :
    Renum es₁ es₃ := by
  induction h generalizing es₃ with
  | nil => exact h'
  | cons he _ ih =>
    cases h' with
    | cons he' h' =>
      refine .cons ?_ (ih h')
      rcases he with rfl | rfl
      · exact he'
      · rcases he' with rfl | rfl
        · exact .inr rfl
        · exact .inr (remapEntry_remapEntry _)

/-- Renumbering twice is renumbering. -/
theorem renum_selected {es es' : List Entry} (h : Renum es es') (m : Nat) :
    selected es' m = selected es m := by
  have hmap : es'.map remapEntry = es.map remapEntry := by
    induction h with
    | nil => rfl
    | cons he _ ih =>
      rcases he with rfl | rfl
      · simp [ih]
      · simp [ih]
  rw [selected, hmap, selected]

theorem selected_eq_wanted {es : List Entry} (h : OnlyIas es) (m : Nat) :
    selected es m = wanted es m := by
  rw [selected, wanted, List.filter_map]
  have hfilter : es.filter ((fun e => decide (major e = m)) ∘ remapEntry) =
      es.filter (fun e => decide (major e = m)) := by
    refine List.filter_congr fun e he => ?_
    simp [major_remapEntry (h e he)]
  rw [hfilter]
  exact List.map_congr_left fun e he => remapEntry_of_ias (h e (List.mem_of_mem_filter he))

theorem inv_init (es₀ : List Entry) (rest : List UInt8) :
    Inv es₀ rest (validateBootData (areaOf es₀ rest)) := by
  refine ⟨?_, es₀, renum_refl es₀, rfl⟩
  simp [validateBootData, readType_areaOf]

theorem inv_step {S : Setup} {es₀ : List Entry} {rest : List UInt8} {s s' : St} {c : Call}
    (hlen : sharedDataHeaderSize + (encode es₀).length < 2 ^ 16) (h : Inv es₀ rest s)
    (hs : step S s c = some s') : Inv es₀ rest s' := by
  obtain ⟨area, valid⟩ := s
  obtain ⟨hvalid, es, hren, harea⟩ := id h
  dsimp only at hvalid harea
  subst hvalid harea
  by_cases hp : Permitted S c ∧ sharedDataHeaderSize ≤ c.bufSize % 2 ^ 16
  · have hrun := handler_eq hp.1 rest (by rw [renum_length hren]; exact hlen) hp.2
    simp only [step, hrun, Option.map_some, Option.some.injEq] at hs
    subst hs
    exact ⟨rfl, _, renum_trans hren (deliver_renum _ _ es []), rfl⟩
  · simp only [step, handler_denied hp, Option.map_some, Option.some.injEq] at hs
    exact hs ▸ h

theorem inv_inductive (S : Setup) {es₀ : List Entry} {rest : List UInt8}
    (hlen : sharedDataHeaderSize + (encode es₀).length < 2 ^ 16) :
    (lts S es₀ rest).Inductive (Inv es₀ rest) where
  init _ h := h ▸ inv_init es₀ rest
  step _ _ _ h hs := inv_step hlen h hs

/-! ## The law of a call -/

/-- The bytes of the header and of what a caller should get. -/
def needed (es₀ : List Entry) (m : Nat) : Nat :=
  sharedDataHeaderSize + (encode (wanted es₀ m)).length

/-- The call succeeds if the header and the entries fit, and then it gives them. `es₀` are the
entries of the start. -/
def Delivered (S : Setup) (es₀ : List Entry) (s : St) (c : Call) : Prop :=
  (getBootDataHandler S s c).map Prod.fst =
    some (if needed es₀ (c.majorType % 2 ^ 8) ≤ c.bufSize then
        some (header sharedDataTlvInfoMagic (needed es₀ (c.majorType % 2 ^ 8)) ++
          encode (wanted es₀ (c.majorType % 2 ^ 8)))
      else none)

/-- The call leaves entries in the area that are related to those before by `r`. -/
def Leaves (S : Setup) (rest : List UInt8) (s : St) (c : Call) (r : Entry → Entry → Prop) : Prop :=
  ∃ es es', s.area = areaOf es rest ∧
    (getBootDataHandler S s c).map (fun a => a.2.area) = some (areaOf es' rest) ∧
    List.Forall₂ r es es'

structure CallLaw (S : Setup) (es₀ : List Entry) (rest : List UInt8) (s : St) (c : Call) : Prop where
  delivered : Delivered S es₀ s c
  unaltered : Leaves S rest s c fun e e' => major e ≠ c.majorType % 2 ^ 8 → e' = e

/-- The call is the attestation service's, or it finds no boot record to renumber. -/
def Settled (rest : List UInt8) (s : St) (c : Call) : Prop :=
  c.majorType % 2 ^ 8 = tlvMajorIas ∨ ∀ es, s.area = areaOf es rest → ∀ e ∈ es, ¬ Record e

/-- An entry keeps its major type, also when it is renumbered. -/
theorem renum_onlyIas {es es' : List Entry} (h : Renum es es') (ho : OnlyIas es) : OnlyIas es' := by
  induction h with
  | nil => exact ho
  | @cons e e' _ _ he _ ih =>
    rw [OnlyIas, List.forall_mem_cons] at ho ⊢
    refine ⟨?_, ih ho.2⟩
    rcases he with rfl | rfl
    · exact ho.1
    · intro hr
      by_cases hrec : Record e
      · rw [major_remapEntry ho.1]
        exact ho.1 hrec
      · rw [remapEntry_of_not hrec] at hr
        exact absurd hr hrec

theorem renum_ias {es es' : List Entry} (h : Renum es es') (ho : OnlyIas es) :
    List.Forall₂ (fun e e' => e' = e ∨ (major e = tlvMajorIas ∧ e' = renumbered e)) es es' := by
  induction h with
  | nil => exact .nil
  | @cons e e' _ _ he _ ih =>
    rw [OnlyIas, List.forall_mem_cons] at ho
    refine .cons ?_ (ih ho.2)
    rcases he with rfl | rfl
    · exact .inl rfl
    · by_cases hrec : Record e
      · exact .inr ⟨ho.1 hrec, remapEntry_of_ias ho.1⟩
      · exact .inl (remapEntry_of_not hrec)

theorem renum_others {es es' : List Entry} {m : Nat} (h : Renum es es') (ho : OnlyIas es)
    (hm : m = tlvMajorIas ∨ ∀ e ∈ es, ¬ Record e) :
    List.Forall₂ (fun e e' => major e ≠ m → e' = e) es es' := by
  induction h with
  | nil => exact .nil
  | @cons e e' _ _ he _ ih =>
    rw [OnlyIas, List.forall_mem_cons] at ho
    refine .cons ?_ (ih ho.2 (hm.imp_right fun hn e he => hn e (List.mem_cons_of_mem _ he)))
    intro hother
    rcases he with rfl | rfl
    · rfl
    · refine remapEntry_of_not fun hrec => ?_
      rcases hm with rfl | hn
      · exact hother (ho.1 hrec)
      · exact hn e List.mem_cons_self hrec

/-- The size is not truncated, or what is left of it is enough. -/
def SizeOk (es₀ : List Entry) (c : Call) : Prop :=
  c.bufSize < 2 ^ 16 ∨ needed es₀ (c.majorType % 2 ^ 8) ≤ c.bufSize % 2 ^ 16

/-- **In every run, whatever was called before, a call gives exactly the entries of its major
type, when the boot records of modules 0 and 1 are the attestation service's.** It changes
nothing in the area but such records, and nothing of another major type once these are
renumbered. -/
theorem boot_data_delivered (S : Setup) (es₀ : List Entry) (rest : List UInt8)
    (hlen : sharedDataHeaderSize + (encode es₀).length < 2 ^ 16) (ho : OnlyIas es₀) (s : St)
    (hr : (lts S es₀ rest).Reachable s) (c : Call) (hp : Permitted S c) (hsize : SizeOk es₀ c) :
    Delivered S es₀ s c ∧
      Leaves S rest s c (fun e e' => e' = e ∨ (major e = tlvMajorIas ∧ e' = renumbered e)) ∧
      (Settled rest s c → CallLaw S es₀ rest s c) := by
  obtain ⟨area, valid⟩ := s
  obtain ⟨hvalid, es, hren, harea⟩ := (inv_inductive S hlen).reachable _ hr
  dsimp only at hvalid harea
  subst hvalid harea
  have hes := renum_onlyIas hren ho
  have hlen' : sharedDataHeaderSize + (encode es).length < 2 ^ 16 := by
    rw [renum_length hren]
    exact hlen
  have hsel : ∀ m, selected es m = wanted es₀ m := fun m => by
    rw [renum_selected hren, selected_eq_wanted ho]
  have hfits : needed es₀ (c.majorType % 2 ^ 8) ≤ c.bufSize ↔
      needed es₀ (c.majorType % 2 ^ 8) ≤ c.bufSize % 2 ^ 16 := by
    rcases hsize with hz | hz
    · rw [Nat.mod_eq_of_lt hz]
    · exact iff_of_true (Nat.le_trans hz (Nat.mod_le _ _)) hz
  -- what the call leaves follows from which entries were renumbered
  have hleaves : ∀ es', Renum es es' →
      (getBootDataHandler S ⟨areaOf es rest, true⟩ c).map (fun a => a.2.area) =
        some (areaOf es' rest) → Delivered S es₀ ⟨areaOf es rest, true⟩ c →
      Delivered S es₀ ⟨areaOf es rest, true⟩ c ∧
        Leaves S rest ⟨areaOf es rest, true⟩ c
          (fun e e' => e' = e ∨ (major e = tlvMajorIas ∧ e' = renumbered e)) ∧
        (Settled rest ⟨areaOf es rest, true⟩ c → CallLaw S es₀ rest ⟨areaOf es rest, true⟩ c) := by
    intro es' hren' harea hd
    refine ⟨hd, ⟨es, es', rfl, harea, renum_ias hren' hes⟩, fun hset => ⟨hd, es, es', rfl, harea, ?_⟩⟩
    exact renum_others hren' hes (hset.imp_right fun hn => hn es rfl)
  by_cases hroom : sharedDataHeaderSize ≤ c.bufSize % 2 ^ 16
  · have hrun := handler_eq hp rest hlen' hroom
    refine hleaves _ (deliver_renum _ _ es []) (by rw [hrun]; rfl) ?_
    have hok := deliver_ok (c.majorType % 2 ^ 8) (c.bufSize % 2 ^ 16) es [] hroom
    rw [List.length_nil, Nat.add_zero, hsel, ← needed, ← hfits] at hok
    rw [Delivered, hrun]
    by_cases hfit : needed es₀ (c.majorType % 2 ^ 8) ≤ c.bufSize
    · have hdata := deliver_data _ _ es [] (hok.2 hfit)
      rw [hsel, List.nil_append] at hdata
      simp only [Option.map_some, if_pos (hok.2 hfit), if_pos hfit, hdata]
      rfl
    · simp only [Option.map_some, if_neg hfit, if_neg (fun h => hfit (hok.1 h))]
  · have hrefused : getBootDataHandler S ⟨areaOf es rest, true⟩ c =
        some (none, ⟨areaOf es rest, true⟩) := handler_denied fun h => hroom h.2
    have hfit : ¬ needed es₀ (c.majorType % 2 ^ 8) ≤ c.bufSize := by
      rw [hfits, needed]
      omega
    refine hleaves es (renum_refl es) (by rw [hrefused]; rfl) ?_
    rw [Delivered, hrefused, if_neg hfit]
    rfl

/-- The attestation partition is 1, the firmware-update partition 2. -/
def twoReaders : Setup := ⟨1, 2⟩

/-- A boot record of module 0, and a version of an image. -/
def someEntries : List Entry := [⟨0x103F, [7, 8]⟩, ⟨0x2040, [9]⟩]

def attestCall : Call := ⟨1, 1, 512, true⟩

def fwuCall : Call := ⟨2, 2, 512, true⟩

/-- Both partitions have called before. -/
theorem boot_data_after_both :
    ∃ s, CallLaw twoReaders someEntries [] s attestCall ∧
      (getBootDataHandler twoReaders s attestCall).map Prod.fst =
        some (some (header sharedDataTlvInfoMagic 10 ++ Entry.bytes ⟨0x113F, [7, 8]⟩)) := by
  have ho : OnlyIas someEntries := by
    intro e he hr
    simp only [someEntries, List.mem_cons, List.not_mem_nil, or_false] at he
    rcases he with rfl | rfl
    · decide
    · exact absurd hr (by rw [Record]; decide)
  have hrun : (LTS.exec (step twoReaders) (validateBootData (areaOf someEntries []))
      [fwuCall, attestCall]).isSome := by decide +kernel
  have hlaw := boot_data_delivered twoReaders someEntries [] (by decide) ho _
    (LTS.reachable_exec [fwuCall, attestCall] (.init rfl) (Option.some_get hrun).symm) attestCall
    ⟨rfl, by decide⟩ (.inl (by decide))
  exact ⟨_, hlaw.2.2 (.inl rfl), hlaw.1⟩

/-- The area has an entry for the firmware update, with the claim of a boot record. It is given
to the attestation service, as a boot record. -/
theorem boot_data_takes_fwu_record :
    ¬ CallLaw twoReaders [⟨0x203F, [5]⟩] [] (validateBootData (areaOf [⟨0x203F, [5]⟩] []))
      attestCall := by
  intro h
  have hrun : (getBootDataHandler twoReaders (validateBootData (areaOf [⟨0x203F, [5]⟩] []))
      attestCall).map Prod.fst =
      some (some (header sharedDataTlvInfoMagic 9 ++ Entry.bytes ⟨0x113F, [5]⟩)) := by
    decide +kernel
  have hlaw := h.delivered
  rw [Delivered, hrun] at hlaw
  exact absurd hlaw (by decide)

end Tfm.L4.BootData
