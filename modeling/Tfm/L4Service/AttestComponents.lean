import Tfm.L4Service.BootData

/-!
# Software components of the attestation token

The attestation service holds a copy of its boot data. Two searches go through the entries: by
module, resumed behind the entry found last, and by claim among the entries of `SW_GENERAL`.

The service's copy is its bytes, a pointer into it an offset. The token is the list of the calls
of the CBOR encoder.

Results:
* `getTlvByModule_at`: the search by module, from any entry on.
* `getTlvById_eq`: the search by claim.
* `addAllSwComponents_eq`: what is put into the token, the first entry of every module.
* `sw_components_iff`: when these are the boot records.
-/
namespace Tfm.L4.Attest
open Tfm.Tlv Tfm.L4.BootData

/-! ## The service -/

/-- What a search returns, and its output parameters. -/
inductive Found
  | malformed
  | notFound
  | found (claim tlvLen tlvPtr : Nat)
  deriving DecidableEq, Repr

/-- mirrors secure_fw/partitions/initial_attestation/attest_core.c:226-240 -/
def searchModule (mem : List UInt8) (module tlvEnd : Nat) : Nat → Nat → Option Found
  | 0, _ => none
  | fuel + 1, tlvCurr =>
    if tlvCurr < tlvEnd then
      if getIasModule (readType mem tlvCurr) = module then
        some (.found (getIasClaim (readType mem tlvCurr)) (readLen mem tlvCurr) tlvCurr)
      else searchModule mem module tlvEnd fuel (tlvCurr + (headerSize + readLen mem tlvCurr))
    else some .notFound

/-- Where a search starts; `none` is the null pointer. -/
def startOf (mem : List UInt8) : Option Nat → Nat
  | none => sharedDataHeaderSize
  | some tlvPtr => tlvPtr + headerSize + readLen mem tlvPtr

/-- mirrors secure_fw/partitions/initial_attestation/attest_core.c:193-241 -/
def getTlvByModule (mem : List UInt8) (module : Nat) (tlvPtr : Option Nat) : Option Found :=
  if readType mem 0 ≠ sharedDataTlvInfoMagic then some .malformed
  else searchModule mem module (readLen mem 0) (mem.length + 1) (startOf mem tlvPtr)

def searchId (mem : List UInt8) (claim : Nat) : Nat → Option Nat → Option Found
  | 0, _ => none
  | fuel + 1, tlvPtr =>
    match getTlvByModule mem swGeneral tlvPtr with
    | some (.found tlvId tlvLen ptr) =>
      if claim = tlvId then some (.found tlvId tlvLen ptr) else searchId mem claim fuel (some ptr)
    | r => r

/-- mirrors secure_fw/partitions/initial_attestation/attest_core.c:255-278 -/
def getTlvById (mem : List UInt8) (claim : Nat) : Option Found :=
  searchId mem claim (mem.length + 1) none

/-- A call of the CBOR encoder. -/
inductive Cbor
  | openArrayInMapN (label : Int)
  | addEncoded (encoded : List UInt8)
  | closeArray
  | addInteger (label value : Int)
  deriving DecidableEq, Repr

/-- mirrors secure_fw/partitions/initial_attestation/attest_eat_defines.h:22-39 -/
def eatCborArmLabelSwComponents : Int := -75000 - 6

def eatCborArmLabelNoSwComponents : Int := -75000 - 7

def noSwComponentFixedValue : Int := 1

inductive AttestErr
  | claimUnavailable
  deriving DecidableEq, Repr

/-- The loop over the modules: `cnt` components are in `token`.
mirrors secure_fw/partitions/initial_attestation/attest_core.c:303-327 -/
def addModules (mem : List UInt8) :
    List Nat → Nat → List Cbor → Option (Except AttestErr (Nat × List Cbor))
  | [], cnt, token => some (.ok (cnt, token))
  | module :: modules, cnt, token =>
    match getTlvByModule mem module none with
    | none => none
    | some .malformed => some (.error .claimUnavailable)
    | some .notFound => addModules mem modules cnt token
    | some (.found _ tlvLen tlvPtr) =>
      let token :=
        if cnt + 1 = 1 then token ++ [.openArrayInMapN eatCborArmLabelSwComponents] else token
      addModules mem modules (cnt + 1)
        (token ++ [.addEncoded (slice mem (tlvPtr + headerSize) tlvLen)])

/-- mirrors secure_fw/partitions/initial_attestation/attest_core.c:288-342 -/
def addAllSwComponents (mem : List UInt8) : Option (Except AttestErr (List Cbor)) :=
  (addModules mem (List.range swMax) 0 []).map fun r => r.map fun (cnt, token) =>
    if cnt ≠ 0 then token ++ [.closeArray]
    else token ++ [.addInteger eatCborArmLabelNoSwComponents noSwComponentFixedValue]

/-! ## What the token should have -/

def ofModule (module : Nat) (e : Entry) : Bool := decide (getIasModule e.type.toNat = module)

def ofClaim (module claim : Nat) (e : Entry) : Bool :=
  ofModule module e && decide (getIasClaim e.type.toNat = claim)

/-- The software modules: `SW_BL2` to the last one before `SW_MAX`. -/
def swModules : List Nat := [1, 2, 3, 4, 5, 6]

/-- The boot records, by module. -/
def components (es : List Entry) : List (List UInt8) :=
  swModules.filterMap fun m => (es.find? (ofClaim m swBootRecord)).map Entry.data

/-- The calls for these components. -/
def tokenOf : List (List UInt8) → List Cbor
  | [] => [.addInteger eatCborArmLabelNoSwComponents noSwComponentFixedValue]
  | c :: cs => .openArrayInMapN eatCborArmLabelSwComponents ::
      ((c :: cs).map .addEncoded ++ [.closeArray])

/-- The search finds the first entry of the general module with the claim. -/
def FindsClaim (mem : List UInt8) (es : List Entry) (claim : Nat) : Prop :=
  match es.find? (ofClaim swGeneral claim) with
  | none => getTlvById mem claim = some .notFound
  | some e => ∃ es₁ es₂, es = es₁ ++ e :: es₂ ∧ (∀ x ∈ es₁, ofClaim swGeneral claim x = false) ∧
      getTlvById mem claim =
        some (.found claim e.data.length (sharedDataHeaderSize + (encode es₁).length)) ∧
      slice mem (sharedDataHeaderSize + (encode es₁).length + headerSize) e.data.length = e.data

/-- What is expected for a boot status with the entries `es`. -/
structure SwLaw (es : List Entry) (rest : List UInt8) : Prop where
  token : addAllSwComponents (areaOf es rest) = some (.ok (tokenOf (components es)))
  byId : ∀ claim, FindsClaim (areaOf es rest) es claim

/-! ## The searches -/

/-- The first entry that passes the test, and where it is. -/
def locate (p : Entry → Bool) : Nat → List Entry → Option (Nat × Entry)
  | _, [] => none
  | off, e :: es => if p e then some (off, e) else locate p (off + e.bytes.length) es

def Found.of : Option (Nat × Entry) → Found
  | none => .notFound
  | some (off, e) => .found (getIasClaim e.type.toNat) e.data.length off

theorem locate_eq_none {p : Entry → Bool} :
    ∀ {es : List Entry} {off : Nat}, locate p off es = none ↔ es.find? p = none
  | [], off => by simp [locate]
  | e :: es, off => by
    by_cases hp : p e = true
    · simp [locate, hp]
    · have ih : locate p (off + e.bytes.length) es = none ↔ es.find? p = none := locate_eq_none
      simp only [locate, hp, Bool.false_eq_true, if_false, ih, List.find?_cons_of_neg,
        not_false_eq_true]

theorem locate_split {p : Entry → Bool} :
    ∀ {es : List Entry} {off ptr : Nat} {e : Entry}, locate p off es = some (ptr, e) →
      ∃ es₁ es₂, es = es₁ ++ e :: es₂ ∧ ptr = off + (encode es₁).length ∧ p e = true ∧
        ∀ x ∈ es₁, p x = false
  | [], off, ptr, e, h => by cases h
  | a :: es, off, ptr, e, h => by
    by_cases hp : p a = true
    · simp only [locate, hp, if_true, Option.some.injEq, Prod.mk.injEq] at h
      obtain ⟨rfl, rfl⟩ := h
      exact ⟨[], es, rfl, by simp, hp, by simp⟩
    · simp only [locate, hp, Bool.false_eq_true, if_false] at h
      obtain ⟨es₁, es₂, rfl, hptr, he, hbefore⟩ := locate_split h
      refine ⟨a :: es₁, es₂, rfl, ?_, he, ?_⟩
      · rw [hptr, encode_cons, List.length_append, Nat.add_assoc]
      · exact List.forall_mem_cons.2 ⟨Bool.not_eq_true _ ▸ hp, hbefore⟩

theorem searchModule_locate (module : Nat) (post : List UInt8) :
    ∀ (es : List Entry) (pre : List UInt8) (fuel : Nat), Short es → es.length < fuel →
      searchModule (pre ++ (encode es ++ post)) module (pre.length + (encode es).length) fuel
          pre.length =
        some (.of (locate (ofModule module) pre.length es))
  | [], pre, fuel + 1, _, _ => by simp [searchModule, locate, Found.of]
  | e :: es, pre, fuel + 1, hs, hf => by
    obtain ⟨he, hs⟩ := short_cons.1 hs
    rw [List.length_cons] at hf
    have hlt : pre.length < pre.length + (encode (e :: es)).length := by
      rw [encode_cons, List.length_append, length_bytes, headerSize]
      omega
    have ih := searchModule_locate module post es (pre ++ e.bytes) fuel hs (by omega)
    rw [List.length_append, length_bytes, List.append_assoc] at ih
    have hend : pre.length + (encode (e :: es)).length =
        pre.length + (headerSize + e.data.length) + (encode es).length := by
      rw [encode_cons, List.length_append, length_bytes]
      omega
    rw [searchModule, if_pos hlt, hend, encode_cons, List.append_assoc, readType_at rfl,
      readLen_at rfl he]
    by_cases hm : getIasModule e.type.toNat = module
    · simp [hm, locate, ofModule, Found.of]
    · rw [if_neg hm, ih]
      simp [locate, ofModule, hm]

theorem locate_skip {p : Entry → Bool} {es : List Entry} :
    ∀ {es₁ : List Entry} {off : Nat}, (∀ x ∈ es₁, p x = false) →
      locate p off (es₁ ++ es) = locate p (off + (encode es₁).length) es
  | [], off, _ => by simp
  | a :: es₁, off, h => by
    obtain ⟨ha, h⟩ := List.forall_mem_cons.1 h
    have ih : locate p (off + a.bytes.length) (es₁ ++ es) =
        locate p (off + a.bytes.length + (encode es₁).length) es := locate_skip h
    rw [encode_cons, List.length_append, ← Nat.add_assoc, ← ih]
    simp [locate, ha]

section Searches

variable {rest : List UInt8} {done es : List Entry} {tlvPtr : Option Nat}

/-- The search by module, from the entry behind `done` on. -/
theorem getTlvByModule_at (module : Nat)
    (hlen : sharedDataHeaderSize + (encode (done ++ es)).length < 2 ^ 16)
    (hstart : startOf (areaOf (done ++ es) rest) tlvPtr =
      sharedDataHeaderSize + (encode done).length) :
    getTlvByModule (areaOf (done ++ es) rest) module tlvPtr =
      some (.of (locate (ofModule module) (sharedDataHeaderSize + (encode done).length) es)) := by
  have hmagic : ¬ readType (areaOf (done ++ es) rest) 0 ≠ sharedDataTlvInfoMagic := by
    simp [readType_areaOf]
  rw [getTlvByModule, if_neg hmagic, hstart, readLen_areaOf rest hlen]
  have hsplit : areaOf (done ++ es) rest =
      (header sharedDataTlvInfoMagic (sharedDataHeaderSize + (encode (done ++ es)).length) ++
        encode done) ++ (encode es ++ rest) := by
    simp [areaOf, List.append_assoc]
  have hpre : (header sharedDataTlvInfoMagic
      (sharedDataHeaderSize + (encode (done ++ es)).length) ++ encode done).length =
      sharedDataHeaderSize + (encode done).length := by
    rw [List.length_append, length_header]
    rfl
  have hend : sharedDataHeaderSize + (encode (done ++ es)).length =
      sharedDataHeaderSize + (encode done).length + (encode es).length := by
    rw [encode_append, List.length_append, Nat.add_assoc]
  rw [encode_append, List.length_append] at hlen
  have hshort : Short es := short_of_length (by omega)
  have hfuel : es.length < (areaOf (done ++ es) rest).length + 1 := by
    have hle := length_le_encode es
    simp only [hsplit, List.length_append]
    omega
  have hsearch := searchModule_locate module rest es
    (header sharedDataTlvInfoMagic (sharedDataHeaderSize + (encode (done ++ es)).length) ++
      encode done) _ hshort hfuel
  rw [hpre, ← hsplit, ← hend] at hsearch
  exact hsearch

/-- A search is resumed behind the entry found last. -/
theorem startOf_found (rest : List UInt8) (done : List Entry) {es₁ es₂ : List Entry}
    {e : Entry} (he : e.data.length < 2 ^ 16)
    (hes : es = es₁ ++ e :: es₂) :
    startOf (areaOf (done ++ es) rest)
        (some (sharedDataHeaderSize + (encode done).length + (encode es₁).length)) =
      sharedDataHeaderSize + (encode (done ++ es₁ ++ [e])).length := by
  have hsplit : areaOf (done ++ es) rest =
      (header sharedDataTlvInfoMagic (sharedDataHeaderSize + (encode (done ++ es)).length) ++
        encode (done ++ es₁)) ++ (e.bytes ++ (encode es₂ ++ rest)) := by
    simp [areaOf, hes, List.append_assoc]
  have hoff : sharedDataHeaderSize + (encode done).length + (encode es₁).length =
      (header sharedDataTlvInfoMagic (sharedDataHeaderSize + (encode (done ++ es)).length) ++
        encode (done ++ es₁)).length := by
    simp [sharedDataHeaderSize, headerSize, Nat.add_assoc]
  rw [startOf, hsplit, readLen_at hoff he]
  simp [Nat.add_assoc]

end Searches

theorem ofClaim_module {module claim : Nat} {e : Entry} (h : ofModule module e = false) :
    ofClaim module claim e = false := by
  simp [ofClaim, h]

theorem searchId_locate (rest : List UInt8) (claim : Nat) :
    ∀ (fuel : Nat) (done es : List Entry) {tlvPtr : Option Nat}, es.length < fuel →
      sharedDataHeaderSize + (encode (done ++ es)).length < 2 ^ 16 →
      startOf (areaOf (done ++ es) rest) tlvPtr = sharedDataHeaderSize + (encode done).length →
      searchId (areaOf (done ++ es) rest) claim fuel tlvPtr =
        some (.of (locate (ofClaim swGeneral claim) (sharedDataHeaderSize + (encode done).length) es))
  | 0, _, _, _, hf, _, _ => absurd hf (Nat.not_lt_zero _)
  | fuel + 1, done, es, tlvPtr, hf, hlen, hstart => by
    rw [searchId, getTlvByModule_at swGeneral hlen hstart]
    cases hloc : locate (ofModule swGeneral) (sharedDataHeaderSize + (encode done).length) es with
    | none =>
      have hnone : es.find? (ofClaim swGeneral claim) = none := by
        have hfind := locate_eq_none.1 hloc
        rw [List.find?_eq_none] at hfind ⊢
        intro x hx
        rw [ofClaim_module (Bool.not_eq_true _ ▸ hfind x hx)]
        decide
      rw [locate_eq_none.2 hnone]
      rfl
    | some r =>
      obtain ⟨ptr, e⟩ := r
      obtain ⟨es₁, es₂, rfl, rfl, he, hbefore⟩ := locate_split hloc
      have hskip : ∀ x ∈ es₁, ofClaim swGeneral claim x = false :=
        fun x hx => ofClaim_module (hbefore x hx)
      rw [locate_skip hskip]
      by_cases hclaim : claim = getIasClaim e.type.toNat
      · subst hclaim
        have htest : ofClaim swGeneral (getIasClaim e.type.toNat) e = true := by simp [ofClaim, he]
        simp only [Found.of, locate, htest, if_true]
      · have htest : ofClaim swGeneral claim e = false := by
          have hne : ¬ getIasClaim e.type.toNat = claim := fun h => hclaim h.symm
          simp [ofClaim, hne]
        -- the search goes on behind `e`
        have hshort : e.data.length < 2 ^ 16 := by
          simp only [encode_append, encode_cons, List.length_append, length_bytes] at hlen
          omega
        have hassoc : done ++ (es₁ ++ e :: es₂) = done ++ es₁ ++ [e] ++ es₂ := by simp
        have hstart' := startOf_found rest done hshort (rfl : es₁ ++ e :: es₂ = _)
        rw [hassoc] at hlen hstart'
        have hf' : es₂.length < fuel := by
          simp only [List.length_append, List.length_cons] at hf
          omega
        have ih := searchId_locate rest claim fuel _ es₂ hf' hlen hstart'
        have hoff : sharedDataHeaderSize + (encode done).length + (encode es₁).length + e.bytes.length =
            sharedDataHeaderSize + (encode (done ++ es₁ ++ [e])).length := by
          simp [Nat.add_assoc]
        simp only [Found.of, if_neg hclaim, locate, htest, Bool.false_eq_true, if_false, hoff]
        rw [hassoc, ih]
        rfl

/-- The search by claim. -/
theorem getTlvById_eq {es : List Entry} (rest : List UInt8) (claim : Nat)
    (hlen : sharedDataHeaderSize + (encode es).length < 2 ^ 16) :
    getTlvById (areaOf es rest) claim =
      some (.of (locate (ofClaim swGeneral claim) sharedDataHeaderSize es)) := by
  have hfuel : es.length < (areaOf es rest).length + 1 := by
    have hle := length_le_encode es
    simp only [areaOf, List.length_append]
    omega
  exact searchId_locate rest claim _ [] es hfuel hlen rfl

/-- What is at an entry that was located. -/
theorem data_of_located {es es₁ es₂ : List Entry} {e : Entry} (rest : List UInt8)
    (hes : es = es₁ ++ e :: es₂) :
    slice (areaOf es rest) (sharedDataHeaderSize + (encode es₁).length + headerSize) e.data.length =
      e.data := by
  have hsplit : areaOf es rest =
      (header sharedDataTlvInfoMagic (sharedDataHeaderSize + (encode es).length) ++ encode es₁) ++
        (e.bytes ++ (encode es₂ ++ rest)) := by
    simp [areaOf, hes, List.append_assoc]
  have hoff : sharedDataHeaderSize + (encode es₁).length =
      (header sharedDataTlvInfoMagic (sharedDataHeaderSize + (encode es).length) ++
        encode es₁).length := by
    simp [sharedDataHeaderSize, headerSize]
  rw [hsplit, data_at hoff]

theorem findsClaim {es : List Entry} (rest : List UInt8) (claim : Nat)
    (hlen : sharedDataHeaderSize + (encode es).length < 2 ^ 16) :
    FindsClaim (areaOf es rest) es claim := by
  have hget := getTlvById_eq rest claim hlen
  unfold FindsClaim
  cases hloc : locate (ofClaim swGeneral claim) sharedDataHeaderSize es with
  | none =>
    rw [hloc] at hget
    rw [locate_eq_none.1 hloc]
    exact hget
  | some r =>
    obtain ⟨ptr, e⟩ := r
    obtain ⟨es₁, es₂, hes, rfl, he, hbefore⟩ := locate_split hloc
    have hfind : es.find? (ofClaim swGeneral claim) = some e := by
      rw [hes]
      exact List.find?_eq_some_iff_append.2 ⟨he, es₁, es₂, rfl, fun x hx => by simp [hbefore x hx]⟩
    have hclaim : getIasClaim e.type.toNat = claim := by
      simp only [ofClaim, Bool.and_eq_true, decide_eq_true_eq] at he
      exact he.2
    rw [hloc, Found.of, hclaim] at hget
    rw [hfind]
    exact ⟨es₁, es₂, hes, hbefore, hget, data_of_located rest hes⟩

/-! ## The token -/

/-- What is added for a module: its first entry, whatever its claim is. -/
def firstOf (es : List Entry) (m : Nat) : Option (List UInt8) :=
  (es.find? (ofModule m)).map Entry.data

def recordOf (es : List Entry) (m : Nat) : Option (List UInt8) :=
  (es.find? (ofClaim m swBootRecord)).map Entry.data

theorem getTlvByModule_first {es : List Entry} (rest : List UInt8) (m : Nat)
    (hlen : sharedDataHeaderSize + (encode es).length < 2 ^ 16) :
    match firstOf es m with
    | none => getTlvByModule (areaOf es rest) m none = some .notFound
    | some data => ∃ claim ptr, getTlvByModule (areaOf es rest) m none =
        some (.found claim data.length ptr) ∧
      slice (areaOf es rest) (ptr + headerSize) data.length = data := by
  have hget : getTlvByModule (areaOf ([] ++ es) rest) m none =
      some (.of (locate (ofModule m) (sharedDataHeaderSize + (encode []).length) es)) :=
    getTlvByModule_at m hlen rfl
  rw [List.nil_append, encode_nil, List.length_nil, Nat.add_zero] at hget
  rw [firstOf]
  cases hloc : locate (ofModule m) sharedDataHeaderSize es with
  | none =>
    rw [hloc] at hget
    rw [locate_eq_none.1 hloc]
    exact hget
  | some r =>
    obtain ⟨ptr, e⟩ := r
    obtain ⟨es₁, es₂, hes, rfl, he, hbefore⟩ := locate_split hloc
    have hfind : es.find? (ofModule m) = some e := by
      rw [hes]
      exact List.find?_eq_some_iff_append.2 ⟨he, es₁, es₂, rfl, fun x hx => by simp [hbefore x hx]⟩
    rw [hloc] at hget
    rw [hfind]
    exact ⟨_, _, hget, data_of_located rest hes⟩

/-- The calls once the array was opened, if there is a component. -/
def added (cnt : Nat) (token : List Cbor) (cs : List (List UInt8)) : List Cbor :=
  if cs = [] then token
  else (if cnt = 0 then token ++ [.openArrayInMapN eatCborArmLabelSwComponents] else token) ++
    cs.map .addEncoded

theorem addModules_eq {es : List Entry} (rest : List UInt8)
    (hlen : sharedDataHeaderSize + (encode es).length < 2 ^ 16) :
    ∀ (ms : List Nat) (cnt : Nat) (token : List Cbor),
      addModules (areaOf es rest) ms cnt token =
        some (.ok (cnt + (ms.filterMap (firstOf es)).length,
          added cnt token (ms.filterMap (firstOf es))))
  | [], cnt, token => by simp [addModules, added]
  | m :: ms, cnt, token => by
    have hfirst := getTlvByModule_first rest m hlen
    cases hm : firstOf es m with
    | none =>
      rw [hm] at hfirst
      have ih := addModules_eq rest hlen ms cnt token
      simp only [addModules, hfirst, ih, List.filterMap_cons_none hm]
    | some data =>
      rw [hm] at hfirst
      obtain ⟨claim, ptr, hget, hdata⟩ := hfirst
      have ih := addModules_eq rest hlen ms (cnt + 1)
      simp only [addModules, hget, hdata, ih, List.filterMap_cons_some hm, List.length_cons]
      generalize ms.filterMap (firstOf es) = cs
      have hcount : cnt + 1 + cs.length = cnt + (cs.length + 1) := by omega
      rw [hcount]
      by_cases hnil : cs = []
      · by_cases hcnt : cnt = 0
        · simp [added, hnil, hcnt]
        · simp [added, hnil, hcnt]
      · by_cases hcnt : cnt = 0
        · simp [added, hnil, hcnt]
        · simp [added, hnil, hcnt]

/-- What is put into the token. -/
theorem addAllSwComponents_eq {es : List Entry} (rest : List UInt8)
    (hlen : sharedDataHeaderSize + (encode es).length < 2 ^ 16) :
    addAllSwComponents (areaOf es rest) =
      some (.ok (tokenOf ((List.range swMax).filterMap (firstOf es)))) := by
  rw [addAllSwComponents, addModules_eq rest hlen]
  cases (List.range swMax).filterMap (firstOf es) with
  | nil => rfl
  | cons c cs => simp [added, tokenOf, Except.map]

theorem tokenOf_injective : Function.Injective tokenOf := by
  have hdata : Function.Injective Cbor.addEncoded := fun a b h => Cbor.addEncoded.inj h
  intro cs cs' h
  cases cs with
  | nil =>
    cases cs' with
    | nil => rfl
    | cons c' cs' => simp [tokenOf] at h
  | cons c cs =>
    cases cs' with
    | nil => simp [tokenOf] at h
    | cons c' cs' =>
      simp only [tokenOf, List.cons.injEq, true_and] at h
      exact List.map_injective_iff.2 hdata (List.append_cancel_right h)

/-! ## When the components are the boot records -/

section Lists

variable {α β : Type} {f g : α → Option β}

theorem filterMap_length_le {l : List α} (h : ∀ a ∈ l, (g a).isSome → (f a).isSome) :
    (l.filterMap g).length ≤ (l.filterMap f).length := by
  induction l with
  | nil => simp
  | cons a l ih =>
    obtain ⟨ha, h⟩ := List.forall_mem_cons.1 h
    have ih := ih h
    cases hg : g a with
    | none =>
      rw [List.filterMap_cons_none hg]
      cases hf : f a with
      | none => rwa [List.filterMap_cons_none hf]
      | some b =>
        rw [List.filterMap_cons_some hf, List.length_cons]
        omega
    | some b =>
      obtain ⟨b', hf⟩ := Option.isSome_iff_exists.1 (ha (by simp [hg]))
      rw [List.filterMap_cons_some hg, List.filterMap_cons_some hf, List.length_cons,
        List.length_cons]
      omega

/-- Two selections that are equal, where one selects at least where the other does. -/
theorem eq_of_filterMap {l : List α} (h : ∀ a ∈ l, (g a).isSome → (f a).isSome)
    (he : l.filterMap f = l.filterMap g) : ∀ a ∈ l, f a = g a := by
  induction l with
  | nil => simp
  | cons a l ih =>
    obtain ⟨ha, h⟩ := List.forall_mem_cons.1 h
    cases hf : f a with
    | none =>
      have hg : g a = none := by
        by_contra hne
        have hsome := ha (Option.isSome_iff_ne_none.2 hne)
        simp [hf] at hsome
      rw [List.filterMap_cons_none hf, List.filterMap_cons_none hg] at he
      exact List.forall_mem_cons.2 ⟨hf.trans hg.symm, ih h he⟩
    | some b =>
      cases hg : g a with
      | none =>
        rw [List.filterMap_cons_some hf, List.filterMap_cons_none hg] at he
        have hle := filterMap_length_le h
        rw [← he, List.length_cons] at hle
        omega
      | some b' =>
        rw [List.filterMap_cons_some hf, List.filterMap_cons_some hg, List.cons.injEq] at he
        obtain ⟨rfl, he⟩ := he
        exact List.forall_mem_cons.2 ⟨hf.trans hg.symm, ih h he⟩

end Lists

/-- There is no entry of the general module, and the first entry of every software module has
the bytes of its boot record. -/
def FirstAreRecords (es : List Entry) : Prop :=
  (∀ e ∈ es, getIasModule e.type.toNat ≠ swGeneral) ∧ ∀ m ∈ swModules, firstOf es m = recordOf es m

theorem first_of_record {es : List Entry} {m : Nat} (h : (recordOf es m).isSome) :
    (firstOf es m).isSome := by
  simp only [recordOf, firstOf, Option.isSome_map, List.find?_isSome] at h ⊢
  obtain ⟨e, he, htest⟩ := h
  simp only [ofClaim, Bool.and_eq_true] at htest
  exact ⟨e, he, htest.1⟩

theorem range_swMax : List.range swMax = swGeneral :: swModules := by decide

/-- **The token has the boot records of the software modules exactly if there is no general
entry and the first entry of every module is as good as its boot record.** The search by claim
is always right. -/
theorem sw_components_iff (es : List Entry) (rest : List UInt8)
    (hlen : sharedDataHeaderSize + (encode es).length < 2 ^ 16) :
    SwLaw es rest ↔ FirstAreRecords es := by
  have hlaw : SwLaw es rest ↔
      (List.range swMax).filterMap (firstOf es) = swModules.filterMap (recordOf es) := by
    constructor
    · intro h
      have htoken := h.token
      rw [addAllSwComponents_eq rest hlen, Option.some.injEq, Except.ok.injEq] at htoken
      exact tokenOf_injective htoken
    · intro h
      refine ⟨?_, fun claim => findsClaim rest claim hlen⟩
      rw [addAllSwComponents_eq rest hlen, h]
      rfl
  have hall : ∀ m ∈ swModules, (recordOf es m).isSome → (firstOf es m).isSome :=
    fun m _ => first_of_record
  have hgeneral : firstOf es swGeneral = none ↔
      ∀ e ∈ es, getIasModule e.type.toNat ≠ swGeneral := by
    simp [firstOf, List.find?_eq_none, ofModule]
  rw [hlaw, range_swMax, FirstAreRecords, ← hgeneral]
  constructor
  · intro h
    cases hg : firstOf es swGeneral with
    | none =>
      rw [List.filterMap_cons_none hg] at h
      exact ⟨rfl, eq_of_filterMap hall h⟩
    | some data =>
      have hle := filterMap_length_le hall
      rw [List.filterMap_cons_some hg] at h
      rw [← h, List.length_cons] at hle
      omega
  · intro hx
    obtain ⟨hg, h⟩ := hx
    rw [List.filterMap_cons_none hg]
    exact List.filterMap_congr h

/-- Boot records of the secure and of the non-secure image. -/
def twoRecords : List Entry := [⟨0x113F, [1, 2]⟩, ⟨0x117F, [3]⟩]

theorem sw_components_twoRecords : SwLaw twoRecords [] ∧ components twoRecords = [[1, 2], [3]] :=
  ⟨(sw_components_iff twoRecords [] (by decide)).2 ⟨by decide, by decide⟩, by decide⟩

/-- With a boot seed in front the token has a component that is not a software module. -/
theorem sw_components_boot_seed :
    sharedDataHeaderSize + (encode (⟨0x1000, [9, 9]⟩ :: twoRecords)).length < 2 ^ 16 ∧
      ¬ SwLaw (⟨0x1000, [9, 9]⟩ :: twoRecords) [] := by
  refine ⟨by decide, fun h => ?_⟩
  have hrun : addAllSwComponents (areaOf (⟨0x1000, [9, 9]⟩ :: twoRecords) []) =
      some (.ok (tokenOf [[9, 9], [1, 2], [3]])) := by decide +kernel
  have htoken := h.token
  rw [hrun] at htoken
  exact absurd htoken (by decide)

end Tfm.L4.Attest
