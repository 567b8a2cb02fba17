import Tfm.L3Format.CoseVerify
import Tfm.L4Service.AttestService

/-!
# Verifying a token

A relying party takes a token apart with the verifier of the library the service signs with, and
walks over its claims with the decoder. It has a key that goes with the key of the device.

Results:
* `verify_token`, `run_payload`: the message in a token, and the claims in its payload.
* `token_verifies`: in every run, a token that was returned is accepted and read.
-/
namespace Tfm.L4.Attest
open Tfm.Tlv Tfm.L4.BootData Tfm.L3.Qcbor Tfm.L3.Cose
open Tfm.Cbor (Item)

/-! ## The message in a token -/

section Token

variable {P : Platform} {es : List Entry}

/-- A token that was made is a message with a signature of the key. -/
theorem tokenResult_ok {handle cap : Nat} {payload : List UInt8} {token : UsefulBufC}
    (h : tokenResult P handle (some []) cap payload = .ok token) :
    ∃ signature, signatureOf P.crypto handle (some []) payload = .ok signature ∧
      token.contents =
        Tfm.Cbor.encode (sign1Item false nullUsefulBufC payload signature.contents) ∧
      token.contents.length ≤ cap := by
  unfold tokenResult at h
  split_ifs at h
  cases hsig : signatureOf P.crypto handle (some []) payload with
  | error e =>
    rw [hsig] at h
    cases h
  | ok signature =>
    rw [hsig] at h
    simp only at h
    split_ifs at h with hcap
    injection h with h
    refine ⟨signature, rfl, ?_, ?_⟩
    · rw [← h, contents_resultOf]
    · rw [← h, contents_resultOf]
      exact Nat.le_of_not_lt hcap

theorem length_parts_le (payload signature : List UInt8) :
    payload.length + signature.length ≤
      (Tfm.Cbor.encode (sign1Item false nullUsefulBufC payload signature)).length := by
  rw [encode_sign1Item]
  simp only [List.length_append, membersFront]
  omega

/-- A reply that is a token is the message of some claims. -/
theorem tokenReply_ok {clientId : Int} {challenge : List UInt8} {tokenSize : Nat}
    {token : List UInt8} (h : tokenReply P es clientId challenge tokenSize = .ok [token]) :
    ∃ handle key claims b, challenge.length ≤ 64 ∧ keyOf P = .ok (handle, key) ∧
      claimsOf P es (registered clientId handle key) challenge = .ok claims ∧
      signatureOf P.crypto handle (some []) (payloadOf claims) = .ok b ∧
      token = Tfm.Cbor.encode (sign1Item false nullUsefulBufC (payloadOf claims) b.contents) ∧
      token.length ≤ psaInitialAttestTokenMaxSize := by
  unfold tokenReply at h
  simp only at h
  split_ifs at h with hsize hcap
  have hch : challenge.length ≤ 64 := by
    apply verifyChallengeSize_le
    simpa using hsize
  cases hfor : tokenFor P es clientId challenge (some [])
      (min tokenSize psaInitialAttestTokenMaxSize) with
  | error e =>
    rw [hfor] at h
    cases h
  | ok made =>
    rw [hfor] at h
    injection h with h
    obtain ⟨rfl, -⟩ := List.cons.inj h
    obtain ⟨handle, key, claims, hkey, -, hclaims, hresult⟩ := tokenFor_ok hfor
    obtain ⟨b, hsig, hmessage, hlen⟩ := tokenResult_ok hresult
    exact ⟨handle, key, claims, b, hch, hkey, hclaims, hsig, hmessage,
      Nat.le_trans hlen (Nat.min_le_right _ _)⟩

/-- The relying party accepts it, and finds the claims in it. -/
theorem verify_token {handle verificationKey : Nat} {verifier : Crypto}
    (hkeys : Accepts P.crypto handle verifier verificationKey) (tagRequired decodeOnly : Bool)
    {payload : List UInt8} {signature : UsefulBufC}
    (hsig : signatureOf P.crypto handle (some []) payload = .ok signature)
    (hlen : (Tfm.Cbor.encode (sign1Item false nullUsefulBufC payload signature.contents)).length ≤
      psaInitialAttestTokenMaxSize) :
    tCoseSign1Verify verifier ⟨tagRequired, false, decodeOnly, verificationKey⟩
        (Tfm.Cbor.encode (sign1Item false nullUsefulBufC payload signature.contents)) =
      ⟨.ok (), ofBytes payload, some (messageParameters nullUsefulBufC)⟩ := by
  obtain ⟨b, rfl, hverdict⟩ := verdict_signed hkeys hsig
  rw [contents_ofBytes] at hlen ⊢
  have hparts := length_parts_le payload b
  have hmax : psaInitialAttestTokenMaxSize ≤ sizeMax - 4 := by decide
  rw [verify_message hkeys.concat _ false (Nat.zero_le _) (by omega) (by omega), Bool.and_false,
    Bool.false_and, if_neg Bool.false_ne_true, if_neg Bool.false_ne_true, hverdict, ite_self]

end Token

/-! ## The claims in a payload -/

def intItem (v : Int) : Item := if v < 0 then .nint (-v - 1).toNat else .uint v.toNat

section Claims

variable (record : List UInt8 → Item)

def ClaimValue.item : ClaimValue → Item
  | .bytes b => .bytes b
  | .text b => .text b
  | .int v => intItem v
  | .components cs => .array (cs.map record)

/-- The payload as a tree; `record` are the boot records as trees. -/
def claimsItem (claims : List Claim) : Item :=
  .map (claims.map fun c => (intItem c.label, c.value.item record))

/-- A boot record is an item, not too deep for its place in the token. -/
structure IsRecord (data : List UInt8) : Prop where
  encoded : Tfm.Cbor.encode (record data) = data
  decodable : Decodable (record data)
  depth : (record data).depth + 2 ≤ qcborMaxArrayNesting

/-- The decoder has room for the number. -/
def FitsDecoder (v : Int) : Prop := -2 ^ 63 ≤ v ∧ v < 2 ^ 64

instance (v : Int) : Decidable (FitsDecoder v) := inferInstanceAs (Decidable (_ ∧ _))

def ClaimValue.IsItem : ClaimValue → Prop
  | .bytes _ => True
  | .text _ => True
  | .int v => FitsDecoder v
  | .components cs => cs.length ≤ qcborMaxItemsInArray ∧ ∀ data ∈ cs, IsRecord record data

/-- A claim the decoder reads. -/
structure Claim.IsItem (c : Claim) : Prop where
  label : FitsDecoder c.label
  value : c.value.IsItem record

variable {record}

theorem encode_intItem (v : Int) : Tfm.Cbor.encode (intItem v) = intHead v := by
  unfold intItem intHead
  split_ifs <;> rfl

theorem isLabel_intItem (v : Int) : IsLabel (intItem v) := by
  unfold intItem
  split_ifs <;> trivial

theorem decodable_intItem {v : Int} (h : FitsDecoder v) : Decodable (intItem v) := by
  obtain ⟨hlow, hhigh⟩ := h
  unfold intItem
  split_ifs with hneg
  · show (-v - 1).toNat ≤ 2 ^ 63 - 1
    omega
  · show v.toNat < 256 ^ 8
    omega

theorem depth_intItem (v : Int) : (intItem v).depth = 0 := by
  unfold intItem
  split_ifs <;> rfl

theorem encodeAll_records {cs : List (List UInt8)} (h : ∀ data ∈ cs, IsRecord record data) :
    Tfm.Cbor.encodeAll (cs.map record) = cs.flatten := by
  induction cs with
  | nil => rfl
  | cons data cs ih =>
    rw [List.map_cons, Tfm.Cbor.encodeAll, (h data List.mem_cons_self).encoded,
      ih fun d hd => h d (List.mem_cons_of_mem _ hd), List.flatten_cons]

theorem encode_value {v : ClaimValue} (h : v.IsItem record) :
    Tfm.Cbor.encode (v.item record) = v.encoded := by
  cases v with
  | bytes b => rfl
  | text b => rfl
  | int v => exact encode_intItem v
  | components cs =>
    rw [ClaimValue.item, Tfm.Cbor.encode, encodeAll_records h.2, List.length_map]
    rfl

theorem encode_claims {claims : List Claim} (h : ∀ c ∈ claims, c.IsItem record) :
    Tfm.Cbor.encodePairs (claims.map fun c => (intItem c.label, c.value.item record)) =
      claims.flatMap Claim.encoded := by
  induction claims with
  | nil => rfl
  | cons c claims ih =>
    rw [List.map_cons, Tfm.Cbor.encodePairs, encode_intItem,
      encode_value (h c List.mem_cons_self).value, ih fun d hd => h d (List.mem_cons_of_mem _ hd),
      List.flatMap_cons, Claim.encoded, List.append_assoc]

/-- The payload is the encoding of the tree. -/
theorem payloadOf_eq {claims : List Claim} (h : ∀ c ∈ claims, c.IsItem record) :
    payloadOf claims = Tfm.Cbor.encode (claimsItem record claims) := by
  rw [claimsItem, Tfm.Cbor.encode, encode_claims h, List.length_map]
  rfl

theorem decodable_records {cs : List (List UInt8)} (h : ∀ data ∈ cs, IsRecord record data) :
    DecodableAll (cs.map record) := by
  induction cs with
  | nil => trivial
  | cons data cs ih =>
    exact ⟨(h data List.mem_cons_self).decodable, ih fun d hd => h d (List.mem_cons_of_mem _ hd)⟩

theorem decodable_value {v : ClaimValue} (h : v.IsItem record) (hshort : v.Short) :
    Decodable (v.item record) := by
  have hmax : 2 ^ 16 ≤ sizeMax - 4 := by decide
  cases v with
  | bytes b => exact Nat.le_trans (Nat.le_of_lt hshort) hmax
  | text b => exact Nat.le_trans (Nat.le_of_lt hshort) hmax
  | int v => exact decodable_intItem h
  | components cs => exact ⟨by rw [List.length_map]; exact h.1, decodable_records h.2⟩

theorem decodable_claims {claims : List Claim} (h : ∀ c ∈ claims, c.IsItem record)
    (hshort : ∀ c ∈ claims, c.value.Short) :
    DecodablePairs (claims.map fun c => (intItem c.label, c.value.item record)) := by
  induction claims with
  | nil => trivial
  | cons c claims ih =>
    have hc := h c List.mem_cons_self
    exact ⟨isLabel_intItem c.label, decodable_intItem hc.label,
      decodable_value hc.value (hshort c List.mem_cons_self),
      ih (fun d hd => h d (List.mem_cons_of_mem _ hd))
        fun d hd => hshort d (List.mem_cons_of_mem _ hd)⟩

theorem depth_records {cs : List (List UInt8)} (h : ∀ data ∈ cs, IsRecord record data) :
    Tfm.Cbor.depthAll (cs.map record) + 2 ≤ qcborMaxArrayNesting := by
  induction cs with
  | nil => exact Nat.le_of_ble_eq_true rfl
  | cons data cs ih =>
    have hone := (h data List.mem_cons_self).depth
    have hrest := ih fun d hd => h d (List.mem_cons_of_mem _ hd)
    rw [List.map_cons, Tfm.Cbor.depthAll]
    omega

theorem depth_claims {claims : List Claim} (h : ∀ c ∈ claims, c.IsItem record) :
    Tfm.Cbor.depthPairs (claims.map fun c => (intItem c.label, c.value.item record)) + 1 ≤
      qcborMaxArrayNesting := by
  induction claims with
  | nil => exact Nat.le_of_ble_eq_true rfl
  | cons c claims ih =>
    have hrest := ih fun d hd => h d (List.mem_cons_of_mem _ hd)
    have hvalue : (c.value.item record).depth + 1 ≤ qcborMaxArrayNesting := by
      have hc := (h c List.mem_cons_self).value
      cases hv : c.value with
      | bytes b => exact Nat.le_of_ble_eq_true rfl
      | text b => exact Nat.le_of_ble_eq_true rfl
      | int v =>
        rw [ClaimValue.item, depth_intItem]
        decide
      | components cs =>
        rw [hv] at hc
        have hcs := depth_records hc.2
        rw [ClaimValue.item, Item.depth]
        omega
    rw [List.map_cons, Tfm.Cbor.depthPairs, depth_intItem]
    omega

/-- The verified payload is walked over, claim by claim. -/
theorem run_payload {claims : List Claim} (h : ∀ c ∈ claims, c.IsItem record)
    (hshort : ∀ c ∈ claims, c.value.Short) (hten : claims.length ≤ 10) :
    ((decodeInit (payloadOf claims) .normal).run
        ((visits (claimsItem record claims)).length + 1)).1 =
      (visits (claimsItem record claims)).map .ok ++ [.error .noMoreItems] := by
  have hmax : 10 ≤ qcborMaxItemsInArray := by decide
  have hdec : Decodable (claimsItem record claims) := by
    refine ⟨?_, decodable_claims h hshort⟩
    rw [List.length_map]
    exact Nat.le_trans hten hmax
  have hdepth : (claimsItem record claims).depth ≤ qcborMaxArrayNesting := by
    have hpairs := depth_claims h
    rw [claimsItem, Item.depth]
    omega
  rw [payloadOf_eq h, run_encode hdec hdepth]

variable {P : Platform} {s : Service} {es : List Entry} {challenge : List UInt8}

theorem isItem_map {α : Type} {x : Except PsaAttestErr α} {label : Int} {f : α → ClaimValue}
    (hlabel : FitsDecoder label) (hx : ∀ a, x = .ok a → (f a).IsItem record) {cl : List Claim}
    {c : Claim} (h : (x.map fun a => [⟨label, f a⟩]) = .ok cl) (hc : c ∈ cl) : c.IsItem record := by
  cases x with
  | error e => cases h
  | ok a =>
    injection h with h
    rw [← h, List.mem_singleton] at hc
    rw [hc]
    exact ⟨hlabel, hx a rfl⟩

theorem isItem_halString {label : Int} (hlabel : FitsDecoder label) {string : Option (List UInt8)}
    {c : Claim} (hc : c ∈ halString label string) : c.IsItem record := by
  cases string with
  | none => exact absurd hc List.not_mem_nil
  | some b =>
    rw [halString, List.mem_singleton] at hc
    rw [hc]
    exact ⟨hlabel, trivial⟩

theorem lifecycle_fits {v : Nat} (h : lifecycleOf P es = .ok v) : FitsDecoder v := by
  have hmax : tfmSlcMaxValue = 0x60FF := rfl
  have hle : v ≤ tfmSlcMaxValue := by
    unfold lifecycleOf at h
    simp only at h
    split at h
    · cases h
    · split_ifs at h with hbig
      injection h with h
      omega
  constructor <;> omega

theorem isItem_componentsClaim
    (hrecords : ∀ m data, firstOf es m = some data → IsRecord record data) :
    (componentsClaim es).IsItem record := by
  have hmem : ∀ data ∈ (List.range swMax).filterMap (firstOf es), IsRecord record data := by
    intro data hdata
    obtain ⟨m, -, hm⟩ := List.mem_filterMap.1 hdata
    exact hrecords m data hm
  have hlen := List.length_filterMap_le (firstOf es) (List.range swMax)
  unfold componentsClaim
  cases hcs : (List.range swMax).filterMap (firstOf es) with
  | nil => exact ⟨by decide, (by decide : FitsDecoder noSwComponentFixedValue)⟩
  | cons c cs =>
    rw [hcs] at hmem hlen
    rw [List.length_range] at hlen
    exact ⟨(by decide : FitsDecoder eatCborArmLabelSwComponents),
      Nat.le_trans hlen (by decide), hmem⟩

/-- All the claims are items, if the boot records are. -/
theorem isItem_claims (hcaller : -2 ^ 31 ≤ s.callerId ∧ s.callerId < 2 ^ 31)
    (hrecords : ∀ m data, firstOf es m = some data → IsRecord record data) {claims : List Claim}
    (h : claimsOf P es s challenge = .ok claims) : ∀ c ∈ claims, c.IsItem record := by
  intro c hc
  obtain ⟨cl, hmem, hc⟩ := mem_collect h hc
  unfold claimSpecs at hmem
  rw [List.mem_append] at hmem
  obtain hmem | hmem := hmem
  · simp only [List.mem_cons, List.not_mem_nil, or_false] at hmem
    obtain h | h | h | h | h | h | h := hmem
    · injection h with h
      rw [h, List.mem_singleton] at hc
      rw [hc]
      exact ⟨(by decide : FitsDecoder eatCborArmLabelChallenge), trivial⟩
    · exact isItem_map (f := .bytes) (by decide) (fun b _ => trivial) h.symm hc
    · exact isItem_map (f := .bytes) (by decide) (fun b _ => trivial) h.symm hc
    · exact isItem_map (f := .bytes) (by decide) (fun b _ => trivial) h.symm hc
    · injection h with h
      rw [h, List.mem_singleton] at hc
      rw [hc]
      have hfits : FitsDecoder s.callerId := by constructor <;> omega
      exact ⟨(by decide : FitsDecoder eatCborArmLabelClientId), hfits⟩
    · exact isItem_map (f := fun v : Nat => .int v) (by decide) (fun v hv => lifecycle_fits hv)
        h.symm hc
    · injection h with h
      rw [h, List.mem_singleton] at hc
      rw [hc]
      exact isItem_componentsClaim hrecords
  · split_ifs at hmem
    · simp only [List.mem_cons, List.not_mem_nil, or_false] at hmem
      obtain h | h | h := hmem
      · injection h with h
        rw [h] at hc
        exact isItem_halString (by decide) hc
      · injection h with h
        rw [h] at hc
        exact isItem_halString (by decide) hc
      · exact isItem_map (f := .text) (by decide) (fun b _ => trivial) h.symm hc
    · exact absurd hmem List.not_mem_nil

end Claims

/-! ### A device with one component -/

def exampleMsg : Msg := ⟨-1, by decide, .getToken (List.replicate 32 7) 300 exampleBuff⟩

def exampleClaims : List Claim :=
  [⟨eatCborArmLabelChallenge, .bytes (List.replicate 32 7)⟩,
    ⟨eatCborArmLabelBootSeed, .bytes (List.replicate 32 8)⟩,
    ⟨eatCborArmLabelUeid, .bytes (0x01 :: exampleKeyDigest)⟩,
    ⟨eatCborArmLabelImplementationId, .bytes (List.replicate 32 9)⟩,
    ⟨eatCborArmLabelClientId, .int (-1)⟩, ⟨eatCborArmLabelSecurityLifecycle, .int 0x3000⟩,
    ⟨eatCborArmLabelSwComponents, .components [[0xa0]]⟩]

def exampleToken : List UInt8 :=
  Tfm.Cbor.encode (sign1Item false nullUsefulBufC (payloadOf exampleClaims) exampleTokenSignature)

theorem exampleToken_returned :
    (attestSignalHandle examplePlatform exampleService exampleMsg).map Prod.fst =
      some (.ok [exampleToken]) := by
  decide +kernel

/-- It has seen one signature of this key. -/
def exampleVerifier : Crypto :=
  { exampleTokenCrypto with
    verifyHash := fun _ _ _ signature =>
      if signature = exampleTokenSignature then .ok () else .error .invalidSignature }

theorem exampleVerifier_accepts (handle : Nat) :
    Accepts examplePlatform.crypto handle exampleVerifier 1 where
  concat := by
    intro alg parts n
    simp [exampleVerifier, exampleTokenCrypto]
  hash _ _ := rfl
  verify hash n b h := by
    simp only [examplePlatform, exampleTokenCrypto] at h
    split_ifs at h
    injection h with h
    rw [← h]
    rfl

theorem exampleRecord_isRecord (n : Nat) (data : List UInt8)
    (h : firstOf (wanted exampleRecord tlvMajorIas) n = some data) :
    IsRecord (fun _ => .map []) data := by
  obtain ⟨e, hfind, rfl⟩ := Option.map_eq_some_iff.1 h
  have hdata : ∀ e ∈ wanted exampleRecord tlvMajorIas, e.data = [0xa0] := by decide
  rw [hdata e (List.mem_of_find?_eq_some hfind)]
  exact ⟨rfl, ⟨Nat.zero_le _, trivial⟩, by decide⟩

/-! ## In every run -/

section

variable {S : Setup} {es₀ : List Entry} {rest buffer : List UInt8} {P₀ P : Platform} {s s' : Service}

/-- **In every run, a token that is returned is accepted under any key that goes with the key of
the device. Its payload are the claims of this client and this challenge, and where the boot records
are items, the decoder walks over them as they were made.** -/
theorem token_verifies (hlen : sharedDataHeaderSize + (encode es₀).length < 2 ^ 16)
    (ho : OnlyIas es₀) (hr : (serviceLts S es₀ rest buffer P₀).Reachable s) (hP : Keeps P₀ P)
    {verifier : Crypto} {verificationKey : Nat}
    (hkeys : ∀ handle key, keyOf P = .ok (handle, key) →
      Accepts P.crypto handle verifier verificationKey)
    (m : Msg) {challenge : List UInt8} {tokenSize : Nat} {tokenBuff : TokenBuff}
    (hm : m.request = .getToken challenge tokenSize tokenBuff) {token : List UInt8}
    (h : attestSignalHandle P s m = some (.ok [token], s')) (tagRequired decodeOnly : Bool) :
    ∃ handle key claims, keyOf P = .ok (handle, key) ∧
      claimsOf P (wanted es₀ tlvMajorIas) (registered m.clientId handle key) challenge =
        .ok claims ∧
      tCoseSign1Verify verifier ⟨tagRequired, false, decodeOnly, verificationKey⟩ token =
        ⟨.ok (), ofBytes (payloadOf claims), some (messageParameters nullUsefulBufC)⟩ ∧
      ∀ record : List UInt8 → Item,
        (∀ n data, firstOf (wanted es₀ tlvMajorIas) n = some data → IsRecord record data) →
        ((decodeInit (payloadOf claims) .normal).run
            ((visits (claimsItem record claims)).length + 1)).1 =
          (visits (claimsItem record claims)).map .ok ++ [.error .noMoreItems] := by
  obtain ⟨hneeded, hready⟩ := (ready_inductive hlen ho).reachable s hr
  have hwanted := length_wanted hneeded
  obtain ⟨r, s'', hrun, hanswers, -⟩ := signalHandle_eq hP.sound (hready.same hP.same) hwanted m
  rw [h] at hrun
  injection hrun with hrun
  obtain ⟨rfl, -⟩ := Prod.mk.inj hrun
  unfold Answers at hanswers
  rw [hm] at hanswers
  obtain ⟨handle, key, claims, signature, hch, hkey, hclaims, hsig, rfl, hsize⟩ :=
    tokenReply_ok hanswers.symm
  refine ⟨handle, key, claims, hkey, hclaims,
    verify_token (hkeys handle key hkey) tagRequired decodeOnly hsig hsize, fun record hrecords => ?_⟩
  have hid : (registered m.clientId handle key).instanceId.length < 2 ^ 16 := Nat.two_pow_pos 16
  have hshort := short_claims hP.sound (short_of_length (by omega)) hid (by omega) hclaims
  exact run_payload (isItem_claims m.int32 hrecords hclaims) hshort (length_claims hclaims)

/-- The challenge has 32 bytes. -/
theorem token_verifies_example :
    ∃ handle key claims, keyOf examplePlatform = .ok (handle, key) ∧
      claimsOf examplePlatform (wanted exampleRecord tlvMajorIas) (registered (-1) handle key)
        (List.replicate 32 7) = .ok claims ∧
      tCoseSign1Verify exampleVerifier ⟨true, false, false, 1⟩ exampleToken =
        ⟨.ok (), ofBytes (payloadOf claims), some (messageParameters nullUsefulBufC)⟩ ∧
      ((decodeInit (payloadOf claims) .normal).run
          ((visits (claimsItem (fun _ => .map []) claims)).length + 1)).1 =
        (visits (claimsItem (fun _ => .map []) claims)).map .ok ++ [.error .noMoreItems] := by
  obtain ⟨⟨r, s'⟩, hrun, rfl⟩ := Option.map_eq_some_iff.1 exampleToken_returned
  obtain ⟨handle, key, claims, hkey, hclaims, hverify, hread⟩ := token_verifies (by decide)
    exampleRecord_onlyIas exampleService_reachable examplePlatform_keeps
    (fun handle key h => exampleVerifier_accepts handle) exampleMsg rfl hrun true false
  exact ⟨handle, key, claims, hkey, hclaims, hverify, hread _ exampleRecord_isRecord⟩

end

end Tfm.L4.Attest
