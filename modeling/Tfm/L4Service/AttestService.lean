import Tfm.Core.LTS
import Tfm.L4Service.AttestToken

/-!
# The attestation service

The partition asks the SPM for its boot data once, and then answers the requests of its clients:
a token, the size of a token, the public key. It keeps the public key and the instance id, and a
handle of the key while it makes a token.

A step is a request with what the platform answers during it. The key store has the same key
throughout; the rest of the platform, and the signatures, may change from one step to the next.

Results:
* `attestInit_eq`: the boot data the service starts with.
* `createToken_eq`: what a token is made of does not depend on what was kept.
* `ready_inductive`: between requests no handle is held, and what is kept is of this key.
* `reply_eq`: in every run, a reply is what the request and the boot data make it; a public key
  that is returned is the one of the key store.
* `token_of_size`: in every run, the size that is reported decides which buffers the token fits.
-/
namespace Tfm.L4.Attest
open Tfm.Tlv Tfm.L4.BootData Tfm.L3.Qcbor Tfm.L3.Cose

/-! ## The partition -/

/-- mirrors secure_fw/partitions/initial_attestation/attest_core.c:27 -/
def maxBootStatus : Nat := 512

/-- mirrors secure_fw/partitions/initial_attestation/attest_core.c:100-110; if it fails, the
partition does not go on -/
def attestInit (S : Setup) (boot : St) (buffer : List UInt8) : Option Service :=
  match getBootDataHandler S boot ⟨S.tfmSpInitialAttestation, tlvMajorIas, maxBootStatus, true⟩ with
  | some (some data, _) =>
    some ⟨data ++ buffer.drop data.length, attestKeyHandleNotLoaded, [], 0, [], 0⟩
  | _ => none

/-- mirrors platform/ext/target/cypress/psoc64/partition/region_defs.h:65 -/
def psaInitialAttestTokenMaxSize : Nat := 0x400

/-- mirrors interface/include/psa/initial_attestation.h:44 -/
def psaInitialAttestChallengeSize64 : Nat := 64

/-- `token_buff`, with what is on the stack. -/
abbrev TokenBuff := { mem : List UInt8 // mem.length = psaInitialAttestTokenMaxSize }

/-- The input and output vectors of a request. `keyLen` is what stands in a variable that was not
set. -/
inductive Request
  | getToken (challenge : List UInt8) (tokenSize : Nat) (tokenBuff : TokenBuff)
  | getTokenSize (input : List UInt8) (outSize : Nat)
  | getPublicKey (keySize curveSize lenSize keyLen : Nat)

/-- A client id is an `int32_t`. -/
structure Msg where
  clientId : Int
  int32 : -2 ^ 31 ≤ clientId ∧ clientId < 2 ^ 31
  request : Request

/-- What is written to the output vectors. -/
abbrev Response := Except PsaStatus (List (List UInt8))

/-- mirrors secure_fw/partitions/initial_attestation/tfm_attest_req_mngr.c:29-69; `psa_read` gives
all of the challenge -/
def psaAttestGetToken (P : Platform) (s : Service) (clientId : Int) (challenge : List UInt8)
    (tokenSize : Nat) (tokenBuff : TokenBuff) : Option (Response × Service) :=
  if challenge.length > psaInitialAttestChallengeSize64 then some (.error .invalidArgument, s)
  else
    let len := if tokenSize < psaInitialAttestTokenMaxSize then tokenSize
      else psaInitialAttestTokenMaxSize
    (initialAttestGetToken P { s with callerId := clientId } (ofBytes challenge)
        (tokenBuff.1.take len)).map fun (result, s) =>
      (result.map fun token => [token.contents], s)

/-- mirrors secure_fw/partitions/initial_attestation/tfm_attest_req_mngr.c:68-102; `size_t` has
four bytes -/
def psaAttestGetTokenSize (P : Platform) (s : Service) (clientId : Int) (input : List UInt8)
    (outSize : Nat) : Option (Response × Service) :=
  if input.length ≠ 4 ∨ outSize ≠ 4 then some (.error .invalidArgument, s)
  else
    (initialAttestGetTokenSize P { s with callerId := clientId } (Bytes.ofLe input)).map
      fun (result, s) => (result.map fun size => [Bytes.le 4 size], s)

/-- mirrors interface/include/psa/crypto_sizes.h (`PSA_KEY_EXPORT_ECC_PUBLIC_KEY_MAX_SIZE(256)`) -/
def eccP256PublicKeySize : Nat := 65

/-- mirrors secure_fw/partitions/initial_attestation/attest_core.c:941-987; the key, its curve and
its length -/
def initialAttestGetPublicKey (s : Service) (keyBufLen : Nat) :
    Except PsaStatus (List UInt8 × Nat × Nat) :=
  if s.publicKey.length = 0 then .error (errorMappingToPsaStatusT .general)
  else if keyBufLen < s.publicKey.length then .error (errorMappingToPsaStatusT .bufferOverflow)
  else .ok (s.publicKey, s.keyCurve, s.publicKey.length)

/-- mirrors secure_fw/partitions/initial_attestation/tfm_attest_req_mngr.c:104-139; a
`psa_ecc_family_t` has one byte. Without a key it compares what stands in `key_len`. -/
def tfmAttestGetPublicKey (s : Service) (clientId : Int) (keySize curveSize lenSize keyLen : Nat) :
    Response × Service :=
  if curveSize ≠ 1 ∨ lenSize ≠ 4 then (.error .invalidArgument, s)
  else
    let s := { s with callerId := clientId }
    match initialAttestGetPublicKey s eccP256PublicKeySize with
    | .error e => (.error (if keySize < keyLen then .bufferTooSmall else e), s)
    | .ok (key, curve, len) =>
      if keySize < len then (.error .bufferTooSmall, s)
      else (.ok [key, [UInt8.ofNat curve], Bytes.le 4 len], s)

/-- mirrors secure_fw/partitions/initial_attestation/tfm_attest_req_mngr.c:151-205 -/
def attestSignalHandle (P : Platform) (s : Service) (m : Msg) : Option (Response × Service) :=
  match m.request with
  | .getToken challenge tokenSize tokenBuff =>
    psaAttestGetToken P s m.clientId challenge tokenSize tokenBuff
  | .getTokenSize input outSize => psaAttestGetTokenSize P s m.clientId input outSize
  | .getPublicKey keySize curveSize lenSize keyLen =>
    some (tfmAttestGetPublicKey s m.clientId keySize curveSize lenSize keyLen)

/-! ## The boot data -/

section Init

variable {S : Setup} {es₀ : List Entry} {rest : List UInt8} {boot : St}

/-- Whoever asked the SPM before, the service starts with the entries that are for it, or not at
all. -/
theorem attestInit_eq (hlen : sharedDataHeaderSize + (encode es₀).length < 2 ^ 16)
    (ho : OnlyIas es₀) (hr : (lts S es₀ rest).Reachable boot) (buffer : List UInt8) :
    attestInit S boot buffer =
      if needed es₀ tlvMajorIas ≤ maxBootStatus then
        some ⟨areaOf (wanted es₀ tlvMajorIas) (buffer.drop (needed es₀ tlvMajorIas)),
          attestKeyHandleNotLoaded, [], 0, [], 0⟩
      else none := by
  obtain ⟨area, valid⟩ := boot
  obtain ⟨hvalid, es, hren, harea⟩ := (inv_inductive S hlen).reachable _ hr
  dsimp only at hvalid harea
  subst hvalid harea
  have hperm : Permitted S ⟨S.tfmSpInitialAttestation, tlvMajorIas, maxBootStatus, true⟩ :=
    ⟨rfl, by simp [checkBootDataAccessPolicy, accessPolicyTable, tlvMajorIas]⟩
  have hrun := handler_eq hperm rest (by rw [renum_length hren]; exact hlen)
    (Nat.le_of_ble_eq_true rfl)
  have hmajor : tlvMajorIas % 2 ^ 8 = tlvMajorIas := rfl
  have hsize : maxBootStatus % 2 ^ 16 = maxBootStatus := rfl
  have hsel : selected es tlvMajorIas = wanted es₀ tlvMajorIas := by
    rw [renum_selected hren, selected_eq_wanted ho]
  simp only [hmajor, hsize] at hrun
  have hok := deliver_ok tlvMajorIas maxBootStatus es [] (by decide)
  rw [List.length_nil, Nat.add_zero, hsel, ← needed] at hok
  unfold attestInit
  rw [hrun]
  by_cases hfit : needed es₀ tlvMajorIas ≤ maxBootStatus
  · have hdata := deliver_data tlvMajorIas maxBootStatus es [] (hok.2 hfit)
    rw [hsel, List.nil_append] at hdata
    have hheader : headerSize = sharedDataHeaderSize := rfl
    rw [if_pos hfit, if_pos (hok.2 hfit), hdata]
    simp [areaOf, needed, hheader]
  · rw [if_neg hfit, if_neg fun h => hfit (hok.1 h)]

end Init

/-! ## Between requests -/

/-- The key store always has this key. -/
structure SameKey (P₀ P : Platform) : Prop where
  openInitialAttestKey : P.openInitialAttestKey = P₀.openInitialAttestKey
  exportPublicKey : P.exportPublicKey = P₀.exportPublicKey
  hash : P.crypto.hash = P₀.crypto.hash

/-- The handle and the public key. -/
def keyOf (P : Platform) : Except PsaAttestErr (Nat × List UInt8) :=
  match P.openInitialAttestKey with
  | (_, none) => .error .general
  | (handle, some _) =>
    match P.exportPublicKey handle with
    | none => .error .general
    | some key => .ok (handle, key)

/-- No handle is held, and what is kept is of the key. -/
structure Ready (P : Platform) (es : List Entry) (rest : List UInt8) (s : Service) : Prop where
  bootData : s.bootData = areaOf es rest
  keyHandle : s.keyHandle = attestKeyHandleNotLoaded
  publicKey : s.publicKey.length ≠ 0 → ∃ handle, keyOf P = .ok (handle, s.publicKey) ∧
    P.openInitialAttestKey.2 = some s.keyCurve
  instanceId : s.instanceId.length ≠ 0 → attestCalcInstanceId P s = .ok s.instanceId

/-- A service that has just started, with the key registered. -/
def registered (clientId : Int) (handle : Nat) (key : List UInt8) : Service :=
  ⟨[], handle, key, 0, [], clientId⟩

/-- The token that should be made, whatever was kept. -/
def tokenFor (P : Platform) (es : List Entry) (clientId : Int) (challenge : List UInt8)
    (storage : Option (List UInt8)) (cap : Nat) : Except PsaAttestErr UsefulBufC :=
  match keyOf P with
  | .error e => .error e
  | .ok (handle, key) => tokenOutcome P es (registered clientId handle key) challenge storage cap

section Ready

variable {P₀ P : Platform} {es : List Entry} {rest : List UInt8} {s : Service}

theorem SameKey.keyOf (h : SameKey P₀ P) : keyOf P = keyOf P₀ := by
  rw [Attest.keyOf, Attest.keyOf, h.openInitialAttestKey, h.exportPublicKey]

theorem SameKey.calcInstanceId (h : SameKey P₀ P) (s : Service) :
    attestCalcInstanceId P s = attestCalcInstanceId P₀ s := by
  rw [attestCalcInstanceId, attestCalcInstanceId, h.hash]

theorem Ready.same (hr : Ready P₀ es rest s) (h : SameKey P₀ P) : Ready P es rest s := by
  constructor
  · exact hr.bootData
  · exact hr.keyHandle
  · rw [h.keyOf, h.openInitialAttestKey]
    exact hr.publicKey
  · rw [h.calcInstanceId]
    exact hr.instanceId

theorem SameKey.symm (h : SameKey P₀ P) : SameKey P P₀ :=
  ⟨h.openInitialAttestKey.symm, h.exportPublicKey.symm, h.hash.symm⟩

/-- The caller is not looked at. -/
theorem Ready.callerId (hr : Ready P es rest s) (clientId : Int) :
    Ready P es rest { s with callerId := clientId } := by
  obtain ⟨hboot, hkey, hpublic, hid⟩ := hr
  exact ⟨hboot, hkey, hpublic, hid⟩

theorem keyOf_ok {handle : Nat} {key : List UInt8} (h : keyOf P = .ok (handle, key)) :
    ∃ curve, P.openInitialAttestKey = (handle, some curve) ∧ P.exportPublicKey handle = some key := by
  unfold keyOf at h
  split at h
  · cases h
  · next handle' curve hopen =>
    split at h
    · cases h
    · next key' hexp =>
      injection h with h
      injection h with hhandle hkey
      subst hhandle hkey
      exact ⟨curve, hopen, hexp⟩

theorem keyOf_error {e : PsaAttestErr} (h : keyOf P = .error e) :
    e = .general ∧ (P.openInitialAttestKey.2 = none ∨
      P.exportPublicKey P.openInitialAttestKey.1 = none) := by
  unfold keyOf at h
  split at h
  · next handle hopen =>
    injection h with h
    exact ⟨h.symm, Or.inl (by rw [hopen])⟩
  · next handle curve hopen =>
    split at h
    · next hexp =>
      injection h with h
      exact ⟨h.symm, Or.inr (by rw [hopen]; exact hexp)⟩
    · cases h

/-- The key is registered if there is one. -/
theorem register_ok (hr : Ready P es rest s) {handle : Nat} {key : List UInt8}
    (h : keyOf P = .ok (handle, key)) :
    ∃ curve, P.openInitialAttestKey.2 = some curve ∧
      attestRegisterInitialAttestationKey P s =
        (.ok (), { s with keyHandle := handle, publicKey := key, keyCurve := curve }) := by
  obtain ⟨curve, hopen, hexp⟩ := keyOf_ok h
  refine ⟨curve, by rw [hopen], ?_⟩
  unfold attestRegisterInitialAttestationKey
  rw [if_neg (not_not.2 hr.keyHandle), hopen]
  by_cases hlen : s.publicKey.length = 0
  · simp [hlen, hexp]
  · obtain ⟨handle', hkey, hcurve⟩ := hr.publicKey hlen
    rw [h] at hkey
    rw [hopen] at hcurve
    injection hkey with hkey
    injection hkey with _ hkey
    injection hcurve with hcurve
    simp [hlen, hkey, hcurve]

theorem register_error (hr : Ready P es rest s) {e : PsaAttestErr} (h : keyOf P = .error e) :
    ∃ handle, attestRegisterInitialAttestationKey P s =
      (.error e, { s with keyHandle := handle }) := by
  have hlen : P.openInitialAttestKey.2 ≠ none → s.publicKey.length = 0 := by
    intro hsome
    by_contra hne
    obtain ⟨handle, hkey, -⟩ := hr.publicKey hne
    rw [h] at hkey
    cases hkey
  obtain ⟨rfl, hnone⟩ := keyOf_error h
  refine ⟨P.openInitialAttestKey.1, ?_⟩
  unfold attestRegisterInitialAttestationKey
  rw [if_neg (not_not.2 hr.keyHandle)]
  cases hcurve : P.openInitialAttestKey.2 with
  | none => rfl
  | some curve =>
    rw [hcurve] at hnone hlen
    have hexp := hnone.resolve_left (by simp)
    simp [hlen (by simp), hexp]

/-- An instance id was made of this key. -/
theorem publicKey_of_instanceId (hr : Ready P es rest s) (hid : s.instanceId.length ≠ 0)
    {handle : Nat} {key : List UInt8} (hkey : keyOf P = .ok (handle, key)) : s.publicKey = key := by
  have hcalc := hr.instanceId hid
  have hne : s.publicKey.length ≠ 0 := by
    intro hnil
    rw [attestCalcInstanceId, if_pos hnil] at hcalc
    cases hcalc
  obtain ⟨handle', hkey', -⟩ := hr.publicKey hne
  rw [hkey] at hkey'
  injection hkey' with hkey'
  injection hkey' with _ hkey'
  exact hkey'.symm

/-- The instance id that was kept is the one that would be made. -/
theorem tokenOutcome_registered (hr : Ready P es rest s) {handle curve : Nat} {key : List UInt8}
    (hkey : keyOf P = .ok (handle, key)) (challenge : List UInt8) (storage : Option (List UInt8))
    (cap : Nat) :
    tokenOutcome P es { s with keyHandle := handle, publicKey := key, keyCurve := curve } challenge
      storage cap = tokenOutcome P es (registered s.callerId handle key) challenge storage cap := by
  have hid : instanceIdOf P { s with keyHandle := handle, publicKey := key, keyCurve := curve } =
      instanceIdOf P (registered s.callerId handle key) := by
    unfold instanceIdOf
    by_cases hlen : s.instanceId.length = 0
    · simp only [registered, hlen, if_true, List.length_nil]
      rfl
    · have hpublic := publicKey_of_instanceId hr hlen hkey
      have hcalc : attestCalcInstanceId P (registered s.callerId handle key) = .ok s.instanceId := by
        rw [← hr.instanceId hlen, attestCalcInstanceId, attestCalcInstanceId, hpublic]
        rfl
      simp only [hlen, if_false, hcalc]
      rfl
  unfold tokenOutcome claimsOf claimSpecs
  rw [hid]
  rfl

/-- With the key given back, the service is ready again. -/
theorem ready_registered (hr : Ready P es rest s) {handle curve : Nat} {key : List UInt8}
    (hkey : keyOf P = .ok (handle, key)) (hcurve : P.openInitialAttestKey.2 = some curve)
    {s' : Service}
    (h : Cached P { s with keyHandle := handle, publicKey := key, keyCurve := curve } s') :
    Ready P es rest { s' with keyHandle := attestKeyHandleNotLoaded } := by
  obtain rfl | ⟨-, instanceId, hcalc, rfl⟩ := h
  · refine ⟨hr.bootData, rfl, fun _ => ⟨handle, hkey, hcurve⟩, fun hid => ?_⟩
    rw [← hr.instanceId hid, attestCalcInstanceId, attestCalcInstanceId,
      publicKey_of_instanceId hr hid hkey]
  · exact ⟨hr.bootData, rfl, fun _ => ⟨handle, hkey, hcurve⟩, fun _ => hcalc⟩

theorem giveBackKey_eq {result : Except PsaAttestErr UsefulBufC} {s' : Service}
    (herr : s'.keyHandle = attestKeyHandleNotLoaded → ∃ e, result = .error e) :
    giveBackKey (result, s') = (result, { s' with keyHandle := attestKeyHandleNotLoaded }) := by
  unfold giveBackKey attestUnregisterInitialAttestationKey
  by_cases hkey : s'.keyHandle = attestKeyHandleNotLoaded
  · obtain ⟨e, rfl⟩ := herr hkey
    have hs' : { s' with keyHandle := attestKeyHandleNotLoaded } = s' := by
      rw [← hkey]
    simp [hkey, hs']
  · cases result <;> simp [hkey]

theorem length_instanceId (hP : Platform.Sound P) (hr : Ready P es rest s) :
    s.instanceId.length < 2 ^ 16 := by
  by_cases hid : s.instanceId.length = 0
  · omega
  · exact length_calcInstanceId hP (hr.instanceId hid)

/-- **The token, or why there is none, does not depend on what was kept; afterwards the key is not
held.** -/
theorem createToken_eq (hP : Platform.Sound P) (hr : Ready P es rest s)
    (hlen : sharedDataHeaderSize + (encode es).length < 2 ^ 16) (hcaller : Fits64 s.callerId)
    (challenge : UsefulBufC) (storage : Option (List UInt8)) (cap : Nat)
    (hread : Readable storage challenge) (hch : challenge.len < 2 ^ 16)
    (hs : ∀ mem, storage = some mem → mem.length = cap) :
    ∃ s', attestCreateToken P s challenge storage cap =
        some (tokenFor P es s.callerId challenge.contents storage cap, s') ∧ Ready P es rest s' := by
  unfold attestCreateToken tokenFor
  cases hkey : keyOf P with
  | error e =>
    obtain ⟨handle, hreg⟩ := register_error hr hkey
    have hback : giveBackKey (.error e, { s with keyHandle := handle }) =
        (.error e, { s with keyHandle := attestKeyHandleNotLoaded }) :=
      giveBackKey_eq fun _ => ⟨e, rfl⟩
    refine ⟨{ s with keyHandle := attestKeyHandleNotLoaded }, ?_, ?_⟩
    · simp only [hreg, hback]
    · exact ⟨hr.bootData, rfl, hr.publicKey, hr.instanceId⟩
  | ok pair =>
    obtain ⟨handle, key⟩ := pair
    obtain ⟨curve, hcurve, hreg⟩ := register_ok hr hkey
    have hsession : Session P { s with keyHandle := handle, publicKey := key, keyCurve := curve }
        es rest := ⟨hr.bootData, hlen, hP.bootSeed, hcaller⟩
    have hid := length_instanceId hP hr
    obtain ⟨s', hbody, hcached⟩ := tokenBody_eq hP hsession hid hread hch hs
    rw [tokenOutcome_registered hr hkey] at hbody
    have herr : s'.keyHandle = attestKeyHandleNotLoaded →
        ∃ e, tokenOutcome P es (registered s.callerId handle key) challenge.contents storage cap =
          .error e := by
      intro hzero
      rw [hcached.keyHandle] at hzero
      exact ⟨.general, if_pos hzero⟩
    refine ⟨{ s' with keyHandle := attestKeyHandleNotLoaded }, ?_, ?_⟩
    · simp only [hreg, hbody, Option.map_some, giveBackKey_eq herr]
    · exact ready_registered hr hkey hcurve hcached

end Ready

/-! ## Replies -/

/-- The bytes of a token for a buffer of `cap` bytes. -/
def tokenReply (P : Platform) (es : List Entry) (clientId : Int) (challenge : List UInt8)
    (tokenSize : Nat) : Response :=
  let cap := min tokenSize psaInitialAttestTokenMaxSize
  if !attestVerifyChallengeSize challenge.length then .error .invalidArgument
  else if cap = 0 then .error .invalidArgument
  else ((tokenFor P es clientId challenge (some []) cap).mapError errorMappingToPsaStatusT).map
    fun token => [token.contents]

/-- Its size. -/
def sizeReply (P : Platform) (es : List Entry) (clientId : Int) (challengeSize : Nat) : Response :=
  if !attestVerifyChallengeSize challengeSize then .error .invalidArgument
  else ((tokenFor P es clientId (List.replicate challengeSize 0) none (2 ^ 31 - 1)).mapError
    errorMappingToPsaStatusT).map fun token => [Bytes.le 4 token.len]

section Replies

variable {P₀ P : Platform} {es : List Entry} {rest : List UInt8} {s : Service}

theorem tokenResult_contents (handle cap : Nat) (mem payload : List UInt8) :
    (tokenResult P handle (some mem) cap payload).map UsefulBufC.contents =
      (tokenResult P handle (some []) cap payload).map UsefulBufC.contents := by
  have hsig : signatureOf P.crypto handle (some mem) payload =
      signatureOf P.crypto handle (some []) payload := rfl
  unfold tokenResult
  rw [hsig]
  split_ifs
  · rfl
  · cases signatureOf P.crypto handle (some []) payload with
    | error e => rfl
    | ok signature =>
      simp only
      split_ifs
      · rfl
      · simp [resultOf, UsefulBufC.contents, Except.map]

/-- What is in the buffer before is not in the token. -/
theorem tokenFor_contents (clientId : Int) (challenge mem : List UInt8) (cap : Nat) :
    (tokenFor P es clientId challenge (some mem) cap).map UsefulBufC.contents =
      (tokenFor P es clientId challenge (some []) cap).map UsefulBufC.contents := by
  unfold tokenFor
  cases keyOf P with
  | error e => rfl
  | ok pair =>
    simp only [tokenOutcome]
    split_ifs
    · rfl
    · cases claimsOf P es (registered clientId pair.1 pair.2) challenge with
      | error e => rfl
      | ok claims => exact tokenResult_contents _ _ _ _

theorem verifyChallengeSize_le {n : Nat} (h : attestVerifyChallengeSize n = true) : n ≤ 64 := by
  simp only [attestVerifyChallengeSize, Bool.or_eq_true, beq_iff_eq] at h
  omega

theorem fits64_clientId (m : Msg) : Fits64 m.clientId := by
  have hint := m.int32
  constructor <;> omega

theorem initialAttestGetToken_eq (hP : Platform.Sound P) (hr : Ready P es rest s)
    (hlen : sharedDataHeaderSize + (encode es).length < 2 ^ 16) (hcaller : Fits64 s.callerId)
    (challenge token : List UInt8) :
    ∃ s', initialAttestGetToken P s (ofBytes challenge) token =
        some (if !attestVerifyChallengeSize challenge.length then .error .invalidArgument
          else if token.length = 0 then .error .invalidArgument
          else (tokenFor P es s.callerId challenge (some token) token.length).mapError
            errorMappingToPsaStatusT, s') ∧
      Ready P es rest s' := by
  have hlenc : (ofBytes challenge).len = challenge.length := rfl
  unfold initialAttestGetToken
  rw [hlenc]
  split_ifs with hsize hzero
  · exact ⟨s, rfl, hr⟩
  · exact ⟨s, rfl, hr⟩
  · have hle := verifyChallengeSize_le (Bool.not_eq_false _ ▸ Bool.not_eq_true' _ ▸ hsize)
    obtain ⟨s', hrun, hready⟩ := createToken_eq hP hr hlen hcaller (ofBytes challenge) (some token)
      token.length (readable_ofBytes _ _) (by rw [hlenc]; omega)
      (by intro mem h; injection h with h; rw [h])
    exact ⟨s', by rw [hrun, contents_ofBytes]; rfl, hready⟩

theorem initialAttestGetTokenSize_eq (hP : Platform.Sound P) (hr : Ready P es rest s)
    (hlen : sharedDataHeaderSize + (encode es).length < 2 ^ 16) (hcaller : Fits64 s.callerId)
    (challengeSize : Nat) :
    ∃ s', initialAttestGetTokenSize P s challengeSize =
        some (if !attestVerifyChallengeSize challengeSize then .error .invalidArgument
          else ((tokenFor P es s.callerId (List.replicate challengeSize 0) none (2 ^ 31 - 1)).map
            UsefulBufC.len).mapError errorMappingToPsaStatusT, s') ∧
      Ready P es rest s' := by
  unfold initialAttestGetTokenSize
  split_ifs with hsize
  · exact ⟨s, rfl, hr⟩
  · have hle := verifyChallengeSize_le (Bool.not_eq_false _ ▸ Bool.not_eq_true' _ ▸ hsize)
    obtain ⟨s', hrun, hready⟩ := createToken_eq hP hr hlen hcaller ⟨none, challengeSize⟩ none
      (2 ^ 31 - 1) (Or.inr rfl) (show challengeSize < 2 ^ 16 by omega) (by intro mem h; cases h)
    have hcontents : UsefulBufC.contents ⟨none, challengeSize⟩ = List.replicate challengeSize 0 := by
      simp [UsefulBufC.contents]
    exact ⟨s', by rw [hrun, hcontents]; rfl, hready⟩

theorem response_congr {x y : Except PsaAttestErr UsefulBufC}
    (h : x.map UsefulBufC.contents = y.map UsefulBufC.contents) :
    (x.mapError errorMappingToPsaStatusT).map (fun token => [token.contents]) =
      (y.mapError errorMappingToPsaStatusT).map fun token => [token.contents] := by
  cases x with
  | error e =>
    cases y with
    | error e' =>
      injection h with h
      rw [h]
    | ok b => cases h
  | ok a =>
    cases y with
    | error e' => cases h
    | ok b =>
      injection h with h
      simp [Except.mapError, Except.map, h]

theorem psaAttestGetToken_eq (hP : Platform.Sound P) (hr : Ready P es rest s)
    (hlen : sharedDataHeaderSize + (encode es).length < 2 ^ 16) {clientId : Int}
    (hcaller : Fits64 clientId) (challenge : List UInt8) (tokenSize : Nat) (tokenBuff : TokenBuff) :
    ∃ s', psaAttestGetToken P s clientId challenge tokenSize tokenBuff =
        some (tokenReply P es clientId challenge tokenSize, s') ∧
      Ready P es rest s' := by
  have hcap : (tokenBuff.1.take (if tokenSize < psaInitialAttestTokenMaxSize then tokenSize
      else psaInitialAttestTokenMaxSize)).length = min tokenSize psaInitialAttestTokenMaxSize := by
    rw [List.length_take, tokenBuff.2]
    split_ifs <;> omega
  unfold psaAttestGetToken tokenReply
  by_cases hmax : challenge.length > psaInitialAttestChallengeSize64
  · have hsize : attestVerifyChallengeSize challenge.length = false := by
      by_contra hne
      have hle := verifyChallengeSize_le (Bool.not_eq_false _ ▸ hne)
      rw [psaInitialAttestChallengeSize64] at hmax
      omega
    exact ⟨s, by simp [hmax, hsize], hr⟩
  · rw [if_neg hmax]
    simp only
    generalize tokenBuff.1.take _ = mem at hcap ⊢
    obtain ⟨s', hrun, hready⟩ := initialAttestGetToken_eq hP (hr.callerId clientId) hlen hcaller
      challenge mem
    refine ⟨s', ?_, hready⟩
    rw [hrun, hcap, Option.map_some]
    split_ifs
    · rfl
    · rfl
    · exact congrArg (fun r => some (r, s')) (response_congr (tokenFor_contents clientId challenge mem _))

theorem psaAttestGetTokenSize_eq (hP : Platform.Sound P) (hr : Ready P es rest s)
    (hlen : sharedDataHeaderSize + (encode es).length < 2 ^ 16) {clientId : Int}
    (hcaller : Fits64 clientId) (input : List UInt8) (outSize : Nat) :
    ∃ s', psaAttestGetTokenSize P s clientId input outSize =
        some (if input.length ≠ 4 ∨ outSize ≠ 4 then .error .invalidArgument
          else sizeReply P es clientId (Bytes.ofLe input), s') ∧
      Ready P es rest s' := by
  unfold psaAttestGetTokenSize sizeReply
  split_ifs with hsizes hsize
  · exact ⟨s, rfl, hr⟩
  · obtain ⟨s', hrun, hready⟩ := initialAttestGetTokenSize_eq hP (hr.callerId clientId) hlen hcaller
      (Bytes.ofLe input)
    exact ⟨s', by rw [hrun, if_pos hsize]; rfl, hready⟩
  · obtain ⟨s', hrun, hready⟩ := initialAttestGetTokenSize_eq hP (hr.callerId clientId) hlen hcaller
      (Bytes.ofLe input)
    refine ⟨s', ?_, hready⟩
    rw [hrun, if_neg hsize]
    cases tokenFor P es clientId (List.replicate (Bytes.ofLe input) 0) none
      (2 ^ 31 - 1) <;> rfl

theorem ready_getPublicKey (hr : Ready P es rest s) (clientId : Int)
    (keySize curveSize lenSize keyLen : Nat) :
    Ready P es rest (tfmAttestGetPublicKey s clientId keySize curveSize lenSize keyLen).2 := by
  have hr' := hr.callerId clientId
  unfold tfmAttestGetPublicKey
  by_cases hsizes : curveSize ≠ 1 ∨ lenSize ≠ 4
  · rw [if_pos hsizes]
    exact hr
  · rw [if_neg hsizes]
    cases hget : initialAttestGetPublicKey { s with callerId := clientId } eccP256PublicKeySize with
    | error e =>
      simp only [hget]
      exact hr'
    | ok triple =>
      simp only [hget]
      by_cases hfit : keySize < triple.2.2
      · rw [if_pos hfit]
        exact hr'
      · rw [if_neg hfit]
        exact hr'

/-- A service without a key in it has none to give; it gives the key it registered. -/
theorem publicKey_eq (hr : Ready P es rest s) {clientId : Int}
    {keySize curveSize lenSize keyLen : Nat} {out : List (List UInt8)}
    (h : (tfmAttestGetPublicKey s clientId keySize curveSize lenSize keyLen).1 = .ok out) :
    ∃ handle key curve, keyOf P = .ok (handle, key) ∧ P.openInitialAttestKey.2 = some curve ∧
      out = [key, [UInt8.ofNat curve], Bytes.le 4 key.length] ∧ key.length ≤ keySize := by
  unfold tfmAttestGetPublicKey at h
  by_cases hsizes : curveSize ≠ 1 ∨ lenSize ≠ 4
  · rw [if_pos hsizes] at h
    cases h
  · rw [if_neg hsizes] at h
    cases hget : initialAttestGetPublicKey { s with callerId := clientId } eccP256PublicKeySize with
    | error e =>
      simp only [hget] at h
      cases h
    | ok triple =>
      obtain ⟨key, curve, len⟩ := triple
      simp only [hget] at h
      split_ifs at h with hfit
      injection h with h
      unfold initialAttestGetPublicKey at hget
      split_ifs at hget with hlen
      injection hget with hget
      injection hget with hk hget
      injection hget with hc hl
      obtain ⟨handle, hkey, hcurve⟩ := hr.publicKey hlen
      subst hk hc hl
      exact ⟨handle, _, _, hkey, hcurve, h.symm, Nat.le_of_not_lt hfit⟩

end Replies

/-! ## Runs -/

/-- What the reply should be. The public key is there once it was registered. -/
def Answers (P : Platform) (es : List Entry) (m : Msg) (r : Response) : Prop :=
  match m.request with
  | .getToken challenge tokenSize _ => r = tokenReply P es m.clientId challenge tokenSize
  | .getTokenSize input outSize =>
    r = if input.length ≠ 4 ∨ outSize ≠ 4 then .error .invalidArgument
      else sizeReply P es m.clientId (Bytes.ofLe input)
  | .getPublicKey keySize _ _ _ => ∀ out, r = .ok out → ∃ handle key curve,
      keyOf P = .ok (handle, key) ∧ P.openInitialAttestKey.2 = some curve ∧
      out = [key, [UInt8.ofNat curve], Bytes.le 4 key.length] ∧ key.length ≤ keySize

/-- The platform during the steps. -/
structure Keeps (P₀ P : Platform) : Prop where
  same : SameKey P₀ P
  sound : Platform.Sound P

/-- The service, after the SPM has started with the entries `es₀` and anyone has asked it. -/
def serviceLts (S : Setup) (es₀ : List Entry) (rest buffer : List UInt8) (P₀ : Platform) :
    LTS Service (Platform × Msg) where
  init s := ∃ boot, (lts S es₀ rest).Reachable boot ∧ attestInit S boot buffer = some s
  step s l s' := Keeps P₀ l.1 ∧ ∃ r, attestSignalHandle l.1 s l.2 = some (r, s')

section Runs

variable {S : Setup} {es₀ : List Entry} {rest buffer : List UInt8} {P₀ P : Platform} {s : Service}

/-- One request. -/
theorem signalHandle_eq {es : List Entry} (hP : Platform.Sound P) (hr : Ready P es rest s)
    (hlen : sharedDataHeaderSize + (encode es).length < 2 ^ 16) (m : Msg) :
    ∃ r s', attestSignalHandle P s m = some (r, s') ∧ Answers P es m r ∧ Ready P es rest s' := by
  obtain ⟨clientId, hint, request⟩ := m
  have hcaller : Fits64 clientId := fits64_clientId ⟨clientId, hint, request⟩
  cases request with
  | getToken challenge tokenSize tokenBuff =>
    obtain ⟨s', hrun, hready⟩ := psaAttestGetToken_eq hP hr hlen hcaller challenge tokenSize tokenBuff
    exact ⟨_, s', hrun, rfl, hready⟩
  | getTokenSize input outSize =>
    obtain ⟨s', hrun, hready⟩ := psaAttestGetTokenSize_eq hP hr hlen hcaller input outSize
    exact ⟨_, s', hrun, rfl, hready⟩
  | getPublicKey keySize curveSize lenSize keyLen =>
    exact ⟨_, _, rfl, fun out h => publicKey_eq hr h,
      ready_getPublicKey hr clientId keySize curveSize lenSize keyLen⟩

/-- The service's boot data, in every run. -/
def Serves (es₀ : List Entry) (buffer : List UInt8) (P₀ : Platform) (s : Service) : Prop :=
  needed es₀ tlvMajorIas ≤ maxBootStatus ∧
    Ready P₀ (wanted es₀ tlvMajorIas) (buffer.drop (needed es₀ tlvMajorIas)) s

theorem length_wanted (h : needed es₀ tlvMajorIas ≤ maxBootStatus) :
    sharedDataHeaderSize + (encode (wanted es₀ tlvMajorIas)).length < 2 ^ 16 := by
  have hmax : maxBootStatus = 512 := rfl
  rw [needed] at h
  omega

/-- Between requests no handle is held, and what is kept is of the key. -/
theorem ready_inductive (hlen : sharedDataHeaderSize + (encode es₀).length < 2 ^ 16)
    (ho : OnlyIas es₀) :
    (serviceLts S es₀ rest buffer P₀).Inductive (Serves es₀ buffer P₀) where
  init s h := by
    obtain ⟨boot, hboot, hinit⟩ := h
    rw [attestInit_eq hlen ho hboot] at hinit
    split_ifs at hinit with hfit
    injection hinit with hinit
    subst hinit
    refine ⟨hfit, rfl, rfl, fun h => absurd rfl h, fun h => absurd rfl h⟩
  step s l s' hs hstep := by
    obtain ⟨hfit, hready⟩ := hs
    obtain ⟨⟨hsame, hP⟩, r, hrun⟩ := hstep
    obtain ⟨r', s'', hrun', -, hready'⟩ :=
      signalHandle_eq hP (hready.same hsame) (length_wanted hfit) l.2
    rw [hrun] at hrun'
    injection hrun' with hrun'
    injection hrun' with _ hs'
    exact ⟨hfit, hs' ▸ hready'.same hsame.symm⟩

end Runs

/-! ## The size of a token -/

/-- The crypto service works with the key, and a signature has the size that goes with it. -/
structure Signs (P : Platform) (handle bits : Nat) : Prop where
  keyBits : P.crypto.keyBits handle = .ok bits
  hash : ∀ parts, ∃ digest, P.crypto.hash .sha256 parts tCoseCryptoMaxHashSize = .ok digest
  sign : ∀ hash, ∃ b, P.crypto.signHash handle .ecdsaSha256 hash tCoseMaxSigSize = .ok b ∧
    b.length = 2 * ((bits + 7) / 8)

section Size

variable {P : Platform} {es : List Entry} {handle bits : Nat}

/-- The challenge is one of the claims, and the others do not depend on it. -/
theorem claimsOf_challenge {s : Service} {challenge : List UInt8} (challenge' : List UInt8)
    {claims : List Claim} (h : claimsOf P es s challenge = .ok claims) :
    ∃ others, claims = ⟨eatCborArmLabelChallenge, .bytes challenge⟩ :: others ∧
      claimsOf P es s challenge' =
        .ok (⟨eatCborArmLabelChallenge, .bytes challenge'⟩ :: others) := by
  have hsplit : ∀ c, claimsOf P es s c =
      (collect (claimSpecs P es s challenge).tail).map
        ([⟨eatCborArmLabelChallenge, .bytes c⟩] ++ ·) := fun c => rfl
  rw [hsplit] at h
  obtain ⟨others, hothers, rfl⟩ : ∃ others, collect (claimSpecs P es s challenge).tail = .ok others ∧
      ⟨eatCborArmLabelChallenge, .bytes challenge⟩ :: others = claims := by
    cases hcol : collect (claimSpecs P es s challenge).tail with
    | error e =>
      rw [hcol] at h
      cases h
    | ok others =>
      rw [hcol] at h
      injection h with h
      exact ⟨others, rfl, h⟩
  exact ⟨others, rfl, by rw [hsplit, hothers]; rfl⟩

theorem length_payload_challenge {challenge challenge' : List UInt8} (others : List Claim)
    (h : challenge'.length = challenge.length) :
    (payloadOf (⟨eatCborArmLabelChallenge, .bytes challenge'⟩ :: others)).length =
      (payloadOf (⟨eatCborArmLabelChallenge, .bytes challenge⟩ :: others)).length := by
  simp [payloadOf, Claim.encoded, ClaimValue.encoded, h]

theorem length_message_congr {payload payload' signature signature' : List UInt8}
    (h : payload'.length = payload.length) (hs : signature'.length = signature.length) :
    (Tfm.Cbor.encode (sign1Item false nullUsefulBufC payload' signature')).length =
      (Tfm.Cbor.encode (sign1Item false nullUsefulBufC payload signature)).length := by
  simp [encode_sign1Item, membersFront, h, hs]

/-- Without storage the signature is so many zeros. -/
theorem signatureOf_none (h : Signs P handle bits) (payload : List UInt8) :
    signatureOf P.crypto handle none payload = .ok ⟨none, 2 * ((bits + 7) / 8)⟩ := by
  have hsize : tCoseCryptoSigSize P.crypto coseAlgorithmEs256 handle =
      .ok (2 * ((bits + 7) / 8)) := by
    unfold tCoseCryptoSigSize
    rw [if_neg (by decide), h.keyBits]
    simp only
    congr 1
    split_ifs <;> omega
  unfold signatureOf
  rw [hsize]
  rfl

theorem signatureOf_some (h : Signs P handle bits) (mem payload : List UInt8) :
    ∃ b, signatureOf P.crypto handle (some mem) payload = .ok (ofBytes b) ∧
      b.length = 2 * ((bits + 7) / 8) := by
  obtain ⟨digest, hdigest⟩ := h.hash [sigStructure protectedBytes payload]
  obtain ⟨b, hb, hlen⟩ := h.sign digest
  have halg : coseAlgIdToPsaAlgId coseAlgorithmEs256 = .ecdsaSha256 := rfl
  refine ⟨b, ?_, hlen⟩
  simp [signatureOf, hashSigStructure, hdigest, tCoseCryptoPubKeySign, halg, hb, Except.mapError,
    Except.map]

theorem tokenFor_ok {clientId : Int} {challenge : List UInt8} {storage : Option (List UInt8)}
    {cap : Nat} {token : UsefulBufC} (h : tokenFor P es clientId challenge storage cap = .ok token) :
    ∃ handle key claims, keyOf P = .ok (handle, key) ∧ handle ≠ attestKeyHandleNotLoaded ∧
      claimsOf P es (registered clientId handle key) challenge = .ok claims ∧
      tokenResult P handle storage cap (payloadOf claims) = .ok token := by
  unfold tokenFor at h
  cases hkey : keyOf P with
  | error e =>
    rw [hkey] at h
    cases h
  | ok pair =>
    obtain ⟨handle, key⟩ := pair
    rw [hkey] at h
    simp only [tokenOutcome] at h
    split_ifs at h with hzero
    cases hclaims : claimsOf P es (registered clientId handle key) challenge with
    | error e =>
      rw [hclaims] at h
      cases h
    | ok claims =>
      rw [hclaims] at h
      exact ⟨handle, key, claims, rfl, hzero, hclaims, h⟩

/-- The token without storage has the size of the one with storage. -/
theorem tokenResult_of_size (h : Signs P handle bits) {payload payload' : List UInt8}
    (hlen : payload'.length = payload.length) {cap : Nat} {token : UsefulBufC}
    (hsize : tokenResult P handle none cap payload = .ok token) (cap' : Nat) :
    token.len ≤ cap ∧ ∃ message, message.length = token.len ∧
      tokenResult P handle (some []) cap' payload' =
        if cap' < token.len then .error .bufferOverflow
        else .ok (resultOf (some []) message) := by
  obtain ⟨b, hb, hblen⟩ := signatureOf_some h [] payload'
  have hzeros : (UsefulBufC.contents ⟨none, 2 * ((bits + 7) / 8)⟩).length = 2 * ((bits + 7) / 8) := by
    simp [UsefulBufC.contents]
  have hmessage := length_message_congr hlen (hblen.trans hzeros.symm)
  have hfront := length_front_le false nullUsefulBufC payload' b
  unfold tokenResult at hsize
  rw [signatureOf_none h] at hsize
  split_ifs at hsize with hsmall
  simp only at hsize
  split_ifs at hsize with hfit
  injection hsize with hsize
  have htoken : token.len = (Tfm.Cbor.encode (sign1Item false nullUsefulBufC payload
      (UsefulBufC.contents ⟨none, 2 * ((bits + 7) / 8)⟩))).length := by
    rw [← hsize]
    rfl
  refine ⟨by omega, _, hmessage.trans htoken.symm, ?_⟩
  unfold tokenResult
  rw [hb]
  simp only [contents_ofBytes]
  rw [htoken, ← hmessage]
  by_cases hcap : cap' < (Tfm.Cbor.encode (sign1Item false nullUsefulBufC payload' b)).length
  · rw [if_pos hcap, ite_self]
  · rw [if_neg hcap, if_neg (by omega)]

theorem tokenReply_of_size (hsigns : ∀ handle key, keyOf P = .ok (handle, key) →
      ∃ bits, Signs P handle bits) {clientId : Int} {challenge : List UInt8} {k tokenSize : Nat}
    (h : sizeReply P es clientId challenge.length = .ok [Bytes.le 4 k]) (hk : k < 2 ^ 32)
    (hpos : 0 < tokenSize) :
    ∃ token, token.length = k ∧ tokenReply P es clientId challenge tokenSize =
      if min tokenSize psaInitialAttestTokenMaxSize < k then .error .bufferTooSmall
      else .ok [token] := by
  unfold sizeReply at h
  split_ifs at h with hch
  cases hfor : tokenFor P es clientId (List.replicate challenge.length 0) none (2 ^ 31 - 1) with
  | error e =>
    rw [hfor] at h
    cases h
  | ok sized =>
    rw [hfor] at h
    injection h with h
    injection h with h
    obtain ⟨handle, key, claims, hkey, hzero, hclaims, hresult⟩ := tokenFor_ok hfor
    obtain ⟨bits, hs⟩ := hsigns handle key hkey
    obtain ⟨others, rfl, hclaims'⟩ := claimsOf_challenge challenge hclaims
    have hlen := length_payload_challenge others
      (List.length_replicate (n := challenge.length) (a := (0 : UInt8))).symm
    obtain ⟨hle, message, hmessage, hmade⟩ := tokenResult_of_size hs hlen hresult
      (min tokenSize psaInitialAttestTokenMaxSize)
    have hsized : sized.len = k := by
      have hofLe := congrArg Bytes.ofLe h
      rw [Bytes.ofLe_le, Bytes.ofLe_le] at hofLe
      omega
    have hmax : psaInitialAttestTokenMaxSize = 1024 := rfl
    have hreply : tokenFor P es clientId challenge (some [])
        (min tokenSize psaInitialAttestTokenMaxSize) =
          tokenResult P handle (some []) (min tokenSize psaInitialAttestTokenMaxSize)
            (payloadOf (⟨eatCborArmLabelChallenge, .bytes challenge⟩ :: others)) := by
      have hhandle : (registered clientId handle key).keyHandle = handle := rfl
      simp only [tokenFor, hkey, tokenOutcome, hhandle, if_neg hzero, hclaims']
    refine ⟨message, hmessage.trans hsized, ?_⟩
    unfold tokenReply
    rw [if_neg hch, if_neg (by omega), hreply, hmade, hsized]
    split_ifs
    · rfl
    · simp [Except.mapError, Except.map, resultOf, UsefulBufC.contents]

end Size

/-! ### A device with one component -/

def exampleKey : List UInt8 :=
  [0x04, 0xaf, 0x0e, 0x3c, 0xdf, 0xee, 0x99, 0xfc, 0xe5, 0x4b, 0x94, 0xce, 0xba, 0xb0, 0xcc, 0x65,
   0xbc, 0x6d, 0x75, 0xe3, 0x10, 0xf4, 0xd2, 0x4f, 0xcd, 0x73, 0x65, 0x7d, 0xd6, 0x4a, 0xf6, 0x12,
   0x82, 0xd2, 0xfb, 0x3c, 0x1c, 0xd7, 0x5f, 0x77, 0x87, 0x51, 0x79, 0x08, 0xb0, 0xc4, 0x4f, 0x66,
   0x14, 0x7b, 0xc8, 0xd6, 0x9a, 0x63, 0x1a, 0x05, 0x27, 0x8a, 0xfd, 0x3d, 0xeb, 0x97, 0x09, 0xac,
   0x62]

/-- Of the key, and of what is signed in the token below. -/
def exampleKeyDigest : List UInt8 :=
  [0x8e, 0xe4, 0x4f, 0xb1, 0x31, 0x3a, 0x87, 0x9f, 0x78, 0xf0, 0xf9, 0xff, 0x5f, 0xfb, 0xa6, 0x2f,
   0x24, 0x85, 0x6b, 0xb1, 0x63, 0x50, 0xb9, 0x09, 0xdd, 0xca, 0x68, 0xd7, 0x44, 0x00, 0x1b, 0x23]

def exampleTokenDigest : List UInt8 :=
  [0x47, 0x40, 0x83, 0x28, 0x18, 0xfc, 0xb7, 0x68, 0x3d, 0xd6, 0x37, 0xb7, 0x51, 0xa4, 0xbb, 0x34,
   0x5a, 0xf0, 0x24, 0xe4, 0x6e, 0xd4, 0xab, 0xd7, 0x5f, 0xb2, 0x60, 0x90, 0x57, 0x60, 0x31, 0x58]

def exampleTokenSignature : List UInt8 :=
  [0xdf, 0x3f, 0x72, 0xda, 0x9a, 0x3b, 0xa2, 0x01, 0xb4, 0x26, 0x2f, 0xdd, 0x04, 0x8d, 0xd1, 0x5a,
   0xb4, 0x90, 0x0f, 0x1a, 0xb8, 0x60, 0x9b, 0x56, 0xaf, 0x44, 0xb2, 0xdf, 0x4a, 0xfd, 0x06, 0x78,
   0xc2, 0x9e, 0x27, 0x95, 0xfa, 0x4e, 0xa2, 0x49, 0x16, 0x25, 0x27, 0xfc, 0x72, 0x29, 0x36, 0xe3,
   0xde, 0x0e, 0x1f, 0x01, 0x09, 0xef, 0x37, 0xbc, 0xbf, 0xe5, 0x6e, 0x04, 0x05, 0xfd, 0x43, 0xad]

def exampleTokenCrypto : Crypto :=
  { hash := fun _ parts n =>
      if n < 32 then .error .bufferTooSmall
      else .ok (if parts.flatten = exampleKey then exampleKeyDigest else exampleTokenDigest)
    signHash := fun _ _ _ n =>
      if n < 64 then .error .bufferTooSmall else .ok exampleTokenSignature
    keyBits := fun _ => .ok 256
    verifyHash := fun _ _ hash signature =>
      if hash = exampleTokenDigest ∧ signature = exampleTokenSignature then .ok ()
      else .error .invalidSignature }

def examplePlatform : Platform :=
  { openInitialAttestKey := (1, some 0x12)
    exportPublicKey := fun _ => some exampleKey
    bootSeed := some (List.replicate 32 8)
    implementationId := some (List.replicate 32 9)
    securityLifecycle := 0x3000
    verificationService := none
    profileDefinition := none
    hwVersion := none
    crypto := exampleTokenCrypto
    includeOptionalClaims := false }

theorem examplePlatform_keeps : Keeps examplePlatform examplePlatform := by
  refine ⟨⟨rfl, rfl, rfl⟩, ⟨⟨?_, ?_, ?_⟩, ?_, ?_, ?_, ?_, ?_, ?_, ?_⟩⟩
  · intro alg parts n
    simp [examplePlatform, exampleTokenCrypto]
  · intro key n h
    injection h with h
    omega
  · intro key alg hash n b h
    simp only [examplePlatform, exampleTokenCrypto] at h
    split_ifs at h with hn
    injection h with h
    rw [← h]
    exact Nat.le_of_not_lt hn
  · intro b h
    injection h with h
    rw [← h]
    rfl
  · intro key b h
    injection h with h
    rw [← h]
    decide
  · intro alg parts n b h
    simp only [examplePlatform, exampleTokenCrypto] at h
    split_ifs at h with hn
    all_goals
      injection h with h
      rw [← h]
      exact Nat.le_of_not_lt hn
  · intro b h
    injection h with h
    rw [← h]
    decide
  · intro b h
    cases h
  · intro b h
    cases h
  · intro b h
    cases h

def exampleRecord : List Entry := [⟨0x113F, [0xa0]⟩]

def exampleService : Service :=
  ⟨areaOf exampleRecord (List.replicate 503 0), attestKeyHandleNotLoaded, [], 0, [], 0⟩

theorem exampleRecord_onlyIas : OnlyIas exampleRecord := by
  intro e he _
  rw [exampleRecord, List.mem_singleton] at he
  subst he
  decide

theorem exampleService_reachable :
    (serviceLts twoReaders exampleRecord [] (List.replicate 512 0) examplePlatform).Reachable
      exampleService := by
  have hboot : (lts twoReaders exampleRecord []).Reachable
      (validateBootData (areaOf exampleRecord [])) := .init rfl
  refine .init ⟨_, hboot, ?_⟩
  rw [attestInit_eq (by decide) exampleRecord_onlyIas hboot]
  decide +kernel

def exampleBuff : TokenBuff := ⟨List.replicate 1024 0, List.length_replicate⟩

/-! ## In every run -/

section

variable {S : Setup} {es₀ : List Entry} {rest buffer : List UInt8} {P₀ P : Platform} {s s' : Service}

/-- **In every run, whatever was asked before and by whom, a request is answered. A token and its
size do not depend on what was asked before; a public key that is returned is that of the key store.**
Whether it is returned does depend: a service that has just started has none to give. -/
theorem reply_eq (hlen : sharedDataHeaderSize + (encode es₀).length < 2 ^ 16) (ho : OnlyIas es₀)
    (hr : (serviceLts S es₀ rest buffer P₀).Reachable s) (hP : Keeps P₀ P) (m : Msg) :
    ∃ r s', attestSignalHandle P s m = some (r, s') ∧ Answers P (wanted es₀ tlvMajorIas) m r ∧
      s'.keyHandle = attestKeyHandleNotLoaded := by
  obtain ⟨hfit, hready⟩ := (ready_inductive hlen ho).reachable s hr
  obtain ⟨r, s', hrun, hanswers, hready'⟩ :=
    signalHandle_eq hP.sound (hready.same hP.same) (length_wanted hfit) m
  exact ⟨r, s', hrun, hanswers, hready'.keyHandle⟩

/-- The challenge has 32 bytes, the buffer has 300. -/
theorem reply_eq_example :
    ∃ r s', attestSignalHandle examplePlatform exampleService
        ⟨-1, by decide, .getToken (List.replicate 32 7) 300 exampleBuff⟩ = some (r, s') ∧
      r = tokenReply examplePlatform (wanted exampleRecord tlvMajorIas) (-1) (List.replicate 32 7)
        300 ∧ s'.keyHandle = attestKeyHandleNotLoaded :=
  reply_eq (by decide) exampleRecord_onlyIas exampleService_reachable examplePlatform_keeps
    ⟨-1, by decide, .getToken (List.replicate 32 7) 300 exampleBuff⟩

/-- **In every run, where the size of a token was reported to a client at any time, its token has
that size, and it is given exactly if the buffer has it.** -/
theorem token_of_size (hlen : sharedDataHeaderSize + (encode es₀).length < 2 ^ 16)
    (ho : OnlyIas es₀)
    (hr : (serviceLts S es₀ rest buffer P₀).Reachable s)
    (hr' : (serviceLts S es₀ rest buffer P₀).Reachable s') (hP : Keeps P₀ P)
    (hsigns : ∀ handle key, keyOf P = .ok (handle, key) → ∃ bits, Signs P handle bits)
    {clientId : Int} (hclient : -2 ^ 31 ≤ clientId ∧ clientId < 2 ^ 31)
    (input challenge : List UInt8) (k tokenSize : Nat) (hk : k < 2 ^ 32)
    (hinput : Bytes.ofLe input = challenge.length)
    (hsize : (psaAttestGetTokenSize P s clientId input 4).map Prod.fst =
      some (.ok [Bytes.le 4 k]))
    (hpos : 0 < tokenSize) (tokenBuff : TokenBuff) :
    ∃ token, token.length = k ∧
      (psaAttestGetToken P s' clientId challenge tokenSize tokenBuff).map Prod.fst =
        some (if min tokenSize psaInitialAttestTokenMaxSize < k then .error .bufferTooSmall
          else .ok [token]) := by
  have hfits : Fits64 clientId := by
    constructor <;> omega
  obtain ⟨hneeded, hready⟩ := (ready_inductive hlen ho).reachable s hr
  obtain ⟨-, hready'⟩ := (ready_inductive hlen ho).reachable s' hr'
  have hwanted := length_wanted hneeded
  obtain ⟨t, hrun, -⟩ := psaAttestGetTokenSize_eq hP.sound (hready.same hP.same) hwanted hfits input 4
  obtain ⟨t', hrun', -⟩ := psaAttestGetToken_eq hP.sound (hready'.same hP.same) hwanted hfits
    challenge tokenSize tokenBuff
  rw [hrun, hinput, Option.map_some] at hsize
  injection hsize with hsize
  split_ifs at hsize with hfour
  obtain ⟨token, htoken, hreply⟩ := tokenReply_of_size hsigns hsize hk hpos
  exact ⟨token, htoken, by rw [hrun', hreply, Option.map_some]⟩

theorem token_of_size_example :
    ∃ token, token.length = 254 ∧
      (psaAttestGetToken examplePlatform exampleService (-1) (List.replicate 32 7) 300
        exampleBuff).map Prod.fst = some (.ok [token]) := by
  have hsigns : ∀ handle key, keyOf examplePlatform = .ok (handle, key) →
      ∃ bits, Signs examplePlatform handle bits := by
    intro handle key h
    exact ⟨256, rfl, fun _ => ⟨_, rfl⟩, fun _ => ⟨exampleTokenSignature, rfl, rfl⟩⟩
  exact token_of_size (by decide) exampleRecord_onlyIas exampleService_reachable
    exampleService_reachable examplePlatform_keeps hsigns ⟨by decide, by decide⟩ [32, 0, 0, 0]
    (List.replicate 32 7) 254 300 (by decide) (by decide) (by decide +kernel) (by decide) exampleBuff

end

end Tfm.L4.Attest
