import Tfm.Core.Psa
import Tfm.L3Format.CoseSign
import Tfm.L4Service.AttestComponents

/-!
# The attestation token

The service makes a token of its claims: the caller's challenge, what the boot loader and the
platform say about the device, and who asks. They are written into the caller's buffer as the
payload of a `COSE_Sign1` message. For the size of the token the same is done without storage, and
without a signature.

The model is of the release build with an elliptic-curve key, without `INCLUDE_COSE_KEY_ID`.
`Platform` stands for the functions of the platform and of the key store. `none` is a loop over
the boot data that does not end.

Results:
* `runClaims_all`: the claims, or the error of the first one that cannot be had.
* `length_payload`: they are short, whatever the boot data.
* `tokenBody_eq`: the signed message of the claims, or why there is none.
-/
namespace Tfm.L4.Attest
open Tfm.Tlv Tfm.L4.BootData Tfm.L3.Qcbor Tfm.L3.Cose
open Tfm.Cbor (head)

/-! ## The platform -/

/-- The answers of the platform and of the crypto service. `openInitialAttestKey` leaves a handle;
without a curve it failed. -/
structure Platform where
  openInitialAttestKey : Nat × Option Nat
  exportPublicKey : Nat → Option (List UInt8)
  bootSeed : Option (List UInt8)
  implementationId : Option (List UInt8)
  securityLifecycle : Nat
  verificationService : Option (List UInt8)
  profileDefinition : Option (List UInt8)
  hwVersion : Option (List UInt8)
  crypto : Crypto
  includeOptionalClaims : Bool

/-- mirrors secure_fw/partitions/initial_attestation/attest.h:25-44 -/
inductive PsaAttestErr
  | initFailed
  | bufferOverflow
  | claimUnavailable
  | invalidInput
  | general
  deriving DecidableEq, Repr

/-- mirrors secure_fw/partitions/initial_attestation/attest_token.h (`attest_token_err_t`); those
that are returned -/
inductive AttestTokenErr
  | tooSmall
  | cborFormatting
  | general
  | hashUnavailable
  | signingKey
  deriving DecidableEq, Repr

/-- mirrors secure_fw/partitions/initial_attestation/attest_core.c:75-101 -/
def errorMappingToPsaStatusT : PsaAttestErr → PsaStatus
  | .initFailed => .serviceFailure
  | .bufferOverflow => .bufferTooSmall
  | .claimUnavailable => .genericError
  | .invalidInput => .invalidArgument
  | .general => .genericError

/-- mirrors secure_fw/partitions/initial_attestation/attest_core.c:122-135 -/
def errorMappingToPsaAttestErrT : AttestTokenErr → PsaAttestErr
  | .tooSmall => .bufferOverflow
  | _ => .general

/-- mirrors secure_fw/partitions/initial_attestation/attest_token_encode.c (`t_cose_err_to_attest_err`) -/
def tCoseErrToAttestErr : CoseErr → AttestTokenErr
  | .unsupportedHash => .hashUnavailable
  | .tooSmall => .tooSmall
  | _ => .general

/-- The static data of the service; 0 is `ATTEST_KEY_HANDLE_NOT_LOADED`, an empty public key or
instance id is not there yet. -/
structure Service where
  bootData : List UInt8
  keyHandle : Nat
  publicKey : List UInt8
  keyCurve : Nat
  instanceId : List UInt8
  callerId : Int
  deriving DecidableEq, Repr

def attestKeyHandleNotLoaded : Nat := 0

/-- mirrors secure_fw/partitions/initial_attestation/attest_asymmetric_key.c
(`attest_register_initial_attestation_key`) -/
def attestRegisterInitialAttestationKey (P : Platform) (s : Service) :
    Except PsaAttestErr Unit × Service :=
  if s.keyHandle ≠ attestKeyHandleNotLoaded then (.error .general, s)
  else
    let s := { s with keyHandle := P.openInitialAttestKey.1 }
    match P.openInitialAttestKey.2 with
    | none => (.error .general, s)
    | some psaCurve =>
      if s.publicKey.length = 0 then
        match P.exportPublicKey s.keyHandle with
        | none => (.error .general, s)
        | some key => (.ok (), { s with publicKey := key, keyCurve := psaCurve })
      else (.ok (), s)

/-- mirrors secure_fw/partitions/initial_attestation/attest_asymmetric_key.c
(`attest_unregister_initial_attestation_key`) -/
def attestUnregisterInitialAttestationKey (s : Service) : Except PsaAttestErr Unit × Service :=
  if s.keyHandle = attestKeyHandleNotLoaded then (.error .general, s)
  else (.ok (), { s with keyHandle := attestKeyHandleNotLoaded })

def instanceIdMaxSize : Nat := 33

/-- mirrors secure_fw/partitions/initial_attestation/attest_asymmetric_key.c
(`attest_calc_instance_id`) -/
def attestCalcInstanceId (P : Platform) (s : Service) : Except PsaAttestErr (List UInt8) :=
  if s.publicKey.length = 0 then .error .claimUnavailable
  else
    match P.crypto.hash .sha256 [s.publicKey] (instanceIdMaxSize - 1) with
    | .error _ => .error .claimUnavailable
    | .ok digest => .ok (0x01 :: digest)

/-- mirrors secure_fw/partitions/initial_attestation/attest_asymmetric_key.c
(`attest_get_instance_id`) -/
def attestGetInstanceId (P : Platform) (s : Service) :
    Except PsaAttestErr (List UInt8) × Service :=
  if s.instanceId.length = 0 then
    match attestCalcInstanceId P s with
    | .error _ => (.error .claimUnavailable, s)
    | .ok instanceId => (.ok instanceId, { s with instanceId := instanceId })
  else (.ok s.instanceId, s)

/-! ## The claims -/

/-- mirrors secure_fw/partitions/initial_attestation/attest_eat_defines.h:16-28 -/
def eatCborArmRangeBase : Int := -75000

def eatCborArmLabelProfileDefinition : Int := eatCborArmRangeBase - 0

def eatCborArmLabelClientId : Int := eatCborArmRangeBase - 1

def eatCborArmLabelSecurityLifecycle : Int := eatCborArmRangeBase - 2

def eatCborArmLabelImplementationId : Int := eatCborArmRangeBase - 3

def eatCborArmLabelBootSeed : Int := eatCborArmRangeBase - 4

def eatCborArmLabelHwVersion : Int := eatCborArmRangeBase - 5

def eatCborArmLabelChallenge : Int := eatCborArmRangeBase - 8

def eatCborArmLabelUeid : Int := eatCborArmRangeBase - 9

def eatCborArmLabelOrigination : Int := eatCborArmRangeBase - 10

/-- mirrors secure_fw/spm/include/tfm_boot_status.h:92-94 -/
def bootSeedClaim : Nat := 0x00

def hwVersionClaim : Nat := 0x01

def securityLifecycleClaim : Nat := 0x02

/-- mirrors platform/include/tfm_attest_hal.h:28 -/
def tfmSlcMaxValue : Nat := 0x60FF

def bootSeedSize : Nat := 32

/-- mirrors secure_fw/partitions/initial_attestation/attest_token_encode.c
(`attest_token_encode_add_integer`, `_add_bstr`, `_add_tstr`) -/
def attestTokenEncodeAddInteger (ctx : EncodeContext) (label value : Int) : EncodeContext :=
  (ctx.addInt64 label).addInt64 value

def attestTokenEncodeAddBstr (ctx : EncodeContext) (label : Int) (bstr : UsefulBufC) :
    EncodeContext :=
  (ctx.addInt64 label).addBuffer .byteString bstr

def attestTokenEncodeAddTstr (ctx : EncodeContext) (label : Int) (tstr : UsefulBufC) :
    EncodeContext :=
  (ctx.addInt64 label).addBuffer .textString tstr

/-- What a function that adds a claim does. -/
abbrev AddClaim := Service → EncodeContext → Option (Except PsaAttestErr EncodeContext × Service)

/-- The value of a claim in the boot data, by a pointer. -/
def claimValueAt (mem : List UInt8) (tlvLen tlvPtr : Nat) : UsefulBufC :=
  ⟨some (mem.drop (tlvPtr + headerSize)), tlvLen⟩

/-- mirrors secure_fw/partitions/initial_attestation/attest_core.c:351-383 -/
def attestAddBootSeedClaim (P : Platform) : AddClaim := fun s ctx =>
  match getTlvById s.bootData bootSeedClaim with
  | none => none
  | some (.found _ tlvLen tlvPtr) =>
    some (.ok (attestTokenEncodeAddBstr ctx eatCborArmLabelBootSeed
      (claimValueAt s.bootData tlvLen tlvPtr)), s)
  | _ =>
    match P.bootSeed with
    | none => some (.error .claimUnavailable, s)
    | some bootSeed =>
      some (.ok (attestTokenEncodeAddBstr ctx eatCborArmLabelBootSeed
        ⟨some bootSeed, bootSeedSize⟩), s)

/-- mirrors secure_fw/partitions/initial_attestation/attest_core.c:394-413 -/
def attestAddInstanceIdClaim (P : Platform) : AddClaim := fun s ctx =>
  match attestGetInstanceId P s with
  | (.error e, s) => some (.error e, s)
  | (.ok instanceId, s) =>
    some (.ok (attestTokenEncodeAddBstr ctx eatCborArmLabelUeid (ofBytes instanceId)), s)

/-- mirrors secure_fw/partitions/initial_attestation/attest_core.c:421-441 -/
def attestAddImplementationIdClaim (P : Platform) : AddClaim := fun s ctx =>
  match P.implementationId with
  | none => some (.error .claimUnavailable, s)
  | some implementationId =>
    some (.ok (attestTokenEncodeAddBstr ctx eatCborArmLabelImplementationId
      (ofBytes implementationId)), s)

/-- mirrors secure_fw/partitions/initial_attestation/attest_core.c:450-466 -/
def attestAddCallerIdClaim : AddClaim := fun s ctx =>
  some (.ok (attestTokenEncodeAddInteger ctx eatCborArmLabelClientId s.callerId), s)

/-- mirrors secure_fw/partitions/initial_attestation/attest_core.c:150-174 -/
def getUint (intPtr : UsefulBufC) : Option Nat :=
  if intPtr.len = 1 ∨ intPtr.len = 2 ∨ intPtr.len = 4 then some (Bytes.ofLe intPtr.contents)
  else none

/-- The check and the claim. -/
def addSecurityLifecycle (securityLifecycle : Nat) : AddClaim := fun s ctx =>
  if securityLifecycle > tfmSlcMaxValue then some (.error .general, s)
  else
    some (.ok (attestTokenEncodeAddInteger ctx eatCborArmLabelSecurityLifecycle
      securityLifecycle), s)

/-- mirrors secure_fw/partitions/initial_attestation/attest_core.c:475-515 -/
def attestAddSecurityLifecycleClaim (P : Platform) : AddClaim := fun s ctx =>
  match getTlvById s.bootData securityLifecycleClaim with
  | none => none
  | some (.found _ tlvLen tlvPtr) =>
    match getUint (claimValueAt s.bootData tlvLen tlvPtr) with
    | none => some (.error .general, s)
    | some slcValue => addSecurityLifecycle slcValue s ctx
  | _ => addSecurityLifecycle P.securityLifecycle s ctx

/-- mirrors secure_fw/partitions/initial_attestation/attest_core.c:525-534 -/
def attestAddChallengeClaim (challenge : UsefulBufC) : AddClaim := fun s ctx =>
  some (.ok (attestTokenEncodeAddBstr ctx eatCborArmLabelChallenge challenge), s)

/-- The calls of the encoder, as the components make them. -/
def callsOfCbor : Cbor → List Tfm.L3.Qcbor.Call
  | .openArrayInMapN label => [.addInt64 label, .openMapOrArray .array]
  | .addEncoded encoded => [.addBuffer .raw (ofBytes encoded)]
  | .closeArray => [.closeMapOrArray .array]
  | .addInteger label value => [.addInt64 label, .addInt64 value]

/-- mirrors secure_fw/partitions/initial_attestation/attest_core.c:288-342; `addAllSwComponents`
says which calls it makes -/
def attestAddAllSwComponents : AddClaim := fun s ctx =>
  match addAllSwComponents s.bootData with
  | none => none
  | some (.error .claimUnavailable) => some (.error .claimUnavailable, s)
  | some (.ok calls) => some (.ok (ctx.run (calls.flatMap callsOfCbor)), s)

/-- mirrors secure_fw/partitions/initial_attestation/attest_core.c:545-586 -/
def addHalString (label : Int) (string : Option (List UInt8)) : AddClaim := fun s ctx =>
  match string with
  | none => some (.ok ctx, s)
  | some string => some (.ok (attestTokenEncodeAddTstr ctx label (ofBytes string)), s)

def attestAddVerificationService (P : Platform) : AddClaim :=
  addHalString eatCborArmLabelOrigination P.verificationService

def attestAddProfileDefinition (P : Platform) : AddClaim :=
  addHalString eatCborArmLabelProfileDefinition P.profileDefinition

/-- mirrors secure_fw/partitions/initial_attestation/attest_core.c:595-630 -/
def attestAddHwVersionClaim (P : Platform) : AddClaim := fun s ctx =>
  match getTlvById s.bootData hwVersionClaim with
  | none => none
  | some (.found _ tlvLen tlvPtr) =>
    some (.ok (attestTokenEncodeAddTstr ctx eatCborArmLabelHwVersion
      (claimValueAt s.bootData tlvLen tlvPtr)), s)
  | _ =>
    match P.hwVersion with
    | none => some (.error .claimUnavailable, s)
    | some hwVersion =>
      some (.ok (attestTokenEncodeAddTstr ctx eatCborArmLabelHwVersion (ofBytes hwVersion)), s)

/-- One function after the other, up to the first error. -/
def runClaims : List AddClaim → AddClaim
  | [], s, ctx => some (.ok ctx, s)
  | f :: fs, s, ctx =>
    match f s ctx with
    | none => none
    | some (.error e, s) => some (.error e, s)
    | some (.ok ctx, s) => runClaims fs s ctx

/-- mirrors secure_fw/partitions/initial_attestation/attest_core.c:757-817; the claims, in order -/
def allClaims (P : Platform) (challenge : UsefulBufC) : List AddClaim :=
  [attestAddChallengeClaim challenge, attestAddBootSeedClaim P, attestAddInstanceIdClaim P,
    attestAddImplementationIdClaim P, attestAddCallerIdClaim, attestAddSecurityLifecycleClaim P,
    attestAddAllSwComponents] ++
  if P.includeOptionalClaims then
    [attestAddVerificationService P, attestAddProfileDefinition P, attestAddHwVersionClaim P]
  else []

/-! ## The token -/

/-- mirrors secure_fw/partitions/initial_attestation/attest_token_encode.c
(`attest_token_encode_start`) -/
def attestTokenEncodeStart (s : Service) (outBuf : Option (List UInt8)) (outLen : Nat) :
    Except AttestTokenErr (Sign1SignCtx × EncodeContext) :=
  if s.keyHandle = attestKeyHandleNotLoaded then .error .signingKey
  else
    match tCoseSign1EncodeParameters
        (tCoseSign1SignInit false false coseAlgorithmEs256 s.keyHandle nullUsefulBufC)
        (encodeInit outBuf outLen) with
    | .error e => .error (tCoseErrToAttestErr e)
    | .ok (me, ctx) => .ok (me, ctx.openMapOrArray .map)

/-- mirrors secure_fw/partitions/initial_attestation/attest_token_encode.c
(`attest_token_encode_finish`) -/
def attestTokenEncodeFinish (P : Platform) (me : Sign1SignCtx) (ctx : EncodeContext) :
    Except AttestTokenErr UsefulBufC :=
  match tCoseSign1EncodeSignature P.crypto me (ctx.closeMapOrArray .map).1 with
  | .error e => .error (tCoseErrToAttestErr e)
  | .ok ctx =>
    match ctx.finish with
    | (.bufferTooSmall, _) => .error .tooSmall
    | (.success, some completedToken) => .ok completedToken
    | _ => .error .cborFormatting

/-- The work between registering the key and giving it back. -/
def tokenBody (P : Platform) (s : Service) (challenge : UsefulBufC) (token : Option (List UInt8))
    (tokenLen : Nat) : Option (Except PsaAttestErr UsefulBufC × Service) :=
  match attestTokenEncodeStart s token tokenLen with
  | .error e => some (.error (errorMappingToPsaAttestErrT e), s)
  | .ok (me, ctx) =>
    match runClaims (allClaims P challenge) s ctx with
    | none => none
    | some (.error e, s) => some (.error e, s)
    | some (.ok ctx, s) =>
      match attestTokenEncodeFinish P me ctx with
      | .error e => some (.error (errorMappingToPsaAttestErrT e), s)
      | .ok completedToken => some (.ok completedToken, s)

/-- The key is given back. Its error is returned if there is no other one. -/
def giveBackKey (r : Except PsaAttestErr UsefulBufC × Service) :
    Except PsaAttestErr UsefulBufC × Service :=
  match r.1, attestUnregisterInitialAttestationKey r.2 with
  | .ok _, (.error e, s) => (.error e, s)
  | result, (_, s) => (result, s)

/-- mirrors secure_fw/partitions/initial_attestation/attest_core.c:722-832 -/
def attestCreateToken (P : Platform) (s : Service) (challenge : UsefulBufC)
    (token : Option (List UInt8)) (tokenLen : Nat) :
    Option (Except PsaAttestErr UsefulBufC × Service) :=
  match attestRegisterInitialAttestationKey P s with
  | (.error e, s) => some (giveBackKey (.error e, s))
  | (.ok (), s) => (tokenBody P s challenge token tokenLen).map giveBackKey

/-- mirrors secure_fw/partitions/initial_attestation/attest_core.c:643-656 -/
def attestVerifyChallengeSize (challengeSize : Nat) : Bool :=
  challengeSize == 32 || challengeSize == 48 || challengeSize == 64

/-- mirrors secure_fw/partitions/initial_attestation/attest_core.c:834-876; for one input and one
output vector -/
def initialAttestGetToken (P : Platform) (s : Service) (challenge : UsefulBufC)
    (token : List UInt8) : Option (Except PsaStatus UsefulBufC × Service) :=
  if !attestVerifyChallengeSize challenge.len then
    some (.error (errorMappingToPsaStatusT .invalidInput), s)
  else if token.length = 0 then some (.error (errorMappingToPsaStatusT .invalidInput), s)
  else
    (attestCreateToken P s challenge (some token) token.length).map fun (result, s) =>
      (result.mapError errorMappingToPsaStatusT, s)

/-- mirrors secure_fw/partitions/initial_attestation/attest_core.c:878-926; for one input and one
output vector of four bytes or more -/
def initialAttestGetTokenSize (P : Platform) (s : Service) (challengeSize : Nat) :
    Option (Except PsaStatus Nat × Service) :=
  if !attestVerifyChallengeSize challengeSize then
    some (.error (errorMappingToPsaStatusT .invalidInput), s)
  else
    (attestCreateToken P s ⟨none, challengeSize⟩ none (2 ^ 31 - 1)).map fun (result, s) =>
      ((result.map UsefulBufC.len).mapError errorMappingToPsaStatusT, s)

/-! ## What the token should say -/

inductive ClaimValue
  | bytes (b : List UInt8)
  | text (b : List UInt8)
  | int (v : Int)
  /-- Boot records, which are encoded already. -/
  | components (cs : List (List UInt8))
  deriving DecidableEq, Repr

structure Claim where
  label : Int
  value : ClaimValue
  deriving DecidableEq, Repr

def intHead (v : Int) : List UInt8 := if v < 0 then head 1 (-v - 1).toNat else head 0 v.toNat

def ClaimValue.encoded : ClaimValue → List UInt8
  | .bytes b => head 2 b.length ++ b
  | .text b => head 3 b.length ++ b
  | .int v => intHead v
  | .components cs => head 4 cs.length ++ cs.flatten

def Claim.encoded (c : Claim) : List UInt8 := intHead c.label ++ c.value.encoded

/-- The payload: the claims, in a map. -/
def payloadOf (claims : List Claim) : List UInt8 :=
  head 5 claims.length ++ claims.flatMap Claim.encoded

/-- The value of a general claim in the boot data. -/
def bootValue (es : List Entry) (claim : Nat) : Option (List UInt8) :=
  (es.find? (ofClaim swGeneral claim)).map Entry.data

/-- From the boot data, or else from the platform. -/
def orPlatform (value platform : Option (List UInt8)) : Except PsaAttestErr (List UInt8) :=
  match value, platform with
  | some v, _ => .ok v
  | none, some v => .ok v
  | none, none => .error .claimUnavailable

def lifecycleOf (P : Platform) (es : List Entry) : Except PsaAttestErr Nat :=
  let value := match bootValue es securityLifecycleClaim with
    | none => some P.securityLifecycle
    | some b => getUint (ofBytes b)
  match value with
  | none => .error .general
  | some v => if v > tfmSlcMaxValue then .error .general else .ok v

def instanceIdOf (P : Platform) (s : Service) : Except PsaAttestErr (List UInt8) :=
  if s.instanceId.length = 0 then
    match attestCalcInstanceId P s with
    | .error _ => .error .claimUnavailable
    | .ok instanceId => .ok instanceId
  else .ok s.instanceId

/-- The components the boot data has. -/
def componentsClaim (es : List Entry) : Claim :=
  match (List.range swMax).filterMap (firstOf es) with
  | [] => ⟨eatCborArmLabelNoSwComponents, .int noSwComponentFixedValue⟩
  | c :: cs => ⟨eatCborArmLabelSwComponents, .components (c :: cs)⟩

def halString (label : Int) (string : Option (List UInt8)) : List Claim :=
  match string with
  | none => []
  | some b => [⟨label, .text b⟩]

/-- Each claim, or the error if it cannot be had. -/
def claimSpecs (P : Platform) (es : List Entry) (s : Service) (challenge : List UInt8) :
    List (Except PsaAttestErr (List Claim)) :=
  [.ok [⟨eatCborArmLabelChallenge, .bytes challenge⟩],
    (orPlatform (bootValue es bootSeedClaim) P.bootSeed).map fun b =>
      [⟨eatCborArmLabelBootSeed, .bytes b⟩],
    (instanceIdOf P s).map fun b => [⟨eatCborArmLabelUeid, .bytes b⟩],
    (orPlatform none P.implementationId).map fun b =>
      [⟨eatCborArmLabelImplementationId, .bytes b⟩],
    .ok [⟨eatCborArmLabelClientId, .int s.callerId⟩],
    (lifecycleOf P es).map fun v : Nat => [⟨eatCborArmLabelSecurityLifecycle, .int v⟩],
    .ok [componentsClaim es]] ++
  if P.includeOptionalClaims then
    [.ok (halString eatCborArmLabelOrigination P.verificationService),
      .ok (halString eatCborArmLabelProfileDefinition P.profileDefinition),
      (orPlatform (bootValue es hwVersionClaim) P.hwVersion).map fun b =>
        [⟨eatCborArmLabelHwVersion, .text b⟩]]
  else []

/-- All of them, or the first error. -/
def collect : List (Except PsaAttestErr (List Claim)) → Except PsaAttestErr (List Claim)
  | [] => .ok []
  | .error e :: _ => .error e
  | .ok claims :: specs => (collect specs).map (claims ++ ·)

def claimsOf (P : Platform) (es : List Entry) (s : Service) (challenge : List UInt8) :
    Except PsaAttestErr (List Claim) :=
  collect (claimSpecs P es s challenge)

/-! ## The claims are written -/

/-- The calls write the claims, and may be made. -/
structure Makes (storage : Option (List UInt8)) (cs : List Tfm.L3.Qcbor.Call)
    (claims : List Claim) : Prop where
  writes : Writes 1 (2 * claims.length) (claims.flatMap Claim.encoded) cs
  readable : ∀ c ∈ cs, c.Readable storage

theorem Makes.nil (storage : Option (List UInt8)) : Makes storage [] [] := by
  constructor
  · exact Writes.nil.mono (by decide)
  · intro c hc
    cases hc

theorem Makes.append {storage : Option (List UInt8)} {cs cs' : List Tfm.L3.Qcbor.Call}
    {claims claims' : List Claim} (h : Makes storage cs claims) (h' : Makes storage cs' claims') :
    Makes storage (cs ++ cs') (claims ++ claims') := by
  constructor
  · have happ := h.writes.append h'.writes
    rw [List.flatMap_append, List.length_append, Nat.mul_add]
    exact happ
  · exact readable_append h.readable h'.readable

/-- A number the encoder takes. -/
def Fits64 (v : Int) : Prop := -2 ^ 64 ≤ v ∧ v < 2 ^ 64

instance (v : Int) : Decidable (Fits64 v) := inferInstanceAs (Decidable (_ ∧ _))

theorem writes_int {v : Int} (h : Fits64 v) : Writes 0 1 (intHead v) [.addInt64 v] := by
  obtain ⟨hlow, hhigh⟩ := h
  unfold intHead
  split_ifs with hneg
  · have hn : (-v - 1).toNat < 256 ^ 8 := by omega
    have hv : (-1 - ((-v - 1).toNat : Int)) = v := by omega
    have hw := Writes.addInt64_neg hn
    rwa [hv] at hw
  · have hn : v.toNat < 256 ^ 8 := by omega
    have hv : ((v.toNat : Nat) : Int) = v := by omega
    have hw := Writes.addInt64_nonneg hn
    rwa [hv] at hw

/-- A label and a value. -/
theorem Makes.single {storage : Option (List UInt8)} {label : Int} {value : ClaimValue}
    {depth : Nat} {cs : List Tfm.L3.Qcbor.Call} (hlabel : Fits64 label)
    (hw : Writes depth 1 value.encoded cs) (hdepth : depth ≤ 1)
    (hread : ∀ c ∈ cs, c.Readable storage) :
    Makes storage (.addInt64 label :: cs) [⟨label, value⟩] := by
  constructor
  · have happ := ((writes_int hlabel).append hw).mono (Nat.max_le.2 ⟨Nat.zero_le _, hdepth⟩)
    simpa [Claim.encoded] using happ
  · exact readable_append (@readable_single storage (.addInt64 label) trivial) hread

/-- Only the instance id may have come in. -/
def Cached (P : Platform) (s s' : Service) : Prop :=
  s' = s ∨ s.instanceId.length = 0 ∧ ∃ instanceId, attestCalcInstanceId P s = .ok instanceId ∧
    s' = { s with instanceId := instanceId }

section Cached

variable {P : Platform} {s s' : Service}

theorem Cached.refl (P : Platform) (s : Service) : Cached P s s := Or.inl rfl

theorem Cached.bootData (h : Cached P s s') : s'.bootData = s.bootData := by
  obtain rfl | ⟨-, instanceId, -, rfl⟩ := h <;> rfl

theorem Cached.keyHandle (h : Cached P s s') : s'.keyHandle = s.keyHandle := by
  obtain rfl | ⟨-, instanceId, -, rfl⟩ := h <;> rfl

theorem Cached.callerId (h : Cached P s s') : s'.callerId = s.callerId := by
  obtain rfl | ⟨-, instanceId, -, rfl⟩ := h <;> rfl

theorem calcInstanceId_ne_nil {instanceId : List UInt8}
    (h : attestCalcInstanceId P s = .ok instanceId) : instanceId.length ≠ 0 := by
  unfold attestCalcInstanceId at h
  split_ifs at h
  split at h
  · cases h
  · injection h with h
    simp [← h]

theorem Cached.instanceIdOf (h : Cached P s s') : instanceIdOf P s' = instanceIdOf P s := by
  obtain rfl | ⟨hnil, instanceId, hcalc, rfl⟩ := h
  · rfl
  · have hne := calcInstanceId_ne_nil hcalc
    simp [Attest.instanceIdOf, hnil, hne, hcalc]

theorem Cached.claimSpecs (h : Cached P s s') (es : List Entry) (challenge : List UInt8) :
    claimSpecs P es s' challenge = claimSpecs P es s challenge := by
  rw [Attest.claimSpecs, h.instanceIdOf, h.callerId]
  rfl

/-- These claims were added, or it failed with that error. -/
def Outcome (P : Platform) (storage : Option (List UInt8)) (s₀ : Service) (ctx : EncodeContext)
    (r : Option (Except PsaAttestErr EncodeContext × Service)) :
    Except PsaAttestErr (List Claim) → Prop
  | .error e => ∃ s', r = some (.error e, s') ∧ Cached P s₀ s'
  | .ok claims => ∃ cs s', r = some (.ok (ctx.run cs), s') ∧ Makes storage cs claims ∧
      Cached P s₀ s'

/-- The function does so at any time in this session. -/
def AddsTo (P : Platform) (storage : Option (List UInt8)) (s₀ : Service) (f : AddClaim)
    (spec : Except PsaAttestErr (List Claim)) : Prop :=
  ∀ s ctx, Cached P s₀ s → Outcome P storage s₀ ctx (f s ctx) spec

variable {storage : Option (List UInt8)}

theorem addsTo_nil (hs : Cached P s s') (ctx : EncodeContext) :
    ∃ cs s'', runClaims [] s' ctx = some (.ok (ctx.run cs), s'') ∧ Makes storage cs [] ∧
      Cached P s s'' :=
  ⟨[], s', rfl, Makes.nil storage, hs⟩

/-- The claims, or the error of the first one that cannot be had. -/
theorem runClaims_eq {fs : List AddClaim} {specs : List (Except PsaAttestErr (List Claim))}
    (h : List.Forall₂ (AddsTo P storage s) fs specs) :
    AddsTo P storage s (runClaims fs) (collect specs) := by
  induction h with
  | nil =>
    intro s' ctx hs
    exact addsTo_nil hs ctx
  | @cons f spec fs specs hf _ ih =>
    intro s' ctx hs
    have hone := hf s' ctx hs
    cases spec with
    | error e =>
      obtain ⟨s'', hrun, hcached⟩ := hone
      refine ⟨s'', ?_, hcached⟩
      simp [runClaims, hrun]
    | ok claims =>
      obtain ⟨cs, s'', hrun, hmakes, hcached⟩ := hone
      have hrest := ih s'' (ctx.run cs) hcached
      cases hcol : collect specs with
      | error e =>
        rw [hcol] at hrest
        obtain ⟨s₃, hrun₂, hcached₂⟩ := hrest
        simp only [collect, hcol, Except.map]
        refine ⟨s₃, ?_, hcached₂⟩
        simp [runClaims, hrun, hrun₂]
      | ok claims' =>
        rw [hcol] at hrest
        obtain ⟨cs', s₃, hrun₂, hmakes₂, hcached₂⟩ := hrest
        simp only [collect, hcol, Except.map]
        refine ⟨cs ++ cs', s₃, ?_, hmakes.append hmakes₂, hcached₂⟩
        simp [runClaims, hrun, hrun₂]

end Cached

/-! ### Each claim -/

section Claims

variable {P : Platform} {storage : Option (List UInt8)} {s₀ : Service} {es : List Entry}
  {rest : List UInt8}

theorem makes_bstr (label : Int) (hlabel : Fits64 label) {data : UsefulBufC}
    (hread : Readable storage data) :
    Makes storage [.addInt64 label, .addBuffer .byteString data] [⟨label, .bytes data.contents⟩] := by
  have hlen : data.contents.length = data.len := length_contents hread
  have hw := Writes.addBytes hlen
  rw [← hlen] at hw
  exact Makes.single hlabel hw (by decide) (readable_single hread)

theorem makes_tstr (label : Int) (hlabel : Fits64 label) {data : UsefulBufC}
    (hread : Readable storage data) :
    Makes storage [.addInt64 label, .addBuffer .textString data] [⟨label, .text data.contents⟩] := by
  have hlen : data.contents.length = data.len := length_contents hread
  have hw := Writes.addText hlen
  rw [← hlen] at hw
  exact Makes.single hlabel hw (by decide) (readable_single hread)

theorem makes_int (label : Int) {v : Int} (hlabel : Fits64 label) (hv : Fits64 v) :
    Makes storage [.addInt64 label, .addInt64 v] [⟨label, .int v⟩] :=
  Makes.single hlabel (writes_int hv) (by decide) (@readable_single storage (.addInt64 v) trivial)

/-- A claim of the general module, in the boot data. -/
theorem getTlvById_bootValue (rest : List UInt8) (storage : Option (List UInt8)) (claim : Nat)
    (hlen : sharedDataHeaderSize + (encode es).length < 2 ^ 16) :
    match bootValue es claim with
    | none => getTlvById (areaOf es rest) claim = some .notFound
    | some b => ∃ c ptr, getTlvById (areaOf es rest) claim = some (.found c b.length ptr) ∧
        (claimValueAt (areaOf es rest) b.length ptr).contents = b ∧
        Readable storage (claimValueAt (areaOf es rest) b.length ptr) := by
  have hfinds := findsClaim rest claim hlen
  unfold FindsClaim at hfinds
  unfold bootValue
  cases hfind : es.find? (ofClaim swGeneral claim) with
  | none =>
    rw [hfind] at hfinds
    exact hfinds
  | some e =>
    rw [hfind] at hfinds
    obtain ⟨es₁, es₂, -, -, hget, hslice⟩ := hfinds
    refine ⟨_, _, hget, hslice, ?_⟩
    have hle := congrArg List.length hslice
    rw [slice, List.length_take] at hle
    show e.data.length ≤ (List.drop _ _).length
    omega

theorem addsTo_challenge (challenge : UsefulBufC) (hread : Readable storage challenge) :
    AddsTo P storage s₀ (attestAddChallengeClaim challenge)
      (.ok [⟨eatCborArmLabelChallenge, .bytes challenge.contents⟩]) := by
  intro s ctx hs
  exact ⟨_, s, rfl, makes_bstr eatCborArmLabelChallenge (by decide) hread, hs⟩

theorem addsTo_bootSeed (hboot : s₀.bootData = areaOf es rest)
    (hlen : sharedDataHeaderSize + (encode es).length < 2 ^ 16)
    (hseed : ∀ b, P.bootSeed = some b → b.length = bootSeedSize) :
    AddsTo P storage s₀ (attestAddBootSeedClaim P)
      ((orPlatform (bootValue es bootSeedClaim) P.bootSeed).map fun b =>
        [⟨eatCborArmLabelBootSeed, .bytes b⟩]) := by
  intro s ctx hs
  have hget := getTlvById_bootValue rest storage bootSeedClaim hlen
  rw [← hboot, ← hs.bootData] at hget
  cases hv : bootValue es bootSeedClaim with
  | some b =>
    rw [hv] at hget
    obtain ⟨c, ptr, hget, hcontents, hread⟩ := hget
    have hmakes := makes_bstr eatCborArmLabelBootSeed (by decide) hread
    rw [hcontents] at hmakes
    refine ⟨_, s, ?_, hmakes, hs⟩
    simp [attestAddBootSeedClaim, hget, attestTokenEncodeAddBstr, EncodeContext.step]
  | none =>
    rw [hv] at hget
    cases hp : P.bootSeed with
    | none =>
      refine ⟨s, ?_, hs⟩
      simp [attestAddBootSeedClaim, hget, hp]
    | some b =>
      have hb := hseed b hp
      have hread : Readable storage ⟨some b, bootSeedSize⟩ := Nat.le_of_eq hb.symm
      have hcontents : UsefulBufC.contents ⟨some b, bootSeedSize⟩ = b := by
        rw [UsefulBufC.contents, ← hb]
        exact List.take_length
      have hmakes := makes_bstr eatCborArmLabelBootSeed (by decide) hread
      rw [hcontents] at hmakes
      refine ⟨_, s, ?_, hmakes, hs⟩
      simp [attestAddBootSeedClaim, hget, hp, attestTokenEncodeAddBstr, EncodeContext.step]

theorem addsTo_instanceId :
    AddsTo P storage s₀ (attestAddInstanceIdClaim P)
      ((instanceIdOf P s₀).map fun b => [⟨eatCborArmLabelUeid, .bytes b⟩]) := by
  intro s ctx hs
  rw [← hs.instanceIdOf]
  have hmakes : ∀ b, Makes storage [.addInt64 eatCborArmLabelUeid, .addBuffer .byteString (ofBytes b)]
      [⟨eatCborArmLabelUeid, .bytes b⟩] := by
    intro b
    have h := makes_bstr eatCborArmLabelUeid (by decide) (readable_ofBytes storage b)
    rwa [contents_ofBytes] at h
  unfold instanceIdOf
  by_cases hnil : s.instanceId.length = 0
  · cases hcalc : attestCalcInstanceId P s with
    | error e =>
      simp only [hnil, if_true, Except.map]
      refine ⟨s, ?_, hs⟩
      simp [attestAddInstanceIdClaim, attestGetInstanceId, hnil, hcalc]
    | ok b =>
      simp only [hnil, if_true, Except.map]
      refine ⟨_, { s with instanceId := b }, ?_, hmakes b, ?_⟩
      · simp [attestAddInstanceIdClaim, attestGetInstanceId, hnil, hcalc, attestTokenEncodeAddBstr,
          EncodeContext.step]
      · obtain rfl | ⟨-, b', hcalc', rfl⟩ := hs
        · exact Or.inr ⟨hnil, b, hcalc, rfl⟩
        · exact absurd hnil (calcInstanceId_ne_nil hcalc')
  · simp only [hnil, if_false, Except.map]
    refine ⟨_, s, ?_, hmakes s.instanceId, hs⟩
    simp [attestAddInstanceIdClaim, attestGetInstanceId, hnil, attestTokenEncodeAddBstr,
      EncodeContext.step]

theorem addsTo_implementationId :
    AddsTo P storage s₀ (attestAddImplementationIdClaim P)
      ((orPlatform none P.implementationId).map fun b =>
        [⟨eatCborArmLabelImplementationId, .bytes b⟩]) := by
  intro s ctx hs
  cases hp : P.implementationId with
  | none =>
    refine ⟨s, ?_, hs⟩
    simp [attestAddImplementationIdClaim, hp]
  | some b =>
    have hmakes := makes_bstr eatCborArmLabelImplementationId (by decide)
      (readable_ofBytes storage b)
    rw [contents_ofBytes] at hmakes
    refine ⟨_, s, ?_, hmakes, hs⟩
    simp [attestAddImplementationIdClaim, hp, attestTokenEncodeAddBstr, EncodeContext.step]

theorem addsTo_callerId (hcaller : Fits64 s₀.callerId) :
    AddsTo P storage s₀ attestAddCallerIdClaim
      (.ok [⟨eatCborArmLabelClientId, .int s₀.callerId⟩]) := by
  intro s ctx hs
  refine ⟨_, s, ?_, makes_int eatCborArmLabelClientId (by decide) hcaller, hs⟩
  simp [attestAddCallerIdClaim, attestTokenEncodeAddInteger, EncodeContext.step, hs.callerId]

/-- The check, whatever the value comes from. -/
theorem addSecurityLifecycle_eq (v : Nat) (s : Service) (ctx : EncodeContext)
    (hs : Cached P s₀ s) :
    Outcome P storage s₀ ctx (addSecurityLifecycle v s ctx)
      ((if v > tfmSlcMaxValue then Except.error PsaAttestErr.general else .ok v).map
        fun v : Nat => [⟨eatCborArmLabelSecurityLifecycle, .int v⟩]) := by
  unfold addSecurityLifecycle
  by_cases hv : v > tfmSlcMaxValue
  · simp only [if_pos hv, Except.map]
    exact ⟨s, rfl, hs⟩
  · have hfits : Fits64 (v : Int) := by
      have hmax : tfmSlcMaxValue = 24831 := rfl
      constructor <;> omega
    simp only [if_neg hv, Except.map]
    refine ⟨_, s, ?_, makes_int eatCborArmLabelSecurityLifecycle (by decide) hfits, hs⟩
    simp [attestTokenEncodeAddInteger, EncodeContext.step]

theorem getUint_eq {data : UsefulBufC} {b : List UInt8} (hlen : data.len = b.length)
    (h : data.contents = b) : getUint data = getUint (ofBytes b) := by
  rw [getUint, getUint, contents_ofBytes, h, hlen]
  rfl

theorem addsTo_securityLifecycle (hboot : s₀.bootData = areaOf es rest)
    (hlen : sharedDataHeaderSize + (encode es).length < 2 ^ 16) :
    AddsTo P storage s₀ (attestAddSecurityLifecycleClaim P)
      ((lifecycleOf P es).map fun v : Nat => [⟨eatCborArmLabelSecurityLifecycle, .int v⟩]) := by
  intro s ctx hs
  have hget := getTlvById_bootValue rest storage securityLifecycleClaim hlen
  rw [← hboot, ← hs.bootData] at hget
  unfold lifecycleOf attestAddSecurityLifecycleClaim
  cases hv : bootValue es securityLifecycleClaim with
  | none =>
    rw [hv] at hget
    simp only [hget]
    exact addSecurityLifecycle_eq P.securityLifecycle s ctx hs
  | some b =>
    rw [hv] at hget
    obtain ⟨c, ptr, hget, hcontents, -⟩ := hget
    simp only [hget, getUint_eq rfl hcontents]
    cases hu : getUint (ofBytes b) with
    | none => exact ⟨s, rfl, hs⟩
    | some v => exact addSecurityLifecycle_eq v s ctx hs

def rawCall (encoded : List UInt8) : Tfm.L3.Qcbor.Call := .addBuffer .raw (ofBytes encoded)

theorem writes_raws : ∀ cs : List (List UInt8),
    Writes 0 cs.length cs.flatten (cs.map rawCall)
  | [] => Writes.nil
  | c :: cs => by
    have hone := Writes.addRaw (ofBytes c)
    rw [contents_ofBytes] at hone
    rw [List.length_cons, Nat.add_comm]
    exact hone.append (writes_raws cs)

theorem callsOfCbor_components (c : List UInt8) (cs : List (List UInt8)) :
    (tokenOf (c :: cs)).flatMap callsOfCbor = .addInt64 eatCborArmLabelSwComponents ::
      (.openMapOrArray .array :: ((c :: cs).map rawCall ++ [.closeMapOrArray .array])) := by
  have hraws : ∀ xs : List (List UInt8),
      (xs.map Cbor.addEncoded).flatMap callsOfCbor = xs.map rawCall := by
    intro xs
    rw [List.flatMap_map]
    exact (List.map_eq_flatMap ..).symm
  rw [tokenOf, List.flatMap_cons, List.flatMap_append, hraws]
  rfl

theorem addsTo_swComponents (hboot : s₀.bootData = areaOf es rest)
    (hlen : sharedDataHeaderSize + (encode es).length < 2 ^ 16) :
    AddsTo P storage s₀ attestAddAllSwComponents (.ok [componentsClaim es]) := by
  intro s ctx hs
  have hadd := addAllSwComponents_eq rest hlen
  have hcount : ((List.range swMax).filterMap (firstOf es)).length < qcborMaxItemsInArray := by
    have hle := List.length_filterMap_le (firstOf es) (List.range swMax)
    rw [List.length_range] at hle
    exact Nat.lt_of_le_of_lt hle (by decide)
  have hmakes : Makes storage
      ((tokenOf ((List.range swMax).filterMap (firstOf es))).flatMap callsOfCbor)
      [componentsClaim es] := by
    unfold componentsClaim
    cases hcs : (List.range swMax).filterMap (firstOf es) with
    | nil => exact makes_int eatCborArmLabelNoSwComponents (by decide) (by decide)
    | cons c cs =>
      rw [hcs] at hcount
      rw [callsOfCbor_components]
      apply Makes.single (by decide) ((writes_raws (c :: cs)).array hcount) (by decide)
      apply readable_level
      intro call hcall
      obtain ⟨b, -, rfl⟩ := List.mem_map.1 hcall
      exact readable_ofBytes storage b
  refine ⟨_, s, ?_, hmakes, hs⟩
  rw [attestAddAllSwComponents, hs.bootData, hboot, hadd]

theorem addsTo_halString {label : Int} (hlabel : Fits64 label) (string : Option (List UInt8)) :
    AddsTo P storage s₀ (addHalString label string) (.ok (halString label string)) := by
  intro s ctx hs
  cases string with
  | none => exact ⟨[], s, rfl, Makes.nil storage, hs⟩
  | some b =>
    have hmakes := makes_tstr label hlabel (readable_ofBytes storage b)
    rw [contents_ofBytes] at hmakes
    exact ⟨_, s, rfl, hmakes, hs⟩

theorem addsTo_hwVersion (hboot : s₀.bootData = areaOf es rest)
    (hlen : sharedDataHeaderSize + (encode es).length < 2 ^ 16) :
    AddsTo P storage s₀ (attestAddHwVersionClaim P)
      ((orPlatform (bootValue es hwVersionClaim) P.hwVersion).map fun b =>
        [⟨eatCborArmLabelHwVersion, .text b⟩]) := by
  intro s ctx hs
  have hget := getTlvById_bootValue rest storage hwVersionClaim hlen
  rw [← hboot, ← hs.bootData] at hget
  cases hv : bootValue es hwVersionClaim with
  | some b =>
    rw [hv] at hget
    obtain ⟨c, ptr, hget, hcontents, hread⟩ := hget
    have hmakes := makes_tstr eatCborArmLabelHwVersion (by decide) hread
    rw [hcontents] at hmakes
    refine ⟨_, s, ?_, hmakes, hs⟩
    simp [attestAddHwVersionClaim, hget, attestTokenEncodeAddTstr, EncodeContext.step]
  | none =>
    rw [hv] at hget
    cases hp : P.hwVersion with
    | none =>
      refine ⟨s, ?_, hs⟩
      simp [attestAddHwVersionClaim, hget, hp]
    | some b =>
      have hmakes := makes_tstr eatCborArmLabelHwVersion (by decide) (readable_ofBytes storage b)
      rw [contents_ofBytes] at hmakes
      refine ⟨_, s, ?_, hmakes, hs⟩
      simp [attestAddHwVersionClaim, hget, hp, attestTokenEncodeAddTstr, EncodeContext.step]

/-- What the boot data and the callers promise. -/
structure Session (P : Platform) (s : Service) (es : List Entry) (rest : List UInt8) : Prop where
  boot : s.bootData = areaOf es rest
  short : sharedDataHeaderSize + (encode es).length < 2 ^ 16
  seed : ∀ b, P.bootSeed = some b → b.length = bootSeedSize
  caller : Fits64 s.callerId

theorem addsTo_all (h : Session P s₀ es rest) {challenge : UsefulBufC}
    (hread : Readable storage challenge) :
    List.Forall₂ (AddsTo P storage s₀) (allClaims P challenge)
      (claimSpecs P es s₀ challenge.contents) := by
  unfold allClaims claimSpecs
  apply List.rel_append
  · refine .cons (addsTo_challenge challenge hread) (.cons (addsTo_bootSeed h.boot h.short h.seed)
      (.cons addsTo_instanceId (.cons addsTo_implementationId (.cons (addsTo_callerId h.caller)
      (.cons (addsTo_securityLifecycle h.boot h.short)
      (.cons (addsTo_swComponents h.boot h.short) .nil))))))
  · split_ifs
    · exact .cons (addsTo_halString (by decide) _) (.cons (addsTo_halString (by decide) _)
        (.cons (addsTo_hwVersion h.boot h.short) .nil))
    · exact .nil

theorem runClaims_all (h : Session P s₀ es rest) {challenge : UsefulBufC}
    (hread : Readable storage challenge) (ctx : EncodeContext) :
    Outcome P storage s₀ ctx (runClaims (allClaims P challenge) s₀ ctx)
      (claimsOf P es s₀ challenge.contents) :=
  runClaims_eq (addsTo_all h hread) s₀ ctx (Cached.refl P s₀)

theorem length_collect : ∀ {specs : List (Except PsaAttestErr (List Claim))} {claims : List Claim},
    (∀ spec ∈ specs, ∀ cl, spec = .ok cl → cl.length ≤ 1) → collect specs = .ok claims →
      claims.length ≤ specs.length
  | [], claims, _, h => by
    injection h with h
    simp [← h]
  | .error e :: specs, claims, _, h => by cases h
  | .ok cl :: specs, claims, hone, h => by
    cases hcol : collect specs with
    | error e =>
      rw [collect, hcol] at h
      cases h
    | ok claims' =>
      rw [collect, hcol] at h
      injection h with h
      have hcl := hone _ List.mem_cons_self cl rfl
      have hrest := length_collect (fun spec hs => hone spec (List.mem_cons_of_mem _ hs)) hcol
      rw [← h, List.length_append, List.length_cons]
      omega

theorem length_map_single {α : Type} {x : Except PsaAttestErr α} {f : α → Claim} {cl : List Claim}
    (h : (x.map fun a => [f a]) = .ok cl) : cl.length ≤ 1 := by
  cases x with
  | error e => cases h
  | ok a =>
    injection h with h
    simp [← h]

theorem length_halString (label : Int) (string : Option (List UInt8)) :
    (halString label string).length ≤ 1 := by
  cases string <;> simp [halString]

theorem claimSpecs_single {challenge : List UInt8} {spec : Except PsaAttestErr (List Claim)}
    (hspec : spec ∈ claimSpecs P es s₀ challenge) {cl : List Claim} (hcl : spec = .ok cl) :
    cl.length ≤ 1 := by
  subst hcl
  unfold claimSpecs at hspec
  rw [List.mem_append] at hspec
  obtain hspec | hspec := hspec
  · simp only [List.mem_cons, List.not_mem_nil, or_false] at hspec
    obtain h | h | h | h | h | h | h := hspec
    · injection h with h
      simp [h]
    · exact length_map_single h.symm
    · exact length_map_single h.symm
    · exact length_map_single h.symm
    · injection h with h
      simp [h]
    · exact length_map_single h.symm
    · injection h with h
      simp [h]
  · split_ifs at hspec
    · simp only [List.mem_cons, List.not_mem_nil, or_false] at hspec
      obtain h | h | h := hspec
      · injection h with h
        rw [h]
        exact length_halString _ _
      · injection h with h
        rw [h]
        exact length_halString _ _
      · exact length_map_single h.symm
    · cases hspec

/-- There are ten claims at most. -/
theorem length_claims {challenge : List UInt8} {claims : List Claim}
    (h : claimsOf P es s₀ challenge = .ok claims) : claims.length ≤ 10 := by
  have hle := length_collect (fun spec hspec cl hcl => claimSpecs_single hspec hcl) h
  have hspecs : (claimSpecs P es s₀ challenge).length ≤ 10 := by
    unfold claimSpecs
    split_ifs <;> simp
  omega

end Claims

/-! ## The token is made -/

/-- What becomes of the payload. -/
def tokenResult (P : Platform) (keyHandle : Nat) (storage : Option (List UInt8)) (cap : Nat)
    (payload : List UInt8) : Except PsaAttestErr UsefulBufC :=
  if cap < (tagBytes false ++ membersFront nullUsefulBufC payload).length then
    .error .bufferOverflow
  else
    match signatureOf P.crypto keyHandle storage payload with
    | .error e => .error (errorMappingToPsaAttestErrT (tCoseErrToAttestErr e))
    | .ok signature =>
      let message := Tfm.Cbor.encode (sign1Item false nullUsefulBufC payload signature.contents)
      if cap < message.length then .error .bufferOverflow else .ok (resultOf storage message)

/-- The key store and the crypto library keep to their documentation. -/
structure Crypto.Sound (crypto : Crypto) : Prop where
  concat : crypto.Concat
  keyBits : ∀ key n, crypto.keyBits key = .ok n → n ≤ 0xfff8
  signature : ∀ key alg hash n b, crypto.signHash key alg hash n = .ok b → b.length ≤ n

/-- A signature is short, and so is what stands for it. -/
theorem length_signature {crypto : Crypto} (h : Crypto.Sound crypto) {key : Nat}
    {storage : Option (List UInt8)} {payload : List UInt8} {signature : UsefulBufC}
    (hsig : signatureOf crypto key storage payload = .ok signature) :
    signature.contents.length ≤ 2 ^ 15 := by
  have hread := readable_signature hsig
  rw [length_contents hread]
  unfold signatureOf at hsig
  cases storage with
  | none =>
    obtain ⟨len, hlen, rfl⟩ := exists_of_map_ok hsig
    obtain ⟨bits, hbits, rfl⟩ := keyBits_of_sigSize hlen
    have hle := h.keyBits key bits hbits
    show 2 * ((bits + 7) / 8) ≤ _
    omega
  | some mem =>
    simp only at hsig
    split at hsig
    · cases hsig
    · obtain ⟨b, hb, rfl⟩ := exists_of_map_ok hsig
      have hle := h.signature _ _ _ _ _ (signHash_of_sign hb)
      have hmax : tCoseMaxSigSize = 64 := rfl
      show b.length ≤ _
      omega

/-- What comes with the payload is short. -/
theorem length_message (payload signature : List UInt8) :
    (Tfm.Cbor.encode (sign1Item false nullUsefulBufC payload signature)).length ≤
      payload.length + signature.length + 32 := by
  have hpay := Tfm.Cbor.length_head_le 2 payload.length
  have hsig := Tfm.Cbor.length_head_le 2 signature.length
  have htag : (tagBytes false).length = 1 := rfl
  have harray : (head 4 4).length = 1 := rfl
  have hprot : (head 2 3 ++ protectedBytes).length = 4 := rfl
  have hunprot : (Tfm.Cbor.encode (unprotectedItem nullUsefulBufC)).length = 1 := rfl
  rw [encode_sign1Item, membersFront]
  simp only [List.length_append] at hprot ⊢
  omega

/-! ### The payload is short -/

/-- What the platform says is short. -/
structure Platform.Sound (P : Platform) : Prop where
  crypto : Crypto.Sound P.crypto
  bootSeed : ∀ b, P.bootSeed = some b → b.length = bootSeedSize
  exportPublicKey : ∀ key b, P.exportPublicKey key = some b → b.length < 2 ^ 16
  hash : ∀ alg parts n b, P.crypto.hash alg parts n = .ok b → b.length ≤ n
  implementationId : ∀ b, P.implementationId = some b → b.length < 2 ^ 16
  verificationService : ∀ b, P.verificationService = some b → b.length < 2 ^ 16
  profileDefinition : ∀ b, P.profileDefinition = some b → b.length < 2 ^ 16
  hwVersion : ∀ b, P.hwVersion = some b → b.length < 2 ^ 16

section Short

variable {P : Platform} {s : Service} {es : List Entry} {rest challenge : List UInt8}

/-- The bytes of a value, whatever kind it is of. -/
def ClaimValue.Short : ClaimValue → Prop
  | .bytes b => b.length < 2 ^ 16
  | .text b => b.length < 2 ^ 16
  | .int _ => True
  | .components cs => cs.flatten.length < 2 ^ 20

theorem length_intHead_le (v : Int) : (intHead v).length ≤ 9 := by
  unfold intHead
  split_ifs
  · exact Tfm.Cbor.length_head_le 1 _
  · exact Tfm.Cbor.length_head_le 0 _

theorem length_claim_le {c : Claim} (h : c.value.Short) : c.encoded.length ≤ 2 ^ 20 + 18 := by
  have hlabel := length_intHead_le c.label
  rw [Claim.encoded, List.length_append]
  cases hv : c.value with
  | bytes b =>
    rw [hv] at h
    have hhead := Tfm.Cbor.length_head_le 2 b.length
    have hb : b.length < 2 ^ 16 := h
    rw [ClaimValue.encoded, List.length_append]
    omega
  | text b =>
    rw [hv] at h
    have hhead := Tfm.Cbor.length_head_le 3 b.length
    have hb : b.length < 2 ^ 16 := h
    rw [ClaimValue.encoded, List.length_append]
    omega
  | int v =>
    have hhead := length_intHead_le v
    rw [ClaimValue.encoded]
    omega
  | components cs =>
    rw [hv] at h
    have hhead := Tfm.Cbor.length_head_le 4 cs.length
    have hb : cs.flatten.length < 2 ^ 20 := h
    rw [ClaimValue.encoded, List.length_append]
    omega

theorem length_flatMap_le {claims : List Claim} (h : ∀ c ∈ claims, c.value.Short) :
    (claims.flatMap Claim.encoded).length ≤ claims.length * (2 ^ 20 + 18) := by
  induction claims with
  | nil => exact Nat.zero_le _
  | cons c claims ih =>
    have hone := length_claim_le (h c List.mem_cons_self)
    have hrest := ih fun c' hc => h c' (List.mem_cons_of_mem _ hc)
    rw [List.flatMap_cons, List.length_append, List.length_cons, Nat.succ_mul]
    omega

theorem mem_collect : ∀ {specs : List (Except PsaAttestErr (List Claim))} {claims : List Claim}
    {c : Claim}, collect specs = .ok claims → c ∈ claims → ∃ cl, .ok cl ∈ specs ∧ c ∈ cl
  | [], claims, c, h, hc => by
    injection h with h
    rw [← h] at hc
    cases hc
  | .error e :: specs, claims, c, h, hc => by cases h
  | .ok cl :: specs, claims, c, h, hc => by
    cases hcol : collect specs with
    | error e =>
      rw [collect, hcol] at h
      cases h
    | ok claims' =>
      rw [collect, hcol] at h
      injection h with h
      rw [← h, List.mem_append] at hc
      obtain hc | hc := hc
      · exact ⟨cl, List.mem_cons_self, hc⟩
      · obtain ⟨cl', hmem, hc'⟩ := mem_collect hcol hc
        exact ⟨cl', List.mem_cons_of_mem _ hmem, hc'⟩

theorem length_bootValue {claim : Nat} {b : List UInt8} (hshort : Short es)
    (h : bootValue es claim = some b) : b.length < 2 ^ 16 := by
  obtain ⟨e, hfind, rfl⟩ := Option.map_eq_some_iff.1 h
  exact hshort e (List.mem_of_find?_eq_some hfind)

theorem length_orPlatform {value platform : Option (List UInt8)} {b : List UInt8} {n : Nat}
    (hv : ∀ b, value = some b → b.length < n) (hp : ∀ b, platform = some b → b.length < n)
    (h : orPlatform value platform = .ok b) : b.length < n := by
  cases value with
  | some v =>
    injection h with h
    exact h ▸ hv v rfl
  | none =>
    cases platform with
    | none => cases h
    | some v =>
      injection h with h
      exact h ▸ hp v rfl

theorem length_components (hshort : Short es) :
    ∀ ms : List Nat, (ms.filterMap (firstOf es)).flatten.length ≤ ms.length * 2 ^ 16
  | [] => Nat.zero_le _
  | m :: ms => by
    have hrest := length_components hshort ms
    have hcons : (m :: ms).length * 2 ^ 16 = ms.length * 2 ^ 16 + 2 ^ 16 := by
      rw [List.length_cons, Nat.succ_mul]
    rw [List.filterMap_cons, hcons]
    cases hfirst : firstOf es m with
    | none => exact Nat.le_trans hrest (Nat.le_add_right _ _)
    | some b =>
      obtain ⟨e, hfind, rfl⟩ := Option.map_eq_some_iff.1 hfirst
      have hone := hshort e (List.mem_of_find?_eq_some hfind)
      rw [List.flatten_cons, List.length_append]
      omega

theorem short_componentsClaim (hshort : Short es) : (componentsClaim es).value.Short := by
  have hle := length_components hshort (List.range swMax)
  unfold componentsClaim
  cases hcs : (List.range swMax).filterMap (firstOf es) with
  | nil => trivial
  | cons c cs =>
    rw [hcs, List.length_range] at hle
    have hmax : swMax = 7 := rfl
    show (c :: cs).flatten.length < 2 ^ 20
    omega

/-- A short value in one claim. -/
theorem short_map {α : Type} {x : Except PsaAttestErr α} {label : Int} {f : α → ClaimValue}
    (hx : ∀ a, x = .ok a → (f a).Short) {cl : List Claim} {c : Claim}
    (h : (x.map fun a => [⟨label, f a⟩]) = .ok cl) (hc : c ∈ cl) : c.value.Short := by
  cases x with
  | error e => cases h
  | ok a =>
    injection h with h
    rw [← h, List.mem_singleton] at hc
    rw [hc]
    exact hx a rfl

theorem short_halString {label : Int} {string : Option (List UInt8)}
    (hs : ∀ b, string = some b → b.length < 2 ^ 16) {c : Claim}
    (hc : c ∈ halString label string) : c.value.Short := by
  cases string with
  | none => cases hc
  | some b =>
    rw [halString, List.mem_singleton] at hc
    rw [hc]
    exact hs b rfl

theorem length_calcInstanceId (hP : Platform.Sound P) {b : List UInt8}
    (h : attestCalcInstanceId P s = .ok b) : b.length < 2 ^ 16 := by
  unfold attestCalcInstanceId at h
  split_ifs at h
  split at h
  · cases h
  · next digest hd =>
    injection h with h
    have hle := hP.hash _ _ _ _ hd
    have hmax : instanceIdMaxSize = 33 := rfl
    rw [← h, List.length_cons]
    omega

theorem length_instanceIdOf (hP : Platform.Sound P) (hid : s.instanceId.length < 2 ^ 16)
    {b : List UInt8} (h : instanceIdOf P s = .ok b) : b.length < 2 ^ 16 := by
  unfold instanceIdOf at h
  split_ifs at h
  · split at h
    · cases h
    · next b' hcalc =>
      injection h with h
      exact h ▸ length_calcInstanceId hP hcalc
  · injection h with h
    exact h ▸ hid

/-- No claim is long. -/
theorem short_claims (hP : Platform.Sound P) (hshort : Short es)
    (hid : s.instanceId.length < 2 ^ 16) (hch : challenge.length < 2 ^ 16) {claims : List Claim}
    (h : claimsOf P es s challenge = .ok claims) : ∀ c ∈ claims, c.value.Short := by
  intro c hc
  obtain ⟨cl, hmem, hc⟩ := mem_collect h hc
  have hboot : ∀ claim b, bootValue es claim = some b → b.length < 2 ^ 16 :=
    fun claim b => length_bootValue hshort
  have hseed : ∀ b, P.bootSeed = some b → b.length < 2 ^ 16 := by
    intro b hb
    rw [hP.bootSeed b hb]
    have hmax : bootSeedSize = 32 := rfl
    omega
  unfold claimSpecs at hmem
  rw [List.mem_append] at hmem
  obtain hmem | hmem := hmem
  · simp only [List.mem_cons, List.not_mem_nil, or_false] at hmem
    obtain h | h | h | h | h | h | h := hmem
    · injection h with h
      rw [h, List.mem_singleton] at hc
      rw [hc]
      exact hch
    · exact short_map (f := .bytes) (fun b hb => length_orPlatform (hboot _) hseed hb) h.symm hc
    · exact short_map (f := .bytes) (fun b hb => length_instanceIdOf hP hid hb) h.symm hc
    · exact short_map (f := .bytes) (fun b hb => length_orPlatform
        (by intro b h; cases h) hP.implementationId hb) h.symm hc
    · injection h with h
      rw [h, List.mem_singleton] at hc
      rw [hc]
      trivial
    · exact short_map (f := fun v : Nat => .int v) (fun v _ => trivial) h.symm hc
    · injection h with h
      rw [h, List.mem_singleton] at hc
      rw [hc]
      exact short_componentsClaim hshort
  · split_ifs at hmem
    · simp only [List.mem_cons, List.not_mem_nil, or_false] at hmem
      obtain h | h | h := hmem
      · injection h with h
        rw [h] at hc
        exact short_halString hP.verificationService hc
      · injection h with h
        rw [h] at hc
        exact short_halString hP.profileDefinition hc
      · exact short_map (f := .text) (fun b hb => length_orPlatform (hboot _) hP.hwVersion hb) h.symm hc
    · cases hmem

/-- So it fits into a message of four gigabytes. -/
theorem length_payload (hP : Platform.Sound P) (hshort : Short es)
    (hid : s.instanceId.length < 2 ^ 16) (hch : challenge.length < 2 ^ 16) {claims : List Claim}
    (h : claimsOf P es s challenge = .ok claims) : (payloadOf claims).length < 2 ^ 24 := by
  have hten := length_claims h
  have hbytes := length_flatMap_le (short_claims hP hshort hid hch h)
  have hhead := Tfm.Cbor.length_head_le 5 claims.length
  rw [payloadOf, List.length_append]
  omega

end Short

/-! ### The token is finished -/

section Token

variable {P : Platform} {s : Service} {es : List Entry} {rest : List UInt8}
  {storage : Option (List UInt8)} {cap : Nat}

/-- The calls of the encoder, up to the claims. -/
def startCalls : List Tfm.L3.Qcbor.Call :=
  tagCalls false ++ (.openMapOrArray .array :: (frontCalls nullUsefulBufC ++ [.openMapOrArray .map]))

/-- The context of the signature, when the parameters are written. -/
def signCtx (s : Service) : Sign1SignCtx :=
  { tCoseSign1SignInit false false coseAlgorithmEs256 s.keyHandle nullUsefulBufC with
    protectedParameters := protectedParametersOf }

theorem attestTokenEncodeStart_eq (hkey : s.keyHandle ≠ attestKeyHandleNotLoaded)
    (storage : Option (List UInt8)) (cap : Nat) :
    attestTokenEncodeStart s storage cap =
      .ok (signCtx s, (encodeInit storage cap).run startCalls) := by
  have hparams := encodeParameters_eq
    (tCoseSign1SignInit false false coseAlgorithmEs256 s.keyHandle nullUsefulBufC) rfl rfl
    (encodeInit storage cap)
  unfold attestTokenEncodeStart
  rw [if_neg hkey, hparams]
  simp [startCalls, signCtx, EncodeContext.step, tCoseSign1SignInit]

/-- The calls that make the payload. -/
def mapCalls (cs : List Tfm.L3.Qcbor.Call) : List Tfm.L3.Qcbor.Call :=
  .openMapOrArray .map :: (cs ++ [.closeMapOrArray .map])

theorem writes_payload {cs : List Tfm.L3.Qcbor.Call} {claims : List Claim}
    (hmakes : Makes storage cs claims) (hten : claims.length ≤ 10) :
    Writes 2 1 (payloadOf claims) (mapCalls cs) := by
  have hmax : qcborMaxItemsInArray = 65534 := rfl
  exact hmakes.writes.map (by omega)

/-- The encoder's side of the signature. -/
theorem encodeSignature_payload (hP : Platform.Sound P)
    (hs : ∀ mem, storage = some mem → mem.length = cap) {cs : List Tfm.L3.Qcbor.Call}
    {claims : List Claim} (hmakes : Makes storage cs claims) (hten : claims.length ≤ 10)
    (hlen : (payloadOf claims).length < 2 ^ 24) :
    tCoseSign1EncodeSignature P.crypto (signCtx s)
        ((encodeInit storage cap).run (tagCalls false ++ (.openMapOrArray .array ::
          (frontCalls nullUsefulBufC ++ mapCalls cs)))) =
      if cap < (tagBytes false ++ membersFront nullUsefulBufC (payloadOf claims)).length then
        .error .tooSmall
      else (signatureOf P.crypto s.keyHandle storage (payloadOf claims)).map fun signature =>
        (encodeInit storage cap).run
          (messageCalls false nullUsefulBufC (mapCalls cs) signature) := by
  have hbig : qcborMaxArrayOffset = 2 ^ 32 - 1 - 100 := rfl
  have hmessage := length_message (payloadOf claims) []
  have hfront := length_front_le false nullUsefulBufC (payloadOf claims) []
  have hoff : (tagBytes false ++ membersFront nullUsefulBufC (payloadOf claims)).length <
      qcborMaxArrayOffset := by
    simp only [List.length_nil] at hmessage
    omega
  exact encodeSignature_eq hP.crypto.concat (signCtx s) rfl rfl rfl hs (Or.inl rfl)
    (readable_level .map hmakes.readable) (by decide) (by decide) (writes_payload hmakes hten) hoff

/-- The encoder's side of the end. -/
theorem finish_message (hP : Platform.Sound P)
    (hs : ∀ mem, storage = some mem → mem.length = cap) {cs : List Tfm.L3.Qcbor.Call}
    {claims : List Claim} (hmakes : Makes storage cs claims) (hten : claims.length ≤ 10)
    (hlen : (payloadOf claims).length < 2 ^ 24) {signature : UsefulBufC}
    (hsig : signatureOf P.crypto s.keyHandle storage (payloadOf claims) = .ok signature) :
    ((encodeInit storage cap).run
        (messageCalls false nullUsefulBufC (mapCalls cs) signature)).finish =
      if cap < (Tfm.Cbor.encode
          (sign1Item false nullUsefulBufC (payloadOf claims) signature.contents)).length then
        (.bufferTooSmall, none)
      else (.success, some (resultOf storage (Tfm.Cbor.encode
        (sign1Item false nullUsefulBufC (payloadOf claims) signature.contents)))) := by
  have hbig : qcborMaxArrayOffset = 2 ^ 32 - 1 - 100 := rfl
  have hshort := length_signature hP.crypto hsig
  have hmessage := length_message (payloadOf claims) signature.contents
  have hread := readable_signature hsig
  have hnull : Readable storage nullUsefulBufC := Or.inl rfl
  exact (writes_message false hnull (by decide) (writes_payload hmakes hten) hread).finish (by decide)
    (by omega) storage cap hs
    (readable_message false hnull (readable_level .map hmakes.readable) hread)

/-- From the claims to the token. -/
theorem attestTokenEncodeFinish_eq (hP : Platform.Sound P)
    (hs : ∀ mem, storage = some mem → mem.length = cap) {cs : List Tfm.L3.Qcbor.Call}
    {claims : List Claim} (hmakes : Makes storage cs claims) (hten : claims.length ≤ 10)
    (hlen : (payloadOf claims).length < 2 ^ 24) :
    (attestTokenEncodeFinish P (signCtx s)
        (((encodeInit storage cap).run startCalls).run cs)).mapError errorMappingToPsaAttestErrT =
      tokenResult P s.keyHandle storage cap (payloadOf claims) := by
  have hrun : ((((encodeInit storage cap).run startCalls).run cs).closeMapOrArray .map).1 =
      (encodeInit storage cap).run (tagCalls false ++ (.openMapOrArray .array ::
        (frontCalls nullUsefulBufC ++ mapCalls cs))) := by
    simp [startCalls, mapCalls, EncodeContext.step]
  unfold attestTokenEncodeFinish tokenResult
  rw [hrun, encodeSignature_payload hP hs hmakes hten hlen]
  split_ifs with hcap
  · rfl
  · cases hsig : signatureOf P.crypto s.keyHandle storage (payloadOf claims) with
    | error e => rfl
    | ok signature =>
      simp only [Except.map, finish_message hP hs hmakes hten hlen hsig]
      split_ifs <;> rfl

/-- The error of a claim, or what becomes of the payload. -/
def tokenOutcome (P : Platform) (es : List Entry) (s : Service) (challenge : List UInt8)
    (storage : Option (List UInt8)) (cap : Nat) : Except PsaAttestErr UsefulBufC :=
  if s.keyHandle = attestKeyHandleNotLoaded then .error .general
  else
    match claimsOf P es s challenge with
    | .error e => .error e
    | .ok claims => tokenResult P s.keyHandle storage cap (payloadOf claims)

theorem tokenBody_eq (hP : Platform.Sound P) (h : Session P s es rest)
    (hid : s.instanceId.length < 2 ^ 16) {challenge : UsefulBufC}
    (hread : Readable storage challenge) (hch : challenge.len < 2 ^ 16)
    (hs : ∀ mem, storage = some mem → mem.length = cap) :
    ∃ s', tokenBody P s challenge storage cap =
      some (tokenOutcome P es s challenge.contents storage cap, s') ∧ Cached P s s' := by
  unfold tokenBody tokenOutcome
  by_cases hkey : s.keyHandle = attestKeyHandleNotLoaded
  · refine ⟨s, ?_, Cached.refl P s⟩
    rw [attestTokenEncodeStart, if_pos hkey, if_pos hkey]
    rfl
  · rw [attestTokenEncodeStart_eq hkey, if_neg hkey]
    have hout := runClaims_all h hread ((encodeInit storage cap).run startCalls)
    cases hclaims : claimsOf P es s challenge.contents with
    | error e =>
      rw [hclaims] at hout
      obtain ⟨s', hrun, hcached⟩ := hout
      exact ⟨s', by simp only [hrun], hcached⟩
    | ok claims =>
      rw [hclaims] at hout
      obtain ⟨cs, s', hrun, hmakes, hcached⟩ := hout
      refine ⟨s', ?_, hcached⟩
      have hlen := length_payload hP (short_of_length (by have := h.short; omega)) hid
        (by rwa [length_contents hread]) hclaims
      have hfin := attestTokenEncodeFinish_eq (s := s) hP hs hmakes (length_claims hclaims) hlen
      simp only [hrun]
      rw [← hfin]
      cases attestTokenEncodeFinish P (signCtx s)
        (((encodeInit storage cap).run startCalls).run cs) <;> rfl

end Token

end Tfm.L4.Attest
