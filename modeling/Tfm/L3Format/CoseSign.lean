import Tfm.L3Format.QcborTree

/-!
# Signing a message (`lib/ext/t_cose`)

A `COSE_Sign1` message is an array of the protected parameters, the unprotected parameters, the
payload and a signature. The caller writes the payload straight into the message; what is signed
is the hash of another structure, of the protected parameters and the payload, which is never put
together in memory: its first part is encoded with an empty payload whose byte is left out, and
the payload is hashed out of the message.

Without storage the signature is not made, only its size is asked for.

The model is of the release build for elliptic curves: one algorithm, no short-circuit signatures
and no content type. `Crypto` stands for the PSA functions.

Results:
* `createTbsHash_wrapped`, `createTbsHash_bare`: both ways of hashing are of the `Sig_structure`.
* `encodeSignature_eq`: what is signed is the payload in the message.
* `sign1_eq`: the message, or the error, for any payload and any buffer.
-/
namespace Tfm.L3.Cose
open Tfm.Cbor Tfm.L3.Qcbor

/-! ## The crypto library -/

/-- The status codes of PSA the adapter tells apart. -/
inductive PsaErr
  | invalidSignature
  | notSupported
  | insufficientMemory
  | tamperingDetected
  | bufferTooSmall
  | other (status : Int)
  deriving DecidableEq, Repr

inductive PsaAlg
  | ecdsaSha256
  | sha256
  /-- The value 0, and `UINT16_MAX`: no algorithm. -/
  | none
  deriving DecidableEq, Repr

/-- The functions of PSA that are called. A hash is over the pieces it was updated with. Signing
is a function too, as with deterministic ECDSA. -/
structure Crypto where
  hash : PsaAlg → List (List UInt8) → Nat → Except PsaErr (List UInt8)
  signHash : Nat → PsaAlg → List UInt8 → Nat → Except PsaErr (List UInt8)
  keyBits : Nat → Except PsaErr Nat
  verifyHash : Nat → PsaAlg → List UInt8 → List UInt8 → Except PsaErr Unit

/-- mirrors lib/ext/t_cose/inc/t_cose_common.h (`t_cose_err_t`) -/
inductive CoseErr
  | unsupportedSigningAlg
  | makingProtected
  | unsupportedHash
  | hashGeneralFail
  | hashBufferSize
  | sigBufferSize
  | sign1Format
  | cborNotWellFormed
  | parameterCbor
  | noAlgId
  | noKid
  | sigVerify
  | badShortCircuitKid
  | invalidArgument
  | insufficientMemory
  | fail
  | tamperingDetected
  | unknownKey
  | wrongTypeOfKey
  | sigStruct
  | shortCircuitSig
  | sigFail
  | cborFormatting
  | tooSmall
  | tooManyParameters
  | unknownCriticalParameter
  | shortCircuitSigDisabled
  | incorrectKeyForLib
  | nonIntegerAlgId
  | badContentType
  | incorrectlyTagged
  | emptyKey
  | duplicateParameter
  | parameterNotProtected
  | critParameter
  | mac0Format
  deriving DecidableEq, Repr

/-- mirrors lib/ext/t_cose/src/t_cose_standard_constants.h:165 -/
def coseAlgorithmEs256 : Int := -7

/-- mirrors lib/ext/t_cose/src/t_cose_standard_constants.h:201 -/
def coseAlgorithmSha256 : Int := -16

def coseAlgorithmReserved : Int := 0

def coseHeaderParamAlg : Nat := 1

def coseHeaderParamKid : Nat := 4

def cborTagCoseSign1 : Nat := 18

/-- mirrors lib/ext/t_cose/src/t_cose_crypto.h:104-129 -/
def tCoseMaxSigSize : Nat := 64

def tCoseCryptoMaxHashSize : Nat := 32

/-- mirrors lib/ext/t_cose/inc/t_cose_common.h:191 -/
def tCoseSign1MaxSizeProtectedParameters : Nat := 1 + 1 + 5 + 17

/-- mirrors lib/ext/t_cose/crypto_adapters/t_cose_psa_crypto.c (`cose_alg_id_to_psa_alg_id`) -/
def coseAlgIdToPsaAlgId (coseAlgId : Int) : PsaAlg :=
  if coseAlgId = coseAlgorithmEs256 then .ecdsaSha256 else .none

/-- mirrors lib/ext/t_cose/crypto_adapters/t_cose_psa_crypto.c
(`psa_status_to_t_cose_error_signing`) -/
def psaStatusToTCoseErrorSigning : PsaErr → CoseErr
  | .invalidSignature => .sigVerify
  | .notSupported => .unsupportedSigningAlg
  | .insufficientMemory => .insufficientMemory
  | .tamperingDetected => .tamperingDetected
  | _ => .sigFail

/-- mirrors lib/ext/t_cose/crypto_adapters/t_cose_psa_crypto.c
(`psa_status_to_t_cose_error_hash`) -/
def psaStatusToTCoseErrorHash : PsaErr → CoseErr
  | .notSupported => .unsupportedHash
  | .bufferTooSmall => .hashBufferSize
  | _ => .hashGeneralFail

/-- mirrors lib/ext/t_cose/crypto_adapters/t_cose_psa_crypto.c (`t_cose_crypto_pub_key_sign`) -/
def tCoseCryptoPubKeySign (crypto : Crypto) (coseAlgorithmId : Int) (signingKey : Nat)
    (hashToSign : List UInt8) (bufferLen : Nat) : Except CoseErr (List UInt8) :=
  if coseAlgIdToPsaAlgId coseAlgorithmId ≠ .ecdsaSha256 then .error .unsupportedSigningAlg
  else (crypto.signHash signingKey (coseAlgIdToPsaAlgId coseAlgorithmId) hashToSign
    bufferLen).mapError psaStatusToTCoseErrorSigning

/-- mirrors lib/ext/t_cose/crypto_adapters/t_cose_psa_crypto.c (`t_cose_crypto_pub_key_verify`) -/
def tCoseCryptoPubKeyVerify (crypto : Crypto) (coseAlgorithmId : Int) (verificationKey : Nat)
    (hashToVerify signature : List UInt8) : Except CoseErr Unit :=
  if coseAlgIdToPsaAlgId coseAlgorithmId ≠ .ecdsaSha256 then .error .unsupportedSigningAlg
  else (crypto.verifyHash verificationKey (coseAlgIdToPsaAlgId coseAlgorithmId) hashToVerify
    signature).mapError psaStatusToTCoseErrorSigning

/-- Twice the bytes of the key.
mirrors lib/ext/t_cose/crypto_adapters/t_cose_psa_crypto.c (`t_cose_crypto_sig_size`) -/
def tCoseCryptoSigSize (crypto : Crypto) (coseAlgorithmId : Int) (signingKey : Nat) :
    Except CoseErr Nat :=
  if coseAlgorithmId ≠ coseAlgorithmEs256 then .error .unsupportedSigningAlg
  else
    match crypto.keyBits signingKey with
    | .error e => .error (psaStatusToTCoseErrorSigning e)
    | .ok keyLenBits =>
      let keyLenBytes := if keyLenBits % 8 ≠ 0 then keyLenBits / 8 + 1 else keyLenBits / 8
      .ok (keyLenBytes * 2)

/-- mirrors lib/ext/t_cose/src/t_cose_util.c:32-50 -/
def hashAlgIdFromSigAlgId (coseAlgorithmId : Int) : Int :=
  if coseAlgorithmId = coseAlgorithmEs256 then coseAlgorithmSha256 else coseAlgorithmReserved

def coseHashAlgIdToPsa (coseHashAlgId : Int) : PsaAlg :=
  if coseHashAlgId = coseAlgorithmSha256 then .sha256 else .none

/-- What an update hashes; nothing if the pointer is null. -/
def hashedPart (data : UsefulBufC) : List (List UInt8) :=
  match data.ptr with
  | none => []
  | some mem => [mem.take data.len]

/-- mirrors lib/ext/t_cose/crypto_adapters/t_cose_psa_crypto.c (`t_cose_crypto_hash_start`,
`_update`, `_finish`) -/
def tCoseCryptoHash (crypto : Crypto) (coseHashAlgId : Int) (parts : List UsefulBufC)
    (bufferLen : Nat) : Except CoseErr (List UInt8) :=
  (crypto.hash (coseHashAlgIdToPsa coseHashAlgId) (parts.flatMap hashedPart)
    bufferLen).mapError psaStatusToTCoseErrorHash

/-! ## What is hashed -/

inductive TbsHashMode
  | payloadIsBstrWrapped
  | barePayload
  deriving DecidableEq, Repr

/-- mirrors lib/ext/t_cose/src/t_cose_standard_constants.h:403 (`Signature1`) -/
def coseSigContextStringSignature1 : List UInt8 :=
  [0x53, 0x69, 0x67, 0x6e, 0x61, 0x74, 0x75, 0x72, 0x65, 0x31]

/-- mirrors lib/ext/t_cose/src/t_cose_util.c (`T_COSE_SIZE_OF_TBS`) -/
def tCoseSizeOfTbs : Nat := 1 + 11 + 2 + tCoseSign1MaxSizeProtectedParameters + 1 + 9

def usefulBufHead (ub : UsefulBufC) (amount : Nat) : UsefulBufC :=
  if amount > ub.len then nullUsefulBufC else ⟨ub.ptr, amount⟩

/-- An empty string in place of the payload, or the head of the payload. -/
def payloadCall (payload : UsefulBufC) : TbsHashMode → Call
  | .payloadIsBstrWrapped => .addBuffer .byteString nullUsefulBufC
  | .barePayload => .addBuffer .bstrLenOnly payload

def tbsCalls (protectedParameters : UsefulBufC) (mode : TbsHashMode) (payload : UsefulBufC) :
    List Call :=
  [.openMapOrArray .array, .addBuffer .textString (ofBytes coseSigContextStringSignature1),
    .addBuffer .byteString protectedParameters, .addBuffer .byteString nullUsefulBufC,
    payloadCall payload mode, .closeMapOrArray .array]

def bytesToOmit : TbsHashMode → Nat
  | .payloadIsBstrWrapped => 1
  | .barePayload => 0

/-- mirrors lib/ext/t_cose/src/t_cose_util.c:153-260 -/
def createTbsHash (crypto : Crypto) (coseAlgorithmId : Int) (protectedParameters : UsefulBufC)
    (mode : TbsHashMode) (payload : UsefulBufC) (bufferLen : Nat) :
    Except CoseErr (List UInt8) :=
  match ((encodeInit (some (List.replicate tCoseSizeOfTbs 0)) tCoseSizeOfTbs).run
      (tbsCalls protectedParameters mode payload)).finish with
  | (.success, some tbsFirstPart) =>
    tCoseCryptoHash crypto (hashAlgIdFromSigAlgId coseAlgorithmId)
      [usefulBufHead tbsFirstPart (tbsFirstPart.len - bytesToOmit mode), payload] bufferLen
  | _ => .error .sigStruct

/-! ## The message -/

/-- mirrors lib/ext/t_cose/inc/t_cose_sign1_sign.h (`t_cose_sign1_sign_ctx`); the two flags are
`T_COSE_OPT_OMIT_CBOR_TAG` and `T_COSE_OPT_SHORT_CIRCUIT_SIG` -/
structure Sign1SignCtx where
  coseAlgorithmId : Int
  omitCborTag : Bool
  shortCircuitSig : Bool
  signingKey : Nat
  kid : UsefulBufC
  protectedParameters : UsefulBufC
  deriving DecidableEq, Repr

/-- mirrors lib/ext/t_cose/inc/t_cose_sign1_sign.h:322-345 -/
def tCoseSign1SignInit (omitCborTag shortCircuitSig : Bool) (coseAlgorithmId : Int)
    (signingKey : Nat) (kid : UsefulBufC) : Sign1SignCtx :=
  { coseAlgorithmId := coseAlgorithmId
    omitCborTag := omitCborTag
    shortCircuitSig := shortCircuitSig
    signingKey := signingKey
    kid := kid
    protectedParameters := nullUsefulBufC }

def protectedCalls (coseAlgorithmId : Int) : List Call :=
  [.openMapOrArray .map, .addInt64 coseHeaderParamAlg, .addInt64 coseAlgorithmId,
    .closeMapOrArray .map]

/-- mirrors lib/ext/t_cose/src/t_cose_sign1_sign.c:145-174 -/
def encodeProtectedParameters (coseAlgorithmId : Int) (buffer : List UInt8) : UsefulBufC :=
  match ((encodeInit (some buffer) buffer.length).run (protectedCalls coseAlgorithmId)).finish with
  | (.success, some protectedParameters) => protectedParameters
  | _ => nullUsefulBufC

def isNullOrEmpty (data : UsefulBufC) : Bool := data.ptr.isNone || data.len == 0

/-- mirrors lib/ext/t_cose/src/t_cose_sign1_sign.c:189-228 -/
def unprotectedCalls (kid : UsefulBufC) : List Call :=
  .openMapOrArray .map ::
    ((if isNullOrEmpty kid then []
      else [.addInt64 coseHeaderParamKid, .addBuffer .byteString kid]) ++
      [.closeMapOrArray .map])

/-- mirrors lib/ext/t_cose/src/t_cose_sign1_sign.c:234-308 -/
def tCoseSign1EncodeParameters (me : Sign1SignCtx) (cborEncodeCtx : EncodeContext) :
    Except CoseErr (Sign1SignCtx × EncodeContext) :=
  if hashAlgIdFromSigAlgId me.coseAlgorithmId = coseAlgorithmReserved then
    .error .unsupportedSigningAlg
  else
    let ctx := if me.omitCborTag then cborEncodeCtx else cborEncodeCtx.addTag cborTagCoseSign1
    let ctx := ctx.openMapOrArray .array
    let protectedParameters := encodeProtectedParameters me.coseAlgorithmId
      (List.replicate tCoseSign1MaxSizeProtectedParameters 0)
    if protectedParameters.ptr.isNone then .error .makingProtected
    else
      let ctx := ctx.addBuffer .byteString protectedParameters
      if me.shortCircuitSig then .error .shortCircuitSigDisabled
      else
        let ctx := ctx.run (unprotectedCalls me.kid)
        .ok ({ me with protectedParameters := protectedParameters },
          ctx.openMapOrArray .byteString)

/-- The signature, or its size where there is no storage. -/
def makeSignature (crypto : Crypto) (me : Sign1SignCtx) (isBufferNull : Bool)
    (signedPayload : UsefulBufC) : Except CoseErr UsefulBufC :=
  if isBufferNull then
    (tCoseCryptoSigSize crypto me.coseAlgorithmId me.signingKey).map fun len => ⟨none, len⟩
  else
    match createTbsHash crypto me.coseAlgorithmId me.protectedParameters .payloadIsBstrWrapped
        signedPayload tCoseCryptoMaxHashSize with
    | .error e => .error e
    | .ok tbsHash =>
      if me.shortCircuitSig then .error .shortCircuitSigDisabled
      else
        (tCoseCryptoPubKeySign crypto me.coseAlgorithmId me.signingKey tbsHash
          tCoseMaxSigSize).map ofBytes

/-- mirrors lib/ext/t_cose/src/t_cose_sign1_sign.c:316-427 -/
def tCoseSign1EncodeSignature (crypto : Crypto) (me : Sign1SignCtx)
    (cborEncodeCtx : EncodeContext) : Except CoseErr EncodeContext :=
  let (ctx, signedPayload) := cborEncodeCtx.closeMapOrArray .byteString
  let ctx := ctx.getErrorState
  match ctx.err with
  | .bufferTooSmall => .error .tooSmall
  | .success =>
    (makeSignature crypto me ctx.out.ptr.isNone (signedPayload.getD nullUsefulBufC)).map
      fun signature => ((ctx.addBuffer .byteString signature).closeMapOrArray .array).1
  | _ => .error .cborFormatting

/-- mirrors lib/ext/t_cose/src/t_cose_sign1_sign.c:434-474 -/
def tCoseSign1Sign (crypto : Crypto) (me : Sign1SignCtx) (payload : UsefulBufC)
    (storage : Option (List UInt8)) (cap : Nat) : Except CoseErr UsefulBufC :=
  match tCoseSign1EncodeParameters me (encodeInit storage cap) with
  | .error e => .error e
  | .ok (me, ctx) =>
    match tCoseSign1EncodeSignature crypto me (ctx.addBuffer .raw payload) with
    | .error e => .error e
    | .ok ctx =>
      match ctx.finish with
      | (.success, some result) => .ok result
      | _ => .error .cborNotWellFormed

/-! ## The hash -/

/-- A hash is of the bytes, in whatever pieces they come. -/
def Crypto.Concat (crypto : Crypto) : Prop :=
  ∀ alg parts n, crypto.hash alg parts n = crypto.hash alg [parts.flatten] n

/-- What is to be signed: the protected parameters and the payload, with no other data. -/
def sigStructure (protectedParameters payload : List UInt8) : List UInt8 :=
  encode (.array [.text coseSigContextStringSignature1, .bytes protectedParameters, .bytes [],
    .bytes payload])

def hashSigStructure (crypto : Crypto) (protectedParameters payload : List UInt8) (bufferLen : Nat) :
    Except CoseErr (List UInt8) :=
  (crypto.hash .sha256 [sigStructure protectedParameters payload] bufferLen).mapError
    psaStatusToTCoseErrorHash

/-- The encoding up to the payload. -/
def tbsFront (protectedParameters : List UInt8) : List UInt8 :=
  head 4 4 ++ ((head 3 10 ++ coseSigContextStringSignature1) ++
    ((head 2 protectedParameters.length ++ protectedParameters) ++ head 2 0))

theorem sigStructure_eq (p payload : List UInt8) :
    sigStructure p payload = tbsFront p ++ (head 2 payload.length ++ payload) := by
  simp [sigStructure, encode, encodeAll, tbsFront, coseSigContextStringSignature1]

theorem length_tbsFront {p : List UInt8} (h : p.length ≤ tCoseSign1MaxSizeProtectedParameters) :
    (tbsFront p).length + 9 ≤ tCoseSizeOfTbs := by
  have hp : (head 2 p.length).length ≤ 2 := by
    have hlt : p.length < 256 := Nat.lt_of_le_of_lt h (by decide)
    rw [head, length_headAs, shortest]
    split_ifs <;> simp [Width.size]
  have harray : (head 4 4).length = 1 := rfl
  have htext : (head 3 10 ++ coseSigContextStringSignature1).length = 11 := rfl
  have haad : (head 2 0).length = 1 := rfl
  have hmax : tCoseSign1MaxSizeProtectedParameters = 24 := rfl
  have hsize : tCoseSizeOfTbs = 48 := rfl
  simp only [tbsFront, List.length_append] at htext ⊢
  omega

theorem flatten_hashed (a : List UInt8) (n : Nat) (data : UsefulBufC)
    (h : data.ptr = none → data.len = 0) :
    ([(⟨some a, n⟩ : UsefulBufC), data].flatMap hashedPart).flatten =
      a.take n ++ data.contents := by
  unfold hashedPart UsefulBufC.contents
  cases hptr : data.ptr with
  | none => simp [h hptr, hptr]
  | some mem => simp [hptr]

theorem head_resultOf (mem b : List UInt8) (k : Nat) :
    usefulBufHead (resultOf (some mem) b) ((resultOf (some mem) b).len - k) =
      ⟨some (b ++ mem.drop b.length), b.length - k⟩ := by
  have hle : ¬ (resultOf (some mem) b).len - k > (resultOf (some mem) b).len := by omega
  rw [usefulBufHead, if_neg hle]
  rfl

section Hash

variable {crypto : Crypto} {prot payload : UsefulBufC} {P : List UInt8}

/-- The hash of a first part and the payload behind it. -/
theorem tCoseCryptoHash_eq (hcat : crypto.Concat) {a : List UInt8} {n : Nat} {s : List UInt8}
    (hnull : payload.ptr = none → payload.len = 0) (hs : a.take n ++ payload.contents = s)
    (bufferLen : Nat) :
    tCoseCryptoHash crypto (hashAlgIdFromSigAlgId coseAlgorithmEs256) [⟨some a, n⟩, payload]
        bufferLen =
      (crypto.hash .sha256 [s] bufferLen).mapError psaStatusToTCoseErrorHash := by
  have halg : coseHashAlgIdToPsa (hashAlgIdFromSigAlgId coseAlgorithmEs256) = .sha256 := rfl
  rw [tCoseCryptoHash, halg, hcat, flatten_hashed a n payload hnull, hs]

/-- The first part is encoded if there is room for it on the stack. -/
theorem finish_tbs (mode : TbsHashMode)
    (hprot : Readable (some (List.replicate tCoseSizeOfTbs 0)) prot) {last : List UInt8}
    (hlast : Writes 0 1 last [payloadCall payload mode])
    (hoff : (tbsFront prot.contents ++ last).length < qcborMaxArrayOffset)
    (hread : (payloadCall payload mode).Readable (some (List.replicate tCoseSizeOfTbs 0))) :
    ((encodeInit (some (List.replicate tCoseSizeOfTbs 0)) tCoseSizeOfTbs).run
        (tbsCalls prot mode payload)).finish =
      if tCoseSizeOfTbs < (tbsFront prot.contents ++ last).length then (.bufferTooSmall, none)
      else (.success, some (resultOf (some (List.replicate tCoseSizeOfTbs 0))
        (tbsFront prot.contents ++ last))) := by
  have hcontents : prot.contents.length = prot.len := length_contents hprot
  have hnull : nullUsefulBufC.contents = [] := rfl
  have htext := Writes.addText (congrArg List.length
    (contents_ofBytes coseSigContextStringSignature1))
  rw [contents_ofBytes] at htext
  have hwrites : Writes 1 1 (tbsFront prot.contents ++ last) (tbsCalls prot mode payload) := by
    have hbody := (htext.append ((Writes.addBytes hcontents).append
      ((Writes.addBytes (congrArg List.length hnull)).append hlast))).array (by decide)
    rw [hnull, List.append_nil, ← hcontents] at hbody
    simpa [tbsFront, tbsCalls, coseSigContextStringSignature1, ofBytes, nullUsefulBufC]
      using hbody
  have hread' : ∀ c ∈ tbsCalls prot mode payload,
      c.Readable (some (List.replicate tCoseSizeOfTbs 0)) := by
    intro c hc
    simp only [tbsCalls, List.mem_cons, List.not_mem_nil, or_false] at hc
    obtain rfl | rfl | rfl | rfl | rfl | rfl := hc
    · trivial
    · exact readable_ofBytes (some (List.replicate tCoseSizeOfTbs 0)) _
    · exact hprot
    · exact Or.inl rfl
    · exact hread
    · trivial
  exact hwrites.finish (by decide) hoff _ _ (by intro mem hm; cases hm; simp) hread'

/-- There is room for the protected parameters of the signer. -/
theorem room_tbs (hprot : Readable (some (List.replicate tCoseSizeOfTbs 0)) prot)
    (hlen : prot.len ≤ tCoseSign1MaxSizeProtectedParameters) {last : List UInt8}
    (hlast : last.length ≤ 9) : (tbsFront prot.contents ++ last).length ≤ tCoseSizeOfTbs := by
  have hcontents : prot.contents.length = prot.len := length_contents hprot
  have hfront := length_tbsFront (hcontents ▸ hlen)
  rw [List.length_append]
  omega

theorem room_lt {n : Nat} (h : n ≤ tCoseSizeOfTbs) : n < qcborMaxArrayOffset :=
  Nat.lt_of_le_of_lt h (by decide)

/-- The payload is hashed with the head it has in the message. -/
theorem createTbsHash_wrapped (hcat : crypto.Concat)
    (hprot : Readable (some (List.replicate tCoseSizeOfTbs 0)) prot)
    (hlen : prot.len ≤ tCoseSign1MaxSizeProtectedParameters)
    (hnull : payload.ptr = none → payload.len = 0)
    (hpayload : payload.contents = head 2 P.length ++ P) (bufferLen : Nat) :
    createTbsHash crypto coseAlgorithmEs256 prot .payloadIsBstrWrapped payload bufferLen =
      hashSigStructure crypto prot.contents P bufferLen := by
  have hlast := Writes.addBytes (congrArg List.length (rfl : nullUsefulBufC.contents = []))
  have hroom := room_tbs hprot hlen (by decide : (head 2 nullUsefulBufC.len ++
    nullUsefulBufC.contents).length ≤ 9)
  have hfin := @finish_tbs prot payload .payloadIsBstrWrapped hprot _ hlast (room_lt hroom)
    (Or.inl rfl)
  have hone : (head 2 0 : List UInt8).length = 1 := rfl
  unfold createTbsHash
  rw [hfin, if_neg (Nat.not_lt.2 hroom)]
  simp only [head_resultOf]
  apply tCoseCryptoHash_eq hcat hnull
  have htake : (tbsFront prot.contents ++ (head 2 nullUsefulBufC.len ++ nullUsefulBufC.contents)).length
      - 1 = (tbsFront prot.contents).length := by
    simp [nullUsefulBufC, UsefulBufC.contents, hone]
  rw [bytesToOmit, htake, hpayload, sigStructure_eq, List.append_assoc, List.take_left]

/-- The head of the payload is made up, and hashed in front of it, if there is room for the
protected parameters. -/
theorem createTbsHash_bare (hcat : crypto.Concat)
    (hprot : Readable (some (List.replicate tCoseSizeOfTbs 0)) prot)
    (hread : Readable (some (List.replicate tCoseSizeOfTbs 0)) payload)
    (hoff : (tbsFront prot.contents ++ head 2 payload.len).length < qcborMaxArrayOffset)
    (hsize : payload.len < 256 ^ 8) (bufferLen : Nat) :
    createTbsHash crypto coseAlgorithmEs256 prot .barePayload payload bufferLen =
      if tCoseSizeOfTbs < (tbsFront prot.contents ++ head 2 payload.len).length then
        .error .sigStruct
      else hashSigStructure crypto prot.contents payload.contents bufferLen := by
  have hcontents : payload.contents.length = payload.len := length_contents hread
  have hlast : Writes 0 1 (head 2 payload.len) [.addBuffer .bstrLenOnly payload] := by
    apply Writes.add
    intro d _
    show d.add (encodedTypeAndNumber .byteString 0 payload.len) = _
    rw [encodedTypeAndNumber_eq (by decide) (by decide) hsize (by intro h; cases h)]
    rfl
  have hfin := finish_tbs .barePayload hprot hlast hoff hread
  have hnull : payload.ptr = none → payload.len = 0 := by
    intro hptr
    unfold Readable at hread
    rw [hptr] at hread
    obtain h | h := hread
    · exact h
    · cases h
  unfold createTbsHash
  rw [hfin]
  by_cases hroom : tCoseSizeOfTbs < (tbsFront prot.contents ++ head 2 payload.len).length
  · rw [if_pos hroom, if_pos hroom]
  · rw [if_neg hroom, if_neg hroom]
    simp only [head_resultOf]
    apply tCoseCryptoHash_eq hcat hnull
    rw [bytesToOmit, Nat.sub_zero, List.append_assoc, ← List.append_assoc, List.take_left,
      sigStructure_eq, hcontents, List.append_assoc]

end Hash

/-! ## The message -/

/-- The protected parameters: the algorithm. -/
def protectedBytes : List UInt8 := encode (.map [(.uint coseHeaderParamAlg, .nint 6)])

/-- The unprotected parameters: the key's name, if there is one. -/
def unprotectedItem (kid : UsefulBufC) : Item :=
  .map (if isNullOrEmpty kid then [] else [(.uint coseHeaderParamKid, .bytes kid.contents)])

def untagged (kid : UsefulBufC) (payload signature : List UInt8) : Item :=
  .array [.bytes protectedBytes, unprotectedItem kid, .bytes payload, .bytes signature]

/-- The message. -/
def sign1Item (omitCborTag : Bool) (kid : UsefulBufC) (payload signature : List UInt8) : Item :=
  if omitCborTag then untagged kid payload signature
  else .tag cborTagCoseSign1 (untagged kid payload signature)

def tagBytes (omitCborTag : Bool) : List UInt8 :=
  if omitCborTag then [] else head 6 cborTagCoseSign1

/-- Three of the four members. -/
def membersFront (kid : UsefulBufC) (payload : List UInt8) : List UInt8 :=
  (head 2 3 ++ protectedBytes) ++ (encode (unprotectedItem kid) ++ (head 2 payload.length ++ payload))

theorem encode_sign1Item (omitCborTag : Bool) (kid : UsefulBufC) (payload signature : List UInt8) :
    encode (sign1Item omitCborTag kid payload signature) = tagBytes omitCborTag ++
      (head 4 4 ++ (membersFront kid payload ++ (head 2 signature.length ++ signature))) := by
  have hmembers : encode (untagged kid payload signature) =
      head 4 4 ++ (membersFront kid payload ++ (head 2 signature.length ++ signature)) := by
    have hprot : protectedBytes.length = 3 := rfl
    simp [untagged, encode, encodeAll, membersFront, hprot]
  cases omitCborTag with
  | false =>
    rw [← hmembers]
    rfl
  | true =>
    rw [← hmembers]
    rfl

/-- The memory of the protected parameters, as the encoder leaves it. -/
def protectedParametersOf : UsefulBufC :=
  resultOf (some (List.replicate tCoseSign1MaxSizeProtectedParameters 0)) protectedBytes

theorem encodeProtectedParameters_eq :
    encodeProtectedParameters coseAlgorithmEs256
      (List.replicate tCoseSign1MaxSizeProtectedParameters 0) = protectedParametersOf := by
  decide

theorem contents_protectedParameters : protectedParametersOf.contents = protectedBytes := by
  decide

def tagCalls (omitCborTag : Bool) : List Call :=
  if omitCborTag then [] else [.addTag cborTagCoseSign1]

/-- The calls up to the payload, inside the array. -/
def frontCalls (kid : UsefulBufC) : List Call :=
  .addBuffer .byteString protectedParametersOf ::
    (unprotectedCalls kid ++ [.openMapOrArray .byteString])

section Message

variable {me : Sign1SignCtx}

theorem encodeParameters_eq (me : Sign1SignCtx) (halg : me.coseAlgorithmId = coseAlgorithmEs256)
    (hshort : me.shortCircuitSig = false) (ctx : EncodeContext) :
    tCoseSign1EncodeParameters me ctx =
      .ok ({ me with protectedParameters := protectedParametersOf },
        ctx.run (tagCalls me.omitCborTag ++ (.openMapOrArray .array :: frontCalls me.kid))) := by
  have hhash : hashAlgIdFromSigAlgId coseAlgorithmEs256 ≠ coseAlgorithmReserved := by decide
  have hsome : protectedParametersOf.ptr.isNone = false := rfl
  unfold tCoseSign1EncodeParameters
  rw [halg, if_neg hhash, encodeProtectedParameters_eq]
  simp only [hsome, hshort, Bool.false_eq_true, if_false]
  cases me.omitCborTag <;> simp [tagCalls, frontCalls, EncodeContext.step]

theorem writes_unprotected {kid : UsefulBufC} {storage : Option (List UInt8)}
    (hkid : Readable storage kid) :
    Writes 1 1 (encode (unprotectedItem kid)) (unprotectedCalls kid) := by
  unfold unprotectedItem unprotectedCalls
  cases hnull : isNullOrEmpty kid with
  | true =>
    rw [if_pos rfl, if_pos rfl]
    exact Writes.nil.map (n := 0) (by decide)
  | false =>
    have hlen : kid.contents.length = kid.len := length_contents hkid
    have hbody := ((Writes.addInt64_nonneg (n := coseHeaderParamKid) (by decide)).append
      (Writes.addBytes hlen)).map (n := 1) (by decide)
    simpa [encode, encodePairs, hlen] using hbody

theorem readable_unprotected {kid : UsefulBufC} {storage : Option (List UInt8)}
    (hkid : Readable storage kid) : ∀ c ∈ unprotectedCalls kid, c.Readable storage := by
  apply readable_level
  cases hnull : isNullOrEmpty kid with
  | true => intro c hc; cases hc
  | false =>
    apply readable_append (@readable_single storage (.addInt64 coseHeaderParamKid) trivial)
    exact @readable_single storage (.addBuffer .byteString kid) hkid

theorem readable_protected (storage : Option (List UInt8)) :
    Readable storage protectedParametersOf := by
  show protectedParametersOf.len ≤ _
  decide

theorem readable_front {kid : UsefulBufC} {storage : Option (List UInt8)}
    (hkid : Readable storage kid) : ∀ c ∈ frontCalls kid, c.Readable storage := by
  apply readable_append (@readable_single storage (.addBuffer .byteString protectedParametersOf)
    (readable_protected storage))
  apply readable_append (readable_unprotected hkid)
  exact @readable_single storage (.openMapOrArray .byteString) trivial

variable {depth n : Nat} {payload : List UInt8} {cs : List Call}

/-- Three members, written one after the other. -/
theorem writes_front {kid : UsefulBufC} {storage : Option (List UInt8)}
    (hkid : Readable storage kid) (hn : n < qcborMaxItemsInArray) (h : Writes depth n payload cs) :
    Writes (depth + 1) 3 (membersFront kid payload)
      (frontCalls kid ++ (cs ++ [.closeMapOrArray .byteString])) := by
  have hprot := Writes.addBytes (congrArg List.length contents_protectedParameters)
  have hall := hprot.append ((writes_unprotected hkid).append (h.bstrWrap hn))
  rw [contents_protectedParameters] at hall
  have hcalls : [Call.addBuffer .byteString protectedParametersOf] ++
      (unprotectedCalls kid ++
        (.openMapOrArray .byteString :: (cs ++ [.closeMapOrArray .byteString]))) =
      frontCalls kid ++ (cs ++ [.closeMapOrArray .byteString]) := by
    simp [frontCalls]
  rw [hcalls] at hall
  apply hall.mono
  omega

/-- All the calls of a message. -/
def messageCalls (omitCborTag : Bool) (kid : UsefulBufC) (cs : List Call)
    (signature : UsefulBufC) : List Call :=
  tagCalls omitCborTag ++ (.openMapOrArray .array ::
    (frontCalls kid ++ (cs ++ [.closeMapOrArray .byteString]) ++
      [.addBuffer .byteString signature] ++ [.closeMapOrArray .array]))

theorem writes_message {kid : UsefulBufC} {storage : Option (List UInt8)} (omitCborTag : Bool)
    (hkid : Readable storage kid) (hn : n < qcborMaxItemsInArray) (h : Writes depth n payload cs)
    {signature : UsefulBufC} (hsig : Readable storage signature) :
    Writes (depth + 2) 1 (encode (sign1Item omitCborTag kid payload signature.contents))
      (messageCalls omitCborTag kid cs signature) := by
  have hlen : signature.contents.length = signature.len := length_contents hsig
  have harray := ((writes_front hkid hn h).append (Writes.addBytes hlen)).array (by decide)
  rw [encode_sign1Item, hlen]
  have hdepth : max (depth + 1) 0 + 1 ≤ depth + 2 := by omega
  cases omitCborTag with
  | true => exact harray.mono hdepth
  | false => exact (harray.tag (by decide)).mono hdepth

/-! ### Before the signature -/

/-- The array is open, and nothing is in it. -/
def arrayDoc (omitCborTag : Bool) : Doc :=
  ⟨.success, ⟨.array, 0, []⟩, [⟨.array, 1, tagBytes omitCborTag⟩]⟩

theorem run_array (omitCborTag : Bool) :
    Doc.init.run (tagCalls omitCborTag ++ [.openMapOrArray .array]) = arrayDoc omitCborTag := by
  cases omitCborTag <;> decide

/-- The two members in front of the payload. -/
def parameterBytes (kid : UsefulBufC) : List UInt8 :=
  (head 2 3 ++ protectedBytes) ++ encode (unprotectedItem kid)

/-- The payload is being written. -/
def payloadDoc (omitCborTag : Bool) (kid : UsefulBufC) (n : Nat) (payload : List UInt8) : Doc :=
  ⟨.success, ⟨.byteString, n, payload⟩,
    [⟨.array, 3, parameterBytes kid⟩, ⟨.array, 1, tagBytes omitCborTag⟩]⟩

theorem membersFront_eq (kid : UsefulBufC) (payload : List UInt8) :
    membersFront kid payload = parameterBytes kid ++ (head 2 payload.length ++ payload) := by
  simp [membersFront, parameterBytes]

theorem run_payload {kid : UsefulBufC} {storage : Option (List UInt8)} (omitCborTag : Bool)
    (hkid : Readable storage kid) (hdepth : depth + 2 ≤ qcborMaxArrayNesting)
    (hn : n < qcborMaxItemsInArray) (h : Writes depth n payload cs)
    (hoff : (tagBytes omitCborTag ++ membersFront kid payload).length < qcborMaxArrayOffset) :
    (arrayDoc omitCborTag).run (frontCalls kid ++ cs) = payloadDoc omitCborTag kid n payload := by
  have hparams : Writes 1 2 (parameterBytes kid)
      (.addBuffer .byteString protectedParametersOf :: unprotectedCalls kid) := by
    have hprot := Writes.addBytes (congrArg List.length contents_protectedParameters)
    rw [contents_protectedParameters] at hprot
    exact hprot.append (writes_unprotected hkid)
  rw [membersFront_eq, List.length_append, List.length_append, List.length_append] at hoff
  have htotal : (arrayDoc omitCborTag).total = (tagBytes omitCborTag).length := by
    simp [arrayDoc, Doc.total, Doc.contents, contentsOf]
  have hcalls : frontCalls kid ++ cs =
      (.addBuffer .byteString protectedParametersOf :: unprotectedCalls kid) ++
        (.openMapOrArray .byteString :: cs) := by
    simp [frontCalls]
  have hone := hparams (arrayDoc omitCborTag) rfl (Nat.le_of_ble_eq_true rfl)
    (Nat.le_of_ble_eq_true rfl) (by omega)
  have htwo := open_eq (d := (arrayDoc omitCborTag).append 2 (parameterBytes kid)) .byteString rfl
    (Nat.le_of_ble_eq_true rfl) (by rw [total_append]; omega) (Nat.le_of_ble_eq_true rfl)
  have hbody := h ⟨.success, ⟨.byteString, 0, []⟩,
    [⟨.array, 3, parameterBytes kid⟩, ⟨.array, 1, tagBytes omitCborTag⟩]⟩ rfl
    (by simp only [List.length_cons, List.length_nil]; omega) (by simpa using hn)
    (by
      simp only [Doc.total, Doc.contents, contentsOf, List.length_append, List.length_nil]
      omega)
  rw [hcalls, Doc.run_append, hone, Doc.run_cons, Doc.step, htwo]
  simp only [Doc.increase, Doc.append, arrayDoc, List.nil_append, Nat.zero_add] at hbody ⊢
  exact hbody

/-- Where the payload is closed, it is what the caller gets. -/
theorem closeMapOrArray_snd {ctx : EncodeContext} {m : MajorType} (herr : ctx.err = .success)
    (houter : ctx.outer ≠ []) (hm : ctx.cur.majorType = m) :
    (ctx.closeMapOrArray m).2 =
      some (usefulBufTail (ctx.closeMapOrArray m).1.out.outUBuf ctx.cur.start) := by
  unfold EncodeContext.closeMapOrArray
  simp only [herr, houter, hm, if_true, if_false, ne_eq, not_true_eq_false]
  rw [out_decrease]

theorem tail_resultOf (storage : Option (List UInt8)) (a b : List UInt8) :
    usefulBufTail (resultOf storage (a ++ b)) a.length =
      ⟨storage.map fun mem => b ++ mem.drop (a ++ b).length, b.length⟩ := by
  have hle : ¬ a.length > (resultOf storage (a ++ b)).len := by
    simp [resultOf]
  have hptr : (resultOf storage (a ++ b)).ptr.map (·.drop a.length) =
      storage.map fun mem => b ++ mem.drop (a ++ b).length := by
    cases storage with
    | none => rfl
    | some mem => simp [resultOf]
  have hlen : (resultOf storage (a ++ b)).len - a.length = b.length := by
    simp [resultOf]
  rw [usefulBufTail, if_neg hle, hptr, hlen]

/-- What is made of the payload: its size where there is no storage. -/
def signatureOf (crypto : Crypto) (signingKey : Nat) (storage : Option (List UInt8))
    (payload : List UInt8) : Except CoseErr UsefulBufC :=
  match storage with
  | none => (tCoseCryptoSigSize crypto coseAlgorithmEs256 signingKey).map fun len => ⟨none, len⟩
  | some _ =>
    match hashSigStructure crypto protectedBytes payload tCoseCryptoMaxHashSize with
    | .error e => .error e
    | .ok tbsHash =>
      (tCoseCryptoPubKeySign crypto coseAlgorithmEs256 signingKey tbsHash tCoseMaxSigSize).map
        ofBytes

theorem exists_of_map_ok {α β : Type} {x : Except CoseErr α} {f : α → β} {b : β}
    (h : x.map f = .ok b) : ∃ a, x = .ok a ∧ f a = b := by
  cases x with
  | error e => cases h
  | ok a =>
    injection h with h
    exact ⟨a, rfl, h⟩

theorem ok_of_mapError {α ε : Type} {x : Except ε α} {f : ε → CoseErr} {a : α}
    (h : x.mapError f = .ok a) : x = .ok a := by
  cases x with
  | error e => cases h
  | ok b =>
    injection h with h
    rw [h]

/-- What PSA returned. -/
theorem signHash_of_sign {crypto : Crypto} {key n : Nat} {hash b : List UInt8}
    (h : tCoseCryptoPubKeySign crypto coseAlgorithmEs256 key hash n = .ok b) :
    crypto.signHash key .ecdsaSha256 hash n = .ok b := by
  unfold tCoseCryptoPubKeySign at h
  rw [if_neg (by decide)] at h
  exact ok_of_mapError h

theorem keyBits_of_sigSize {crypto : Crypto} {key len : Nat}
    (h : tCoseCryptoSigSize crypto coseAlgorithmEs256 key = .ok len) :
    ∃ bits, crypto.keyBits key = .ok bits ∧ len = 2 * ((bits + 7) / 8) := by
  unfold tCoseCryptoSigSize at h
  rw [if_neg (by decide)] at h
  cases hbits : crypto.keyBits key with
  | error e =>
    rw [hbits] at h
    cases h
  | ok bits =>
    rw [hbits] at h
    injection h with h
    refine ⟨bits, rfl, ?_⟩
    split_ifs at h <;> omega

theorem readable_signature {crypto : Crypto} {signingKey : Nat} {storage : Option (List UInt8)}
    {signature : UsefulBufC}
    (h : signatureOf crypto signingKey storage payload = .ok signature) :
    Readable storage signature := by
  unfold signatureOf at h
  cases storage with
  | none =>
    obtain ⟨len, -, rfl⟩ := exists_of_map_ok h
    exact Or.inr rfl
  | some mem =>
    simp only at h
    split at h
    · cases h
    · obtain ⟨b, -, rfl⟩ := exists_of_map_ok h
      exact readable_ofBytes _ b

/-- The pointer to the payload in the message. -/
def signedPayload (storage : Option (List UInt8)) (front payload : List UInt8) : UsefulBufC :=
  ⟨storage.map fun mem => (head 2 payload.length ++ payload) ++
    mem.drop (front ++ (head 2 payload.length ++ payload)).length,
    (head 2 payload.length ++ payload).length⟩

theorem makeSignature_eq {crypto : Crypto} (hcat : crypto.Concat)
    (halg : me.coseAlgorithmId = coseAlgorithmEs256) (hshort : me.shortCircuitSig = false)
    (hprot : me.protectedParameters = protectedParametersOf) (storage : Option (List UInt8))
    (front payload : List UInt8) :
    makeSignature crypto me storage.isNone (signedPayload storage front payload) =
      signatureOf crypto me.signingKey storage payload := by
  unfold makeSignature signatureOf
  rw [halg, hprot]
  cases storage with
  | none => rfl
  | some mem =>
    have hcontents : (signedPayload (some mem) front payload).contents =
        head 2 payload.length ++ payload := List.take_left
    rw [createTbsHash_wrapped hcat (readable_protected _) (by decide) (by intro h; cases h)
      hcontents, contents_protectedParameters]
    simp [hshort]

/-- What is signed is the payload in the message; then the array is closed. -/
theorem encodeSignature_eq {crypto : Crypto} (hcat : crypto.Concat) (me : Sign1SignCtx)
    (halg : me.coseAlgorithmId = coseAlgorithmEs256) (hshort : me.shortCircuitSig = false)
    (hprot : me.protectedParameters = protectedParametersOf) {storage : Option (List UInt8)}
    {cap : Nat} (hs : ∀ mem, storage = some mem → mem.length = cap)
    (hkid : Readable storage me.kid) (hcs : ∀ c ∈ cs, c.Readable storage)
    (hdepth : depth + 2 ≤ qcborMaxArrayNesting) (hn : n < qcborMaxItemsInArray)
    (h : Writes depth n payload cs)
    (hoff : (tagBytes me.omitCborTag ++ membersFront me.kid payload).length < qcborMaxArrayOffset) :
    tCoseSign1EncodeSignature crypto me ((encodeInit storage cap).run
        (tagCalls me.omitCborTag ++ (.openMapOrArray .array :: (frontCalls me.kid ++ cs)))) =
      if cap < (tagBytes me.omitCborTag ++ membersFront me.kid payload).length then
        .error .tooSmall
      else (signatureOf crypto me.signingKey storage payload).map fun signature =>
        (encodeInit storage cap).run (messageCalls me.omitCborTag me.kid cs signature) := by
  set before := tagCalls me.omitCborTag ++ (.openMapOrArray .array :: (frontCalls me.kid ++ cs))
    with hbefore
  have hsplit : before = (tagCalls me.omitCborTag ++ [.openMapOrArray .array]) ++
      (frontCalls me.kid ++ cs) := by
    simp [hbefore]
  have hread : ∀ c ∈ before, c.Readable storage := by
    rw [hsplit]
    apply readable_append
    · apply readable_append
      · cases me.omitCborTag with
        | true => intro c hc; cases hc
        | false => exact @readable_single storage (.addTag cborTagCoseSign1) trivial
      · exact @readable_single storage (.openMapOrArray .array) trivial
    · exact readable_append (readable_front hkid) hcs
  have hrun : Doc.init.run before = payloadDoc me.omitCborTag me.kid n payload := by
    rw [hsplit, Doc.run_append, run_array]
    exact run_payload me.omitCborTag hkid hdepth hn h hoff
  have hclosed : (payloadDoc me.omitCborTag me.kid n payload).step (.closeMapOrArray .byteString) =
      (arrayDoc me.omitCborTag).append 3 (membersFront me.kid payload) := by
    have hall := writes_front hkid hn h (arrayDoc me.omitCborTag) rfl
      (by show 1 + (depth + 1) ≤ _; omega) (Nat.le_of_ble_eq_true rfl)
      (by
        rw [List.length_append] at hoff
        simpa [arrayDoc, Doc.total, Doc.contents, contentsOf] using hoff)
    rw [← List.append_assoc, Doc.run_append,
      run_payload me.omitCborTag hkid hdepth hn h hoff] at hall
    exact hall
  have hsim := sim_run storage cap before hs hread
  rw [hrun] at hsim
  set ctx := (encodeInit storage cap).run before with hctx
  have hsim' : Sim storage cap (ctx.closeMapOrArray .byteString).1
      ((arrayDoc me.omitCborTag).append 3 (membersFront me.kid payload)) := by
    rw [← hclosed]
    exact hsim.step hs (.closeMapOrArray .byteString) trivial
  have hcontents : ((arrayDoc me.omitCborTag).append 3 (membersFront me.kid payload)).contents =
      (tagBytes me.omitCborTag ++ parameterBytes me.kid) ++ (head 2 payload.length ++ payload) := by
    simp [arrayDoc, Doc.append, Doc.contents, contentsOf, membersFront_eq]
  have htotal : ((arrayDoc me.omitCborTag).append 3 (membersFront me.kid payload)).total =
      (tagBytes me.omitCborTag ++ membersFront me.kid payload).length := by
    rw [Doc.total, hcontents, membersFront_eq, List.append_assoc]
  unfold tCoseSign1EncodeSignature
  rw [← htotal]
  cases hsim' with
  | full hfull =>
    rw [if_pos hfull.exceeds]
    simp [EncodeContext.getErrorState, hfull.hasErr]
  | exact hex =>
    rw [if_neg (Nat.not_lt.2 hex.fits)]
    have hexact : Exact storage cap ctx (payloadDoc me.omitCborTag me.kid n payload) := by
      cases hsim with
      | exact hexact => exact hexact
      | full hfull =>
        have hout := out_step hfull.hasErr (.closeMapOrArray .byteString)
        have herr := hex.noErr
        rw [show (ctx.closeMapOrArray .byteString).1.out = ctx.out from hout, hfull.hasErr] at herr
        cases herr
    have herr : (ctx.closeMapOrArray .byteString).1.err = .success := hex.err
    have hcur := hexact.cur
    have hsnd : (ctx.closeMapOrArray .byteString).2 = some (signedPayload storage
        (tagBytes me.omitCborTag ++ parameterBytes me.kid) payload) := by
      have houter : ctx.outer ≠ [] := by
        rw [hexact.outer]
        simp [payloadDoc, nestsOf]
      rw [closeMapOrArray_snd hexact.err houter (by rw [hcur]; rfl), hex.outUBuf, hcontents, hcur]
      have hstart : (contentsOf (payloadDoc me.omitCborTag me.kid n payload).outer).length =
          (tagBytes me.omitCborTag ++ parameterBytes me.kid).length := by
        simp [payloadDoc, contentsOf]
      rw [hstart, tail_resultOf]
      rfl
    have hnone : (ctx.closeMapOrArray .byteString).1.out.ptr.isNone = storage.isNone := by
      rw [hex.ptr]
      cases storage <;> rfl
    simp only [EncodeContext.getErrorState, hex.noErr, Bool.false_eq_true, if_false, herr, hsnd,
      Option.getD_some, hnone]
    rw [makeSignature_eq hcat halg hshort hprot]
    congr 1
    funext signature
    simp [messageCalls, hctx, hbefore, EncodeContext.step]

/-- The message, or why there is none. -/
def sign1Result (crypto : Crypto) (me : Sign1SignCtx) (storage : Option (List UInt8)) (cap : Nat)
    (payload : List UInt8) : Except CoseErr UsefulBufC :=
  if cap < (tagBytes me.omitCborTag ++ membersFront me.kid payload).length then .error .tooSmall
  else
    match signatureOf crypto me.signingKey storage payload with
    | .error e => .error e
    | .ok signature =>
      let message := encode (sign1Item me.omitCborTag me.kid payload signature.contents)
      if cap < message.length then .error .cborNotWellFormed
      else .ok (resultOf storage message)

theorem length_front_le (omitCborTag : Bool) (kid : UsefulBufC) (payload signature : List UInt8) :
    (tagBytes omitCborTag ++ membersFront kid payload).length ≤
      (encode (sign1Item omitCborTag kid payload signature)).length := by
  rw [encode_sign1Item]
  simp only [List.length_append]
  omega

theorem readable_message {storage : Option (List UInt8)} (omitCborTag : Bool) {kid signature : UsefulBufC}
    (hkid : Readable storage kid) (hcs : ∀ c ∈ cs, c.Readable storage)
    (hsig : Readable storage signature) :
    ∀ c ∈ messageCalls omitCborTag kid cs signature, c.Readable storage := by
  apply readable_append
  · cases omitCborTag with
    | true => intro c hc; cases hc
    | false => exact @readable_single storage (.addTag cborTagCoseSign1) trivial
  · apply readable_level
    apply readable_append
    · apply readable_append (readable_front hkid)
      apply readable_append hcs
      exact @readable_single storage (.closeMapOrArray .byteString) trivial
    · exact @readable_single storage (.addBuffer .byteString signature) hsig

/-- **Whatever the payload, the message has the signature of its own payload, in its shortest
encoding; it is returned exactly if it fits.** -/
theorem sign1_eq (crypto : Crypto) (hcat : crypto.Concat) (me : Sign1SignCtx)
    (halg : me.coseAlgorithmId = coseAlgorithmEs256) (hshort : me.shortCircuitSig = false)
    (storage : Option (List UInt8)) (cap : Nat) (payload : UsefulBufC)
    (hs : ∀ mem, storage = some mem → mem.length = cap) (hkid : Readable storage me.kid)
    (hpayload : Readable storage payload)
    (hoff : ∀ signature, signatureOf crypto me.signingKey storage payload.contents = .ok signature →
      (encode (sign1Item me.omitCborTag me.kid payload.contents signature.contents)).length <
        qcborMaxArrayOffset)
    (hfront : (tagBytes me.omitCborTag ++ membersFront me.kid payload.contents).length <
      qcborMaxArrayOffset) :
    tCoseSign1Sign crypto me payload storage cap =
      sign1Result crypto me storage cap payload.contents := by
  have hcs := @readable_single storage (.addBuffer .raw payload) hpayload
  have hencode := encodeSignature_eq hcat { me with protectedParameters := protectedParametersOf }
    halg hshort rfl hs hkid hcs (by decide) (by decide) (Writes.addRaw payload) hfront
  unfold tCoseSign1Sign sign1Result
  rw [encodeParameters_eq me halg hshort]
  have hrun : ((encodeInit storage cap).run
      (tagCalls me.omitCborTag ++ (.openMapOrArray .array :: frontCalls me.kid))).addBuffer .raw
        payload = (encodeInit storage cap).run (tagCalls me.omitCborTag ++
          (.openMapOrArray .array :: (frontCalls me.kid ++ [.addBuffer .raw payload]))) := by
    simp [EncodeContext.step]
  simp only [hrun, hencode]
  split_ifs with hcap
  · rfl
  · cases hsig : signatureOf crypto me.signingKey storage payload.contents with
    | error e => rfl
    | ok signature =>
      have hread := readable_signature hsig
      have hwrites := writes_message me.omitCborTag hkid (by decide) (Writes.addRaw payload) hread
      have hfin := hwrites.finish (by decide) (hoff signature hsig) storage cap hs
        (readable_message me.omitCborTag hkid hcs hread)
      simp only [Except.map, hfin]
      split_ifs
      · rfl
      · rfl

end Message

/-! ### A message of two bytes -/

def exampleToSign : List UInt8 :=
  [0x84, 0x6a, 0x53, 0x69, 0x67, 0x6e, 0x61, 0x74, 0x75, 0x72, 0x65, 0x31, 0x43, 0xa1, 0x01, 0x26,
   0x40, 0x42, 0x01, 0x02]

def exampleDigest : List UInt8 :=
  [0xbf, 0x69, 0xbe, 0x83, 0x6a, 0x64, 0xa3, 0x0d, 0xa9, 0x18, 0x08, 0xb7, 0x03, 0x0a, 0xaf, 0xec,
   0xef, 0x09, 0x79, 0x87, 0x10, 0x8f, 0xb7, 0xf3, 0xd2, 0x49, 0x15, 0x15, 0x3f, 0xd8, 0x0f, 0x02]

def exampleSignature : List UInt8 :=
  [0x48, 0xd1, 0xea, 0x55, 0x69, 0xfa, 0xea, 0xcf, 0xab, 0xed, 0xaf, 0x09, 0xb8, 0xf5, 0xd9, 0x1c,
   0xd5, 0x22, 0x21, 0xc8, 0xa1, 0x9c, 0xf5, 0xb5, 0x4d, 0x7f, 0xc3, 0xe6, 0xcf, 0x62, 0x28, 0x19,
   0x10, 0xff, 0xbc, 0x48, 0x8b, 0x59, 0xe9, 0xf4, 0xb7, 0x79, 0x48, 0xee, 0xab, 0x45, 0x9c, 0x73,
   0x7b, 0x55, 0x8b, 0x28, 0xa4, 0x7e, 0x15, 0x24, 0x2c, 0x99, 0x6a, 0x61, 0x38, 0x1f, 0x59, 0x66]

/-- SHA-256 of one input, and a signature of it. -/
def exampleCrypto : Crypto :=
  { hash := fun alg parts n =>
      if alg = .sha256 ∧ parts.flatten = exampleToSign ∧ 32 ≤ n then .ok exampleDigest
      else .error .notSupported
    signHash := fun key alg hash n =>
      if key = 1 ∧ alg = .ecdsaSha256 ∧ hash = exampleDigest ∧ 64 ≤ n then .ok exampleSignature
      else .error .notSupported
    keyBits := fun _ => .ok 256
    verifyHash := fun key alg hash signature =>
      if key = 2 ∧ alg = .ecdsaSha256 ∧ hash = exampleDigest ∧ signature = exampleSignature then
        .ok ()
      else .error .invalidSignature }

theorem exampleCrypto_concat : exampleCrypto.Concat := by
  intro alg parts n
  simp [exampleCrypto]

theorem sign1_eq_example :
    tCoseSign1Sign exampleCrypto (tCoseSign1SignInit false false coseAlgorithmEs256 1 nullUsefulBufC)
        (ofBytes [1, 2]) (some (List.replicate 80 0)) 80 =
      .ok (resultOf (some (List.replicate 80 0))
        ([0xd2, 0x84, 0x43, 0xa1, 0x01, 0x26, 0xa0, 0x42, 1, 2, 0x58, 0x40] ++ exampleSignature)) := by
  have hsig : signatureOf exampleCrypto 1 (some (List.replicate 80 0)) [1, 2] =
      .ok (ofBytes exampleSignature) := by decide
  have hsigned := sign1_eq exampleCrypto exampleCrypto_concat
    (tCoseSign1SignInit false false coseAlgorithmEs256 1 nullUsefulBufC) rfl rfl
    (some (List.replicate 80 0)) 80 (ofBytes [1, 2]) (by intro mem h; cases h; rfl) (Or.inl rfl)
    (readable_ofBytes _ _)
    (by
      intro signature h
      have h' := hsig.symm.trans h
      injection h' with h'
      subst h'
      decide)
    (by decide)
  rw [hsigned]
  decide

end Tfm.L3.Cose
