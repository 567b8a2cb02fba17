import Tfm.L3Format.CoseSign
import Tfm.L3Format.QcborRoundtrip

/-!
# Verifying COSE messages (`lib/ext/t_cose`)

The message is an array of four: the protected parameters in a byte string, the unprotected ones,
the payload and the signature. Parameters that are not known are skipped, however deep they are
nested, and the message is refused if one of them is said to be critical.

The model is of the release build: no short-circuit signatures, no content type and one algorithm.

Results:
* `verify_message`: what a message in the shortest encoding is found to be, whatever its payload,
  signature and key id.
* `verdict_signed`: the signature of a signer is accepted under a key that goes with its own.
* `parseLoop_fuel`: the length of the message is enough for the loops.
* `accepted_signed`: a message that is accepted, whoever made it, has a signature of its payload.
-/
namespace Tfm.L3.Cose
open Tfm.Cbor Tfm.L3.Qcbor

/-! ## Header parameters -/

/-- mirrors lib/ext/t_cose/inc/t_cose_common.h:411-436 (`t_cose_parameters`) -/
structure Parameters where
  coseAlgorithmId : Int
  kid : UsefulBufC
  iv : UsefulBufC
  partialIv : UsefulBufC
  deriving DecidableEq, Repr

/-- mirrors lib/ext/t_cose/src/t_cose_parameters.c:316-336 -/
def clearCoseParameters : Parameters :=
  ⟨coseAlgorithmReserved, nullUsefulBufC, nullUsefulBufC, nullUsefulBufC⟩

/-- mirrors lib/ext/t_cose/src/t_cose_parameters.h:40-45; both lists end at their terminator -/
structure LabelList where
  intLabels : List Int
  tstrLabels : List UsefulBufC
  deriving DecidableEq, Repr

def tCoseParameterListMax : Nat := 10

def clearLabelList : LabelList := ⟨[], []⟩

/-- mirrors lib/ext/t_cose/src/t_cose_parameters.h:186-190 -/
def isLabelListClear (list : LabelList) : Bool :=
  list.intLabels.headD 0 == 0 && isNullOrEmpty (list.tstrLabels.headD nullUsefulBufC)

/-- The labels up to the terminator, which is 0. -/
def LabelList.ints (list : LabelList) : List Int := list.intLabels.takeWhile (· ≠ 0)

/-- The labels up to the null pointer. -/
def LabelList.tstrs (list : LabelList) : List UsefulBufC :=
  list.tstrLabels.takeWhile fun s => s.ptr.isSome

/-- The loop of `consume_item`; every item takes a byte of the input. -/
def consumeLoop : Nat → Nat → DecodeContext → Except QcborError Nat × DecodeContext
  | 0, _, ctx => (.error .hitEnd, ctx)
  | fuel + 1, level, ctx =>
    match ctx.getNext with
    | (.error e, ctx) => (.error e, ctx)
    | (.ok item, ctx) =>
      if item.nextNestLevel ≥ level then consumeLoop fuel level ctx
      else (.ok item.nextNestLevel, ctx)

/-- mirrors lib/ext/t_cose/src/t_cose_parameters.c:38-72 -/
def consumeItem (ctx : DecodeContext) (itemToConsume : QcborItem) :
    Except QcborError Nat × DecodeContext :=
  match itemToConsume.val with
  | .map _ | .array _ =>
    consumeLoop (ctx.inBuf.bytesUnconsumed + 1) itemToConsume.nextNestLevel ctx
  | _ => (.ok itemToConsume.nextNestLevel, ctx)

/-- mirrors lib/ext/t_cose/src/t_cose_parameters.c:90-130 -/
def addLabelToList (item : QcborItem) (list : LabelList) : Except CoseErr LabelList :=
  match item.label with
  | .int64 l =>
    if list.ints.length = tCoseParameterListMax then .error .tooManyParameters
    else .ok { list with intLabels := list.ints ++ [l] }
  | .textString s =>
    if list.tstrs.length = tCoseParameterListMax then .error .tooManyParameters
    else .ok { list with tstrLabels := list.tstrs ++ [s] }
  | _ => .error .parameterCbor

/-- mirrors lib/ext/t_cose/src/t_cose_parameters.c:285-306 -/
def processUnknownParameter (ctx : DecodeContext) (unknownParameter : QcborItem)
    (unknownLabels : LabelList) : Except CoseErr (LabelList × Nat) × DecodeContext :=
  match addLabelToList unknownParameter unknownLabels with
  | .error e => (.error e, ctx)
  | .ok unknownLabels =>
    match consumeItem ctx unknownParameter with
    | (.error _, ctx) => (.error .cborNotWellFormed, ctx)
    | (.ok nextNestLevel, ctx) => (.ok (unknownLabels, nextNestLevel), ctx)

/-- The loop over the critical labels. -/
def criticalLoop : Nat → Nat → Nat → LabelList → DecodeContext →
    Except CoseErr (LabelList × Nat) × DecodeContext
  | fuel, arrayNestLevel, nextNestLevel, list, ctx =>
    if nextNestLevel > arrayNestLevel then
      match fuel with
      -- the input ends before the fuel does
      | 0 => (.error .cborNotWellFormed, ctx)
      | fuel + 1 =>
        match ctx.getNext with
        | (.error _, ctx) => (.error .cborNotWellFormed, ctx)
        | (.ok item, ctx) =>
          match item.val with
          | .int64 v =>
            if list.intLabels.length ≥ tCoseParameterListMax then (.error .critParameter, ctx)
            else criticalLoop fuel arrayNestLevel item.nextNestLevel
              { list with intLabels := list.intLabels ++ [v] } ctx
          | .textString s =>
            if list.tstrLabels.length ≥ tCoseParameterListMax then (.error .critParameter, ctx)
            else criticalLoop fuel arrayNestLevel item.nextNestLevel
              { list with tstrLabels := list.tstrLabels ++ [s] } ctx
          | _ => (.error .critParameter, ctx)
    else (.ok (list, nextNestLevel), ctx)

/-- mirrors lib/ext/t_cose/src/t_cose_parameters.c:153-218 -/
def decodeCriticalParameter (ctx : DecodeContext) (critParameterItem : QcborItem) :
    Except CoseErr (LabelList × Nat) × DecodeContext :=
  match critParameterItem.val with
  | .array _ =>
    match criticalLoop (ctx.inBuf.bytesUnconsumed + 1) critParameterItem.nestingLevel
        critParameterItem.nextNestLevel clearLabelList ctx with
    | (.error e, ctx) => (.error e, ctx)
    | (.ok (list, nextNestLevel), ctx) =>
      if isLabelListClear list then (.error .critParameter, ctx)
      else (.ok (list, nextNestLevel), ctx)
  | _ => (.error .critParameter, ctx)

def coseHeaderParamCrit : Int := 2

def coseHeaderParamIv : Int := 5

def coseHeaderParamPartialIv : Int := 6

/-- The parameters parsed so far; there are no critical labels to collect in the unprotected ones. -/
structure Parsed where
  parameters : Parameters
  criticalLabels : Option LabelList
  unknownLabels : LabelList
  nextNestLevel : Nat
  deriving DecidableEq, Repr

/-- The conversion to `int32_t`. -/
def toInt32 (v : Int) : Int := Int.bmod v (2 ^ 32)

def int32Max : Int := 2 ^ 31 - 1

/-- The algorithm, which has to be protected. -/
def algParameter (item : QcborItem) (st : Parsed) : Except CoseErr Parsed :=
  if st.criticalLabels = none then .error .parameterNotProtected
  else
    match item.val with
    | .int64 v =>
      if v = coseAlgorithmReserved ∨ v > int32Max then .error .nonIntegerAlgId
      else if st.parameters.coseAlgorithmId ≠ coseAlgorithmReserved then
        .error .duplicateParameter
      else .ok { st with parameters := { st.parameters with coseAlgorithmId := toInt32 v } }
    | _ => .error .nonIntegerAlgId

/-- A parameter that is a byte string and was not set before. -/
def bytesParameter (old : UsefulBufC) (item : QcborItem) : Except CoseErr UsefulBufC :=
  match item.val with
  | .byteString s => if isNullOrEmpty old then .ok s else .error .duplicateParameter
  | _ => .error .parameterCbor

/-- The labels that have to be understood, which have to be protected. -/
def critParameter (ctx : DecodeContext) (item : QcborItem) (st : Parsed) :
    Except CoseErr Parsed × DecodeContext :=
  match st.criticalLabels with
  | none => (.error .parameterNotProtected, ctx)
  | some list =>
    if isLabelListClear list then
      match decodeCriticalParameter ctx item with
      | (.error e, ctx) => (.error e, ctx)
      | (.ok (list, nextNestLevel), ctx) =>
        (.ok { st with criticalLabels := some list, nextNestLevel := nextNestLevel }, ctx)
    else (.error .duplicateParameter, ctx)

def unknownParameter (ctx : DecodeContext) (item : QcborItem) (st : Parsed) :
    Except CoseErr Parsed × DecodeContext :=
  match processUnknownParameter ctx item st.unknownLabels with
  | (.error e, ctx) => (.error e, ctx)
  | (.ok (unknownLabels, nextNestLevel), ctx) =>
    (.ok { st with unknownLabels := unknownLabels, nextNestLevel := nextNestLevel }, ctx)

/-- One turn of the loop over the map, for the item read; mirrors
lib/ext/t_cose/src/t_cose_parameters.c:425-560 -/
def parseParameter (ctx : DecodeContext) (item : QcborItem) (st : Parsed) :
    Except CoseErr Parsed × DecodeContext :=
  match item.label with
  | .int64 label =>
    let st := { st with nextNestLevel := item.nextNestLevel }
    let P := st.parameters
    if label = coseHeaderParamAlg then (algParameter item st, ctx)
    else if label = coseHeaderParamKid then
      ((bytesParameter P.kid item).map fun s => { st with parameters := { P with kid := s } }, ctx)
    else if label = coseHeaderParamIv then
      ((bytesParameter P.iv item).map fun s => { st with parameters := { P with iv := s } }, ctx)
    else if label = coseHeaderParamPartialIv then
      ((bytesParameter P.partialIv item).map
        fun s => { st with parameters := { P with partialIv := s } }, ctx)
    else if label = coseHeaderParamCrit then critParameter ctx item st
    else unknownParameter ctx item st
  | _ => unknownParameter ctx item st

def parseLoop : Nat → Nat → Parsed → DecodeContext → Except CoseErr Parsed × DecodeContext
  | fuel, mapNestLevel, st, ctx =>
    if st.nextNestLevel > mapNestLevel then
      match fuel with
      -- the input ends before the fuel does
      | 0 => (.error .cborNotWellFormed, ctx)
      | fuel + 1 =>
        match ctx.getNext with
        | (.error _, ctx) => (.error .cborNotWellFormed, ctx)
        | (.ok item, ctx) =>
          match parseParameter ctx item st with
          | (.error e, ctx) => (.error e, ctx)
          | (.ok st, ctx) => parseLoop fuel mapNestLevel st ctx
    else (.ok st, ctx)

/-- mirrors lib/ext/t_cose/src/t_cose_parameters.c:369-566 -/
def parseCoseHeaderParameters (ctx : DecodeContext) (criticalLabels : Option LabelList)
    (unknownLabels : LabelList) : Except CoseErr Parsed × DecodeContext :=
  let st : Parsed := ⟨clearCoseParameters, criticalLabels, unknownLabels, 0⟩
  match ctx.getNext with
  | (.error .noMoreItems, ctx) => (.ok st, ctx)
  | (.error _, ctx) => (.error .cborNotWellFormed, ctx)
  | (.ok item, ctx) =>
    match item.val with
    | .map _ =>
      parseLoop (ctx.inBuf.bytesUnconsumed + 1) item.nestingLevel
        { st with nextNestLevel := item.nextNestLevel } ctx
    | _ => (.error .parameterCbor, ctx)

/-- mirrors lib/ext/t_cose/src/t_cose_parameters.c:572-603 -/
def parseProtectedHeaderParameters (encodedProtectedParameters : UsefulBufC)
    (unknown : LabelList) : Except CoseErr Parsed :=
  match parseCoseHeaderParameters (decodeInit encodedProtectedParameters.contents .normal)
      (some clearLabelList) unknown with
  | (.error e, _) => .error e
  | (.ok st, ctx) => if ctx.finish ≠ .success then .error .cborNotWellFormed else .ok st

/-- mirrors lib/ext/t_cose/src/t_cose_parameters.c:609-618 -/
def parseUnprotectedHeaderParameters (ctx : DecodeContext) (unknownLabels : LabelList) :
    Except CoseErr Parsed × DecodeContext :=
  parseCoseHeaderParameters ctx none unknownLabels

/-- mirrors lib/ext/qcbor/src/UsefulBuf.c:85-96, where it says that there is no difference -/
def usefulBufEqual (a b : UsefulBufC) : Bool := a.len = b.len && a.contents = b.contents

/-- mirrors lib/ext/t_cose/src/t_cose_parameters.c:224-266 -/
def checkCriticalLabels (criticalLabels unknownLabels : LabelList) : Except CoseErr Unit :=
  if unknownLabels.ints.any fun u => criticalLabels.ints.any fun c => c = u then
    .error .unknownCriticalParameter
  else if unknownLabels.tstrs.any fun u => criticalLabels.tstrs.any fun c => usefulBufEqual c u then
    .error .unknownCriticalParameter
  else .ok ()

/-- One parameter that may be protected or not, but not both. -/
def mergeBytes (prot unprot : UsefulBufC) : Except CoseErr UsefulBufC :=
  if isNullOrEmpty prot then .ok unprot
  else if isNullOrEmpty unprot then .ok prot
  else .error .duplicateParameter

/-- mirrors lib/ext/t_cose/src/t_cose_parameters.c:624-706; the second part is what was copied -/
def checkAndCopyParameters (prot unprot : Parameters) : Except CoseErr Unit × Parameters :=
  let returned := unprot
  if prot.coseAlgorithmId ≠ coseAlgorithmReserved ∧
      unprot.coseAlgorithmId ≠ coseAlgorithmReserved then
    (.error .duplicateParameter, returned)
  else
    let returned :=
      if prot.coseAlgorithmId ≠ coseAlgorithmReserved then
        { returned with coseAlgorithmId := prot.coseAlgorithmId }
      else returned
    match mergeBytes prot.kid unprot.kid with
    | .error e => (.error e, returned)
    | .ok kid =>
      let returned := { returned with kid := kid }
      match mergeBytes prot.iv unprot.iv with
      | .error e => (.error e, returned)
      | .ok iv =>
        let returned := { returned with iv := iv }
        match mergeBytes prot.partialIv unprot.partialIv with
        | .error e => (.error e, returned)
        | .ok partialIv => (.ok (), { returned with partialIv := partialIv })

/-! ## The message -/

/-- mirrors lib/ext/t_cose/inc/t_cose_sign1_verify.h (`t_cose_sign1_verify_ctx`); the flags are
`T_COSE_OPT_TAG_REQUIRED`, `T_COSE_OPT_REQUIRE_KID` and `T_COSE_OPT_DECODE_ONLY` -/
structure Sign1VerifyCtx where
  tagRequired : Bool
  requireKid : Bool
  decodeOnly : Bool
  verificationKey : Nat
  deriving DecidableEq, Repr

/-- What is returned, and what is left in `*payload` and `*parameters`. -/
structure Verified where
  status : Except CoseErr Unit
  payload : UsefulBufC
  parameters : Option Parameters
  deriving DecidableEq, Repr

/-- An error, or anything but a byte string, is the same to the caller. -/
def nextByteString (ctx : DecodeContext) : Option (UsefulBufC × DecodeContext) :=
  match ctx.getNext with
  | (.ok item, ctx) =>
    match item.val with
    | .byteString s => some (s, ctx)
    | _ => none
  | _ => none

/-- The hash of what is to be signed, and what the key says about the signature. -/
def checkSignature (crypto : Crypto) (me : Sign1VerifyCtx) (coseAlgorithmId : Int)
    (protectedParameters payload signature : UsefulBufC) : Except CoseErr Unit :=
  match createTbsHash crypto coseAlgorithmId protectedParameters .barePayload payload
      tCoseCryptoMaxHashSize with
  | .error e => .error e
  | .ok tbsHash =>
    tCoseCryptoPubKeyVerify crypto coseAlgorithmId me.verificationKey tbsHash signature.contents

/-- The last three members, once the parameters are known. -/
def verifyRest (crypto : Crypto) (me : Sign1VerifyCtx) (coseAlgorithmId : Int)
    (protectedParameters : UsefulBufC) (parameters : Parameters) (ctx : DecodeContext) : Verified :=
  match nextByteString ctx with
  | none => ⟨.error .sign1Format, nullUsefulBufC, some parameters⟩
  | some (payload, ctx) =>
    match nextByteString ctx with
    | none => ⟨.error .sign1Format, payload, some parameters⟩
    | some (signature, ctx) =>
      if ctx.finish ≠ .success then ⟨.error .cborNotWellFormed, payload, some parameters⟩
      else if me.decodeOnly then ⟨.ok (), payload, some parameters⟩
      else ⟨checkSignature crypto me coseAlgorithmId protectedParameters payload signature, payload,
        some parameters⟩

/-- mirrors lib/ext/t_cose/src/t_cose_sign1_verify.c:69-241 -/
def tCoseSign1Verify (crypto : Crypto) (me : Sign1VerifyCtx) (coseSign1 : List UInt8) : Verified :=
  let failed := fun e => (⟨.error e, nullUsefulBufC, none⟩ : Verified)
  match (decodeInit coseSign1 .normal).getNext with
  | (.error _, _) => failed .sign1Format
  | (.ok item, ctx) =>
    match item.val with
    | .array _ =>
      if me.tagRequired && !isTagged item cborTagCoseSign1 then failed .incorrectlyTagged
      else
        match nextByteString ctx with
        | none => failed .sign1Format
        | some (protectedParameters, ctx) =>
          match parseProtectedHeaderParameters protectedParameters clearLabelList with
          | .error e => failed e
          | .ok prot =>
            match parseUnprotectedHeaderParameters ctx prot.unknownLabels with
            | (.error e, _) => failed e
            | (.ok unprot, ctx) =>
              if me.requireKid && unprot.parameters.kid.ptr.isNone then failed .noKid
              else
                match checkCriticalLabels (prot.criticalLabels.getD clearLabelList)
                    unprot.unknownLabels with
                | .error e => failed e
                | .ok () =>
                  match checkAndCopyParameters prot.parameters unprot.parameters with
                  | (.error e, parameters) => ⟨.error e, nullUsefulBufC, some parameters⟩
                  | (.ok (), parameters) =>
                    verifyRest crypto me prot.parameters.coseAlgorithmId protectedParameters
                      parameters ctx
    | _ => failed .sign1Format

/-! ## A message in the shortest encoding -/

theorem depth_bytes (b : List UInt8) : (Item.bytes b).depth = 0 := rfl

theorem decodable_bytes {b : List UInt8} (h : b.length ≤ sizeMax - 4) : Decodable (.bytes b) := h

theorem nextByteString_amid {nesting : List DecodeNest} (hn : Definite nesting)
    (hmap : typeIsMap nesting = false) (hdepth : nesting.length ≤ qcborMaxArrayNesting)
    {b : List UInt8} (hb : b.length ≤ sizeMax - 4) (front back : List UInt8) :
    nextByteString (.amid front (encode (.bytes b) ++ back) nesting) =
      some (ofBytes b, .amid (front ++ encode (.bytes b)) back (decrementCount nesting)) := by
  have hnext := getNext_opening (decodable_bytes hb) (.plain hmap) hn
    (by rw [depth_bytes]; exact hdepth) front back
  rw [List.nil_append] at hnext
  unfold nextByteString
  rw [show encode (.bytes b) = opening (.bytes b) from rfl, hnext]
  rfl

/-- What the verifier takes for the key id. -/
def parsedKid (kid : UsefulBufC) : UsefulBufC :=
  if isNullOrEmpty kid then nullUsefulBufC else ofBytes kid.contents

def unprotectedParameters (kid : UsefulBufC) : Parameters :=
  { clearCoseParameters with kid := parsedKid kid }

theorem parseLoop_done {fuel mapNestLevel : Nat} {st : Parsed} {ctx : DecodeContext}
    (h : st.nextNestLevel ≤ mapNestLevel) : parseLoop fuel mapNestLevel st ctx = (.ok st, ctx) := by
  unfold parseLoop
  rw [if_neg (Nat.not_lt.2 h)]

/-- The members of the message that are still to come. -/
def toCome (n : Nat) : List DecodeNest := [⟨.array, n⟩]

theorem definite_toCome {n : Nat} (h : n + 1 ≤ qcborMaxItemsInArray) : Definite (toCome (n + 1)) :=
  definite_cons (fun n hn => by cases hn) h

theorem getNext_map {kvs : List (Item × Item)} (h : Decodable (.map kvs)) {n : Nat}
    (hn : Definite (toCome n)) (hdepth : (Item.map kvs).depth ≤ 14) (front back : List UInt8) :
    (DecodeContext.amid front (encode (.map kvs) ++ back) (toCome n)).getNext =
      (.ok (visit .none (.map kvs) (toCome n)), .amid (front ++ opening (.map kvs))
        (encodePairs kvs ++ back) (entered (toCome n) (.map kvs.length))) := by
  have hd : (toCome n).length + (Item.map kvs).depth ≤ qcborMaxArrayNesting := by
    simp only [toCome, List.length_singleton, qcborMaxArrayNesting]
    omega
  have hnext := getNext_opening h (.plain rfl) hn hd front (encodePairs kvs ++ back)
  rw [List.nil_append] at hnext
  rw [encode, List.append_assoc]
  exact hnext

/-- The map of the unprotected parameters, if the key has a name. -/
def kidPairs (kid : List UInt8) : List (Item × Item) := [(.uint coseHeaderParamKid, .bytes kid)]

theorem decodable_kidPairs {kid : List UInt8} (h : kid.length ≤ sizeMax - 4) :
    Decodable (.map (kidPairs kid)) :=
  ⟨Nat.le_of_ble_eq_true rfl, trivial, (by decide : coseHeaderParamKid < 256 ^ 8), h, trivial⟩

/-- The entry of the key's name, in the map. -/
def kidItem (kid : List UInt8) : QcborItem :=
  visit (labelOf (.uint coseHeaderParamKid)) (.bytes kid) (⟨.map, 1⟩ :: toCome 3)

theorem getNext_kid {kid : List UInt8} (hkid : kid.length ≤ sizeMax - 4) (front back : List UInt8) :
    (DecodeContext.amid front (encodePairs (kidPairs kid) ++ back) (⟨.map, 1⟩ :: toCome 3)).getNext =
      (.ok (kidItem kid), .amid (front ++ encodePairs (kidPairs kid)) back (toCome 2)) := by
  have hone : Definite (⟨.map, 1⟩ :: toCome 3) :=
    definite_cons (definite_toCome (by decide)) (by decide)
  have hlabel : Decodable (.uint coseHeaderParamKid) := (by decide : coseHeaderParamKid < 256 ^ 8)
  have hentry : Entry (⟨.map, 1⟩ :: toCome 3) (labelOf (.uint coseHeaderParamKid))
      (encode (.uint coseHeaderParamKid)) := .labelled rfl trivial hlabel
  have hbytes : encodePairs (kidPairs kid) =
      encode (.uint coseHeaderParamKid) ++ opening (.bytes kid) := by
    simp [kidPairs, encodePairs, encode, opening]
  rw [hbytes, List.append_assoc]
  exact getNext_opening (decodable_bytes hkid) hentry hone (by rw [depth_bytes]; decide) front back

/-- In the map there is only the key's name. -/
theorem parseLoop_kid {kid : List UInt8} (hkid : kid.length ≤ sizeMax - 4) (unknown : LabelList)
    (fuel : Nat) (front back : List UInt8) :
    parseLoop (fuel + 1) 1 ⟨clearCoseParameters, none, unknown, 2⟩
        (.amid front (encodePairs (kidPairs kid) ++ back) (⟨.map, 1⟩ :: toCome 3)) =
      (.ok ⟨{ clearCoseParameters with kid := ofBytes kid }, none, unknown, 1⟩,
        .amid (front ++ encodePairs (kidPairs kid)) back (toCome 2)) := by
  unfold parseLoop
  rw [if_pos Nat.one_lt_two, getNext_kid hkid]
  exact parseLoop_done (Nat.le_refl 1)

theorem parse_unprotected (kid : UsefulBufC) (hkid : kid.contents.length ≤ sizeMax - 4)
    (unknown : LabelList) (front back : List UInt8) :
    parseUnprotectedHeaderParameters
        (.amid front (encode (unprotectedItem kid) ++ back) (toCome 3)) unknown =
      (.ok ⟨unprotectedParameters kid, none, unknown, 1⟩,
        .amid (front ++ encode (unprotectedItem kid)) back (toCome 2)) := by
  have hthree : Definite (toCome 3) := definite_toCome (by decide)
  unfold parseUnprotectedHeaderParameters parseCoseHeaderParameters unprotectedItem
    unprotectedParameters parsedKid
  by_cases hnone : isNullOrEmpty kid = true
  · -- the map is empty, and the loop is not entered
    have hempty : Decodable (.map []) := ⟨Nat.zero_le _, trivial⟩
    rw [if_pos hnone, if_pos hnone, getNext_map hempty hthree (by decide)]
    exact parseLoop_done (Nat.le_refl 1)
  · rw [if_neg hnone, if_neg hnone, ← kidPairs, getNext_map (decodable_kidPairs hkid) hthree
      (by simp [kidPairs, Item.depth, depthPairs])]
    rw [encode, ← List.append_assoc front]
    exact parseLoop_kid hkid unknown _ _ _

theorem parse_protected : parseProtectedHeaderParameters (ofBytes protectedBytes) clearLabelList =
    .ok ⟨{ clearCoseParameters with coseAlgorithmId := coseAlgorithmEs256 }, some clearLabelList,
      clearLabelList, 0⟩ := by
  decide

/-- The members of the message, in their order. -/
theorem members_sign1Item (omitCborTag : Bool) (kid : UsefulBufC) (payload signature : List UInt8) :
    members (sign1Item omitCborTag kid payload signature) =
      encode (.bytes protectedBytes) ++ (encode (unprotectedItem kid) ++
        (encode (.bytes payload) ++ (encode (.bytes signature) ++ []))) := by
  cases omitCborTag <;> rfl

theorem depth_unprotected (kid : UsefulBufC) : (unprotectedItem kid).depth = 1 := by
  unfold unprotectedItem
  split_ifs <;> rfl

theorem depth_sign1Item (omitCborTag : Bool) (kid : UsefulBufC) (payload signature : List UInt8) :
    (sign1Item omitCborTag kid payload signature).depth = 2 := by
  cases omitCborTag <;>
    simp [sign1Item, untagged, Item.depth, depthAll, depth_unprotected]

theorem decodable_unprotected {kid : UsefulBufC} (h : kid.contents.length ≤ sizeMax - 4) :
    Decodable (unprotectedItem kid) := by
  unfold unprotectedItem
  split_ifs
  · exact ⟨Nat.zero_le _, trivial⟩
  · exact decodable_kidPairs h

section Message

variable {kid : UsefulBufC} {payload signature : List UInt8}

theorem decodable_sign1Item (omitCborTag : Bool) (hkid : kid.contents.length ≤ sizeMax - 4)
    (hpayload : payload.length ≤ sizeMax - 4) (hsig : signature.length ≤ sizeMax - 4) :
    Decodable (sign1Item omitCborTag kid payload signature) := by
  have hprot : Decodable (.bytes protectedBytes) :=
    decodable_bytes (by decide : protectedBytes.length ≤ sizeMax - 4)
  have hmembers : Decodable (untagged kid payload signature) :=
    ⟨Nat.le_of_ble_eq_true rfl, hprot, decodable_unprotected hkid, hpayload, hsig, trivial⟩
  cases omitCborTag with
  | true => exact hmembers
  | false => exact ⟨by decide, by decide, hmembers⟩

/-- The array of four, with its tag. -/
theorem getNext_sign1 (omitCborTag : Bool) (hkid : kid.contents.length ≤ sizeMax - 4)
    (hpayload : payload.length ≤ sizeMax - 4) (hsig : signature.length ≤ sizeMax - 4) :
    (decodeInit (encode (sign1Item omitCborTag kid payload signature)) .normal).getNext =
      (.ok (visit .none (sign1Item omitCborTag kid payload signature) []),
        .amid (opening (sign1Item omitCborTag kid payload signature))
          (encode (.bytes protectedBytes) ++ (encode (unprotectedItem kid) ++
            (encode (.bytes payload) ++ (encode (.bytes signature) ++ [])))) (toCome 4)) := by
  have hnone : Definite [] := fun n hn => absurd hn List.not_mem_nil
  have hnext := getNext_opening (decodable_sign1Item omitCborTag hkid hpayload hsig)
    (Entry.plain rfl) hnone (by rw [depth_sign1Item]; decide) []
    (members (sign1Item omitCborTag kid payload signature))
  rw [encode_eq (sign1Item omitCborTag kid payload signature),
    ← members_sign1Item omitCborTag]
  refine hnext.trans ?_
  cases omitCborTag <;> rfl

/-- What the key says about a signature of the payload. -/
def verdictOf (crypto : Crypto) (verificationKey : Nat) (payload signature : List UInt8) :
    Except CoseErr Unit :=
  match hashSigStructure crypto protectedBytes payload tCoseCryptoMaxHashSize with
  | .error e => .error e
  | .ok tbsHash =>
    tCoseCryptoPubKeyVerify crypto coseAlgorithmEs256 verificationKey tbsHash signature

/-- The parameters that are returned. -/
def messageParameters (kid : UsefulBufC) : Parameters :=
  { unprotectedParameters kid with coseAlgorithmId := coseAlgorithmEs256 }

theorem checkSignature_eq {crypto : Crypto} (hcat : crypto.Concat) (me : Sign1VerifyCtx)
    (hpayload : payload.length ≤ sizeMax - 4) :
    checkSignature crypto me coseAlgorithmEs256 (ofBytes protectedBytes) (ofBytes payload)
        (ofBytes signature) = verdictOf crypto me.verificationKey payload signature := by
  have hsize : (ofBytes payload).len < 256 ^ 8 :=
    Nat.lt_of_le_of_lt hpayload (by decide)
  have hroom := room_tbs (readable_ofBytes _ protectedBytes) (by decide)
    (length_head_le 2 (ofBytes payload).len)
  have htbs := createTbsHash_bare hcat (readable_ofBytes _ protectedBytes)
    (readable_ofBytes _ payload) (room_lt hroom) hsize tCoseCryptoMaxHashSize
  unfold checkSignature verdictOf
  rw [htbs, if_neg (Nat.not_lt.2 hroom), contents_ofBytes, contents_ofBytes, contents_ofBytes]

/-- The payload and the signature, and the end of the message. -/
theorem verifyRest_eq {crypto : Crypto} (hcat : crypto.Concat) (me : Sign1VerifyCtx)
    (parameters : Parameters) (hpayload : payload.length ≤ sizeMax - 4)
    (hsig : signature.length ≤ sizeMax - 4) (front : List UInt8) :
    verifyRest crypto me coseAlgorithmEs256 (ofBytes protectedBytes) parameters
        (.amid front (encode (.bytes payload) ++ (encode (.bytes signature) ++ [])) (toCome 2)) =
      ⟨if me.decodeOnly then .ok () else verdictOf crypto me.verificationKey payload signature,
        ofBytes payload, some parameters⟩ := by
  unfold verifyRest
  rw [nextByteString_amid (definite_toCome (by decide)) rfl (by decide) hpayload]
  simp only
  rw [show decrementCount (toCome 2) = toCome 1 from rfl,
    nextByteString_amid (definite_toCome (by decide)) rfl (by decide) hsig]
  simp only
  rw [show decrementCount (toCome 1) = [] from rfl, finish_end]
  simp only [ne_eq, not_true, if_false]
  rw [checkSignature_eq hcat me hpayload]
  split_ifs <;> rfl

theorem isTagged_sign1 (omitCborTag : Bool) :
    isTagged (visit .none (sign1Item omitCborTag kid payload signature) []) cborTagCoseSign1 =
      !omitCborTag := by
  have hset : decide (tagBit cborTagCoseSign1 &&& (tagBit cborTagCoseSign1 ||| 0) ≠ 0) = true := by
    decide
  have hclear : decide (tagBit cborTagCoseSign1 &&& 0 ≠ 0) = false := by decide
  cases omitCborTag with
  | false => exact hset
  | true => exact hclear

theorem val_sign1 (omitCborTag : Bool) :
    (visit .none (sign1Item omitCborTag kid payload signature) []).val = .array 4 := by
  cases omitCborTag <;> rfl

/-- The parser has a key id if there is one in the message. -/
theorem kid_isNone (kid : UsefulBufC) :
    (unprotectedParameters kid).kid.ptr.isNone = isNullOrEmpty kid := by
  unfold unprotectedParameters parsedKid
  split_ifs with hnone
  · exact hnone.symm
  · exact (Bool.not_eq_true _ ▸ hnone).symm

/-- **A message in the shortest encoding is taken apart whatever it holds, and accepted if the key
accepts its signature.** -/
theorem verify_message {crypto : Crypto} (hcat : crypto.Concat) (me : Sign1VerifyCtx)
    (omitCborTag : Bool) (hkid : kid.contents.length ≤ sizeMax - 4)
    (hpayload : payload.length ≤ sizeMax - 4) (hsig : signature.length ≤ sizeMax - 4) :
    tCoseSign1Verify crypto me (encode (sign1Item omitCborTag kid payload signature)) =
      if me.tagRequired && omitCborTag then ⟨.error .incorrectlyTagged, nullUsefulBufC, none⟩
      else if me.requireKid && isNullOrEmpty kid then ⟨.error .noKid, nullUsefulBufC, none⟩
      else
        ⟨if me.decodeOnly then .ok () else verdictOf crypto me.verificationKey payload signature,
          ofBytes payload, some (messageParameters kid)⟩ := by
  have htag : isTagged (visit .none (sign1Item omitCborTag kid payload signature) [])
      cborTagCoseSign1 = !omitCborTag := isTagged_sign1 omitCborTag
  have hprot : protectedBytes.length ≤ sizeMax - 4 := by decide
  unfold tCoseSign1Verify
  rw [getNext_sign1 omitCborTag hkid hpayload hsig]
  simp only [val_sign1, htag, Bool.not_not]
  by_cases hrequired : (me.tagRequired && omitCborTag) = true
  · rw [if_pos hrequired, if_pos hrequired]
  · rw [if_neg hrequired, if_neg hrequired,
      nextByteString_amid (definite_toCome (by decide)) rfl (by decide) hprot]
    simp only [parse_protected]
    rw [show decrementCount (toCome 4) = toCome 3 from rfl, parse_unprotected kid hkid]
    simp only [kid_isNone]
    by_cases hnokid : (me.requireKid && isNullOrEmpty kid) = true
    · rw [if_pos hnokid, if_pos hnokid]
    · rw [if_neg hnokid, if_neg hnokid]
      exact verifyRest_eq hcat me _ hpayload hsig _

end Message

/-! ## What was signed -/

/-- A key of the verifier's that goes with the signer's. -/
structure Accepts (signer : Crypto) (signingKey : Nat) (verifier : Crypto) (verificationKey : Nat) :
    Prop where
  concat : verifier.Concat
  hash : ∀ parts n, verifier.hash .sha256 parts n = signer.hash .sha256 parts n
  verify : ∀ hash n b, signer.signHash signingKey .ecdsaSha256 hash n = .ok b →
    verifier.verifyHash verificationKey .ecdsaSha256 hash b = .ok ()

/-- Both sides hash the same bytes. -/
theorem verdict_signed {signer verifier : Crypto} {signingKey verificationKey : Nat}
    (hkeys : Accepts signer signingKey verifier verificationKey) {mem payload : List UInt8}
    {signature : UsefulBufC}
    (h : signatureOf signer signingKey (some mem) payload = .ok signature) :
    ∃ b, signature = ofBytes b ∧ verdictOf verifier verificationKey payload b = .ok () := by
  have halg : coseAlgIdToPsaAlgId coseAlgorithmEs256 = .ecdsaSha256 := rfl
  have hsame : hashSigStructure verifier protectedBytes payload tCoseCryptoMaxHashSize =
      hashSigStructure signer protectedBytes payload tCoseCryptoMaxHashSize := by
    rw [hashSigStructure, hashSigStructure, hkeys.hash]
  unfold signatureOf at h
  simp only at h
  split at h
  · cases h
  · rename_i tbsHash hhash
    obtain ⟨b, hsigned, rfl⟩ := exists_of_map_ok h
    refine ⟨b, rfl, ?_⟩
    unfold tCoseCryptoPubKeySign at hsigned
    rw [halg, if_neg (fun hne => hne rfl)] at hsigned
    unfold verdictOf tCoseCryptoPubKeyVerify
    rw [hsame, hhash]
    simp only
    rw [halg, if_neg (fun hne => hne rfl), hkeys.verify _ _ _ (ok_of_mapError hsigned)]
    rfl

/-! ## What is read -/

theorem getNext_reads (ctx : DecodeContext) : ctx.inBuf.Reads ctx.getNext.2.inBuf :=
  (getNext_keeps ctx).reads

theorem consumeLoop_reads (fuel : Nat) : ∀ (level : Nat) (ctx : DecodeContext),
    ctx.inBuf.Reads (consumeLoop fuel level ctx).2.inBuf := by
  induction fuel with
  | zero => intro level ctx; exact .refl _
  | succ fuel ih =>
    intro level ctx
    have hread := getNext_reads ctx
    unfold consumeLoop
    split
    · rename_i e ctx' heq
      rw [heq] at hread
      exact hread
    · rename_i item ctx' heq
      rw [heq] at hread
      split_ifs
      · exact hread.trans (ih level ctx')
      · exact hread

theorem processUnknownParameter_reads (ctx : DecodeContext) (item : QcborItem) (list : LabelList) :
    ctx.inBuf.Reads (processUnknownParameter ctx item list).2.inBuf := by
  have hconsume : ctx.inBuf.Reads (consumeItem ctx item).2.inBuf := by
    unfold consumeItem
    split
    · exact consumeLoop_reads _ _ ctx
    · exact consumeLoop_reads _ _ ctx
    · exact .refl _
  unfold processUnknownParameter
  split
  · exact .refl _
  · split
    all_goals
      rename_i heq
      rw [heq] at hconsume
      exact hconsume

theorem unknownParameter_reads (ctx : DecodeContext) (item : QcborItem) (st : Parsed) :
    ctx.inBuf.Reads (unknownParameter ctx item st).2.inBuf := by
  have hread := processUnknownParameter_reads ctx item st.unknownLabels
  unfold unknownParameter
  split
  all_goals
    rename_i heq
    rw [heq] at hread
    exact hread

theorem criticalLoop_reads (fuel : Nat) : ∀ (arrayNestLevel nextNestLevel : Nat) (list : LabelList)
    (ctx : DecodeContext),
    ctx.inBuf.Reads (criticalLoop fuel arrayNestLevel nextNestLevel list ctx).2.inBuf := by
  induction fuel with
  | zero =>
    intro arrayNestLevel nextNestLevel list ctx
    unfold criticalLoop
    split
    · exact .refl _
    · exact .refl _
  | succ fuel ih =>
    intro arrayNestLevel nextNestLevel list ctx
    have hread := getNext_reads ctx
    unfold criticalLoop
    split
    · simp only
      split
      · rename_i e ctx' heq
        rw [heq] at hread
        exact hread
      · rename_i item ctx' heq
        rw [heq] at hread
        split
        · split_ifs
          · exact hread
          · exact hread.trans (ih ..)
        · split_ifs
          · exact hread
          · exact hread.trans (ih ..)
        · exact hread
    · exact .refl _

theorem critParameter_reads (ctx : DecodeContext) (item : QcborItem) (st : Parsed) :
    ctx.inBuf.Reads (critParameter ctx item st).2.inBuf := by
  have hread : ctx.inBuf.Reads (decodeCriticalParameter ctx item).2.inBuf := by
    have hloop := criticalLoop_reads (ctx.inBuf.bytesUnconsumed + 1) item.nestingLevel
      item.nextNestLevel clearLabelList ctx
    unfold decodeCriticalParameter
    split
    · split
      · rename_i heq
        rw [heq] at hloop
        exact hloop
      · rename_i heq
        rw [heq] at hloop
        split_ifs
        · exact hloop
        · exact hloop
    · exact .refl _
  unfold critParameter
  split
  · exact .refl _
  · split_ifs
    · split
      all_goals
        rename_i heq
        rw [heq] at hread
        exact hread
    · exact .refl _

theorem parseParameter_reads (ctx : DecodeContext) (item : QcborItem) (st : Parsed) :
    ctx.inBuf.Reads (parseParameter ctx item st).2.inBuf := by
  unfold parseParameter
  split
  · simp only
    split_ifs
    · exact .refl _
    · exact .refl _
    · exact .refl _
    · exact .refl _
    · exact critParameter_reads _ _ _
    · exact unknownParameter_reads _ _ _
  · exact unknownParameter_reads _ _ _

theorem parseLoop_reads (fuel : Nat) : ∀ (mapNestLevel : Nat) (st : Parsed) (ctx : DecodeContext),
    ctx.inBuf.Reads (parseLoop fuel mapNestLevel st ctx).2.inBuf := by
  induction fuel with
  | zero =>
    intro mapNestLevel st ctx
    unfold parseLoop
    split_ifs
    · exact .refl _
    · exact .refl _
  | succ fuel ih =>
    intro mapNestLevel st ctx
    have hread := getNext_reads ctx
    unfold parseLoop
    split
    · simp only
      split
      · rename_i e ctx' heq
        rw [heq] at hread
        exact hread
      · rename_i item ctx' heq
        rw [heq] at hread
        have hparse := parseParameter_reads ctx' item st
        split
        · rename_i heq'
          rw [heq'] at hparse
          exact hread.trans hparse
        · rename_i heq'
          rw [heq'] at hparse
          exact (hread.trans hparse).trans (ih ..)
    · exact .refl _

theorem parseUnprotected_reads (ctx : DecodeContext) (unknown : LabelList) :
    ctx.inBuf.Reads (parseUnprotectedHeaderParameters ctx unknown).2.inBuf := by
  have hread := getNext_reads ctx
  unfold parseUnprotectedHeaderParameters parseCoseHeaderParameters
  simp only
  split
  · rename_i heq
    rw [heq] at hread
    exact hread
  · rename_i heq
    rw [heq] at hread
    exact hread
  · rename_i heq
    rw [heq] at hread
    split
    · exact hread.trans (parseLoop_reads ..)
    · exact hread

theorem nextByteString_took {ctx ctx' : DecodeContext} {s : UsefulBufC}
    (h : nextByteString ctx = some (s, ctx')) :
    ctx.inBuf.Reads ctx'.inBuf ∧ ctx.inBuf.Took ctx'.inBuf s := by
  have hread := getNext_reads ctx
  have htook := getNext_takes ctx
  unfold nextByteString at h
  split at h
  · rename_i item ctx₁ heq
    rw [heq] at hread
    split at h
    · rename_i t hval
      cases h
      refine ⟨hread, htook item ctx' heq s ?_⟩
      simp [QcborItem.strings, hval, Val.strings]
    · cases h
  · cases h

/-! ## Enough fuel

The loops are given one more than the length of what is left of the message. More changes
nothing. -/

theorem next_lt {ctx ctx' : DecodeContext} {item : QcborItem}
    (h : ctx.getNext = (.ok item, ctx')) (hin : ctx.inBuf.cursor ≤ ctx.inBuf.ub.length) :
    ctx'.inBuf.bytesUnconsumed < ctx.inBuf.bytesUnconsumed ∧
      ctx'.inBuf.cursor ≤ ctx'.inBuf.ub.length := by
  have hkeep := getNext_keeps ctx
  rw [h] at hkeep
  exact hkeep.toSteps.lt hin

theorem consumeLoop_fuel : ∀ (fuel fuel' level : Nat) (ctx : DecodeContext),
    ctx.inBuf.cursor ≤ ctx.inBuf.ub.length → ctx.inBuf.bytesUnconsumed < fuel →
    ctx.inBuf.bytesUnconsumed < fuel' →
    consumeLoop fuel level ctx = consumeLoop fuel' level ctx := by
  intro fuel
  induction fuel with
  | zero => intro fuel' level ctx hin h h'; exact absurd h (Nat.not_lt_zero _)
  | succ fuel ih =>
    intro fuel' level ctx hin h h'
    obtain ⟨k, rfl⟩ : ∃ k, fuel' = k + 1 := ⟨fuel' - 1, by omega⟩
    unfold consumeLoop
    split
    · rfl
    · rename_i item ctx' heq
      obtain ⟨hlt, hin'⟩ := next_lt heq hin
      rw [ih k level ctx' hin' (by omega) (by omega)]

theorem criticalLoop_fuel : ∀ (fuel fuel' arrayNestLevel nextNestLevel : Nat) (list : LabelList)
    (ctx : DecodeContext), ctx.inBuf.cursor ≤ ctx.inBuf.ub.length →
    ctx.inBuf.bytesUnconsumed < fuel → ctx.inBuf.bytesUnconsumed < fuel' →
    criticalLoop fuel arrayNestLevel nextNestLevel list ctx =
      criticalLoop fuel' arrayNestLevel nextNestLevel list ctx := by
  intro fuel
  induction fuel with
  | zero => intro fuel' _ _ list ctx hin h h'; exact absurd h (Nat.not_lt_zero _)
  | succ fuel ih =>
    intro fuel' arrayNestLevel nextNestLevel list ctx hin h h'
    obtain ⟨k, rfl⟩ : ∃ k, fuel' = k + 1 := ⟨fuel' - 1, by omega⟩
    unfold criticalLoop
    simp only
    cases hnext : ctx.getNext with
    | mk r ctx' =>
      cases r with
      | error e => rfl
      | ok item =>
        obtain ⟨hlt, hin'⟩ := next_lt hnext hin
        simp only [fun n list => ih k arrayNestLevel n list ctx' hin' (by omega) (by omega)]

theorem parseLoop_fuel : ∀ (fuel fuel' mapNestLevel : Nat) (st : Parsed) (ctx : DecodeContext),
    ctx.inBuf.cursor ≤ ctx.inBuf.ub.length → ctx.inBuf.bytesUnconsumed < fuel →
    ctx.inBuf.bytesUnconsumed < fuel' →
    parseLoop fuel mapNestLevel st ctx = parseLoop fuel' mapNestLevel st ctx := by
  intro fuel
  induction fuel with
  | zero => intro fuel' _ st ctx hin h h'; exact absurd h (Nat.not_lt_zero _)
  | succ fuel ih =>
    intro fuel' mapNestLevel st ctx hin h h'
    obtain ⟨k, rfl⟩ : ∃ k, fuel' = k + 1 := ⟨fuel' - 1, by omega⟩
    unfold parseLoop
    simp only
    cases hnext : ctx.getNext with
    | mk r ctx' =>
      cases r with
      | error e => rfl
      | ok item =>
        obtain ⟨hlt, hin'⟩ := next_lt hnext hin
        have hread := parseParameter_reads ctx' item st
        cases hparse : parseParameter ctx' item st with
        | mk r' ctx₂ =>
          rw [hparse] at hread
          have hin₂ := hread.inside hin'
          have hle := hread.le
          simp only at hin₂ hle
          rw [bytesUnconsumed_eq] at hlt
          cases r' with
          | error e => simp only [hparse]
          | ok st' =>
            have hless : ctx₂.inBuf.bytesUnconsumed < ctx.inBuf.bytesUnconsumed := by
              rw [bytesUnconsumed_eq, hread.ub]
              omega
            simp only [hparse]
            rw [ih k mapNestLevel st' ctx₂ (by rw [hread.ub]; exact hin₂) (by omega) (by omega)]

/-! ## Accepted messages -/

/-- The list between two places, with a piece of it. -/
theorem drop_eq_piece {α : Type} (l : List α) {lo i : Nat} (h : lo ≤ i) (n : Nat) :
    l.drop lo = (l.drop lo).take (i - lo) ++ ((l.drop i).take n ++ l.drop (i + n)) := by
  have hgap := List.take_append_drop (i - lo) (l.drop lo)
  have hpiece := List.take_append_drop n (l.drop i)
  rw [List.drop_drop, Nat.add_sub_cancel' h] at hgap
  rw [List.drop_drop] at hpiece
  rw [hpiece, hgap]

/-- Three strings that were read one after another. -/
theorem three_pieces {a b c d e f : InputBuf} {s t u : UsefulBufC} (hs : a.Took b s)
    (hbc : b.Reads c) (ht : c.Took d t) (hde : d.Reads e) (hu : e.Took f u)
    (hac : a.Reads c) (hae : a.Reads e) :
    ∃ x₁ p x₂ q x₃ r x₄, a.ub = x₁ ++ (p ++ (x₂ ++ (q ++ (x₃ ++ (r ++ x₄))))) ∧ s = ofBytes p ∧
      t = ofBytes q ∧ u = ofBytes r := by
  obtain ⟨i, hi, hib, hs⟩ := hs
  obtain ⟨j, hj, hjd, ht⟩ := ht
  obtain ⟨k, hk, hkf, hu⟩ := hu
  have hij : i + s.len ≤ j := Nat.le_trans hib (Nat.le_trans hbc.le hj)
  have hjk : j + t.len ≤ k := Nat.le_trans hjd (Nat.le_trans hde.le hk)
  rw [hac.ub] at ht
  rw [hae.ub] at hu
  have hfirst := drop_eq_piece a.ub (Nat.zero_le i) s.len
  rw [drop_eq_piece a.ub hij t.len, drop_eq_piece a.ub hjk u.len] at hfirst
  exact ⟨_, _, _, _, _, _, _, hfirst, hs, ht, hu⟩

theorem length_tbsFront_le (p : List UInt8) : (tbsFront p).length ≤ p.length + 22 := by
  have hp := length_head_le 2 p.length
  have harray : (head 4 4).length = 1 := rfl
  have htext : (head 3 10 ++ coseSigContextStringSignature1).length = 11 := rfl
  have haad : (head 2 0).length = 1 := rfl
  simp only [tbsFront, List.length_append] at htext ⊢
  omega

/-- The signature is checked with the only algorithm there is, over the `Sig_structure`. -/
theorem checkSignature_ok {crypto : Crypto} (hcat : crypto.Concat) {me : Sign1VerifyCtx} {alg : Int}
    {p payload : List UInt8} {signature : UsefulBufC} (hp : p.length + 100 < qcborMaxArrayOffset)
    (hpayload : payload.length < 256 ^ 8)
    (h : checkSignature crypto me alg (ofBytes p) (ofBytes payload) signature = .ok ()) :
    alg = coseAlgorithmEs256 ∧ ∃ tbsHash,
      hashSigStructure crypto p payload tCoseCryptoMaxHashSize = .ok tbsHash ∧
      crypto.verifyHash me.verificationKey .ecdsaSha256 tbsHash signature.contents = .ok () := by
  unfold checkSignature at h
  split at h
  · cases h
  · rename_i tbsHash htbs
    unfold tCoseCryptoPubKeyVerify coseAlgIdToPsaAlgId at h
    by_cases halg : alg = coseAlgorithmEs256
    · subst halg
      rw [if_pos rfl, if_neg (fun hne => hne rfl)] at h
      have hoff : (tbsFront (ofBytes p).contents ++ head 2 (ofBytes payload).len).length <
          qcborMaxArrayOffset := by
        have hlast := length_head_le 2 (ofBytes payload).len
        have hfront := length_tbsFront_le p
        rw [contents_ofBytes, List.length_append]
        omega
      rw [createTbsHash_bare hcat (readable_ofBytes _ p) (readable_ofBytes _ payload) hoff hpayload]
        at htbs
      split_ifs at htbs with hroom
      refine ⟨rfl, tbsHash, ?_, ok_of_mapError h⟩
      rwa [contents_ofBytes, contents_ofBytes] at htbs
    · rw [if_neg halg, if_pos (by decide)] at h
      cases h

/-- What a message is that was taken apart, up to its payload and its signature. -/
theorem verifyRest_ok {crypto : Crypto} {me : Sign1VerifyCtx} {alg : Int} {prot : UsefulBufC}
    {parameters : Parameters} {ctx : DecodeContext} {payload : UsefulBufC} {P : Option Parameters}
    (hd : me.decodeOnly = false)
    (h : verifyRest crypto me alg prot parameters ctx = ⟨.ok (), payload, P⟩) :
    P = some parameters ∧ ∃ ctx₁ signature ctx₂, nextByteString ctx = some (payload, ctx₁) ∧
      nextByteString ctx₁ = some (signature, ctx₂) ∧
      checkSignature crypto me alg prot payload signature = .ok () := by
  unfold verifyRest at h
  split at h
  · cases h
  · rename_i body ctx₁ hbody
    split at h
    · cases h
    · rename_i signature ctx₂ hsignature
      split_ifs at h
      · cases h
      · rename_i hdecode
        rw [hd] at hdecode
        cases hdecode
      · obtain ⟨hstatus, rfl, rfl⟩ := Verified.mk.inj h
        exact ⟨rfl, ctx₁, signature, ctx₂, hbody, hsignature, hstatus⟩

/-- **A message that is accepted has a signature of its own payload and of its own protected
parameters, which come one after another in it.** -/
theorem accepted_signed {crypto : Crypto} (hcat : crypto.Concat) {me : Sign1VerifyCtx}
    (hd : me.decodeOnly = false) {coseSign1 : List UInt8}
    (hsize : coseSign1.length + 100 < qcborMaxArrayOffset) {payload : UsefulBufC}
    {parameters : Option Parameters}
    (h : tCoseSign1Verify crypto me coseSign1 = ⟨.ok (), payload, parameters⟩) :
    ∃ x₁ prot x₂ body x₃ signature x₄ tbsHash,
      coseSign1 = x₁ ++ (prot ++ (x₂ ++ (body ++ (x₃ ++ (signature ++ x₄))))) ∧
      payload = ofBytes body ∧
      hashSigStructure crypto prot body tCoseCryptoMaxHashSize = .ok tbsHash ∧
      crypto.verifyHash me.verificationKey .ecdsaSha256 tbsHash signature = .ok () := by
  have hfirst := getNext_reads (decodeInit coseSign1 .normal)
  unfold tCoseSign1Verify at h
  simp only at h
  split at h
  · cases h
  · rename_i item ctx hitem
    rw [hitem] at hfirst
    split at h
    · split at h
      · cases h
      split at h
      · cases h
      · rename_i protectedParameters ctx₁ hprot
        split at h
        · cases h
        · rename_i prot hparse
          have hunread := parseUnprotected_reads ctx₁ prot.unknownLabels
          split at h
          · cases h
          · rename_i unprot ctx₂ hunprot
            rw [hunprot] at hunread
            split at h
            · cases h
            split at h
            · cases h
            · split at h
              · cases h
              · obtain ⟨-, ctx₃, signature, ctx₄, hbody, hsignature, hcheck⟩ := verifyRest_ok hd h
                obtain ⟨hread₁, htook₁⟩ := nextByteString_took hprot
                obtain ⟨hread₃, htook₃⟩ := nextByteString_took hbody
                obtain ⟨-, htook₄⟩ := nextByteString_took hsignature
                have hto₂ := hread₁.trans hunread
                obtain ⟨x₁, p, x₂, q, x₃, r, x₄, hpieces, rfl, rfl, rfl⟩ := three_pieces htook₁ hunread
                  htook₃ (.refl _) htook₄ hto₂ (hto₂.trans hread₃)
                rw [show ctx.inBuf.ub = coseSign1 from hfirst.ub] at hpieces
                have hlen := congrArg List.length hpieces
                simp only [List.length_append] at hlen
                have hsmall : q.length < 256 ^ 8 := Nat.lt_trans (m := qcborMaxArrayOffset)
                  (by omega) (by decide)
                obtain ⟨-, tbsHash, hhash, hverify⟩ := checkSignature_ok hcat (by omega) hsmall hcheck
                rw [contents_ofBytes] at hverify
                exact ⟨x₁, p, x₂, q, x₃, r, x₄, tbsHash, hpieces, rfl, hhash, hverify⟩
    · cases h

theorem exampleAccepted :
    tCoseSign1Verify exampleCrypto ⟨false, false, false, 2⟩
        ([0x84, 0x43, 0xa1, 0x01, 0x26, 0xa0, 0x42, 1, 2, 0x58, 0x40] ++ exampleSignature) =
      ⟨.ok (), ofBytes [1, 2], some (messageParameters nullUsefulBufC)⟩ := by
  decide +kernel

theorem accepted_signed_example :
    ∃ x₁ prot x₂ body x₃ signature x₄ tbsHash,
      [0x84, 0x43, 0xa1, 0x01, 0x26, 0xa0, 0x42, 1, 2, 0x58, 0x40] ++ exampleSignature =
        x₁ ++ (prot ++ (x₂ ++ (body ++ (x₃ ++ (signature ++ x₄))))) ∧
      ofBytes [1, 2] = ofBytes body ∧
      hashSigStructure exampleCrypto prot body tCoseCryptoMaxHashSize = .ok tbsHash ∧
      exampleCrypto.verifyHash 2 .ecdsaSha256 tbsHash signature = .ok () :=
  accepted_signed exampleCrypto_concat rfl (by decide) exampleAccepted

end Tfm.L3.Cose
