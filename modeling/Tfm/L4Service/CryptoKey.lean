import Mathlib.Data.List.Basic
import Tfm.Core.Psa

/-!
# Crypto service: key handles and the vendor key table

Model of secure_fw/partitions/crypto/crypto_key.c,
crypto_vendor_key.c and the PSoC64 HAL
platform/ext/target/cypress/psoc64/services/src/tfm_crypto_vendor_key_hal.c,
with the redirection points of crypto_asymmetric.c and the key-creating call of
crypto_key_derivation.c.

Two static tables decide who may use a key and which implementation serves it:

* `handle_owner` records, for each handle the service gave out, the client and
  the bare key id;
* `key_id_mapping_table` records, for each opened vendor key, the volatile
  Mbed Crypto id it was imported under and the provisioned (flash boot) id.

The Mbed Crypto back end and the flash-boot library are outside the
repository. Their answers are arguments of the modelled calls; `Sys.live` is
the set of keys the back end holds, so that the transition system of
`VendorKey` can say which answers are possible. Signature, verification and
public-key export end in a tail call to one of the two back ends with the
client's own arguments; the model returns which one (`Served`).

The service is modelled with the key and asymmetric modules enabled and the
IPC model (`TFM_PSA_API`), in which `tfm_crypto_get_caller_id` always succeeds.
-/
namespace Tfm.L4.CryptoKey

abbrev KeyId := UInt32
/-- `int32_t` client ids. -/
abbrev ClientId := Int

/-- mirrors interface/include/psa/crypto_values.h:1649-1652 -/
def keyIdVendorMin : KeyId := 0x40000000
def keyIdVendorMax : KeyId := 0x7fffffff

/-- The build constants: `TFM_CRYPTO_MAX_KEY_HANDLES` and the two flash-boot
slot numbers. The device key lives in a static slot, slots count from one. -/
structure Cfg where
  maxKeyHandles : Nat
  keySlotStaticMax : Nat
  keySlotDevice : Nat
  device_pos : 1 ≤ keySlotDevice
  device_static : keySlotDevice < keySlotStaticMax
  static_le : keySlotStaticMax ≤ 0x3fffffff

/-- mirrors secure_fw/partitions/crypto/crypto_key.c:24-28 -/
structure HandleOwner where
  owner : ClientId
  key : KeyId
  inUse : Bool
  deriving DecidableEq, Repr

/-- mirrors tfm_crypto_vendor_key_hal.c:33-37 -/
structure IdMapping where
  mbedcryptoKeyId : KeyId
  fbKeyId : KeyId
  inUse : Bool
  deriving DecidableEq, Repr

inductive Lifetime
  | volatile
  | persistent
  deriving DecidableEq, Repr

/-- A key of the back end, which identifies keys by owner and id. -/
structure LiveKey where
  owner : ClientId
  key : KeyId
  lifetime : Lifetime
  deriving DecidableEq, Repr

structure Sys where
  handleOwner : List HandleOwner
  keyIdMappingTable : List IdMapping
  live : List LiveKey
  deriving DecidableEq, Repr

def HandleOwner.empty : HandleOwner := ⟨0, 0, false⟩

def Sys.init (cfg : Cfg) : Sys where
  handleOwner := List.replicate cfg.maxKeyHandles .empty
  keyIdMappingTable := List.replicate cfg.keySlotStaticMax ⟨0, 0, false⟩
  live := []

/-! ## Mbed Crypto back end -/

/-- `psa_import_key`, `psa_generate_key`, `psa_copy_key` and
`psa_key_derivation_output_key`: on success the owner has a new key. -/
def Sys.psaNewKey (s : Sys) (c : ClientId) (lt : Lifetime) (ans : Except PsaStatus KeyId) : Sys :=
  match ans with
  | .ok k => { s with live := ⟨c, k, lt⟩ :: s.live }
  | .error _ => s

/-- `psa_close_key`: a volatile key is destroyed by it. -/
def Sys.psaCloseKey (s : Sys) (c : ClientId) (k : KeyId) (ans : Except PsaStatus Unit) : Sys :=
  match ans with
  | .ok () =>
    { s with live := s.live.filter fun l => !(l.owner == c && l.key == k &&
        l.lifetime == .volatile) }
  | .error _ => s

/-- `psa_destroy_key`. -/
def Sys.psaDestroyKey (s : Sys) (c : ClientId) (k : KeyId) (ans : Except PsaStatus Unit) : Sys :=
  match ans with
  | .ok () => { s with live := s.live.filter fun l => !(l.owner == c && l.key == k) }
  | .error _ => s

/-! ## `handle_owner` -/

/-- The loop of `tfm_crypto_check_handle_owner`: the first used entry with the
key decides.
mirrors secure_fw/partitions/crypto/crypto_key.c:104-116 -/
def scanOwner (c : ClientId) (key : KeyId) : List HandleOwner → Nat → Except PsaStatus Nat
  | [], _ => .error .invalidHandle
  | h :: t, i =>
    if h.inUse ∧ h.key = key then
      if h.owner = c then .ok i else .error .notPermitted
    else scanOwner c key t (i + 1)

/-- mirrors secure_fw/partitions/crypto/crypto_key.c:86-119 -/
def checkHandleOwner (s : Sys) (c : ClientId) (key : KeyId) : Except PsaStatus Nat :=
  scanOwner c key s.handleOwner 0

/-- `tfm_crypto_check_key_storage`, and the free-entry loop that import, open,
copy and generate repeat inline.
mirrors secure_fw/partitions/crypto/crypto_key.c:142-161 -/
def checkKeyStorage (s : Sys) : Except PsaStatus Nat :=
  match s.handleOwner.findIdx? (fun h => !h.inUse) with
  | some i => .ok i
  | none => .error .insufficientMemory

def Sys.setHandle (s : Sys) (i : Nat) (h : HandleOwner) : Sys :=
  { s with handleOwner := s.handleOwner.set i h }

/-- mirrors secure_fw/partitions/crypto/crypto_key.c:163-190 -/
def setKeyStorage (cfg : Cfg) (s : Sys) (c : ClientId) (index : Nat) (key : KeyId) :
    Sys × Except PsaStatus Unit :=
  if cfg.maxKeyHandles ≤ index then (s, .error .invalidArgument)
  else (s.setHandle index ⟨c, key, true⟩, .ok ())

/-! ## `key_id_mapping_table` -/

/-- mirrors tfm_crypto_vendor_key_hal.c:119-123 -/
def halIsValidKeyId (cfg : Cfg) (id : KeyId) : Bool :=
  keyIdVendorMin ≤ id && id < keyIdVendorMin + UInt32.ofNat cfg.keySlotStaticMax

/-- `FB_PSOC64_KEY_SLOT_2_ID(CY_P64_KEY_SLOT_DEVICE_ECDSA)`.
mirrors tfm_crypto_vendor_key_hal.c:26,125-128 -/
def halGetDeviceKeyId (cfg : Cfg) : KeyId :=
  keyIdVendorMin + UInt32.ofNat cfg.keySlotDevice - 1

/-- mirrors tfm_crypto_vendor_key_hal.c:165-168 -/
def halIsDeviceKeyId (cfg : Cfg) (id : KeyId) : Bool := id == halGetDeviceKeyId cfg

/-- Fill the first unused slot. Nothing in the repository clears a slot.
mirrors tfm_crypto_vendor_key_hal.c:130-148 -/
def halAddKeyIdMapping (s : Sys) (mbedcryptoKeyId fbKeyId : KeyId) :
    Sys × Except PsaStatus Unit :=
  match s.keyIdMappingTable.findIdx? (fun e => !e.inUse) with
  | some i =>
    ({ s with keyIdMappingTable :=
        s.keyIdMappingTable.set i ⟨mbedcryptoKeyId, fbKeyId, true⟩ }, .ok ())
  | none => (s, .error .insufficientMemory)

/-- The first used slot with the id, else `(psa_key_id_t)NULL`.
mirrors tfm_crypto_vendor_key_hal.c:150-163 -/
def halKeyIdMappingMbedcrypto2Fb (s : Sys) (mbedcryptoKeyId : KeyId) : KeyId :=
  match s.keyIdMappingTable.find? (fun e => e.inUse && e.mbedcryptoKeyId == mbedcryptoKeyId) with
  | some e => e.fbKeyId
  | none => 0

/-- `psa_get_key_attributes` is called for its side effect only, its status is
not used.
mirrors secure_fw/partitions/crypto/crypto_vendor_key.c:32-67 -/
def vendorKeyIsValid (cfg : Cfg) (s : Sys) (keyId : KeyId) (isDeviceKey : Bool) : Bool :=
  let fbKeyId := halKeyIdMappingMbedcrypto2Fb s keyId
  if isDeviceKey then halIsDeviceKeyId cfg fbKeyId else halIsValidKeyId cfg fbKeyId

/-- The answers of the flash-boot library and of `psa_import_key` during one
vendor key open. -/
structure VendorAns where
  metadata : Except PsaStatus Unit
  data : Except PsaStatus Unit
  imported : Except PsaStatus KeyId

/-- Import the provisioned key as a volatile key of the caller, store the
handle, then store the mapping. When the mapping table is full the call fails
with the handle entry already written.
mirrors secure_fw/partitions/crypto/crypto_vendor_key.c:81-159 -/
def vendorKeyOpenKey (cfg : Cfg) (s : Sys) (c : ClientId) (keyId : KeyId) (a : VendorAns) :
    Sys × Except PsaStatus KeyId :=
  if !halIsValidKeyId cfg keyId then (s, .error .doesNotExist)
  else
    match checkKeyStorage s with
    | .error e => (s, .error e)
    | .ok index =>
      match a.metadata, a.data, a.imported with
      | .error e, _, _ => (s, .error e)
      | .ok (), .error e, _ => (s, .error e)
      | .ok (), .ok (), .error e => (s, .error e)
      | .ok (), .ok (), .ok k =>
        let s₁ := s.psaNewKey c .volatile (.ok k)
        match setKeyStorage cfg s₁ c index k with
        | (s₂, .error e) => (s₂, .error e)
        | (s₂, .ok ()) =>
          match halAddKeyIdMapping s₂ k keyId with
          | (s₃, .error e) => (s₃, .error e)
          | (s₃, .ok ()) => (s₃, .ok k)

/-! ## Service calls -/

/-- The vector counts and the lengths the calls check. -/
structure Vecs where
  inLen : Nat
  outLen : Nat
  in0 : Nat
  in1 : Nat
  out0 : Nat
  deriving DecidableEq, Repr

/-- `sizeof(struct tfm_crypto_pack_iovec)` on the 32-bit target.
mirrors interface/include/tfm_crypto_defs.h:27-52 -/
def sizeofPackIovec : Nat := 44
/-- `sizeof(struct psa_client_key_attributes_s)`.
mirrors interface/include/psa/crypto_client_struct.h:32-40 -/
def sizeofClientKeyAttributes : Nat := 24
def sizeofKeyId : Nat := 4

/-- `CRYPTO_IN_OUT_LEN_VALIDATE` of the IPC model.
mirrors secure_fw/partitions/crypto/tfm_crypto_private.h:24-50 -/
def checkLength (v : Vecs) (inMin inMax outMin outMax : Nat) : Bool :=
  decide (inMin ≤ v.inLen) && decide (v.inLen ≤ inMax) && decide (outMin ≤ v.outLen) &&
    decide (v.outLen ≤ outMax)

/-- The tail that import, generate and copy share: a back-end answer is stored
in the free entry found before. -/
def storeNewKey (s : Sys) (c : ClientId) (i : Nat) (lt : Lifetime) (ans : Except PsaStatus KeyId) :
    Sys × Except PsaStatus KeyId :=
  match ans with
  | .error e => (s, .error e)
  | .ok k => ((s.psaNewKey c lt (.ok k)).setHandle i ⟨c, k, true⟩, .ok k)

/-- mirrors secure_fw/partitions/crypto/crypto_key.c:238-306 -/
def importKey (s : Sys) (c : ClientId) (v : Vecs) (lt : Lifetime) (ans : Except PsaStatus KeyId) :
    Sys × Except PsaStatus KeyId :=
  if !checkLength v 2 3 1 1 then (s, .error .programmerError)
  else if v.in0 ≠ sizeofPackIovec ∨ v.in1 ≠ sizeofClientKeyAttributes ∨ v.out0 ≠ sizeofKeyId then
    (s, .error .programmerError)
  else
    match checkKeyStorage s with
    | .error e => (s, .error e)
    | .ok i => storeNewKey s c i lt ans

/-- mirrors secure_fw/partitions/crypto/crypto_key.c:769-836 -/
def generateKey (s : Sys) (c : ClientId) (v : Vecs) (lt : Lifetime)
    (ans : Except PsaStatus KeyId) : Sys × Except PsaStatus KeyId :=
  if !checkLength v 2 2 1 1 then (s, .error .programmerError)
  else if v.in0 ≠ sizeofPackIovec ∨ v.in1 ≠ sizeofClientKeyAttributes ∨ v.out0 ≠ sizeofKeyId then
    (s, .error .programmerError)
  else
    match checkKeyStorage s with
    | .error e => (s, .error e)
    | .ok i => storeNewKey s c i lt ans

/-- The caller must hold the source key.
mirrors secure_fw/partitions/crypto/crypto_key.c:684-767 -/
def copyKey (s : Sys) (c : ClientId) (v : Vecs) (sourceKeyId : KeyId) (lt : Lifetime)
    (ans : Except PsaStatus KeyId) : Sys × Except PsaStatus KeyId :=
  if !checkLength v 2 2 1 1 then (s, .error .programmerError)
  else if v.in0 ≠ sizeofPackIovec ∨ v.out0 ≠ sizeofKeyId ∨ v.in1 ≠ sizeofClientKeyAttributes then
    (s, .error .programmerError)
  else
    match checkKeyStorage s with
    | .error e => (s, .error e)
    | .ok i =>
      match checkHandleOwner s c sourceKeyId with
      | .error e => (s, .error e)
      | .ok _ => storeNewKey s c i lt ans

/-- `lookup` is the answer of `tfm_crypto_operation_lookup`.
mirrors secure_fw/partitions/crypto/crypto_key_derivation.c:410-484 -/
def keyDerivationOutputKey (cfg : Cfg) (s : Sys) (c : ClientId) (v : Vecs)
    (lookup : Except PsaStatus Unit) (lt : Lifetime) (ans : Except PsaStatus KeyId) :
    Sys × Except PsaStatus KeyId :=
  if !checkLength v 2 2 1 1 then (s, .error .programmerError)
  else if v.in0 ≠ sizeofPackIovec ∨ v.in1 ≠ sizeofClientKeyAttributes ∨ v.out0 ≠ sizeofKeyId then
    (s, .error .programmerError)
  else
    match lookup with
    | .error e => (s, .error e)
    | .ok () =>
      match checkKeyStorage s with
      | .error e => (s, .error e)
      | .ok index =>
        match ans with
        | .error e => (s, .error e)
        | .ok k =>
          match setKeyStorage cfg (s.psaNewKey c lt (.ok k)) c index k with
          | (s', .error e) => (s', .error e)
          | (s', .ok ()) => (s', .ok k)

/-- `opened` is the answer of `psa_open_key`.
mirrors secure_fw/partitions/crypto/crypto_key.c:308-369 -/
def openKey (cfg : Cfg) (s : Sys) (c : ClientId) (v : Vecs) (clientKeyId : KeyId)
    (va : VendorAns) (opened : Except PsaStatus KeyId) : Sys × Except PsaStatus KeyId :=
  if !checkLength v 2 2 1 1 then (s, .error .programmerError)
  else if v.in0 ≠ sizeofPackIovec ∨ v.in1 ≠ sizeofKeyId ∨ v.out0 ≠ sizeofKeyId then
    (s, .error .programmerError)
  else
    match checkKeyStorage s with
    | .error e => (s, .error e)
    | .ok i =>
      if keyIdVendorMin ≤ clientKeyId ∧ clientKeyId ≤ keyIdVendorMax then
        vendorKeyOpenKey cfg s c clientKeyId va
      else
        match opened with
        | .error e => (s, .error e)
        | .ok k => (s.setHandle i ⟨c, k, true⟩, .ok k)

/-- The shape of close, destroy and purge: check the owner, call the back end,
clear the entry when it succeeded. -/
def releaseKey (s : Sys) (c : ClientId) (v : Vecs) (key : KeyId)
    (backend : Sys → ClientId → KeyId → Except PsaStatus Unit → Sys)
    (ans : Except PsaStatus Unit) : Sys × Except PsaStatus Unit :=
  if !checkLength v 1 1 0 0 then (s, .error .programmerError)
  else if v.in0 ≠ sizeofPackIovec then (s, .error .programmerError)
  else
    match checkHandleOwner s c key with
    | .error e => (s, .error e)
    | .ok index =>
      match ans with
      | .error e => (s, .error e)
      | .ok () => ((backend s c key (.ok ())).setHandle index .empty, .ok ())

/-- mirrors secure_fw/partitions/crypto/crypto_key.c:371-413 -/
def closeKey (s : Sys) (c : ClientId) (v : Vecs) (key : KeyId) (ans : Except PsaStatus Unit) :
    Sys × Except PsaStatus Unit :=
  releaseKey s c v key Sys.psaCloseKey ans

/-- mirrors secure_fw/partitions/crypto/crypto_key.c:415-458 -/
def destroyKey (s : Sys) (c : ClientId) (v : Vecs) (key : KeyId) (ans : Except PsaStatus Unit) :
    Sys × Except PsaStatus Unit :=
  releaseKey s c v key Sys.psaDestroyKey ans

/-- `psa_purge_key` drops cached copies of a persistent key and keeps a
volatile one, so the back end's set of keys stays.
mirrors secure_fw/partitions/crypto/crypto_key.c:639-682 -/
def purgeKey (s : Sys) (c : ClientId) (v : Vecs) (key : KeyId) (ans : Except PsaStatus Unit) :
    Sys × Except PsaStatus Unit :=
  releaseKey s c v key (fun s _ _ _ => s) ans

/-! ## Who serves a key -/

/-- Which implementation a public-key operation is handed to. -/
inductive Served
  | refused (e : PsaStatus)
  | vendor (fbKeyId : KeyId)
  | backend (owner : ClientId) (key : KeyId)
  deriving DecidableEq, Repr

/-- mirrors secure_fw/partitions/crypto/crypto_asymmetric.c:26-79 and
crypto_vendor_key.c:161-176 -/
def signHash (cfg : Cfg) (s : Sys) (c : ClientId) (v : Vecs) (key : KeyId) : Served :=
  if !checkLength v 1 2 0 1 then .refused .programmerError
  else if v.in0 ≠ sizeofPackIovec then .refused .programmerError
  else
    match checkHandleOwner s c key with
    | .error e => .refused e
    | .ok _ =>
      if vendorKeyIsValid cfg s key false then .vendor (halKeyIdMappingMbedcrypto2Fb s key)
      else .backend c key

/-- mirrors secure_fw/partitions/crypto/crypto_asymmetric.c:81-132 and
crypto_vendor_key.c:179-193 -/
def verifyHash (cfg : Cfg) (s : Sys) (c : ClientId) (v : Vecs) (key : KeyId) : Served :=
  if !checkLength v 1 3 0 0 then .refused .programmerError
  else if v.in0 ≠ sizeofPackIovec then .refused .programmerError
  else
    match checkHandleOwner s c key with
    | .error e => .refused e
    | .ok _ =>
      if vendorKeyIsValid cfg s key false then .vendor (halKeyIdMappingMbedcrypto2Fb s key)
      else .backend c key

/-- Only the device key is redirected here.
mirrors secure_fw/partitions/crypto/crypto_key.c:592-637 -/
def exportPublicKey (cfg : Cfg) (s : Sys) (c : ClientId) (v : Vecs) (key : KeyId) : Served :=
  if !checkLength v 1 1 0 1 then .refused .programmerError
  else if v.in0 ≠ sizeofPackIovec then .refused .programmerError
  else
    match checkHandleOwner s c key with
    | .error e => .refused e
    | .ok _ =>
      if vendorKeyIsValid cfg s key true then .vendor (halKeyIdMappingMbedcrypto2Fb s key)
      else .backend c key

end Tfm.L4.CryptoKey
