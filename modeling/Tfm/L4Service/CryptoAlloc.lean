import Tfm.Core.LTS
import Tfm.L4Service.CryptoKey

/-!
# Crypto service: slots of multipart operations

Model of secure_fw/partitions/crypto/crypto_alloc.c, of the dispatcher
`tfm_crypto_call_sfn` of crypto_init.c and of the multipart entry points of
crypto_hash.c, crypto_mac.c, crypto_cipher.c and crypto_key_derivation.c.

A slot holds the bytes of a back-end context, a union of four structures. A back-end
call gets a pointer to the structure of one slot: it may write the bytes of that
structure and answer with any status (`Ans`). The answer of the key-handle table and of
the key storage are arguments as well, see `CryptoKey`.

The vectors of a call live in a scratch buffer that is zero before the call, and the
first output vector is written back to the client whatever the status is. An entry
point that returns before it writes its output handle hands back zero, which is
`TFM_CRYPTO_INVALID_HANDLE`.

What the calls do over whole runs is in `CryptoSlot`.
-/
namespace Tfm.L4.CryptoAlloc
open Tfm.L4.CryptoKey

/-! ## The allocator -/

/-- `enum tfm_crypto_operation_type` -/
inductive OpType
  | none
  | cipher
  | mac
  | hash
  | keyDerivation
  deriving DecidableEq, Repr

/-- `TFM_CRYPTO_CONC_OPER_NUM`, the sizes of the back-end contexts and the size of the
scratch buffer. -/
structure Cfg where
  concOperNum : Nat
  sizeOf : OpType → Nat
  sizeOf_none : sizeOf .none = 0
  iovecBufferSize : Nat

/-- mirrors secure_fw/partitions/crypto/crypto_alloc.c:29-41 -/
structure Slot where
  inUse : Bool
  owner : ClientId
  type : OpType
  /-- the bytes of the union of the contexts -/
  operation : Nat → UInt8

def Slot.empty : Slot := ⟨false, 0, .none, fun _ => 0⟩

abbrev Slots := Nat → Slot

/-- `tfm_crypto_init_alloc` -/
def Slots.init : Slots := fun _ => .empty

def Slots.set (s : Slots) (i : Nat) (x : Slot) : Slots := fun j => if j = i then x else s j

section Alloc

variable (cfg : Cfg)

/-- mirrors secure_fw/partitions/crypto/crypto_alloc.c:53-82 -/
def memsetOperationContext (s : Slots) (i : Nat) : Slots :=
  s.set i { s i with
    operation := fun o => if o < cfg.sizeOf (s i).type then 0 else (s i).operation o }

/-- The search of `tfm_crypto_operation_alloc`, at slot `i` with `n` slots to go. -/
def freeSlot (s : Slots) : Nat → Nat → Option Nat
  | 0, _ => none
  | n + 1, i => if (s i).inUse then freeSlot s n (i + 1) else some i

/-- The new handle.
mirrors secure_fw/partitions/crypto/crypto_alloc.c:95-128 -/
def operationAlloc (s : Slots) (c : ClientId) (type : OpType) (handle : Nat) :
    Slots × Except PsaStatus Nat :=
  if handle ≠ 0 then (s, .error .badState)
  else
    match freeSlot s cfg.concOperNum 0 with
    | some i => (s.set i { s i with inUse := true, owner := c, type := type }, .ok (i + 1))
    | none => (s, .error .notPermitted)

/-- The handle is that of a slot of `c` in use. -/
def mine (s : Slots) (c : ClientId) (handle : Nat) : Bool :=
  handle ≠ 0 && handle ≤ cfg.concOperNum && (s (handle - 1)).inUse && (s (handle - 1)).owner = c

/-- mirrors secure_fw/partitions/crypto/crypto_alloc.c:130-156 -/
def operationRelease (s : Slots) (c : ClientId) (handle : Nat) : Slots × Except PsaStatus Unit :=
  if mine cfg s c handle then
    let s := memsetOperationContext cfg s (handle - 1)
    (s.set (handle - 1) { s (handle - 1) with inUse := false, type := .none, owner := 0 }, .ok ())
  else (s, .error .invalidArgument)

/-- The index of the slot.
mirrors secure_fw/partitions/crypto/crypto_alloc.c:158-181 -/
def operationLookup (s : Slots) (c : ClientId) (type : OpType) (handle : Nat) :
    Except PsaStatus Nat :=
  if mine cfg s c handle ∧ (s (handle - 1)).type = type then .ok (handle - 1)
  else .error .badState

end Alloc

/-! ## Back-end calls -/

/-- The answer of a back-end call, and what the context holds after it. -/
structure Ans where
  status : Except PsaStatus Unit
  ctx : Nat → UInt8

/-- The call writes the structure of the slot's type. -/
def Slots.backend (cfg : Cfg) (s : Slots) (i : Nat) (a : Ans) : Slots :=
  s.set i { s i with
    operation := fun o => if o < cfg.sizeOf (s i).type then a.ctx o else (s i).operation o }

/-- The end of an entry point: the slots, the status, and the handle in the first output
vector, if that vector is a handle. -/
structure Out where
  slots : Slots
  status : Except PsaStatus Unit
  handle : Option Nat

/-! ## The shapes of the entry points -/

section Shapes

variable (cfg : Cfg) (s : Slots) (c : ClientId) (type : OpType) (h : Nat) (a : Ans)

/-- `tfm_crypto_operation_release` on the output handle, the status is ignored. -/
def releaseOut (h : Nat) : Slots × Nat :=
  match operationRelease cfg s c h with
  | (s', .ok ()) => (s', 0)
  | (s', .error _) => (s', h)

/-- Allocate, call the back end, release if that fails. `early` is in the output handle
when the allocation fails. -/
def setup (early : Nat) : Out :=
  match operationAlloc cfg s c type h with
  | (s, .error e) => ⟨s, .error e, some early⟩
  | (s, .ok h') =>
    let s := s.backend cfg (h' - 1) a
    match a.status with
    | .ok () => ⟨s, .ok (), some h'⟩
    | .error e =>
      let r := releaseOut cfg s c h'
      ⟨r.1, .error e, some r.2⟩

/-- Look the operation up and call the back end. -/
def useOp : Out :=
  match operationLookup cfg s c type h with
  | .error e => ⟨s, .error e, some h⟩
  | .ok i => ⟨s.backend cfg i a, a.status, some h⟩

/-- The operation is released if the back end succeeds. -/
def finishOp : Out :=
  match operationLookup cfg s c type h with
  | .error e => ⟨s, .error e, some h⟩
  | .ok i =>
    let s := s.backend cfg i a
    match a.status with
    | .error e => ⟨s, .error e, some h⟩
    | .ok () =>
      let r := releaseOut cfg s c h
      ⟨r.1, .ok (), some r.2⟩

/-- "Operation does not exist, so abort has no effect"; the operation is released
whatever the back end answers. -/
def abortOp : Out :=
  match operationLookup cfg s c type h with
  | .error _ => ⟨s, .ok (), some h⟩
  | .ok i =>
    let s := s.backend cfg i a
    match a.status with
    | .error e =>
      let r := releaseOut cfg s c h
      ⟨r.1, .error e, some r.2⟩
    | .ok () =>
      match operationRelease cfg s c h with
      | (s', .ok ()) => ⟨s', .ok (), some 0⟩
      | (s', .error e) => ⟨s', .error e, some h⟩

/-- A key derivation step: its first output vector is no handle. `pre` is what is checked
before the lookup and `mid` what is checked after it. -/
def deriveOp (pre mid : Except PsaStatus Unit) : Out :=
  match pre with
  | .error e => ⟨s, .error e, none⟩
  | .ok () =>
    match operationLookup cfg s c .keyDerivation h with
    | .error e => ⟨s, .error e, none⟩
    | .ok i =>
      match mid with
      | .error e => ⟨s, .error e, none⟩
      | .ok () => ⟨s.backend cfg i a, a.status, none⟩

end Shapes

/-! ## The entry points -/

/-- The arguments of an entry point: the vectors, the handle of the `iov`, the answer of
`tfm_crypto_check_handle_owner` for its key, the answer of the key storage, and the
answer of the back end. -/
structure Args where
  v : Vecs
  h : Nat
  key : Except PsaStatus Unit
  storage : Except PsaStatus Unit
  a : Ans

section Entries

variable (cfg : Cfg) (s : Slots) (c : ClientId) (x : Args)

/-- The vectors of an entry point whose first output is the handle. -/
def checkHandleVecs (v : Vecs) (inMin inMax outMin outMax : Nat) : Bool :=
  checkLength v inMin inMax outMin outMax && v.out0 = 4 && v.in0 = sizeofPackIovec

/-- A malformed call: nothing was written to the output vector. -/
def refuse : Out := ⟨s, .error .programmerError, some 0⟩

/-- The output handle is initialised first.
mirrors secure_fw/partitions/crypto/crypto_hash.c:25-73 -/
def hashSetup : Out :=
  if !checkHandleVecs x.v 1 1 1 1 then refuse s else setup cfg s c .hash x.h x.a x.h

/-- mirrors secure_fw/partitions/crypto/crypto_hash.c:75-119 -/
def hashUpdate : Out :=
  if !checkHandleVecs x.v 1 2 1 1 then refuse s else useOp cfg s c .hash x.h x.a

/-- mirrors secure_fw/partitions/crypto/crypto_hash.c:121-174 -/
def hashFinish : Out :=
  if !checkHandleVecs x.v 1 1 1 2 then refuse s else finishOp cfg s c .hash x.h x.a

/-- mirrors secure_fw/partitions/crypto/crypto_hash.c:176-224 -/
def hashVerify : Out :=
  if !checkHandleVecs x.v 1 2 1 1 then refuse s else finishOp cfg s c .hash x.h x.a

/-- mirrors secure_fw/partitions/crypto/crypto_hash.c:226-275 -/
def hashAbort : Out :=
  if !checkHandleVecs x.v 1 1 1 1 then refuse s else abortOp cfg s c .hash x.h x.a

/-- The handle of the `iov` is that of the source; the output handle, zero before, becomes
that of the target. The target is not released when the back end fails.
mirrors secure_fw/partitions/crypto/crypto_hash.c:277-325 -/
def hashClone : Out :=
  if !checkHandleVecs x.v 1 1 1 1 then refuse s
  else
    match operationLookup cfg s c .hash x.h with
    | .error e => ⟨s, .error e, some 0⟩
    | .ok _ =>
      match operationAlloc cfg s c .hash 0 with
      | (s, .error e) => ⟨s, .error e, some 0⟩
      | (s, .ok h') => ⟨s.backend cfg (h' - 1) x.a, x.a.status, some h'⟩

/-- The key is checked before the output handle is initialised.
mirrors secure_fw/partitions/crypto/crypto_mac.c:25-91 -/
def macSetup : Out :=
  if !checkHandleVecs x.v 1 1 1 1 then refuse s
  else
    match x.key with
    | .error e => ⟨s, .error e, some 0⟩
    | .ok () => setup cfg s c .mac x.h x.a x.h

/-- mirrors secure_fw/partitions/crypto/crypto_mac.c:161-205 -/
def macUpdate : Out :=
  if !checkHandleVecs x.v 1 2 1 1 then refuse s else useOp cfg s c .mac x.h x.a

/-- mirrors secure_fw/partitions/crypto/crypto_mac.c:207-260 -/
def macSignFinish : Out :=
  if !checkHandleVecs x.v 1 1 1 2 then refuse s else finishOp cfg s c .mac x.h x.a

/-- mirrors secure_fw/partitions/crypto/crypto_mac.c:262-310 -/
def macVerifyFinish : Out :=
  if !checkHandleVecs x.v 1 2 1 1 then refuse s else finishOp cfg s c .mac x.h x.a

/-- mirrors secure_fw/partitions/crypto/crypto_mac.c:312-362 -/
def macAbort : Out :=
  if !checkHandleVecs x.v 1 1 1 1 then refuse s else abortOp cfg s c .mac x.h x.a

/-- mirrors secure_fw/partitions/crypto/crypto_cipher.c:25-73 -/
def cipherGenerateIv : Out :=
  if !checkHandleVecs x.v 1 1 1 2 then refuse s else useOp cfg s c .cipher x.h x.a

/-- mirrors secure_fw/partitions/crypto/crypto_cipher.c:75-119 -/
def cipherSetIv : Out :=
  if !checkHandleVecs x.v 1 2 1 1 then refuse s else useOp cfg s c .cipher x.h x.a

/-- Encryption and decryption. The output handle is written once there is a slot.
mirrors secure_fw/partitions/crypto/crypto_cipher.c:121-185,187-251 -/
def cipherSetup : Out :=
  if !checkHandleVecs x.v 1 1 1 1 then refuse s
  else
    match x.key with
    | .error e => ⟨s, .error e, some 0⟩
    | .ok () => setup cfg s c .cipher x.h x.a 0

/-- mirrors secure_fw/partitions/crypto/crypto_cipher.c:253-305 -/
def cipherUpdate : Out :=
  if !checkHandleVecs x.v 1 2 1 2 then refuse s else useOp cfg s c .cipher x.h x.a

/-- mirrors secure_fw/partitions/crypto/crypto_cipher.c:307-360 -/
def cipherFinish : Out :=
  if !checkHandleVecs x.v 1 1 1 2 then refuse s else finishOp cfg s c .cipher x.h x.a

/-- mirrors secure_fw/partitions/crypto/crypto_cipher.c:362-413 -/
def cipherAbort : Out :=
  if !checkHandleVecs x.v 1 1 1 1 then refuse s else abortOp cfg s c .cipher x.h x.a

/-- The output handle is written once there is a slot.
mirrors secure_fw/partitions/crypto/crypto_key_derivation.c:133-184 -/
def keyDerivationSetup : Out :=
  if !checkHandleVecs x.v 1 1 1 1 then refuse s else setup cfg s c .keyDerivation x.h x.a 0

/-- The capacity of the output, the input bytes, the input key, the output bytes, the output
key and the key agreement check their vectors in this way.
mirrors secure_fw/partitions/crypto/crypto_key_derivation.c:186-226 -/
def keyDerivationGetCapacity : Out :=
  if !checkHandleVecs x.v 1 1 1 1 then ⟨s, .error .programmerError, none⟩
  else deriveOp cfg s c x.h x.a (.ok ()) (.ok ())

/-- mirrors secure_fw/partitions/crypto/crypto_key_derivation.c:228-267 -/
def keyDerivationSetCapacity : Out :=
  if !checkLength x.v 1 1 0 0 || x.v.in0 ≠ sizeofPackIovec then ⟨s, .error .programmerError, none⟩
  else deriveOp cfg s c x.h x.a (.ok ()) (.ok ())

/-- mirrors secure_fw/partitions/crypto/crypto_key_derivation.c:269-315 -/
def keyDerivationInputBytes : Out :=
  if !checkLength x.v 1 2 0 0 || x.v.in0 ≠ sizeofPackIovec then ⟨s, .error .programmerError, none⟩
  else deriveOp cfg s c x.h x.a (.ok ()) (.ok ())

/-- mirrors secure_fw/partitions/crypto/crypto_key_derivation.c:317-355 -/
def keyDerivationOutputBytes : Out :=
  if !checkLength x.v 1 1 0 1 || x.v.in0 ≠ sizeofPackIovec then ⟨s, .error .programmerError, none⟩
  else deriveOp cfg s c x.h x.a (.ok ()) (.ok ())

/-- mirrors secure_fw/partitions/crypto/crypto_key_derivation.c:357-408 -/
def keyDerivationInputKey : Out :=
  if !checkLength x.v 1 1 0 0 || x.v.in0 ≠ sizeofPackIovec then ⟨s, .error .programmerError, none⟩
  else deriveOp cfg s c x.h x.a x.key (.ok ())

/-- The part of `CryptoKey.keyDerivationOutputKey` on the operation.
mirrors secure_fw/partitions/crypto/crypto_key_derivation.c:410-484 -/
def keyDerivationOutputKey : Out :=
  if !checkLength x.v 2 2 1 1 || x.v.in0 ≠ sizeofPackIovec || x.v.in1 ≠ sizeofClientKeyAttributes ||
      x.v.out0 ≠ sizeofKeyId then ⟨s, .error .programmerError, none⟩
  else deriveOp cfg s c x.h x.a (.ok ()) x.storage

/-- mirrors secure_fw/partitions/crypto/crypto_key_derivation.c:486-542 -/
def keyDerivationAbort : Out :=
  if !checkHandleVecs x.v 1 1 1 1 then refuse s else abortOp cfg s c .keyDerivation x.h x.a

/-- mirrors secure_fw/partitions/crypto/crypto_key_derivation.c:544-599 -/
def keyDerivationKeyAgreement : Out :=
  if !checkLength x.v 1 2 0 0 || x.v.in0 ≠ sizeofPackIovec then ⟨s, .error .programmerError, none⟩
  else deriveOp cfg s c x.h x.a x.key (.ok ())

end Entries

/-- The multipart entries of `sfid_func_table`. -/
inductive Entry
  | hashSetup | hashUpdate | hashFinish | hashVerify | hashAbort | hashClone
  | macSignSetup | macVerifySetup | macUpdate | macSignFinish | macVerifyFinish | macAbort
  | cipherGenerateIv | cipherSetIv | cipherEncryptSetup | cipherDecryptSetup | cipherUpdate
  | cipherFinish | cipherAbort
  | keyDerivationSetup | keyDerivationGetCapacity | keyDerivationSetCapacity
  | keyDerivationInputBytes | keyDerivationOutputBytes | keyDerivationInputKey
  | keyDerivationOutputKey | keyDerivationAbort | keyDerivationKeyAgreement
  deriving DecidableEq, Repr

def sfidFunc (cfg : Cfg) (s : Slots) (c : ClientId) (x : Args) : Entry → Out
  | .hashSetup => hashSetup cfg s c x
  | .hashUpdate => hashUpdate cfg s c x
  | .hashFinish => hashFinish cfg s c x
  | .hashVerify => hashVerify cfg s c x
  | .hashAbort => hashAbort cfg s c x
  | .hashClone => hashClone cfg s c x
  | .macSignSetup => macSetup cfg s c x
  | .macVerifySetup => macSetup cfg s c x
  | .macUpdate => macUpdate cfg s c x
  | .macSignFinish => macSignFinish cfg s c x
  | .macVerifyFinish => macVerifyFinish cfg s c x
  | .macAbort => macAbort cfg s c x
  | .cipherGenerateIv => cipherGenerateIv cfg s c x
  | .cipherSetIv => cipherSetIv cfg s c x
  | .cipherEncryptSetup => cipherSetup cfg s c x
  | .cipherDecryptSetup => cipherSetup cfg s c x
  | .cipherUpdate => cipherUpdate cfg s c x
  | .cipherFinish => cipherFinish cfg s c x
  | .cipherAbort => cipherAbort cfg s c x
  | .keyDerivationSetup => keyDerivationSetup cfg s c x
  | .keyDerivationGetCapacity => keyDerivationGetCapacity cfg s c x
  | .keyDerivationSetCapacity => keyDerivationSetCapacity cfg s c x
  | .keyDerivationInputBytes => keyDerivationInputBytes cfg s c x
  | .keyDerivationOutputBytes => keyDerivationOutputBytes cfg s c x
  | .keyDerivationInputKey => keyDerivationInputKey cfg s c x
  | .keyDerivationOutputKey => keyDerivationOutputKey cfg s c x
  | .keyDerivationAbort => keyDerivationAbort cfg s c x
  | .keyDerivationKeyAgreement => keyDerivationKeyAgreement cfg s c x

/-! ## The dispatcher -/

/-- A message of a client, with the answers of the callees. -/
structure Call where
  entry : Entry
  clientId : ClientId
  inSize : List Nat
  outSize : List Nat
  /-- `iov->op_handle` -/
  h : Nat
  key : Except PsaStatus Unit
  storage : Except PsaStatus Unit
  a : Ans

/-- The number of vectors without the empty ones at the end. -/
def filled (l : List Nat) : Nat := (l.reverse.dropWhile (· = 0)).length

/-- `tfm_crypto_alloc_scratch` for each vector, from index `i` on. -/
def allocScratch (cfg : Cfg) : List Nat → Nat → Option Nat
  | [], i => some i
  | n :: l, i =>
    let size := (n + 3) / 4 * 4
    if cfg.iovecBufferSize - i < size then none else allocScratch cfg l (i + size)

def Call.vecs (l : Call) : Vecs where
  inLen := filled l.inSize
  outLen := filled l.outSize
  in0 := sizeofPackIovec
  in1 := l.inSize.getD 1 0
  out0 := l.outSize.getD 0 0

/-- `tfm_crypto_parse_msg` and `tfm_crypto_call_sfn`. A handle reaches the client if it gave
a vector for it.
mirrors secure_fw/partitions/crypto/crypto_init.c:113-207 -/
def callSfn (cfg : Cfg) (s : Slots) (l : Call) : Out :=
  if l.inSize.getD 0 0 < sizeofPackIovec then ⟨s, .error .genericError, none⟩
  else
    match allocScratch cfg ((l.inSize.take l.vecs.inLen).tail ++ l.outSize.take l.vecs.outLen) 0 with
    | none => ⟨s, .error .insufficientMemory, none⟩
    | some _ =>
      let o := sfidFunc cfg s l.clientId ⟨l.vecs, l.h, l.key, l.storage, l.a⟩ l.entry
      ⟨o.slots, o.status, if 1 ≤ l.vecs.outLen ∧ l.vecs.out0 = 4 then o.handle else none⟩

end Tfm.L4.CryptoAlloc
