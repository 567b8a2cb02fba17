import Mathlib.Data.Fintype.Pi
import Mathlib.Data.List.FinRange
import Mathlib.Data.UInt
import Tfm.Core.Crash
import Tfm.Core.Index
import Tfm.Core.LTS
import Tfm.Core.Psa

/-!
# Protected Storage

Model of the object system of the Protected Storage partition, with encryption:
the object table (ps_object_table.c), the objects (ps_object_system.c,
ps_encrypted_object.c) and the IV counter (crypto/ps_crypto_interface.c), over
ITS and the non-volatile counters, and of the start of the partition
(tfm_protected_storage.c). `rollback` is `PS_ROLLBACK_PROTECTION`.

Every call out of the partition (ITS, counters, crypto) is a `Crash.call`: it can
fail, and the power can be cut there. ITS is an atomic key-value store and a
counter increment is atomic, so a call that is cut did nothing.

The AEAD is symbolic: a tag is the tuple of what it was computed over, a
ciphertext its plaintext and IV. Authentication succeeds for exactly the data the
tag was computed over.

Ghost state: `used`, the IV of every encryption and tag computation, last first.
-/
namespace Tfm.L4.Ps
open Tfm.Crash

/-! ## IVs -/

/-- `ps_crypto_iv_buf`: the lower eight and the upper four bytes. -/
structure Iv where
  l : UInt64
  h : UInt32
  deriving DecidableEq, Repr

def Iv.zero : Iv := ⟨0, 0⟩

/-- The increment of `ps_crypto_get_iv`; `none` when all IVs were used.
mirrors secure_fw/partitions/protected_storage/crypto/ps_crypto_interface.c:119-171 -/
def Iv.next (iv : Iv) : Option Iv :=
  let l := iv.l + 1
  if l = 0 then
    let h := iv.h + 1
    if h = 0 then none else some ⟨l, h⟩
  else some ⟨l, iv.h⟩

/-! ## Objects and tables -/

/-- `struct ps_object_t` without the crypto header; `current_size` is the length
of the data.
mirrors secure_fw/partitions/protected_storage/ps_object_defs.h:30-66 -/
structure Obj where
  maxSize : Nat
  flags : UInt32
  data : List UInt8
  deriving DecidableEq, Repr

/-- The tag of an encrypted object: IV, file id (the associated data), object. -/
structure ObjTag where
  iv : Iv
  fid : Nat
  obj : Obj
  deriving DecidableEq, Repr

/-- An object file: ciphertext and IV. -/
structure ObjFile where
  iv : Iv
  obj : Obj
  deriving DecidableEq, Repr

/-- mirrors secure_fw/partitions/protected_storage/ps_object_table.c:40-48 -/
structure Entry where
  tag : Option ObjTag
  uid : Nat
  clientId : Int
  deriving DecidableEq, Repr

/-- Zero bytes. -/
def Entry.empty : Entry := ⟨none, 0, 0⟩

/-- What the tag of a table covers: the header after the crypto data, and the
entries. -/
structure Body (n : Nat) where
  version : Nat
  swapCount : Nat
  db : Fin n → Entry
  deriving DecidableEq

structure TableTag (n : Nat) where
  iv : Iv
  nvc : Option Nat
  body : Body n
  deriving DecidableEq

/-- `struct ps_obj_table_t`.
mirrors secure_fw/partitions/protected_storage/ps_object_table.c:55-88 -/
structure Table (n : Nat) where
  iv : Iv
  tag : Option (TableTag n)
  body : Body n
  deriving DecidableEq

def Body.zero (n : Nat) : Body n := ⟨0, 0, fun _ => .empty⟩

def Table.zero (n : Nat) : Table n := ⟨.zero, none, .zero n⟩

inductive File (n : Nat)
  | table (t : Table n)
  | object (o : ObjFile)

inductive Nvc
  | c1
  | c2
  | c3
  deriving DecidableEq, Repr

/-- Persistent storage, the RAM of the partition, and the ghost log of IVs. -/
structure Sys (n : Nat) where
  files : Nat → Option (File n)
  nvc : Nvc → Nat
  /-- `ps_obj_table_ctx` -/
  table : Table n
  active : Fin 2
  scratch : Fin 2
  /-- `ps_crypto_iv_buf` -/
  iv : Iv
  /-- ghost -/
  used : List Iv

/-- Power loss: RAM is zero at the next start. -/
def Sys.reset {n : Nat} (s : Sys n) : Sys n :=
  { s with table := .zero n, active := 0, scratch := 0, iv := .zero }

/-- `PS_OBJ_TABLE_ENTRIES` is the index `n` of the types. -/
structure Cfg where
  /-- `PS_MAX_OBJECT_DATA_SIZE` -/
  maxData : Nat
  rollback : Bool
  /-- `PS_CREATE_FLASH_LAYOUT` -/
  createLayout : Bool

abbrev M (n : Nat) := Prog PsaStatus (Sys n)

/-- mirrors secure_fw/partitions/protected_storage/ps_object_table.c:106-131 -/
def tableFid (idx : Fin 2) : Nat := idx.val + 1
def objectFid (idx : Nat) : Nat := idx + 3
def objectFidToIdx (fid : Nat) : Nat := fid - 3

def objectSystemVersion : Nat := 1
def flashDefaultVal : Nat := 0xff
def nvcMax : Nat := 2 ^ 32 - 1
def flagWriteOnce : UInt32 := 1

variable {n : Nat}

/-! ## Calls out of the partition -/

def ext {α : Type} (e : PsaStatus) (f : Sys n → Except PsaStatus α × Sys n) : M n α :=
  call e (fun _ s => s) f

def psaItsSet (fid : Nat) (file : File n) : M n Unit :=
  ext .storageFailure fun s => (.ok (), { s with files := Function.update s.files fid (some file) })

/-- The filesystem behind `psa_its_set`. -/
class ItsSet (n : Nat) where
  itsSet : Nat → File n → M n Unit

export ItsSet (itsSet)

/-- One that has room for every file. -/
instance : ItsSet n := ⟨psaItsSet⟩

def psaItsGet (fid : Nat) : M n (File n) :=
  ext .storageFailure fun s =>
    match s.files fid with
    | some file => (.ok file, s)
    | none => (.error .doesNotExist, s)

def psaItsRemove (fid : Nat) : M n Unit :=
  ext .storageFailure fun s =>
    match s.files fid with
    | some _ => (.ok (), { s with files := Function.update s.files fid none })
    | none => (.error .doesNotExist, s)

/-- mirrors secure_fw/partitions/protected_storage/nv_counters/ps_nv_counters.c:11-24 -/
def psReadNvCounter (c : Nvc) : M n Nat := ext .genericError fun s => (.ok (s.nvc c), s)

/-- mirrors secure_fw/partitions/protected_storage/nv_counters/ps_nv_counters.c:26-43 and
platform/ext/common/template/nv_counters.c:190-208 -/
def psIncrementNvCounter (c : Nvc) : M n Unit :=
  ext .genericError fun s =>
    if s.nvc c = nvcMax then (.error .genericError, s)
    else (.ok (), { s with nvc := Function.update s.nvc c (s.nvc c + 1) })

def psCryptoSetkey : M n Unit := ext .genericError fun s => (.ok (), s)
def psCryptoDestroykey : M n Unit := ext .genericError fun s => (.ok (), s)

/-- mirrors secure_fw/partitions/protected_storage/crypto/ps_crypto_interface.c:119-171 -/
def psCryptoGetIv : M n Iv := do
  let s ← get
  match s.iv.next with
  | none => throw .genericError
  | some iv =>
    modify fun s => { s with iv := iv }
    pure iv

/-- mirrors secure_fw/partitions/protected_storage/crypto/ps_crypto_interface.c:173-198 -/
def psCryptoEncryptAndTag (iv : Iv) (fid : Nat) (obj : Obj) : M n ObjTag :=
  ext .genericError fun s => (.ok ⟨iv, fid, obj⟩, { s with used := iv :: s.used })

/-- mirrors secure_fw/partitions/protected_storage/crypto/ps_crypto_interface.c:200-225 -/
def psCryptoAuthAndDecrypt (fid : Nat) (tag : Option ObjTag) (file : ObjFile) : M n Obj :=
  ext .invalidSignature fun s =>
    if tag = some ⟨file.iv, fid, file.obj⟩ then (.ok file.obj, s)
    else (.error .invalidSignature, s)

/-- mirrors secure_fw/partitions/protected_storage/crypto/ps_crypto_interface.c:227-247 -/
def psCryptoGenerateAuthTag (iv : Iv) (nvc : Option Nat) (body : Body n) : M n (TableTag n) :=
  ext .genericError fun s => (.ok ⟨iv, nvc, body⟩, { s with used := iv :: s.used })

/-- The tag of a table is the one of its contents under the counter value. -/
def Table.auth (t : Table n) (nvc : Option Nat) : Bool := t.tag == some ⟨t.iv, nvc, t.body⟩

/-- mirrors secure_fw/partitions/protected_storage/crypto/ps_crypto_interface.c:249-269 -/
def psCryptoAuthenticate (t : Table n) (nvc : Option Nat) : M n Unit :=
  ext .invalidSignature fun s =>
    if t.auth nvc then (.ok (), s) else (.error .invalidSignature, s)

/-! ## Saving the table -/

/-- The increments of one counter, `k` of them. -/
def incrementNvCounter (c : Nvc) : Nat → M n Unit
  | 0 => pure ()
  | k + 1 => do
    psIncrementNvCounter c
    incrementNvCounter c k

/-- Raise one counter to the value of counter 1. -/
def alignNvCounter (c : Nvc) (nvc1 : Nat) : M n Unit := do
  let v ← psReadNvCounter c
  incrementNvCounter c (nvc1 - v)

/-- mirrors secure_fw/partitions/protected_storage/ps_object_table.c:303-335 -/
def psObjectTableAlignNvCounters (nvc1 : Nat) : M n Unit := do
  alignNvCounter .c2 nvc1
  alignNvCounter .c3 nvc1

/-- mirrors secure_fw/partitions/protected_storage/ps_object_table.c:346-369 and 471-497 -/
def psObjectTableGenerateAuthTag (nvc : Option Nat) : M n Unit := do
  let iv ← psCryptoGetIv
  modify fun s => { s with table := { s.table with iv := iv } }
  let s ← get
  let tag ← psCryptoGenerateAuthTag iv nvc s.table.body
  modify fun s => { s with table := { s.table with tag := some tag } }

/-- mirrors secure_fw/partitions/protected_storage/ps_object_table.c:270-292 -/
def psObjectTableFsWriteTable [ItsSet n] : M n Unit := do
  let s ← get
  itsSet (tableFid s.scratch) (.table s.table)
  modify fun s => { s with scratch := s.active, active := s.scratch }

def nextSwapCount (c : Nat) : Nat :=
  let c' := (c + 1) % 256
  if c' = flashDefaultVal then 0 else c'

/-- The first step of a save: the counter value, or the next swap count. -/
def saveStamp (cfg : Cfg) : M n (Option Nat) :=
  if cfg.rollback then do
    psIncrementNvCounter .c1
    let v ← psReadNvCounter .c1
    pure (some v)
  else do
    modify fun s => { s with table := { s.table with
      body := { s.table.body with swapCount := nextSwapCount s.table.body.swapCount } } }
    pure none

/-- mirrors secure_fw/partitions/protected_storage/ps_object_table.c:542-613 -/
def psObjectTableSaveTable [ItsSet n] (cfg : Cfg) : M n Unit := do
  let nvc ← saveStamp cfg
  psCryptoSetkey
  match ← attempt (psObjectTableGenerateAuthTag nvc) with
  | .error e => do
    let _ ← attempt psCryptoDestroykey
    throw e
  | .ok _ => do
    psCryptoDestroykey
    psObjectTableFsWriteTable
    match nvc with
    | some v => psObjectTableAlignNvCounters v
    | none => pure ()

/-- mirrors secure_fw/partitions/protected_storage/ps_object_table.c:834-852 -/
def psObjectTableCreate [ItsSet n] (cfg : Cfg) : M n Unit := do
  modify fun s => { s with
    table := { Table.zero n with body := { Body.zero n with version := objectSystemVersion } }
    active := 1
    scratch := 0 }
  psObjectTableSaveTable cfg

/-! ## Loading the table -/

inductive TableState
  | valid
  | invalid
  | nvc1Valid
  | nvc3Valid
  deriving DecidableEq, Repr

/-- One table file; `none` when it cannot be read.
mirrors secure_fw/partitions/protected_storage/ps_object_table.c:229-259 -/
def psObjectTableFsReadTable (idx : Fin 2) : M n (Option (Table n)) := do
  match ← attempt (psaItsGet (tableFid idx)) with
  | .ok (.table t) => pure (some t)
  | _ => pure none

/-- mirrors secure_fw/partitions/protected_storage/ps_object_table.c:378-415 -/
def psObjectTableAuthenticate (t : Option (Table n)) (nvc1 nvc3 : Nat) : M n TableState :=
  match t with
  | none => pure .invalid
  | some t => do
    match ← attempt (psCryptoAuthenticate t (some nvc1)) with
    | .ok _ => pure .nvc1Valid
    | .error _ =>
      if nvc3 = 0 then pure .invalid
      else do
        match ← attempt (psCryptoAuthenticate t (some nvc3)) with
        | .ok _ => pure .nvc3Valid
        | .error _ => pure .invalid

/-- The states of the tables and the value of counter 1.
mirrors secure_fw/partitions/protected_storage/ps_object_table.c:424-467 -/
def psObjectTableNvcAuthenticate (t0 t1 : Option (Table n)) : M n (TableState × TableState × Nat) := do
  let nvc1 ← psReadNvCounter .c1
  let nvc2 ← psReadNvCounter .c2
  let nvc3 ← psReadNvCounter .c3
  let nvc3 := if nvc3 = nvc2 then nvc3 else 0
  let st0 ← psObjectTableAuthenticate t0 nvc1 nvc3
  let st1 ← psObjectTableAuthenticate t1 nvc1 nvc3
  pure (st0, st1, nvc1)

/-- mirrors secure_fw/partitions/protected_storage/ps_object_table.c:505-532 -/
def psObjectTableAuthenticateCtxTable (t : Option (Table n)) : M n TableState :=
  match t with
  | none => pure .invalid
  | some t => do
    match ← attempt (psCryptoAuthenticate t none) with
    | .ok _ => pure .valid
    | .error _ => pure .invalid

def authenticateTables (cfg : Cfg) (t0 t1 : Option (Table n)) :
    M n (TableState × TableState × Option Nat) :=
  if cfg.rollback then do
    match ← attempt (psObjectTableNvcAuthenticate t0 t1) with
    | .ok (st0, st1, nvc1) => pure (st0, st1, some nvc1)
    | .error e => do
      let _ ← attempt psCryptoDestroykey
      throw e
  else do
    let st0 ← psObjectTableAuthenticateCtxTable t0
    let st1 ← psObjectTableAuthenticateCtxTable t1
    pure (st0, st1, none)

/-- mirrors secure_fw/partitions/protected_storage/ps_object_table.c:621-637 -/
def validateVersion (t : Option (Table n)) (st : TableState) : TableState :=
  match t with
  | some t => if t.body.version = objectSystemVersion then st else .invalid
  | none => .invalid

/-- The active table; `none` when both are invalid.
mirrors secure_fw/partitions/protected_storage/ps_object_table.c:647-750 -/
def activeTable (cfg : Cfg) (st0 st1 : TableState) (swap0 swap1 : Nat) : Option (Fin 2) :=
  if st0 = .invalid ∧ st1 = .invalid then none
  else if st0 = .invalid then some 1
  else if st1 = .invalid then some 0
  else if cfg.rollback then
    if st1 = .nvc1Valid then some 1 else some 0
  else if swap1 = 0 ∧ swap0 ≠ 1 then some 1
  else if swap0 = 0 ∧ swap1 ≠ 1 then some 0
  else if swap0 < swap1 then some 1
  else some 0

def swapCountOf (t : Option (Table n)) : Nat :=
  match t with
  | some t => t.body.swapCount
  | none => 0

def psSetActiveObjectTable (cfg : Cfg) (t0 t1 : Option (Table n)) (st0 st1 : TableState) :
    M n Unit :=
  match activeTable cfg st0 st1 (swapCountOf t0) (swapCountOf t1) with
  | none => throw .genericError
  | some 0 => modify fun s => { s with active := 0, scratch := 1 }
  | some 1 => modify fun s => { s with active := 1, scratch := 0, table := t1.getD (.zero n) }

/-- The first half of `ps_object_table_init`: read and check both tables and set
the active one. Table 0 is read into the context, table 1 into the object buffer.
mirrors secure_fw/partitions/protected_storage/ps_object_table.c:854-900 -/
def psObjectTableSelect (cfg : Cfg) : M n (Option Nat) := do
  let t0 ← psObjectTableFsReadTable 0
  modify fun s => { s with table := t0.getD s.table }
  let t1 ← psObjectTableFsReadTable 1
  psCryptoSetkey
  let (st0, st1, nvc1) ← authenticateTables cfg t0 t1
  psCryptoDestroykey
  psSetActiveObjectTable cfg t0 t1 (validateVersion t0 st0) (validateVersion t1 st1)
  pure nvc1

/-- mirrors secure_fw/partitions/protected_storage/ps_object_table.c:854-923 -/
def psObjectTableInit (cfg : Cfg) : M n Unit := do
  let nvc1 ← psObjectTableSelect cfg
  let s ← get
  match ← attempt (psaItsRemove (tableFid s.scratch)) with
  | .ok _ | .error .doesNotExist => pure ()
  | .error e => throw e
  match nvc1 with
  | some v => psObjectTableAlignNvCounters v
  | none => pure ()
  modify fun s => { s with iv := s.table.iv }

/-! ## Table entries -/

/-- mirrors secure_fw/partitions/protected_storage/ps_object_table.c:762-780 -/
def getObjectEntryIdx (body : Body n) (uid : Nat) (clientId : Int) : Option (Fin n) :=
  (List.finRange n).find? fun i => (body.db i).uid == uid && (body.db i).clientId == clientId

/-- The scan of `ps_table_free_idx` for the `num`-th free entry.
mirrors secure_fw/partitions/protected_storage/ps_object_table.c:797-823 -/
def tableFreeIdx (body : Body n) : Nat → List (Fin n) → Option (Fin n)
  | _, [] => none
  | num, i :: is =>
    if (body.db i).uid = 0 then if num ≤ 1 then some i else tableFreeIdx body (num - 1) is
    else tableFreeIdx body num is

def Body.set (b : Body n) (i : Fin n) (e : Entry) : Body n :=
  { b with db := Function.update b.db i e }

/-- mirrors secure_fw/partitions/protected_storage/ps_object_table.c:933-962 -/
def psObjectTableGetFreeFid (num : Nat) : M n Nat := do
  let s ← get
  match tableFreeIdx s.table.body num (List.finRange n) with
  | none => throw .insufficientStorage
  | some i =>
    match ← attempt (psaItsRemove (objectFid i.val)) with
    | .ok _ | .error .doesNotExist => pure (objectFid i.val)
    | .error e => throw e

def setBody (b : Body n) : M n Unit := modify fun s => { s with table := { s.table with body := b } }

/-- mirrors secure_fw/partitions/protected_storage/ps_object_table.c:964-1022 -/
def psObjectTableSetObjTblInfo [ItsSet n] (cfg : Cfg) (uid : Nat) (clientId : Int) (fid : Nat)
    (tag : ObjTag) : M n Unit := do
  let s ← get
  let body := s.table.body
  let backup := getObjectEntryIdx body uid clientId
  let cleared := match backup with
    | some i => body.set i .empty
    | none => body
  setBody cleared
  if h : objectFidToIdx fid < n then do
    setBody (cleared.set ⟨objectFidToIdx fid, h⟩ ⟨some tag, uid, clientId⟩)
    match ← attempt (psObjectTableSaveTable cfg) with
    | .ok _ => pure ()
    | .error e => do
      let s ← get
      let restored := match backup with
        | some i => s.table.body.set i (body.db i)
        | none => s.table.body
      setBody (restored.set ⟨objectFidToIdx fid, h⟩ .empty)
      throw e
  else throw .invalidArgument

/-- mirrors secure_fw/partitions/protected_storage/ps_object_table.c:1051-1083 -/
def psObjectTableDeleteObject [ItsSet n] (cfg : Cfg) (uid : Nat) (clientId : Int) : M n Unit := do
  let s ← get
  let body := s.table.body
  match getObjectEntryIdx body uid clientId with
  | none => throw .doesNotExist
  | some i =>
    setBody (body.set i .empty)
    match ← attempt (psObjectTableSaveTable cfg) with
    | .ok _ => pure ()
    | .error e => do
      let s ← get
      setBody (s.table.body.set i (body.db i))
      throw e

/-- mirrors secure_fw/partitions/protected_storage/ps_object_table.c:1085-1090 -/
def psObjectTableDeleteOldTable : M n Unit := do
  let s ← get
  psaItsRemove (tableFid s.scratch)

/-! ## Objects -/

/-- mirrors secure_fw/partitions/protected_storage/ps_encrypted_object.c:53-91 and 147-188 -/
def psEncryptedObjectRead (fid : Nat) (tag : Option ObjTag) : M n Obj := do
  match ← psaItsGet fid with
  | .table _ => throw .genericError
  | .object file => do
    psCryptoSetkey
    match ← attempt (psCryptoAuthAndDecrypt fid tag file) with
    | .error _ => do
      let _ ← attempt psCryptoDestroykey
      throw .genericError
    | .ok obj => do
      psCryptoDestroykey
      pure obj

/-- mirrors secure_fw/partitions/protected_storage/ps_encrypted_object.c:105-145 and 190-218 -/
def psEncryptedObjectWrite [ItsSet n] (fid : Nat) (obj : Obj) : M n ObjTag := do
  psCryptoSetkey
  let iv ← psCryptoGetIv
  match ← attempt (psCryptoEncryptAndTag iv fid obj) with
  | .error _ => do
    let _ ← attempt psCryptoDestroykey
    throw .genericError
  | .ok tag => do
    psCryptoDestroykey
    itsSet fid (.object ⟨iv, obj⟩)
    pure tag

/-- mirrors secure_fw/partitions/protected_storage/ps_object_system.c:68-80 -/
def psRemoveOldData (oldFid : Nat) : M n Unit := do
  psObjectTableDeleteOldTable
  psaItsRemove oldFid

/-- The common end of create and write: a new file, a new table, and then the
old table and the old file are removed.
mirrors secure_fw/partitions/protected_storage/ps_object_system.c:290-330 and 399-434 -/
def storeObject [ItsSet n] (cfg : Cfg) (num uid : Nat) (clientId : Int) (obj : Obj) (oldFid : Option Nat) :
    M n Unit := do
  let fid ← psObjectTableGetFreeFid num
  let tag ← psEncryptedObjectWrite fid obj
  match ← attempt (psObjectTableSetObjTblInfo cfg uid clientId fid tag) with
  | .error e => do
    let _ ← attempt (psaItsRemove fid)
    throw e
  | .ok _ =>
    match oldFid with
    | none => psObjectTableDeleteOldTable
    | some old => psRemoveOldData old

/-- mirrors secure_fw/partitions/protected_storage/ps_object_system.c:224-337 -/
def psObjectCreate [ItsSet n] (cfg : Cfg) (uid : Nat) (clientId : Int) (flags : UInt32)
    (data : List UInt8) : M n Unit :=
  if cfg.maxData < data.length then throw .invalidArgument
  else do
    let s ← get
    match getObjectEntryIdx s.table.body uid clientId with
    | some i => do
      let old ← psEncryptedObjectRead (objectFid i.val) (s.table.body.db i).tag
      if old.flags &&& flagWriteOnce ≠ 0 then throw .notPermitted
      else storeObject cfg 1 uid clientId ⟨data.length, flags, data⟩ (some (objectFid i.val))
    | none => storeObject cfg 2 uid clientId ⟨data.length, flags, data⟩ none

/-- The data after writing `new` at `offset`. -/
def overwrite (data : List UInt8) (offset : Nat) (new : List UInt8) : List UInt8 :=
  data.take offset ++ new ++ data.drop (offset + new.length)

/-- mirrors secure_fw/partitions/protected_storage/ps_object_system.c:339-443 -/
def psObjectWrite [ItsSet n] (cfg : Cfg) (uid : Nat) (clientId : Int) (offset : Nat) (data : List UInt8) :
    M n Unit := do
  let s ← get
  match getObjectEntryIdx s.table.body uid clientId with
  | none => throw .doesNotExist
  | some i => do
    let old ← psEncryptedObjectRead (objectFid i.val) (s.table.body.db i).tag
    if old.flags &&& flagWriteOnce ≠ 0 then throw .notPermitted
    else if old.data.length < offset then throw .invalidArgument
    else if old.maxSize < offset ∨ old.maxSize - offset < data.length then throw .invalidArgument
    else do
      let obj : Obj := { old with data := overwrite old.data offset data }
      storeObject cfg 1 uid clientId obj (some (objectFid i.val))

/-- mirrors secure_fw/partitions/protected_storage/ps_object_system.c:478-522 -/
def psObjectDelete [ItsSet n] (cfg : Cfg) (uid : Nat) (clientId : Int) : M n Unit := do
  let s ← get
  match getObjectEntryIdx s.table.body uid clientId with
  | none => throw .doesNotExist
  | some i => do
    let old ← psEncryptedObjectRead (objectFid i.val) (s.table.body.db i).tag
    if old.flags &&& flagWriteOnce ≠ 0 then throw .notPermitted
    else do
      psObjectTableDeleteObject cfg uid clientId
      psRemoveOldData (objectFid i.val)

/-- mirrors secure_fw/partitions/protected_storage/ps_object_system.c:177-222 -/
def psObjectRead (uid : Nat) (clientId : Int) (offset size : Nat) : M n (List UInt8) := do
  let s ← get
  match getObjectEntryIdx s.table.body uid clientId with
  | none => throw .doesNotExist
  | some i => do
    let obj ← psEncryptedObjectRead (objectFid i.val) (s.table.body.db i).tag
    if obj.data.length < offset then throw .invalidArgument
    else pure ((obj.data.drop offset).take size)

/-- mirrors secure_fw/partitions/protected_storage/ps_object_system.c:445-476 -/
def psObjectGetInfo (uid : Nat) (clientId : Int) : M n (Nat × UInt32) := do
  let s ← get
  match getObjectEntryIdx s.table.body uid clientId with
  | none => throw .doesNotExist
  | some i => do
    let obj ← psEncryptedObjectRead (objectFid i.val) (s.table.body.db i).tag
    pure (obj.data.length, obj.flags)

/-- mirrors secure_fw/partitions/protected_storage/ps_object_system.c:156-175 and 524-534 -/
def psSystemPrepare (cfg : Cfg) : M n Unit := psObjectTableInit cfg
def psSystemWipeAll [ItsSet n] (cfg : Cfg) : M n Unit := psObjectTableCreate cfg

/-- What follows a `ps_system_prepare` that failed. The IV counter is as it was. -/
def createFlashLayout [ItsSet n] (cfg : Cfg) (e : PsaStatus) : M n Unit :=
  if cfg.createLayout then do
    psSystemWipeAll cfg
    psSystemPrepare cfg
  else throw e

/-- mirrors secure_fw/partitions/protected_storage/tfm_protected_storage.c:15-47 -/
def tfmPsInit [ItsSet n] (cfg : Cfg) : M n Unit := do
  match ← attempt (psSystemPrepare cfg) with
  | .ok _ => pure ()
  | .error e => createFlashLayout cfg e

/-! ## Visible objects -/

/-- The object a table and the files hold under a uid and client id. -/
def lookup (body : Body n) (files : Nat → Option (File n)) (uid : Nat) (clientId : Int) :
    Option Obj :=
  match getObjectEntryIdx body uid clientId with
  | none => none
  | some i =>
    match files (objectFid i.val) with
    | some (.object file) =>
      if (body.db i).tag = some ⟨file.iv, objectFid i.val, file.obj⟩ then some file.obj else none
    | _ => none

abbrev View := Nat → Int → Option Obj

/-- What clients see of a table; uid 0 is refused. -/
def viewOf (body : Body n) (files : Nat → Option (File n)) : View := fun uid clientId =>
  if uid = 0 then none else lookup body files uid clientId

def Sys.view (s : Sys n) : View := viewOf s.table.body s.files

/-! ## Transition system -/

inductive Op
  | create (uid : Nat) (clientId : Int) (flags : UInt32) (data : List UInt8)
  | write (uid : Nat) (clientId : Int) (offset : Nat) (data : List UInt8)
  | delete (uid : Nat) (clientId : Int)
  deriving DecidableEq, Repr

def createFlags : UInt32 := 7

/-- The operations with the checks of their callers: `TFM_PS_INVALID_UID` and
unknown create flags are refused.
mirrors secure_fw/partitions/protected_storage/tfm_protected_storage.c:49-74 and 112-139 -/
def Op.run [ItsSet n] (cfg : Cfg) : Op → M n Unit
  | .create uid clientId flags data =>
    if uid = 0 then throw .invalidArgument
    else if flags &&& ~~~createFlags ≠ 0 then throw .notSupported
    else psObjectCreate cfg uid clientId flags data
  | .write uid clientId offset data =>
    if uid = 0 then throw .invalidArgument else psObjectWrite cfg uid clientId offset data
  | .delete uid clientId =>
    if uid = 0 then throw .invalidArgument else psObjectDelete cfg uid clientId

/-- The device: storage and RAM, whether the partition is up, and, as ghost
state, what was visible before the last operation and what its completion makes
visible. -/
structure Dev (n : Nat) where
  sys : Sys n
  up : Bool
  before : View
  after : View

def Dev.settled (s : Sys n) : Dev n := ⟨s, true, s.view, s.view⟩

inductive Lbl
  | op (o : Op) (p : List Ev)
  | boot (p : List Ev)
  /-- power cut between two operations -/
  | off
  deriving DecidableEq, Repr

def step [ItsSet n] (cfg : Cfg) (d : Dev n) : Lbl → Option (Dev n)
  | .op o p =>
    if d.up then
      match o.run cfg d.sys p with
      | .ok _ s _ => some (.settled s)
      | .err _ s _ => some (.settled s)
      | .cut s => some ⟨s.reset, false, d.sys.view, (o.run cfg d.sys []).state.view⟩
    else none
  | .boot p =>
    if d.up then none
    else
      match tfmPsInit cfg d.sys p with
      | .ok _ s _ => some (.settled s)
      | .err _ s _ => some ⟨s.reset, false, d.before, d.after⟩
      | .cut s => some ⟨s.reset, false, d.before, d.after⟩
  | .off => if d.up then some { d with sys := d.sys.reset, up := false } else none

/-- Blank storage and counters at zero. -/
def blank (n : Nat) : Sys n where
  files _ := none
  nvc _ := 0
  table := .zero n
  active := 0
  scratch := 0
  iv := .zero
  used := []

/-- A device on which the flash layout was created, before its first start. -/
def init (cfg : Cfg) (n : Nat) [ItsSet n] : Dev n :=
  ⟨(psSystemWipeAll cfg (blank n) []).state.reset, false, fun _ _ => none, fun _ _ => none⟩

def lts (cfg : Cfg) (n : Nat) [ItsSet n] : LTS (Dev n) Lbl := LTS.ofFn (· = init cfg n) (step cfg)

end Tfm.L4.Ps
