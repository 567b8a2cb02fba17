import Mathlib.Data.List.FinRange
import Mathlib.Data.UInt
import Tfm.Core.BiList
import Tfm.Core.Index
import Tfm.Core.LTS
import Tfm.Core.Psa

/-!
# SPM: connections and messages

Model of the IPC back end of the SPM: the connection-handle pool
(secure_fw/spm/cmsis_psa/tfm_pools.c), connection handles and messages
(cmsis_psa/spm_ipc.c), the client calls (ffm/spm_psa_client_call.c), their two
front ends, SVC (ffm/psa_client_service_apis.c) and mailbox (cmsis_psa/tfm_rpc.c),
and `psa_get` and `psa_reply`.

A connection handle is a chunk of a static pool; it embeds the one message of
the connection. Chunks are linked, through nodes embedded in them, into the
pool's free list, into the handle list of their service and, while their
message is queued, into the message list of the service's partition. The lists
are pointer lists (`BiList`, the macros of secure_fw/spm/include/lists.h).

A client sees a chunk as a 32-bit user handle: the chunk's offset in the pool,
shifted by three bits, plus a rolling index that the reverse conversion drops.
Sizes are those of the 32-bit target in the multi-core topology.

Client calls run with `ns_caller` set for non-secure clients; a programmer
error then returns a status, for a secure client it panics. Blocking of the
caller is not modelled: any client may issue any call at any time, which covers
the mailbox, where several non-secure requests are outstanding at once.

Ghost state: a request id for every filled message, where each message is
(`Busy`), who made it (`Origin`), the handles `psa_connect` returned, and logs
of the accepted, delivered and answered requests.
-/
namespace Tfm.L4.Spm
open Tfm.BiList

/-- mirrors secure_fw/spm/cmsis_psa/spm_ipc.h:32 -/
abbrev connHandleMaxNum : Nat := 16
abbrev Chunk := Fin connHandleMaxNum

/-- `sizeof(struct tfm_pool_instance_t)`, the offset of the first chunk. -/
def poolInstanceSize : Nat := 16
/-- `sizeof(struct tfm_pool_chunk_t)`, the offset of a chunk's data. -/
def poolChunkSize : Nat := 8
/-- `sizeof(struct tfm_conn_handle_t)`, with the `caller_data` of the multi-core topology,
plus the chunk header. -/
def chunksSize : Nat := 168 + poolChunkSize

/-- The nodes of the intrusive lists: list heads, and one node per chunk and
kind of list. `null` takes the writes through a null pointer. -/
inductive Node (H : Type)
  | null
  | head (h : H)
  | chunk (k : Chunk)
  deriving DecidableEq, Repr

/-! ## User handles -/

/-- Offset of a connection handle in the pool. -/
def connOffset (k : Chunk) : Nat := poolInstanceSize + poolChunkSize + chunksSize * k.val

/-- mirrors secure_fw/spm/cmsis_psa/spm_ipc.c:89-100 -/
def toUserHandle (k : Chunk) (loopIndex : Nat) : UInt32 :=
  UInt32.ofNat ((connOffset k <<< 3) + 1 + loopIndex)

/-- The offset in the pool a user handle stands for; `none` is `NULL`.
mirrors secure_fw/spm/cmsis_psa/spm_ipc.c:117-130 -/
def toHandleInstance (h : UInt32) : Option Nat :=
  if h = 0 then none else some ((h - 1) >>> 3).toNat

/-- mirrors secure_fw/spm/cmsis_psa/tfm_pools.c:86-110 -/
def isValidChunkDataInPool (off : Nat) : Bool :=
  decide (poolInstanceSize ≤ off) &&
    decide (off < poolInstanceSize + chunksSize * connHandleMaxNum) &&
    (off + 2 ^ 32 - poolChunkSize - poolInstanceSize) % 2 ^ 32 % chunksSize == 0

/-- The chunk at a valid offset. -/
def chunkAt (off : Nat) : Option Chunk :=
  if h : isValidChunkDataInPool off = true then
    some ⟨(off - (poolInstanceSize + poolChunkSize)) / chunksSize, by
      have hlt : off < poolInstanceSize + chunksSize * connHandleMaxNum := by
        simp only [isValidChunkDataInPool, Bool.and_eq_true, decide_eq_true_eq] at h
        exact h.1.2
      simp only [poolInstanceSize, poolChunkSize, chunksSize, connHandleMaxNum] at hlt ⊢
      omega⟩
  else none

/-- A user handle that passes the address check. -/
def chunkOf (h : UInt32) : Option Chunk := (toHandleInstance h).bind chunkAt

/-- `IS_VALID_STATIC_HANDLE` with `GET_INDEX_FROM_STATIC_HANDLE`.
mirrors secure_fw/spm/cmsis_psa/spm_ipc.h:38-61 -/
def staticIndex (h : UInt32) : Option (Fin 32) :=
  let idx := ((h &&& 0xff) - 1).toNat
  if h &&& 0x40000000 ≠ 0 then if hi : idx < 32 then some ⟨idx, hi⟩ else none else none

def staticVersion (h : UInt32) : Nat := ((h >>> 8) &&& 0xff).toNat

/-! ## Data base -/

inductive VersionPolicy
  | relaxed
  | strict
  deriving DecidableEq, Repr

/-- mirrors secure_fw/spm/cmsis_psa/spm_ipc.h:144-153 -/
structure Service (nP : Nat) where
  sid : Nat
  partition : Fin nP
  /-- bit number of `signal` -/
  signal : Nat
  nonSecureClient : Bool
  connectionBased : Bool
  version : Nat
  versionPolicy : VersionPolicy

structure Partition where
  pid : Int
  deps : List Nat

/-- One call of `tfm_hal_memory_has_access`. -/
structure MemReq where
  base : Nat
  size : Nat
  ns : Bool
  rw : Bool
  privileged : Bool
  deriving DecidableEq, Repr

/-- The generated partition and service tables and the platform's memory
check. -/
structure Db (nS nP : Nat) where
  service : Fin nS → Service nP
  partition : Fin nP → Partition
  /-- `stateless_service_ref` -/
  stateless : Fin 32 → Option (Fin nS)
  halMemoryHasAccess : MemReq → Bool

/-! ## State -/

inductive Status
  | idle
  | active
  | connectError
  deriving DecidableEq, Repr

/-- ghost: which client call filled a message -/
inductive Origin
  | connect
  | call
  | close
  deriving DecidableEq, Repr

/-- `psa_invec` or `psa_outvec`. -/
structure Vec where
  base : Nat
  len : Nat
  deriving DecidableEq, Repr

/-- `struct tfm_msg_body_t`.
mirrors secure_fw/spm/cmsis_psa/spm_ipc.h:83-103 -/
structure Msg (nS : Nat) where
  magic : Bool
  service : Option (Fin nS)
  type : Int
  handle : UInt32
  clientId : Int
  rhandle : Nat
  invec : List Vec
  outvec : List Vec
  callerOutvec : Nat
  callerData : Option Nat
  /-- ghost -/
  origin : Origin
  /-- ghost: request id -/
  rid : Nat
  deriving DecidableEq, Repr

def Msg.zero {nS : Nat} : Msg nS := ⟨false, none, 0, 0, 0, 0, [], [], 0, none, .call, 0⟩

/-- `struct tfm_conn_handle_t`.
mirrors secure_fw/spm/cmsis_psa/spm_ipc.h:173-191 -/
structure Conn (nS : Nat) where
  rhandle : Nat
  status : Status
  clientId : Int
  internalMsg : Msg nS
  service : Option (Fin nS)
  deriving DecidableEq, Repr

/-- ghost: where the message of a chunk is -/
inductive Busy
  | idle
  | queued (r : Nat)
  | delivered (r : Nat)
  deriving DecidableEq, Repr

structure St (nS nP : Nat) where
  loopIndex : Nat
  pool : Links (Node Unit)
  handles : Links (Node (Fin nS))
  msgs : Links (Node (Fin nP))
  conn : Chunk → Conn nS
  /-- `signals_asserted`, bit by bit -/
  asserted : Fin nP → Nat → Bool
  panicked : Bool
  /-- ghost: allocated from the pool and not freed since -/
  alloc : Chunk → Bool
  /-- ghost -/
  busy : Chunk → Busy
  /-- ghost: handles returned by `psa_connect` and not closed since, with their
  client -/
  granted : List (Int × UInt32)
  /-- ghost: a message was filled while it was queued or with the service -/
  overwritten : Bool
  next : Nat
  accepted : List Nat
  delivered : List Nat
  answered : List Nat

variable {nS nP : Nat}

def St.setConn (s : St nS nP) (k : Chunk) (f : Conn nS → Conn nS) : St nS nP :=
  { s with conn := Function.update s.conn k (f (s.conn k)) }

inductive Caller (nP : Nat)
  | ns (clientId : Int)
  | secure (p : Fin nP)
  deriving DecidableEq, Repr

def Caller.isNs : Caller nP → Bool
  | .ns _ => true
  | .secure _ => false

def Caller.id (db : Db nS nP) : Caller nP → Int
  | .ns c => c
  | .secure p => (db.partition p).pid

/-- How a client call ends: its message was queued, it returned early, or the
SPM panicked. -/
inductive Outcome
  | accepted
  | refused (e : PsaStatus)
  | ignored
  | panic
  deriving DecidableEq, Repr

/-- `TFM_PROGRAMMER_ERROR`.
mirrors secure_fw/spm/ffm/spm_psa_client_call.h:16-23 -/
def programmerError (ns : Bool) (e : PsaStatus) : Outcome := if ns then .refused e else .panic

/-! ## Connection handles -/

/-- mirrors secure_fw/spm/cmsis_psa/tfm_pools.c:57-76 -/
def poolAlloc (s : St nS nP) : Option (Chunk × St nS nP) :=
  if isEmpty s.pool (.head ()) then none
  else
    match s.pool.next (.head ()) with
    | .chunk k => some (k, { s with pool := removeNode s.pool (.chunk k) })
    | _ => none

/-- mirrors secure_fw/spm/cmsis_psa/spm_ipc.c:133-156 -/
def createConnHandle (s : St nS nP) (v : Fin nS) (clientId : Int) : Option (Chunk × St nS nP) :=
  match poolAlloc s with
  | none => none
  | some (k, s₁) =>
    let s₂ := s₁.setConn k fun c =>
      { c with service := some v, status := .idle, clientId := clientId }
    some (k, { s₂ with
      handles := insertBefore s₂.handles (.head v) (.chunk k)
      alloc := Function.update s₂.alloc k true })

/-- The chunk stays as it is except for the magic of its message.
mirrors secure_fw/spm/cmsis_psa/spm_ipc.c:175-192 -/
def freeConnHandle (s : St nS nP) (k : Chunk) : St nS nP :=
  let s₁ := s.setConn k fun c => { c with internalMsg := { c.internalMsg with magic := false } }
  { s₁ with
    handles := removeNode s₁.handles (.chunk k)
    pool := insertBefore s₁.pool (.head ()) (.chunk k)
    alloc := Function.update s₁.alloc k false }

/-- mirrors secure_fw/spm/cmsis_psa/spm_ipc.c:158-173 -/
def validateConnHandle (s : St nS nP) (h : UInt32) (clientId : Int) : Option Chunk :=
  match chunkOf h with
  | some k => if (s.conn k).clientId = clientId then some k else none
  | none => none

/-! ## Service table checks -/

/-- mirrors secure_fw/spm/cmsis_psa/spm_ipc.c:361-373 -/
def getServiceBySid (db : Db nS nP) (sid : Nat) : Option (Fin nS) :=
  (List.finRange nS).find? fun v => (db.service v).sid == sid

/-- mirrors secure_fw/spm/cmsis_psa/spm_ipc.c:404-424 -/
def checkClientVersion (db : Db nS nP) (v : Fin nS) (version : Nat) : Bool :=
  match (db.service v).versionPolicy with
  | .relaxed => decide (version ≤ (db.service v).version)
  | .strict => version == (db.service v).version

/-- mirrors secure_fw/spm/cmsis_psa/spm_ipc.c:426-457 -/
def checkAuthorization (db : Db nS nP) (sid : Nat) (v : Fin nS) : Caller nP → Bool
  | .ns _ => (db.service v).nonSecureClient
  | .secure p => (db.partition p).deps.contains sid

/-- mirrors secure_fw/spm/cmsis_psa/spm_ipc.c:609-655 -/
def memoryCheck (db : Db nS nP) (buffer len : Nat) (ns rw privileged : Bool) : Bool :=
  if len = 0 then true
  else if buffer = 0 then false
  else if 2 ^ 32 - 1 - len < buffer then false
  else db.halMemoryHasAccess ⟨buffer, len, ns, rw, privileged⟩

/-! ## Messages -/

/-- Clear and fill the message of chunk `k`, its list node included.
`callerData` is what the RPC callback returns for a non-secure client.
mirrors secure_fw/spm/cmsis_psa/spm_ipc.c:503-559 -/
def fillMsg (s : St nS nP) (k : Chunk) (v : Fin nS) (handle : UInt32) (type clientId : Int)
    (invec outvec : List Vec) (callerOutvec : Nat) (callerData : Option Nat) (origin : Origin) :
    St nS nP :=
  let m : Msg nS :=
    { magic := true, service := some v, type := type, handle := handle, clientId := clientId,
      rhandle := (s.conn k).rhandle, invec := invec, outvec := outvec,
      callerOutvec := callerOutvec, callerData := if clientId < 0 then callerData else none,
      origin := origin, rid := s.next }
  let s₁ := s.setConn k fun c => { c with internalMsg := m }
  { s₁ with
    msgs := (s.msgs.setNext (.chunk k) .null).setPrev (.chunk k) .null
    overwritten := s.overwritten || s.busy k != .idle
    busy := Function.update s.busy k (.queued s.next)
    next := s.next + 1
    accepted := s.next :: s.accepted }

/-- mirrors secure_fw/spm/cmsis_psa/spm_ipc.c:561-595 -/
def sendEvent (db : Db nS nP) (s : St nS nP) (v : Fin nS) (k : Chunk) : St nS nP :=
  let p := (db.service v).partition
  { s with
    msgs := insertBefore s.msgs (.head p) (.chunk k)
    asserted := Function.update s.asserted p
      (Function.update (s.asserted p) (db.service v).signal true) }

/-! ## Client calls -/

def ipcCall : Int := 0
def ipcConnect : Int := -1
def ipcDisconnect : Int := -2
def maxIovec : Nat := 4

def nextLoopIndex (i : Nat) : Nat := (i + 1) % 8

/-- mirrors secure_fw/spm/ffm/spm_psa_client_call.c:53-126 -/
def clientPsaConnect (db : Db nS nP) (s : St nS nP) (caller : Caller nP) (sid version : Nat)
    (callerData : Option Nat) : St nS nP × Outcome :=
  match getServiceBySid db sid with
  | none => (s, programmerError caller.isNs .connectionRefused)
  | some v =>
    if !checkAuthorization db sid v caller then
      (s, programmerError caller.isNs .connectionRefused)
    else if !checkClientVersion db v version then
      (s, programmerError caller.isNs .connectionRefused)
    else if !(db.service v).connectionBased then
      (s, programmerError caller.isNs .programmerError)
    else
      match createConnHandle s v (caller.id db) with
      | none => (s, .refused .connectionBusy)
      | some (k, s₁) =>
        let li := nextLoopIndex s₁.loopIndex
        let h := toUserHandle k li
        let s₂ := fillMsg { s₁ with loopIndex := li } k v h ipcConnect (caller.id db) [] [] 0
          callerData .connect
        (sendEvent db s₂ v k, .accepted)

/-- The arguments of `psa_call`; the vectors as they are read from the caller's
memory at `inptr` and `outptr`. -/
structure CallArgs where
  handle : UInt32
  type : Int
  inptr : Nat
  invecs : List Vec
  outptr : Nat
  outvecs : List Vec
  deriving DecidableEq, Repr

def CallArgs.countsOk (a : CallArgs) : Bool :=
  decide (a.invecs.length ≤ maxIovec) && decide (a.outvecs.length ≤ maxIovec) &&
    decide (a.invecs.length + a.outvecs.length ≤ maxIovec)

/-- Two input vectors may not overlap. -/
def disjointVecs (a b : Vec) : Bool := decide (b.base + b.len ≤ a.base) || decide (a.base + a.len ≤ b.base)

/-- Every memory check and the overlap check of `psa_call`.
mirrors secure_fw/spm/ffm/spm_psa_client_call.c:218-281 -/
def vecsOk (db : Db nS nP) (a : CallArgs) (ns privileged : Bool) : Bool :=
  memoryCheck db a.inptr (a.invecs.length * 8) ns false privileged &&
    memoryCheck db a.outptr (a.outvecs.length * 8) ns true privileged &&
    a.invecs.all (fun v => memoryCheck db v.base v.len ns false privileged) &&
    decide (a.invecs.Pairwise fun x y => disjointVecs x y = true) &&
    a.outvecs.all (fun v => memoryCheck db v.base v.len ns true privileged)

/-- Find the chunk, the service and the message handle of a call: a new chunk
for the static handle of a stateless service, else the chunk of the
connection.
mirrors secure_fw/spm/ffm/spm_psa_client_call.c:155-216 -/
def resolveHandle (db : Db nS nP) (s : St nS nP) (caller : Caller nP) (h : UInt32) :
    St nS nP × Except Outcome (Chunk × Fin nS × UInt32) :=
  match staticIndex h with
  | some index =>
    match db.stateless index with
    | none => (s, .error .panic)
    | some v =>
      if !checkAuthorization db (db.service v).sid v caller then
        (s, .error (programmerError caller.isNs .connectionRefused))
      else if !checkClientVersion db v (staticVersion h) then
        (s, .error (programmerError caller.isNs .programmerError))
      else
        match createConnHandle s v (caller.id db) with
        | none => (s, .error (programmerError caller.isNs .connectionBusy))
        | some (k, s₁) =>
          let li := nextLoopIndex s₁.loopIndex
          ({ s₁.setConn k (fun c => { c with rhandle := 0 }) with loopIndex := li },
            .ok (k, v, toUserHandle k li))
  | none =>
    match validateConnHandle s h (caller.id db) with
    | none => (s, .error (programmerError caller.isNs .programmerError))
    | some k =>
      match (s.conn k).status with
      | .active => (s, .error (programmerError caller.isNs .programmerError))
      | .connectError => (s, .error (.refused .programmerError))
      | .idle =>
        match (s.conn k).service with
        | none => (s, .error .panic)
        | some v => (s, .ok (k, v, h))

/-- mirrors secure_fw/spm/ffm/spm_psa_client_call.c:128-302 -/
def clientPsaCall (db : Db nS nP) (s : St nS nP) (caller : Caller nP) (privileged : Bool)
    (a : CallArgs) (callerData : Option Nat) : St nS nP × Outcome :=
  if !a.countsOk then (s, programmerError caller.isNs .programmerError)
  else
    match resolveHandle db s caller a.handle with
    | (s₁, .error o) => (s₁, o)
    | (s₁, .ok (k, v, h)) =>
      if !vecsOk db a caller.isNs privileged then
        (s₁, programmerError caller.isNs .programmerError)
      else
        let s₂ := fillMsg s₁ k v h a.type (caller.id db) a.invecs a.outvecs a.outptr callerData
          .call
        (sendEvent db s₂ v k, .accepted)

/-- mirrors secure_fw/spm/ffm/spm_psa_client_call.c:304-365 -/
def clientPsaClose (db : Db nS nP) (s : St nS nP) (caller : Caller nP) (h : UInt32)
    (callerData : Option Nat) : St nS nP × Outcome :=
  if h = 0 then (s, .ignored)
  else if (staticIndex h).isSome then (s, programmerError caller.isNs .programmerError)
  else
    match validateConnHandle s h (caller.id db) with
    | none => (s, programmerError caller.isNs .programmerError)
    | some k =>
      match (s.conn k).service with
      | none => (s, .panic)
      | some v =>
        if (s.conn k).status = .active then (s, programmerError caller.isNs .programmerError)
        else
          let s₁ := fillMsg s k v h ipcDisconnect (caller.id db) [] [] 0 callerData .close
          let s₂ := { s₁ with granted := s₁.granted.filter (· != (caller.id db, h)) }
          (sendEvent db s₂ v k, .accepted)

/-! ## Front ends of `psa_call` -/

/-- The SVC entry: the control block is checked, then its type.
mirrors secure_fw/spm/ffm/psa_client_service_apis.c:64-112 -/
def spmPsaCall (db : Db nS nP) (s : St nS nP) (caller : Caller nP) (privileged : Bool)
    (ctrlParam : Nat) (a : CallArgs) (callerData : Option Nat) : St nS nP × Outcome :=
  if !memoryCheck db ctrlParam 12 caller.isNs true privileged then
    (s, programmerError caller.isNs .programmerError)
  else if a.type < 0 then (s, programmerError caller.isNs .programmerError)
  else clientPsaCall db s caller privileged a callerData

/-- The mailbox entry, `tfm_mailbox_dispatch` and `tfm_rpc_psa_call`: always a
non-secure, unprivileged caller.
mirrors secure_fw/spm/cmsis_psa/tfm_rpc.c:57-66 and tfm_spe_mailbox.c:46-55 -/
def rpcPsaCall (db : Db nS nP) (s : St nS nP) (clientId : Int) (a : CallArgs)
    (callerData : Option Nat) : St nS nP × Outcome :=
  clientPsaCall db s (.ns clientId) false a callerData

/-! ## Service calls -/

/-- The loop of `tfm_spm_get_msg_by_signal` at `node`: take out the first
message with the signal and look for a second. The result is the links, the
message found, and whether the signal is cleared; `none` when the walk does not
end within `fuel` steps or leaves the list.
mirrors secure_fw/spm/cmsis_psa/spm_ipc.c:254-265 -/
def findMsg (db : Db nS nP) (conn : Chunk → Conn nS) (p : Fin nP) (signal : Nat) :
    Nat → Links (Node (Fin nP)) → Node (Fin nP) → Option Chunk →
      Option (Links (Node (Fin nP)) × Option Chunk × Bool)
  | 0, _, _, _ => none
  | fuel + 1, m, node, msg =>
    match node with
    | .null => none
    | .head q => if q = p then some (m, msg, true) else none
    | .chunk k =>
      match (conn k).internalMsg.service with
      | none => none
      | some v =>
        if (db.service v).signal = signal then
          match msg with
          | some _ => some (m, msg, false)
          | none =>
            let m' := removeNode m (.chunk k)
            findMsg db conn p signal fuel m' (m'.next (.chunk k)) (some k)
        else findMsg db conn p signal fuel m (m.next (.chunk k)) msg

/-- More steps than a list of all chunks has nodes. -/
def walkFuel : Nat := connHandleMaxNum + 2

/-- `psa_get` of partition `p`; `bufOk` is the memory check of the caller's
buffer. The second component is the message delivered.
mirrors secure_fw/spm/ffm/psa_client_service_apis.c:170-238 -/
def psaGet (db : Db nS nP) (s : St nS nP) (p : Fin nP) (signal : Nat) (bufOk : Bool) :
    Option (St nS nP × Option (Msg nS)) :=
  if !bufOk || !s.asserted p signal then some ({ s with panicked := true }, none)
  else if isEmpty s.msgs (.head p) then some (s, none)
  else
    match findMsg db s.conn p signal walkFuel s.msgs (s.msgs.next (.head p)) none with
    | none => none
    | some (m, msg, clear) =>
      let s₁ := { s with
        msgs := m
        asserted := if clear then Function.update s.asserted p
          (Function.update (s.asserted p) signal false) else s.asserted }
      match msg with
      | none => some (s₁, none)
      | some k =>
        let r := (s.conn k).internalMsg.rid
        some ({ s₁.setConn k (fun c => { c with status := .active }) with
          busy := Function.update s.busy k (.delivered r)
          delivered := r :: s.delivered }, some (s.conn k).internalMsg)

/-- mirrors secure_fw/spm/cmsis_psa/spm_ipc.c:461-501 -/
def getMsgFromHandle (db : Db nS nP) (s : St nS nP) (p : Fin nP) (h : UInt32) :
    Option (Chunk × Fin nS) :=
  match chunkOf h with
  | none => none
  | some k =>
    let m := (s.conn k).internalMsg
    if m.magic then
      match m.service with
      | none => none
      | some v => if (db.service v).partition = p then some (k, v) else none
    else none

/-- The `psa_status_t` words `psa_reply` compares with. -/
def psaSuccess : Int := 0
def psaErrorProgrammerError : Int := -129
def psaErrorConnectionRefused : Int := -130
def psaErrorConnectionBusy : Int := -131

/-- The switch of `psa_reply` on the message type, with the value the client
gets; `none` is the panic.
mirrors secure_fw/spm/ffm/psa_client_service_apis.c:489-540 -/
def replyByType (db : Db nS nP) (s : St nS nP) (k : Chunk) (v : Fin nS) (h : UInt32)
    (status : Int) : Option (St nS nP × Int) :=
  let m := (s.conn k).internalMsg
  if m.type = ipcConnect then
    if status = psaSuccess then
      some ({ s with granted := (m.clientId, h) :: s.granted }, h.toBitVec.toInt)
    else if status = psaErrorConnectionRefused then some (freeConnHandle s k, status)
    else if status = psaErrorConnectionBusy then some (s, status)
    else none
  else if m.type = ipcDisconnect then some (freeConnHandle s k, psaSuccess)
  else if ipcCall ≤ m.type then
    if (db.service v).connectionBased then some (s, status)
    else some (freeConnHandle s k, status)
  else none

/-- `psa_reply` of partition `p`.
mirrors secure_fw/spm/ffm/psa_client_service_apis.c:460-566 -/
def psaReply (db : Db nS nP) (s : St nS nP) (p : Fin nP) (h : UInt32) (status : Int) : St nS nP :=
  match getMsgFromHandle db s p h with
  | none => { s with panicked := true }
  | some (k, v) =>
    match replyByType db s k v h status with
    | none => { s with panicked := true }
    | some (s₁, ret) =>
      let m := (s.conn k).internalMsg
      if ret = psaErrorProgrammerError ∧ ¬ m.clientId < 0 then { s with panicked := true }
      else
        let st : Status := if ret = psaErrorProgrammerError then .connectError else .idle
        { s₁.setConn k (fun c => { c with status := st }) with
          busy := Function.update s.busy k .idle
          answered := m.rid :: s.answered }

/-! ## Transition system -/

inductive Lbl (nP : Nat)
  | connect (caller : Caller nP) (sid version : Nat) (callerData : Option Nat)
  | callSvc (caller : Caller nP) (privileged : Bool) (ctrlParam : Nat) (a : CallArgs)
      (callerData : Option Nat)
  | callRpc (clientId : Int) (a : CallArgs) (callerData : Option Nat)
  | close (caller : Caller nP) (h : UInt32) (callerData : Option Nat)
  | get (p : Fin nP) (signal : Nat) (bufOk : Bool)
  | reply (p : Fin nP) (h : UInt32) (status : Int)
  deriving DecidableEq, Repr

/-- A panic halts the system. -/
def finish (r : St nS nP × Outcome) : St nS nP :=
  if r.2 = .panic then { r.1 with panicked := true } else r.1

def step (db : Db nS nP) (s : St nS nP) (l : Lbl nP) : Option (St nS nP) :=
  if s.panicked then none
  else
    match l with
    | .connect c sid version cd => some (finish (clientPsaConnect db s c sid version cd))
    | .callSvc c pr ctrl a cd => some (finish (spmPsaCall db s c pr ctrl a cd))
    | .callRpc c a cd => some (finish (rpcPsaCall db s c a cd))
    | .close c h cd => some (finish (clientPsaClose db s c h cd))
    | .get p sig ok => (psaGet db s p sig ok).map Prod.fst
    | .reply p h st => some (psaReply db s p h st)

/-- List heads that point to themselves. -/
def emptyLinks (H : Type) : Links (Node H) where
  next
    | .head h => .head h
    | _ => .null
  prev
    | .head h => .head h
    | _ => .null

/-- `tfm_pool_init` and `tfm_spm_init`: every chunk on the free list, everything
else zero.
mirrors secure_fw/spm/cmsis_psa/tfm_pools.c:22-55 and spm_ipc.c:657-780 -/
def init (nS nP : Nat) : St nS nP where
  loopIndex := 0
  pool := (List.finRange connHandleMaxNum).foldl
    (fun m k => insertBefore m (.head ()) (.chunk k)) (emptyLinks Unit)
  handles := emptyLinks _
  msgs := emptyLinks _
  conn _ := ⟨0, .idle, 0, .zero, none⟩
  asserted _ _ := false
  panicked := false
  alloc _ := false
  busy _ := .idle
  granted := []
  overwritten := false
  next := 0
  accepted := []
  delivered := []
  answered := []

def lts (db : Db nS nP) : LTS (St nS nP) (Lbl nP) := LTS.ofFn (· = init nS nP) (step db)

end Tfm.L4.Spm
