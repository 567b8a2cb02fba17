import Tfm.L4Service.SpmReject

/-!
# SPM: message handles and replies

A service names a message by its handle, the user handle of the connection. The
SPM finds the message through the handle (`getMsgFromHandle`): the chunk, the
magic of its message and the partition of its service. The magic is set when a
client call fills the message, not when `psa_get` takes it, and is cleared when
the chunk is freed, not when the message is answered.

A reply travels in one of two ways (ffm/psa_client_service_apis.c:561-565). A
secure caller is blocked on the event of its message and is woken. A mailbox
caller waits in its slot of the mailbox queue; the message points at the handle
kept in that slot, which is zero once the slot was answered, and the handle zero
stands for the first slot (cmsis_psa/tfm_spe_mailbox.c:294-342).

The SPM of `Spm` is extended by the service calls on message handles, by the
threads of the secure callers and by the mailbox queue, for the multi-core
topology. `ack_evnt.owner` and `outvec[].len` of a message are kept by its
request id, which every fill renews. A slot is used again only after its reply,
as the non-secure mailbox library does. `psa_wait` is left out: it blocks no one
on a message.

`disciplined` is the condition under which replies go to their callers: client
calls are exclusive (`SpmOneMsg`), and a service uses the handle of a message of
its own only while it has the message.

Results:
* `rinv_inductive`: the invariant of every disciplined run.
* `reply_reachable`: in every such run, every message answered was answered once,
  to the caller that waits for it; the SPM handles a service call as it should
  exactly if the call is disciplined; a handle that it should reject panics.
* `reply_misdelivered`: a handle is accepted before `psa_get`, and a second reply
  goes to the caller of the first slot.
-/
namespace Tfm.L4.Spm
open Tfm.BiList

variable {nS nP n : Nat} {db : Db nS nP}

/-! ## State -/

/-- ghost: a slot of the mailbox queue as its client sees it; a slot in use waits
for the message its request became, if it became one -/
inductive Slot
  | free
  | waiting (r : Option Nat)
  deriving DecidableEq, Repr

def Slot.request : Slot → Option Nat
  | .free => none
  | .waiting r => r

/-- ghost: a reply that arrived: the message answered, the request that waited
where the reply arrived, and what its caller gets -/
structure Reply where
  req : Nat
  dest : Option Nat
  ret : Int
  lens : List Nat
  deriving DecidableEq, Repr

/-- The SPM with its callers, `n + 1` being `NUM_MAILBOX_QUEUE_SLOT`. -/
structure RSt (nS nP n : Nat) where
  spm : St nS nP
  /-- `ack_evnt.owner` of the message of a request -/
  owner : Nat → Option (Fin nP)
  /-- the partition's thread is in `THRD_STATE_BLOCK` -/
  blocked : Fin nP → Bool
  /-- `outvec[].len` of the message of a request -/
  written : Nat → Nat → Nat
  /-- `spe_mailbox_queue.queue[].msg_handle`; `none` is the null handle -/
  msgHandle : Fin (n + 1) → Option (Fin (n + 1))
  /-- `spe_mailbox_queue.empty_slots` -/
  emptySlots : Fin (n + 1) → Bool
  /-- ghost -/
  slot : Fin (n + 1) → Slot
  /-- ghost: the request the partition's thread waits for -/
  waiting : Fin nP → Option Nat
  /-- ghost -/
  replies : List Reply

variable {s : RSt nS nP n}

/-! ## Client calls -/

/-- The arguments of a client call. -/
inductive Req
  | connect (sid version : Nat)
  | call (a : CallArgs)
  | close (h : UInt32)
  deriving DecidableEq, Repr

/-- mirrors secure_fw/spm/cmsis_psa/tfm_multi_core.c:15-20 -/
def defaultNsClientId : Int := -1

/-- `tfm_mailbox_dispatch` of the request in slot `i`.
mirrors secure_fw/spm/cmsis_psa/tfm_spe_mailbox.c:21-64 -/
def mailboxLbl (i : Nat) : Req → Lbl nP
  | .connect sid version => .connect (.ns defaultNsClientId) sid version (some i)
  | .call a => .callRpc defaultNsClientId a (some i)
  | .close h => .close (.ns defaultNsClientId) h (some i)

def svcLbl (p : Fin nP) (privileged : Bool) (ctrlParam : Nat) : Req → Lbl nP
  | .connect sid version => .connect (.secure p) sid version none
  | .call a => .callSvc (.secure p) privileged ctrlParam a none
  | .close h => .close (.secure p) h none

/-- mirrors secure_fw/spm/cmsis_psa/tfm_spe_mailbox.c:136-146 -/
def cleanQueueSlot (s : RSt nS nP n) (i : Fin (n + 1)) : RSt nS nP n :=
  { s with
    msgHandle := Function.update s.msgHandle i none
    emptySlots := Function.update s.emptySlots i true }

/-- The turn of slot `i` in the loop of `tfm_mailbox_handle_msg`: a refused
`psa_connect` or `psa_call` is answered at once.
mirrors secure_fw/spm/cmsis_psa/tfm_spe_mailbox.c:212-273 -/
def handleMsg (db : Db nS nP) (s : RSt nS nP n) (i : Fin (n + 1)) (q : Req) : RSt nS nP n :=
  let r := answer db s.spm (mailboxLbl i.val q)
  let s₁ := { s with
    spm := finish r
    msgHandle := Function.update s.msgHandle i (some i)
    emptySlots := Function.update s.emptySlots i false
    slot := Function.update s.slot i (.waiting (if r.2 = .accepted then some s.spm.next else none)) }
  match q, r.2 with
  | .connect _ _, .refused _ => { cleanQueueSlot s₁ i with slot := Function.update s₁.slot i .free }
  | .call _, .refused _ => { cleanQueueSlot s₁ i with slot := Function.update s₁.slot i .free }
  | _, _ => s₁

/-- mirrors secure_fw/spm/cmsis_psa/tfm_rpc.h:180-197 -/
def isTfmRpcMsg (clientId : Int) (owner : Option (Fin nP)) : Bool :=
  decide (clientId ≤ 0) && owner.isNone

/-- `tfm_event_wait` on the event of a message.
mirrors secure_fw/spm/cmsis_psa/tfm_wait.c:15-22 -/
def eventWait (s : RSt nS nP n) (p : Fin nP) (r : Nat) : RSt nS nP n :=
  { s with
    owner := Function.update s.owner r (some p)
    blocked := Function.update s.blocked p true
    waiting := Function.update s.waiting p (some r) }

/-- A client call of a partition; its thread waits if the message is queued
(spm_ipc.c:590-595). -/
def svcCall (db : Db nS nP) (s : RSt nS nP n) (p : Fin nP) (privileged : Bool) (ctrlParam : Nat)
    (q : Req) : RSt nS nP n :=
  let r := answer db s.spm (svcLbl p privileged ctrlParam q)
  let s₁ := { s with spm := finish r }
  if r.2 = .accepted && !isTfmRpcMsg (db.partition p).pid (s.owner s.spm.next) then
    eventWait s₁ p s.spm.next
  else s₁

/-! ## Service calls -/

def panic (s : RSt nS nP n) : RSt nS nP n := { s with spm := { s.spm with panicked := true } }

/-- The checks `psa_read`, `psa_skip` and `psa_write` begin with: the handle, the
type of the message and the index of the vector.
mirrors secure_fw/spm/ffm/psa_client_service_apis.c:288-316, 355-379 and 412-436 -/
def requestMsg (db : Db nS nP) (s : St nS nP) (p : Fin nP) (h : UInt32) (idx : Nat) :
    Option Chunk :=
  match getMsgFromHandle db s p h with
  | none => none
  | some (k, _) =>
    if (s.conn k).internalMsg.type < ipcCall then none
    else if maxIovec ≤ idx then none
    else some k

/-- `in_size[idx]` and `invec[idx].base` of the message of chunk `k`. -/
def inVec (s : St nS nP) (k : Chunk) (idx : Nat) : Vec :=
  (s.conn k).internalMsg.invec.getD idx ⟨0, 0⟩

def takeIn (s : RSt nS nP n) (k : Chunk) (idx bytes : Nat) : RSt nS nP n :=
  { s with spm := s.spm.setConn k fun c => { c with internalMsg := { c.internalMsg with
      invec := c.internalMsg.invec.modify idx fun x => ⟨x.base + bytes, x.len - bytes⟩ } } }

/-- The second component is the number of bytes read; `bufOk` is the memory check
of the buffer.
mirrors secure_fw/spm/ffm/psa_client_service_apis.c:272-342 -/
def psaRead (db : Db nS nP) (s : RSt nS nP n) (p : Fin nP) (h : UInt32) (idx numBytes : Nat)
    (bufOk : Bool) : RSt nS nP n × Nat :=
  match requestMsg db s.spm p h idx with
  | none => (panic s, 0)
  | some k =>
    let x := inVec s.spm k idx
    if x.len = 0 then (s, 0)
    else if !bufOk then (panic s, 0)
    else
      let bytes := if x.len < numBytes then x.len else numBytes
      (takeIn s k idx bytes, bytes)

/-- mirrors secure_fw/spm/ffm/psa_client_service_apis.c:344-399 -/
def psaSkip (db : Db nS nP) (s : RSt nS nP n) (p : Fin nP) (h : UInt32) (idx numBytes : Nat) :
    RSt nS nP n × Nat :=
  match requestMsg db s.spm p h idx with
  | none => (panic s, 0)
  | some k =>
    let x := inVec s.spm k idx
    if x.len = 0 then (s, 0)
    else
      let bytes := if x.len < numBytes then x.len else numBytes
      (takeIn s k idx bytes, bytes)

/-- mirrors secure_fw/spm/ffm/psa_client_service_apis.c:401-458 -/
def psaWrite (db : Db nS nP) (s : RSt nS nP n) (p : Fin nP) (h : UInt32) (idx numBytes : Nat)
    (bufOk : Bool) : RSt nS nP n :=
  match requestMsg db s.spm p h idx with
  | none => panic s
  | some k =>
    let m := (s.spm.conn k).internalMsg
    let len := s.written m.rid idx
    if (m.outvec.getD idx ⟨0, 0⟩).len - len < numBytes then panic s
    else if !bufOk then panic s
    else
      { s with
        written := Function.update s.written m.rid
          (Function.update (s.written m.rid) idx (len + numBytes)) }

/-- mirrors secure_fw/spm/ffm/psa_client_service_apis.c:240-270 -/
def psaSetRhandle (db : Db nS nP) (s : RSt nS nP n) (p : Fin nP) (h : UInt32) (rhandle : Nat) :
    RSt nS nP n :=
  match getMsgFromHandle db s.spm p h with
  | none => panic s
  | some (k, v) =>
    if !(db.service v).connectionBased then panic s
    else { s with spm := s.spm.setConn k fun c => { c with
      rhandle := rhandle, internalMsg := { c.internalMsg with rhandle := rhandle } } }

/-! ## Delivery of replies -/

/-- `tfm_event_wake` on the event of the message of request `r`.
mirrors secure_fw/spm/cmsis_psa/tfm_wait.c:24-34 -/
def eventWake (s : RSt nS nP n) (r : Nat) (x : Option Nat → Reply) : RSt nS nP n :=
  match s.owner r with
  | none => s
  | some p =>
    if s.blocked p then
      { s with
        owner := Function.update s.owner r none
        blocked := Function.update s.blocked p false
        waiting := Function.update s.waiting p none
        replies := x (s.waiting p) :: s.replies }
    else s

/-- The null handle stands for the first slot.
mirrors secure_fw/spm/cmsis_psa/tfm_spe_mailbox.c:294-332 -/
def mailboxReplyMsg (s : RSt nS nP n) (handle : Option (Fin (n + 1))) (x : Option Nat → Reply) :
    RSt nS nP n :=
  let i := handle.getD 0
  if s.emptySlots i then s
  else { cleanQueueSlot s i with
    slot := Function.update s.slot i .free
    replies := x (s.slot i).request :: s.replies }

/-- `caller_data` points at the handle in a slot.
mirrors secure_fw/spm/cmsis_psa/tfm_spe_mailbox.c:340-352 -/
def mailboxReply (s : RSt nS nP n) (callerData : Option Nat) (x : Option Nat → Reply) :
    RSt nS nP n :=
  mailboxReplyMsg s
    (callerData.bind fun i => if h : i < n + 1 then s.msgHandle ⟨i, h⟩ else none) x

/-- The lengths `update_caller_outvec_len` reports.
mirrors secure_fw/spm/cmsis_psa/spm_ipc.c:863-885 -/
def callerOutvecLens (s : RSt nS nP n) (m : Msg nS) : List Nat :=
  if ipcCall ≤ m.type then
    m.outvec.mapIdx fun i x => if x.len = 0 then 0 else s.written m.rid i
  else []

/-- mirrors secure_fw/spm/ffm/psa_client_service_apis.c:561-565 -/
def deliver (s : RSt nS nP n) (m : Msg nS) (ret : Int) : RSt nS nP n :=
  let x := fun dest => ⟨m.rid, dest, ret, callerOutvecLens s m⟩
  if isTfmRpcMsg m.clientId (s.owner m.rid) then mailboxReply s m.callerData x
  else eventWake s m.rid x

/-- `psa_reply` with the delivery of the reply.
mirrors secure_fw/spm/ffm/psa_client_service_apis.c:460-566 -/
def serviceReply (db : Db nS nP) (s : RSt nS nP n) (p : Fin nP) (h : UInt32) (status : Int) :
    RSt nS nP n :=
  let s₁ := { s with spm := psaReply db s.spm p h status }
  if s₁.spm.panicked then s₁
  else
    match getMsgFromHandle db s.spm p h with
    | none => s₁
    | some (k, v) =>
      match replyByType db s.spm k v h status with
      | none => s₁
      | some (_, ret) => deliver s₁ (s.spm.conn k).internalMsg ret

/-! ## Transition system -/

inductive SvcCall
  | get (signal : Nat) (bufOk : Bool)
  | read (h : UInt32) (idx numBytes : Nat) (bufOk : Bool)
  | skip (h : UInt32) (idx numBytes : Nat)
  | write (h : UInt32) (idx numBytes : Nat) (bufOk : Bool)
  | setRhandle (h : UInt32) (rhandle : Nat)
  | reply (h : UInt32) (status : Int)
  deriving DecidableEq, Repr

/-- The message handle a service call names. -/
def SvcCall.handle : SvcCall → Option UInt32
  | .get _ _ => none
  | .read h _ _ _ => some h
  | .skip h _ _ => some h
  | .write h _ _ _ => some h
  | .setRhandle h _ => some h
  | .reply h _ => some h

/-- A service call of partition `p`; `none` is a `psa_get` that does not return. -/
def service (db : Db nS nP) (s : RSt nS nP n) (p : Fin nP) : SvcCall → Option (RSt nS nP n)
  | .get signal bufOk => (psaGet db s.spm p signal bufOk).map fun x => { s with spm := x.1 }
  | .read h idx numBytes bufOk => some (psaRead db s p h idx numBytes bufOk).1
  | .skip h idx numBytes => some (psaSkip db s p h idx numBytes).1
  | .write h idx numBytes bufOk => some (psaWrite db s p h idx numBytes bufOk)
  | .setRhandle h rhandle => some (psaSetRhandle db s p h rhandle)
  | .reply h status => some (serviceReply db s p h status)

inductive RLbl (nP n : Nat)
  | mailbox (i : Fin (n + 1)) (q : Req)
  | svc (p : Fin nP) (privileged : Bool) (ctrlParam : Nat) (q : Req)
  | service (p : Fin nP) (c : SvcCall)
  deriving DecidableEq, Repr

/-- The mailbox takes a request only from a slot that waits for no reply, and a
partition makes a call only while its thread runs. -/
def rstep (db : Db nS nP) (s : RSt nS nP n) (l : RLbl nP n) : Option (RSt nS nP n) :=
  if s.spm.panicked then none
  else
    match l with
    | .mailbox i q => if s.slot i = .free then some (handleMsg db s i q) else none
    | .svc p privileged ctrlParam q =>
      if s.blocked p then none else some (svcCall db s p privileged ctrlParam q)
    | .service p c => if s.blocked p then none else service db s p c

/-- mirrors secure_fw/spm/cmsis_psa/tfm_spe_mailbox.c:361-369 -/
def rinit (nS nP n : Nat) : RSt nS nP n where
  spm := init nS nP
  owner _ := none
  blocked _ := false
  written _ _ := 0
  msgHandle _ := none
  emptySlots _ := true
  slot _ := .free
  waiting _ := none
  replies := []

def rlts (db : Db nS nP) (n : Nat) : LTS (RSt nS nP n) (RLbl nP n) :=
  LTS.ofFn (· = rinit nS nP n) (rstep db)

/-! ## The property and its condition -/

/-- The partition has the message with the handle: `psa_get` delivered it, and it
is not answered. -/
def Window (db : Db nS nP) (s : St nS nP) (p : Fin nP) (h : UInt32) : Prop :=
  ∃ k v r, chunkOf h = some k ∧ s.busy k = .delivered r ∧
    (s.conn k).internalMsg.handle = h ∧ (s.conn k).internalMsg.rid = r ∧
    (s.conn k).internalMsg.service = some v ∧ (db.service v).partition = p ∧
    r ∈ s.delivered ∧ r ∉ s.answered

/-- The SPM takes the handle for that of a message of the partition. -/
def Accepts (db : Db nS nP) (s : St nS nP) (p : Fin nP) (h : UInt32) : Prop :=
  (getMsgFromHandle db s p h).isSome = true

/-- The chunk holds a message for a service of the partition. -/
def holdsFor (db : Db nS nP) (s : St nS nP) (p : Fin nP) (k : Chunk) : Bool :=
  (s.conn k).internalMsg.magic &&
    (s.conn k).internalMsg.service.any fun v => (db.service v).partition == p

/-- If the handle leads to a message for the partition, then the partition has this
message, and this is its handle. -/
def turn (db : Db nS nP) (s : St nS nP) (p : Fin nP) (h : UInt32) : Bool :=
  (chunkOf h).all fun k => !holdsFor db s p k ||
    ((s.busy k).isDelivered && (s.conn k).internalMsg.handle == h)

def disciplined (db : Db nS nP) (s : RSt nS nP n) : RLbl nP n → Bool
  | .mailbox i q => exclusive db s.spm (mailboxLbl i.val q)
  | .svc p privileged ctrlParam q => exclusive db s.spm (svcLbl p privileged ctrlParam q)
  | .service p c => c.handle.all (turn db s.spm p)

structure ReplyLaw (db : Db nS nP) (s : RSt nS nP n) : Prop where
  /-- every message answered was answered once, and its reply arrived -/
  answered : s.replies.map Reply.req = s.spm.answered
  once : s.spm.answered.Nodup
  /-- at the caller that waits for it -/
  own : ∀ x ∈ s.replies, x.dest = some x.req
  /-- the handle of a message is accepted while its service has it, and the SPM is right
  to accept a handle exactly in its turn -/
  window : ∀ p h, Window db s.spm p h → Accepts db s.spm p h
  accepted : ∀ p h, (Accepts db s.spm p h → Window db s.spm p h) ↔ turn db s.spm p h = true
  /-- every service call on another handle panics -/
  rejected : ∀ p c h s', c.handle = some h → turn db s.spm p h = true →
    ¬ Window db s.spm p h → service db s p c = some s' → s'.spm.panicked = true
  /-- such as a second reply -/
  second : ∀ p h status, s.spm.panicked = false →
    (serviceReply db s p h status).spm.panicked = false →
    ¬ Window db (serviceReply db s p h status).spm p h
  /-- or anything on the handle of a chunk that is free -/
  freed : ∀ p h k, chunkOf h = some k → s.spm.alloc k = false → turn db s.spm p h = true

/-- Partition ids begin at 256 (interface/include/psa_manifest/pid.h.template:18-20). -/
def PidsOk (db : Db nS nP) : Prop := ∀ p, 256 ≤ (db.partition p).pid

/-! ## Handles -/

theorem accepts_iff {s : St nS nP} {p : Fin nP} {h : UInt32} :
    Accepts db s p h ↔ ∃ k, chunkOf h = some k ∧ holdsFor db s p k = true := by
  unfold Accepts getMsgFromHandle holdsFor
  split
  · rename_i hn
    simp [hn]
  · rename_i k hk
    simp only [hk, Option.some.injEq, exists_eq_left', Bool.and_eq_true]
    cases (s.conn k).internalMsg.magic with
    | false => simp
    | true =>
      cases (s.conn k).internalMsg.service with
      | none => simp
      | some v =>
        by_cases hv : (db.service v).partition = p
        · simp [hv]
        · simp [hv]

/-- What a handle that is accepted in its turn stands for. -/
theorem turn_some {s : St nS nP} {p : Fin nP} {h : UInt32} {k : Chunk} {v : Fin nS}
    (ht : turn db s p h = true) (hg : getMsgFromHandle db s p h = some (k, v)) :
    (∃ r, s.busy k = .delivered r) ∧ (s.conn k).internalMsg.handle = h := by
  obtain ⟨k', hk', hh⟩ := accepts_iff.1 (by rw [Accepts, hg]; rfl : Accepts db s p h)
  have hk := (getMsgFromHandle_some hg).1
  rw [hk'] at hk
  cases hk
  simp only [turn, hk', Option.all_some, hh, Bool.not_true, Bool.false_or, Bool.and_eq_true,
    beq_iff_eq] at ht
  obtain ⟨hd, hhandle⟩ := ht
  cases hb : s.busy k with
  | idle => simp [hb, Busy.isDelivered] at hd
  | queued r => simp [hb, Busy.isDelivered] at hd
  | delivered r => exact ⟨⟨r, rfl⟩, hhandle⟩

theorem Inv.window {s : St nS nP} (hi : Inv db s) {p : Fin nP} {h : UInt32}
    (hw : Window db s p h) : Accepts db s p h := by
  obtain ⟨⟨free, hl, hpool⟩, ⟨ml, hmsg⟩, hlog⟩ := hi
  obtain ⟨k, v, r, hk, hb, -, -, hv, hp, -, -⟩ := hw
  obtain ⟨-, -, hm, -⟩ := hmsg.own k (by simp [hb])
  refine accepts_iff.2 ⟨k, hk, ?_⟩
  simp [holdsFor, hm, hv, hp]

/-- The SPM is right to accept a handle exactly in its turn. -/
theorem Inv.accepted {s : St nS nP} (hi : Inv db s) (p : Fin nP) (h : UInt32) :
    (Accepts db s p h → Window db s p h) ↔ turn db s p h = true := by
  constructor
  · intro hw
    unfold turn
    cases hk : chunkOf h with
    | none => rfl
    | some k =>
      cases hh : holdsFor db s p k with
      | false => simp [hh]
      | true =>
        obtain ⟨k', v, r, hk', hb, hhandle, -⟩ := hw (accepts_iff.2 ⟨k, hk, hh⟩)
        rw [hk] at hk'
        cases hk'
        simp [hb, Busy.isDelivered, hhandle]
  · intro ht ha
    obtain ⟨⟨k, v⟩, hg⟩ := Option.isSome_iff_exists.1 ha
    obtain ⟨⟨r, hb⟩, hhandle⟩ := turn_some ht hg
    obtain ⟨k', hk', hh⟩ := accepts_iff.1 ha
    obtain ⟨hk, hv⟩ := getMsgFromHandle_some hg
    rw [hk'] at hk
    cases hk
    obtain ⟨-, ⟨ml, hmsg⟩, hlog⟩ := hi
    have hlogs := (hlog.inService r).1 ⟨k, hb⟩
    refine ⟨k, v, r, hk', hb, hhandle, hmsg.rid k r (.inr hb), hv, ?_, hlogs⟩
    simp only [holdsFor, hv, Option.any_some, Bool.and_eq_true, beq_iff_eq] at hh
    exact hh.2

/-! ## What a client call does to the messages -/

/-- The client of a client call, and what its message keeps to answer it. -/
def Lbl.client : Lbl nP → Option (Caller nP × Option Nat)
  | .connect c _ _ cd => some (c, cd)
  | .callSvc c _ _ _ cd => some (c, cd)
  | .callRpc c _ cd => some (.ns c, cd)
  | .close c _ cd => some (c, cd)
  | .get _ _ _ => none
  | .reply _ _ _ => none

/-- The message of chunk `k` was filled and queued. -/
structure Sent (s s' : St nS nP) (c : Int) (cd : Option Nat) (k : Chunk) : Prop where
  idle : s.busy k = .idle
  busy : s'.busy = Function.update s.busy k (.queued s.next)
  next : s'.next = s.next + 1
  client : (s'.conn k).internalMsg.clientId = c
  data : (s'.conn k).internalMsg.callerData = if c < 0 then cd else none
  alloc : s'.alloc k = true
  others : ∀ x, x ≠ k → (s'.conn x).internalMsg = (s.conn x).internalMsg ∧
    s'.alloc x = s.alloc x
  answered : s'.answered = s.answered

/-- No message was filled. -/
structure Quiet (s s' : St nS nP) : Prop where
  busy : s'.busy = s.busy
  next : s'.next = s.next
  msg : ∀ x, (s'.conn x).internalMsg = (s.conn x).internalMsg
  alloc : ∀ x, s.alloc x = true → s'.alloc x = true
  answered : s'.answered = s.answered

theorem sent_fill {s s₁ : St nS nP} {k : Chunk} {v : Fin nS} {handle : UInt32}
    {type clientId : Int} {invec outvec : List Vec} {callerOutvec : Nat} {cd : Option Nat}
    {o : Origin} (hidle : s.busy k = .idle) (ha : s₁.alloc k = true) (hb : s₁.busy = s.busy)
    (hn : s₁.next = s.next) (hr : s₁.answered = s.answered)
    (ho : ∀ x, x ≠ k → (s₁.conn x).internalMsg = (s.conn x).internalMsg ∧
      s₁.alloc x = s.alloc x) :
    Sent s (sendEvent db (fillMsg s₁ k v handle type clientId invec outvec callerOutvec cd o) v k)
      clientId cd k := by
  refine ⟨hidle, ?_, ?_, ?_, ?_, ha, fun x hx => ?_, hr⟩
  · simp only [sendEvent, fillMsg, hb, hn]
  · simp only [sendEvent, fillMsg, hn]
  · simp [sendEvent, fillMsg, setConn_conn]
  · simp [sendEvent, fillMsg, setConn_conn]
  · refine ⟨?_, (ho x hx).2⟩
    simp [sendEvent, fillMsg, setConn_conn, hx, (ho x hx).1]

/-- Taking a chunk from the pool fills no message. -/
theorem quiet_create {s s₁ : St nS nP} {v : Fin nS} {c : Int} {k : Chunk} (h : Inv db s)
    (hn : createConnHandle s v c = some (k, s₁)) :
    Quiet s s₁ ∧ ∀ x, x ≠ k → s₁.alloc x = s.alloc x := by
  obtain ⟨⟨free, hl, hpool⟩, -, -⟩ := h
  obtain ⟨free', rfl, rfl⟩ := createConnHandle_some hpool hn
  refine ⟨⟨rfl, rfl, fun x => ?_, fun x hx => ?_, rfl⟩, fun x hx => ?_⟩
  · by_cases hxk : x = k
    · subst hxk
      simp
    · simp [hxk]
  · by_cases hxk : x = k
    · simp [hxk]
    · simpa [hxk] using hx
  · simp [hx]

theorem quiet_stateless {s : St nS nP} (k : Chunk) : Quiet s (statelessConn s k) := by
  refine ⟨rfl, rfl, fun x => ?_, fun x hx => hx, rfl⟩
  simp only [statelessConn, setConn_conn]
  split
  · rename_i hx
    rw [hx]
  · rfl

/-- A client call fills the message of one idle chunk, or none. -/
theorem client_trans {s s' : St nS nP} {l : Lbl nP} {c : Caller nP} {cd : Option Nat}
    (h : Inv db s) (hx : exclusive db s l = true) (hl : l.client = some (c, cd))
    (ht : Trans db s l s') : (∃ k, Sent s s' (c.id db) cd k) ∨ Quiet s s' := by
  cases ht with
  | stay l b => exact .inr ⟨rfl, rfl, fun _ => rfl, fun _ hx => hx, rfl⟩
  | @connect c' sid version cd' v k s₁ hb hn =>
    cases hl
    obtain ⟨h₁, ha, hidle, -⟩ := inv_create h hn
    obtain ⟨hq, hal⟩ := quiet_create h hn
    refine .inl ⟨k, sent_fill ?_ ha hq.busy hq.next hq.answered fun x hx => ⟨hq.msg x, hal x hx⟩⟩
    rw [← hq.busy]
    exact hidle
  | @call l c' a cd' k v hq hvet hs hk hst hv =>
    obtain ⟨ha, hidle⟩ := exclusive_target hx (call_target hq hvet hs hk hst hv)
    obtain ⟨rfl, rfl⟩ : c = c' ∧ cd = cd' := by
      cases l <;> cases hq <;> cases hl <;> exact ⟨rfl, rfl⟩
    exact .inl ⟨k, sent_fill hidle ha rfl rfl rfl fun _ _ => ⟨rfl, rfl⟩⟩
  | @callStatic l c' a cd' k v s₁ hq hvet hok hs hn =>
    obtain ⟨h₁, ha, hidle, -⟩ := inv_create h hn
    obtain ⟨hq₁, hal⟩ := quiet_create h hn
    obtain ⟨rfl, rfl⟩ : c = c' ∧ cd = cd' := by
      cases l <;> cases hq <;> cases hl <;> exact ⟨rfl, rfl⟩
    refine .inl ⟨k, sent_fill ?_ ha hq₁.busy hq₁.next hq₁.answered fun x hx => ⟨?_, hal x hx⟩⟩
    · rw [← hq₁.busy]
      exact hidle
    · rw [(quiet_stateless k).msg x, hq₁.msg x]
  | @leak l c' k v s₁ b hlk hn =>
    obtain ⟨hq, -⟩ := quiet_create h hn
    have hst := quiet_stateless (s := s₁) k
    exact .inr ⟨hq.busy, hq.next, fun x => (hst.msg x).trans (hq.msg x), hq.alloc, hq.answered⟩
  | @close c' h' cd' k v hs hk hst hv =>
    cases hl
    obtain ⟨ha, hidle⟩ := exclusive_target hx (close_target hs hk hst hv)
    obtain ⟨h1, h2, h3, h4, h5, h6, h7, h8⟩ : Sent s (sendEvent db (fillMsg s k v h'
        ipcDisconnect (c.id db) [] [] 0 cd .close) v k) (c.id db) cd k :=
      sent_fill hidle ha rfl rfl rfl fun _ _ => ⟨rfl, rfl⟩
    exact .inl ⟨k, h1, h2, h3, h4, h5, h6, h7, h8⟩
  | get => cases hl
  | getNone => cases hl
  | reply => cases hl

theorem createConnHandle_next {s s₁ : St nS nP} {v : Fin nS} {c : Int} {k : Chunk}
    (hn : createConnHandle s v c = some (k, s₁)) : s₁.next = s.next := by
  unfold createConnHandle poolAlloc at hn
  split at hn
  · cases hn
  · rename_i hp
    cases hn
    split at hp
    · cases hp
    · split at hp
      · cases hp
        rfl
      · cases hp

theorem clientPsaCall_next (db : Db nS nP) (s : St nS nP) (c : Caller nP) (pr : Bool)
    (a : CallArgs) (cd : Option Nat) :
    ((clientPsaCall db s c pr a cd).2 = .accepted →
      (clientPsaCall db s c pr a cd).1.next = s.next + 1) ∧
    ((clientPsaCall db s c pr a cd).2 ≠ .accepted →
      (clientPsaCall db s c pr a cd).1.next = s.next) := by
  constructor
  · intro ho
    obtain ⟨hcnt, hok, hv⟩ := (clientPsaCall_accepted_iff db s c pr a cd).1 ho
    unfold clientPsaCall
    rcases resolveHandle_cases db s c a.handle with
      ⟨o, -, hno, -⟩ | ⟨v, k, s₁, -, -, hn, he⟩ | ⟨v, k, -, -, -, -, -, he⟩
    · rw [hno] at hok
      cases hok
    · simp only [hcnt, he, hv, Bool.not_true, Bool.false_eq_true, if_false]
      have hnext := createConnHandle_next hn
      exact congrArg (· + 1) hnext
    · simp only [hcnt, he, hv, Bool.not_true, Bool.false_eq_true, if_false]
      rfl
  · intro ho
    rcases clientPsaCall_refused db s c pr a cd with h | ⟨-, h⟩ | ⟨-, v, k, s₁, hn, h⟩
    · exact absurd h ho
    · rw [h]
    · have hnext := createConnHandle_next hn
      rw [h]
      exact hnext

/-- The SPM fills a message exactly when it accepts the call. -/
theorem answer_next (db : Db nS nP) (s : St nS nP) (l : Lbl nP) :
    ((answer db s l).2 = .accepted → (answer db s l).1.next = s.next + 1) ∧
    ((answer db s l).2 ≠ .accepted → (answer db s l).1.next = s.next) := by
  cases l with
  | connect c sid version cd =>
    refine ⟨fun ho => ?_, fun ho => ?_⟩
    · simp only [answer, clientPsaConnect] at ho ⊢
      split at ho
      · exact absurd ho (programmerError_ne _ _)
      · rename_i v hv
        split at ho
        · exact absurd ho (programmerError_ne _ _)
        · split at ho
          · exact absurd ho (programmerError_ne _ _)
          · split at ho
            · exact absurd ho (programmerError_ne _ _)
            · split at ho
              · cases ho
              · rename_i k s₁ hn
                simp_all only [Bool.false_eq_true, if_false]
                have hnext := createConnHandle_next hn
                exact congrArg (· + 1) hnext
    · rcases clientPsaConnect_refused db s c sid version cd with h | h
      · exact absurd h ho
      · exact congrArg St.next h
  | callSvc c pr ctrl a cd =>
    simp only [answer, spmPsaCall]
    split
    · exact ⟨fun ho => absurd ho (programmerError_ne _ _), fun _ => rfl⟩
    · split
      · exact ⟨fun ho => absurd ho (programmerError_ne _ _), fun _ => rfl⟩
      · exact clientPsaCall_next db s c pr a cd
  | callRpc c a cd => exact clientPsaCall_next db s (.ns c) false a cd
  | close c h cd =>
    refine ⟨fun ho => ?_, fun ho => ?_⟩
    · simp only [answer, clientPsaClose] at ho ⊢
      split at ho
      · cases ho
      · split at ho
        · exact absurd ho (programmerError_ne _ _)
        · split at ho
          · exact absurd ho (programmerError_ne _ _)
          · split at ho
            · cases ho
            · split at ho
              · exact absurd ho (programmerError_ne _ _)
              · simp_all only [Bool.false_eq_true, if_false]
                rfl
    · rcases clientPsaClose_refused db s c h cd with h' | h'
      · exact absurd h' ho
      · exact congrArg St.next h'
  | get p sig ok =>
    refine ⟨fun ho => ?_, fun _ => rfl⟩
    cases ho
  | reply p h st =>
    refine ⟨fun ho => ?_, fun _ => rfl⟩
    cases ho

/-! ## Invariant -/

/-- The caller of the message of request `r` waits for its reply. -/
def Waits (s : RSt nS nP n) (m : Msg nS) (r : Nat) : Prop :=
  (m.clientId < 0 ∧ s.owner r = none ∧ ∃ i : Fin (n + 1), m.callerData = some i.val ∧
    s.slot i = .waiting (some r) ∧ s.msgHandle i = some i ∧ s.emptySlots i = false) ∨
  (0 < m.clientId ∧ ∃ q, s.owner r = some q ∧ s.blocked q = true ∧ s.waiting q = some r)

def Busy.Holds (b : Busy) (r : Nat) : Prop := b = .queued r ∨ b = .delivered r

structure RInv (db : Db nS nP) (s : RSt nS nP n) : Prop where
  base : Inv db s.spm
  magic : ∀ k, (s.spm.conn k).internalMsg.magic = true → s.spm.alloc k = true
  waits : ∀ k r, (s.spm.busy k).Holds r → Waits s (s.spm.conn k).internalMsg r
  fresh : ∀ r, s.spm.next ≤ r → s.owner r = none
  answered : s.replies.map Reply.req = s.spm.answered
  own : ∀ x ∈ s.replies, x.dest = some x.req

theorem LogInv.holds_lt {s : St nS nP} (h : LogInv s) {k : Chunk} {r : Nat}
    (hb : (s.busy k).Holds r) : r < s.next := by
  rcases hb with hb | hb
  · exact (h.accepted r).1 ((h.queued r).1 ⟨k, hb⟩).1
  · exact (h.accepted r).1 (h.deliveredAccepted r ((h.inService r).1 ⟨k, hb⟩).1)

theorem LogInv.holds_inj {s : St nS nP} (h : LogInv s) {k x : Chunk} {r : Nat}
    (hb : s.busy k = .delivered r) (hx : (s.busy x).Holds r) : x = k := by
  rcases hx with hx | hx
  · exact absurd ((h.inService r).1 ⟨k, hb⟩).1 ((h.queued r).1 ⟨x, hx⟩).2
  · exact h.serviceInj x k r hx hb

theorem Waits.congr {m m' : Msg nS} {r : Nat} (h : Waits s m r) (hc : m'.clientId = m.clientId)
    (hd : m'.callerData = m.callerData) : Waits s m' r := by
  unfold Waits
  rw [hc, hd]
  exact h

theorem rinv_init (db : Db nS nP) (n : Nat) : RInv db (rinit nS nP n) := by
  refine ⟨inv_init db, ?_, ?_, fun _ _ => rfl, rfl, ?_⟩
  · intro k hk
    cases hk
  · intro k r hb
    rcases hb with hb | hb <;> cases hb
  · intro x hx
    cases hx

/-- A client call that was accepted. -/
theorem rinv_sent {s' : RSt nS nP n} {c : Int} {cd : Option Nat} {k : Chunk} (h : RInv db s)
    (hi : Inv db s'.spm) (hs : Sent s.spm s'.spm c cd k)
    (hw : ∀ m r, r < s.spm.next → Waits s m r → Waits s' m r)
    (hk : Waits s' (s'.spm.conn k).internalMsg s.spm.next)
    (hf : ∀ r, s.spm.next < r → s'.owner r = none) (hr : s'.replies = s.replies) :
    RInv db s' := by
  refine ⟨hi, fun x hx => ?_, fun x r hb => ?_, fun r hn => ?_, ?_, ?_⟩
  · by_cases hxk : x = k
    · rw [hxk]
      exact hs.alloc
    · obtain ⟨hm, ha⟩ := hs.others x hxk
      rw [hm] at hx
      rw [ha]
      exact h.magic x hx
  · by_cases hxk : x = k
    · subst hxk
      rw [hs.busy, Function.update_self] at hb
      rcases hb with hb | hb
      · cases hb
        exact hk
      · cases hb
    · rw [hs.busy, Function.update_of_ne hxk] at hb
      rw [(hs.others x hxk).1]
      exact hw _ r (h.base.log.holds_lt hb) (h.waits x r hb)
  · rw [hs.next] at hn
    exact hf r (by omega)
  · rw [hr, hs.answered]
    exact h.answered
  · rw [hr]
    exact h.own

/-- A client call that was refused. -/
theorem rinv_quiet {s' : RSt nS nP n} (h : RInv db s) (hi : Inv db s'.spm)
    (hs : Quiet s.spm s'.spm) (hw : ∀ m r, Waits s m r → Waits s' m r)
    (ho : s'.owner = s.owner) (hr : s'.replies = s.replies) : RInv db s' := by
  refine ⟨hi, fun x hx => ?_, fun x r hb => ?_, fun r hn => ?_, ?_, ?_⟩
  · rw [hs.msg] at hx
    exact hs.alloc x (h.magic x hx)
  · rw [hs.busy] at hb
    rw [hs.msg]
    exact hw _ r (h.waits x r hb)
  · rw [hs.next] at hn
    rw [ho]
    exact h.fresh r hn
  · rw [hr, hs.answered]
    exact h.answered
  · rw [hr]
    exact h.own

/-- The two ends of a client call, with what the call does to the SPM. -/
theorem client_cases {t : St nS nP} {l : Lbl nP} {c : Caller nP} {cd : Option Nat}
    (h : Inv db t) (hp : t.panicked = false) (hx : exclusive db t l = true)
    (hl : l.client = some (c, cd)) :
    Inv db (finish (answer db t l)) ∧
    (((answer db t l).2 = .accepted ∧ ∃ k, Sent t (finish (answer db t l)) (c.id db) cd k) ∨
      ((answer db t l).2 ≠ .accepted ∧ Quiet t (finish (answer db t l)))) := by
  have hs : step db t l = some (finish (answer db t l)) := by
    unfold step
    rw [if_neg (by simp [hp])]
    cases l with
    | get => cases hl
    | reply => cases hl
    | _ => rfl
  have ht := step_trans hs
  have hfin : (finish (answer db t l)).next = (answer db t l).1.next := by
    unfold finish
    split <;> rfl
  obtain ⟨hacc, href⟩ := answer_next db t l
  refine ⟨inv_trans h hx ht, ?_⟩
  rcases client_trans h hx hl ht with ⟨k, hk⟩ | hq
  · by_cases ho : (answer db t l).2 = .accepted
    · exact .inl ⟨ho, k, hk⟩
    · have hn := hk.next
      rw [hfin, href ho] at hn
      omega
  · by_cases ho : (answer db t l).2 = .accepted
    · have hn := hq.next
      rw [hfin, hacc ho] at hn
      omega
    · exact .inr ⟨ho, hq⟩

/-- Waiting callers are not in slot `i` if it is free. -/
theorem waits_slot {s' : RSt nS nP n} {i : Fin (n + 1)} {m : Msg nS} {r : Nat}
    (hfree : s.slot i = .free) (ho : s'.owner = s.owner) (hb : s'.blocked = s.blocked)
    (hwt : s'.waiting = s.waiting)
    (hs : ∀ j, j ≠ i → s'.slot j = s.slot j ∧ s'.msgHandle j = s.msgHandle j ∧
      s'.emptySlots j = s.emptySlots j)
    (h : Waits s m r) : Waits s' m r := by
  rcases h with ⟨hc, hown, j, hd, hslot, hh, he⟩ | ⟨hc, q, hown, hbl, hw⟩
  · have hj : j ≠ i := by
      intro hx
      subst hx
      rw [hfree] at hslot
      cases hslot
    obtain ⟨h1, h2, h3⟩ := hs j hj
    exact .inl ⟨hc, by rw [ho]; exact hown, j, hd, h1.trans hslot, h2.trans hh, h3.trans he⟩
  · exact .inr ⟨hc, q, by rw [ho]; exact hown, by rw [hb]; exact hbl, by rw [hwt]; exact hw⟩

theorem mailboxLbl_client (i : Nat) (q : Req) :
    (mailboxLbl i q : Lbl nP).client = some (.ns defaultNsClientId, some i) := by
  cases q <;> rfl

theorem svcLbl_client (p : Fin nP) (privileged : Bool) (ctrlParam : Nat) (q : Req) :
    (svcLbl p privileged ctrlParam q).client = some (.secure p, none) := by
  cases q <;> rfl

theorem rinv_handleMsg {i : Fin (n + 1)} {q : Req} (h : RInv db s) (hp : s.spm.panicked = false)
    (hx : exclusive db s.spm (mailboxLbl i.val q) = true) (hfree : s.slot i = .free) :
    RInv db (handleMsg db s i q) := by
  obtain ⟨hi, ho⟩ := client_cases h.base hp hx (mailboxLbl_client i.val q)
  unfold handleMsg
  generalize answer db s.spm (mailboxLbl i.val q) = o at hi ho
  rcases ho with ⟨hacc, k, hk⟩ | ⟨hno, hq⟩
  · -- accepted: the slot waits for the new message
    have hm : ∀ s₁ : RSt nS nP n, RInv db s₁ → RInv db (match q, o.2 with
        | .connect _ _, .refused _ =>
          { cleanQueueSlot s₁ i with slot := Function.update s₁.slot i .free }
        | .call _, .refused _ =>
          { cleanQueueSlot s₁ i with slot := Function.update s₁.slot i .free }
        | _, _ => s₁) := by
      intro s₁ hs₁
      rw [hacc]
      cases q <;> exact hs₁
    refine hm _ (rinv_sent h hi hk ?_ ?_ ?_ rfl)
    · intro m r _ hw
      refine waits_slot hfree ?_ ?_ ?_ (fun j hj => ?_) hw
      · rfl
      · rfl
      · rfl
      · simp [hj]
    · refine .inl ⟨?_, h.fresh _ (Nat.le_refl _), i, ?_, ?_, ?_, ?_⟩
      · rw [hk.client]
        exact Int.negSucc_lt_zero 0
      · rw [hk.data]
        rfl
      · simp [hacc]
      · simp
      · simp
    · exact fun r hr => h.fresh r (Nat.le_of_lt hr)
  · have hs₁ : ∀ (f : Fin (n + 1) → Option (Fin (n + 1))) (e : Fin (n + 1) → Bool)
        (u : Fin (n + 1) → Slot), (∀ j, j ≠ i → u j = s.slot j ∧ f j = s.msgHandle j ∧
          e j = s.emptySlots j) →
        RInv db { s with spm := finish o, msgHandle := f, emptySlots := e, slot := u } :=
      fun f e u hj => rinv_quiet h hi hq (fun _ _ => waits_slot hfree rfl rfl rfl hj) rfl rfl
    dsimp only
    split
    · exact hs₁ _ _ _ fun j hj => by simp [cleanQueueSlot, hj]
    · exact hs₁ _ _ _ fun j hj => by simp [cleanQueueSlot, hj]
    · exact hs₁ _ _ _ fun j hj => by simp [hj]

theorem rinv_svcCall {p : Fin nP} {privileged : Bool} {ctrlParam : Nat} {q : Req}
    (hpid : PidsOk db) (h : RInv db s) (hp : s.spm.panicked = false)
    (hx : exclusive db s.spm (svcLbl p privileged ctrlParam q) = true)
    (hrun : s.blocked p = false) : RInv db (svcCall db s p privileged ctrlParam q) := by
  obtain ⟨hi, ho⟩ := client_cases h.base hp hx (svcLbl_client p privileged ctrlParam q)
  have hpos : (db.partition p).pid > 0 := by
    have := hpid p
    omega
  have hrpc : isTfmRpcMsg (db.partition p).pid (s.owner s.spm.next) = false := by
    simp [isTfmRpcMsg, hpos]
  unfold svcCall
  generalize answer db s.spm (svcLbl p privileged ctrlParam q) = o at hi ho
  rcases ho with ⟨hacc, k, hk⟩ | ⟨hno, hq⟩
  · simp only [hacc, hrpc, decide_true, Bool.not_false, Bool.and_self, if_true]
    refine rinv_sent h hi hk ?_ ?_ ?_ rfl
    · -- the thread of `p` did not wait before, and the request is new
      intro m r hr hw
      have hrn : r ≠ s.spm.next := Nat.ne_of_lt hr
      rcases hw with ⟨hc, hown, j, hd, hslot⟩ | ⟨hc, x, hown, hbl, hwt⟩
      · exact .inl ⟨hc, by simpa [eventWait, hrn] using hown, j, hd, hslot⟩
      · have hxp : x ≠ p := by
          intro he
          subst he
          rw [hrun] at hbl
          cases hbl
        exact .inr ⟨hc, x, by simpa [eventWait, hrn] using hown,
          by simpa [eventWait, hxp] using hbl, by simpa [eventWait, hxp] using hwt⟩
    · refine .inr ⟨?_, p, ?_, ?_, ?_⟩
      · have hc : ((finish o).conn k).internalMsg.clientId = _ := hk.client
        exact hc ▸ hpos
      · simp [eventWait]
      · simp [eventWait]
      · simp [eventWait]
    · intro r hr
      have hrn : r ≠ s.spm.next := Nat.ne_of_gt hr
      simpa [eventWait, hrn] using h.fresh r (Nat.le_of_lt hr)
  · simp only [hno, decide_false, Bool.false_and, Bool.false_eq_true, if_false]
    exact rinv_quiet h hi hq (fun _ _ hw => hw) rfl rfl

/-! ## Service calls keep the invariant -/

/-- A service call that changes what a message carries, or only the data of its
callers. -/
theorem rinv_touch {t : St nS nP} {w : Nat → Nat → Nat} (h : RInv db s) (hi : Inv db t)
    (hb : t.busy = s.spm.busy) (ha : t.alloc = s.spm.alloc) (hn : t.next = s.spm.next)
    (hr : t.answered = s.spm.answered)
    (hm : ∀ x, (t.conn x).internalMsg.magic = (s.spm.conn x).internalMsg.magic ∧
      (t.conn x).internalMsg.clientId = (s.spm.conn x).internalMsg.clientId ∧
      (t.conn x).internalMsg.callerData = (s.spm.conn x).internalMsg.callerData) :
    RInv db { s with spm := t, written := w } := by
  refine ⟨hi, fun x hx => ?_, fun x r hbx => ?_, fun r hx => ?_, ?_, h.own⟩
  · have hx : (t.conn x).internalMsg.magic = true := hx
    rw [(hm x).1] at hx
    show t.alloc x = true
    rw [ha]
    exact h.magic x hx
  · have hbx : (t.busy x).Holds r := hbx
    rw [hb] at hbx
    exact (h.waits x r hbx).congr (hm x).2.1 (hm x).2.2
  · have hx : t.next ≤ r := hx
    rw [hn] at hx
    exact h.fresh r hx
  · show s.replies.map Reply.req = t.answered
    rw [hr]
    exact h.answered

theorem rinv_panic (h : RInv db s) : RInv db (panic s) := by
  refine rinv_touch h ?_ rfl rfl rfl rfl fun _ => ⟨rfl, rfl, rfl⟩
  exact h.base.congr rfl rfl rfl rfl rfl rfl rfl rfl rfl rfl rfl fun _ => ⟨rfl, rfl, rfl⟩

/-- Changing what the message of chunk `k` carries. -/
theorem rinv_setMsg {k : Chunk} {f : Conn nS → Conn nS} (h : RInv db s)
    (hs : (f (s.spm.conn k)).service = (s.spm.conn k).service ∧
      (f (s.spm.conn k)).status = (s.spm.conn k).status)
    (hm : (f (s.spm.conn k)).internalMsg.Same (s.spm.conn k).internalMsg)
    (hc : (f (s.spm.conn k)).internalMsg.clientId = (s.spm.conn k).internalMsg.clientId ∧
      (f (s.spm.conn k)).internalMsg.callerData = (s.spm.conn k).internalMsg.callerData) :
    RInv db { s with spm := s.spm.setConn k f } := by
  refine rinv_touch h ?_ rfl rfl rfl rfl fun x => ?_
  · refine h.base.similar rfl rfl rfl rfl rfl rfl rfl rfl rfl rfl rfl fun x => ?_
    rw [setConn_conn]
    split
    · rename_i hx
      rw [hx]
      exact ⟨hs.1, hs.2, hm⟩
    · exact ⟨rfl, rfl, .of_eq rfl⟩
  · rw [setConn_conn]
    split
    · rename_i hx
      rw [hx]
      exact ⟨hm.magic, hc⟩
    · exact ⟨rfl, rfl, rfl⟩

theorem rinv_takeIn {k : Chunk} {idx bytes : Nat} (h : RInv db s) :
    RInv db (takeIn s k idx bytes) :=
  rinv_setMsg h ⟨rfl, rfl⟩ ⟨rfl, rfl, rfl, rfl⟩ ⟨rfl, rfl⟩

theorem rinv_psaRead {p : Fin nP} {hd : UInt32} {idx numBytes : Nat} {bufOk : Bool}
    (h : RInv db s) : RInv db (psaRead db s p hd idx numBytes bufOk).1 := by
  unfold psaRead
  split
  · exact rinv_panic h
  dsimp only
  split
  · exact h
  split
  · exact rinv_panic h
  · exact rinv_takeIn h

theorem rinv_psaSkip {p : Fin nP} {hd : UInt32} {idx numBytes : Nat} (h : RInv db s) :
    RInv db (psaSkip db s p hd idx numBytes).1 := by
  unfold psaSkip
  split
  · exact rinv_panic h
  dsimp only
  split
  · exact h
  · exact rinv_takeIn h

theorem rinv_psaWrite {p : Fin nP} {hd : UInt32} {idx numBytes : Nat} {bufOk : Bool}
    (h : RInv db s) : RInv db (psaWrite db s p hd idx numBytes bufOk) := by
  unfold psaWrite
  split
  · exact rinv_panic h
  dsimp only
  split
  · exact rinv_panic h
  split
  · exact rinv_panic h
  · exact rinv_touch h h.base rfl rfl rfl rfl fun _ => ⟨rfl, rfl, rfl⟩

theorem rinv_psaSetRhandle {p : Fin nP} {hd : UInt32} {rhandle : Nat} (h : RInv db s) :
    RInv db (psaSetRhandle db s p hd rhandle) := by
  unfold psaSetRhandle
  split
  · exact rinv_panic h
  split
  · exact rinv_panic h
  · exact rinv_setMsg h ⟨rfl, rfl⟩ ⟨rfl, rfl, rfl, rfl⟩ ⟨rfl, rfl⟩

theorem rinv_get {t : St nS nP} {p : Fin nP} {signal : Nat} {bufOk : Bool} (h : RInv db s)
    (ht : Trans db s.spm (.get p signal bufOk) t) : RInv db { s with spm := t } := by
  have hx : exclusive db s.spm (.get p signal bufOk) = true := rfl
  have hi := inv_trans h.base hx ht
  cases ht with
  | stay l b => exact rinv_touch h hi rfl rfl rfl rfl fun _ => ⟨rfl, rfl, rfl⟩
  | leak b hl => cases hl
  | call hq => cases hq
  | callStatic hq => cases hq
  | getNone => exact rinv_touch h hi rfl rfl rfl rfl fun _ => ⟨rfl, rfl, rfl⟩
  | @get _ _ _ clear m k ha hne hf =>
    obtain ⟨-, ⟨ml, hmsg⟩, -⟩ := h.base
    obtain ⟨⟨r₀, hq⟩, -⟩ := hmsg.get hf
    have hrid := hmsg.rid k r₀ (.inl hq)
    have hm : ∀ x, ((taken s.spm p signal m clear k).conn x).internalMsg =
        (s.spm.conn x).internalMsg := by
      intro x
      simp only [taken, setConn_conn]
      split
      · rename_i hx
        rw [hx]
      · rfl
    refine ⟨hi, fun x hx => ?_, fun x r hb => ?_, h.fresh, h.answered, h.own⟩
    · have hx : ((taken s.spm p signal m clear k).conn x).internalMsg.magic = true := hx
      rw [hm] at hx
      exact h.magic x hx
    · show Waits s ((taken s.spm p signal m clear k).conn x).internalMsg r
      rw [hm]
      have hb : ((taken s.spm p signal m clear k).busy x).Holds r := hb
      by_cases hxk : x = k
      · subst hxk
        simp only [taken, Function.update_self, hrid] at hb
        rcases hb with hb | hb
        · cases hb
        · cases hb
          exact h.waits x r₀ (.inl hq)
      · simp only [taken, Function.update_of_ne hxk] at hb
        exact h.waits x r hb

/-! ## Replies go to their callers -/

/-- The reply to a message of a mailbox caller, in slot `i`. -/
theorem deliver_mailbox {m : Msg nS} {i : Fin (n + 1)} (ret : Int) (hc : m.clientId < 0)
    (hown : s.owner m.rid = none) (hd : m.callerData = some i.val)
    (hslot : s.slot i = .waiting (some m.rid)) (hh : s.msgHandle i = some i)
    (he : s.emptySlots i = false) :
    deliver s m ret = { cleanQueueSlot s i with
      slot := Function.update s.slot i .free
      replies := ⟨m.rid, some m.rid, ret, callerOutvecLens s m⟩ :: s.replies } := by
  have hrpc : isTfmRpcMsg m.clientId (s.owner m.rid) = true := by
    simp [isTfmRpcMsg, hown, Int.le_of_lt hc]
  simp only [deliver, hrpc, if_true, mailboxReply, hd, Option.bind_some, i.isLt, dite_true,
    Fin.eta, hh, mailboxReplyMsg, Option.getD_some, he, Bool.false_eq_true, if_false, hslot,
    Slot.request]

/-- The reply to a message of a secure caller, whose thread is blocked. -/
theorem deliver_event {m : Msg nS} {q : Fin nP} (ret : Int) (hown : s.owner m.rid = some q)
    (hbl : s.blocked q = true) (hwt : s.waiting q = some m.rid) :
    deliver s m ret = { s with
      owner := Function.update s.owner m.rid none
      blocked := Function.update s.blocked q false
      waiting := Function.update s.waiting q none
      replies := ⟨m.rid, some m.rid, ret, callerOutvecLens s m⟩ :: s.replies } := by
  have hrpc : isTfmRpcMsg m.clientId (s.owner m.rid) = false := by simp [isTfmRpcMsg, hown]
  unfold deliver
  rw [hrpc]
  simp only [Bool.false_eq_true, if_false, eventWake, hown, hbl, if_true, hwt]

/-- The reply to a message whose caller waits goes to this caller, and leaves the others
waiting. -/
theorem deliver_waits {m : Msg nS} (ret : Int) (h : Waits s m m.rid) :
    (deliver s m ret).spm = s.spm ∧
    (∃ lens, (deliver s m ret).replies = ⟨m.rid, some m.rid, ret, lens⟩ :: s.replies) ∧
    (∀ r, s.owner r = none → (deliver s m ret).owner r = none) ∧
    ∀ m' r, r ≠ m.rid → Waits s m' r → Waits (deliver s m ret) m' r := by
  rcases h with ⟨hc, hown, i, hd, hslot, hh, he⟩ | ⟨hc, q, hown, hbl, hwt⟩
  · rw [deliver_mailbox ret hc hown hd hslot hh he]
    refine ⟨rfl, ⟨_, rfl⟩, fun r hr => hr, fun m' r hne hw => ?_⟩
    rcases hw with ⟨hc', hown', j, hd', hslot', hh', he'⟩ | hw
    · have hj : j ≠ i := by
        intro hv
        subst hv
        rw [hslot] at hslot'
        cases hslot'
        exact hne rfl
      refine .inl ⟨hc', hown', j, hd', ?_, ?_, ?_⟩
      · simpa [hj] using hslot'
      · simpa [cleanQueueSlot, hj] using hh'
      · simpa [cleanQueueSlot, hj] using he'
    · exact .inr hw
  · rw [deliver_event ret hown hbl hwt]
    refine ⟨rfl, ⟨_, rfl⟩, fun r hr => ?_, fun m' r hne hw => ?_⟩
    · by_cases hrm : r = m.rid
      · simp [hrm]
      · simpa [hrm] using hr
    · rcases hw with ⟨hc', hown', hw⟩ | ⟨hc', x, hown', hbl', hwt'⟩
      · exact .inl ⟨hc', by simpa [hne] using hown', hw⟩
      · have hx : x ≠ q := by
          intro hv
          subst hv
          rw [hwt] at hwt'
          cases hwt'
          exact hne rfl
        exact .inr ⟨hc', x, by simpa [hne] using hown', by simpa [hx] using hbl',
          by simpa [hx] using hwt'⟩

/-- `psa_reply` panics, or answers the message of the handle. -/
theorem serviceReply_cases (db : Db nS nP) (s : RSt nS nP n) (p : Fin nP) (hd : UInt32) (st : Int)
    (hp : s.spm.panicked = false) :
    serviceReply db s p hd st = panic s ∨
    ∃ k v s₁ ret, getMsgFromHandle db s.spm p hd = some (k, v) ∧
      replyByType db s.spm k v hd st = some (s₁, ret) ∧
      serviceReply db s p hd st =
        deliver { s with spm := replied s.spm s₁ k ret } (s.spm.conn k).internalMsg ret := by
  unfold serviceReply psaReply
  cases hg : getMsgFromHandle db s.spm p hd with
  | none => exact .inl rfl
  | some x =>
    obtain ⟨k, v⟩ := x
    cases hr : replyByType db s.spm k v hd st with
    | none =>
      left
      simp [hr, panic]
    | some y =>
      obtain ⟨s₁, ret⟩ := y
      by_cases hpe : ret = psaErrorProgrammerError ∧ ¬ (s.spm.conn k).internalMsg.clientId < 0
      · left
        simp only [hr, if_pos hpe]
        rfl
      · right
        have hp₁ : s₁.panicked = false := by
          rcases replyByType_kept hr with ⟨g, rfl⟩ | rfl
          · exact hp
          · exact hp
        refine ⟨k, v, s₁, ret, rfl, hr, ?_⟩
        simp only [hr, if_neg hpe]
        exact if_neg (by simp [St.setConn, hp₁])

theorem exclusive_turn {t : St nS nP} {p : Fin nP} {hd : UInt32} {st : Int}
    (ht : turn db t p hd = true) : exclusive db t (.reply p hd st) = true := by
  simp only [exclusive, Lbl.target, Lbl.callReq, Option.all_none, Bool.true_and]
  cases hg : getMsgFromHandle db t p hd with
  | none => rfl
  | some x =>
    obtain ⟨⟨r, hb⟩, -⟩ := turn_some ht (show getMsgFromHandle db t p hd = some (x.1, x.2) from hg)
    simp [hb, Busy.isDelivered]

theorem rinv_serviceReply {p : Fin nP} {hd : UInt32} {st : Int} (h : RInv db s)
    (hp : s.spm.panicked = false) (ht : turn db s.spm p hd = true) :
    RInv db (serviceReply db s p hd st) := by
  rcases serviceReply_cases db s p hd st hp with he | ⟨k, v, s₁, ret, hg, hr, he⟩
  · rw [he]
    exact rinv_panic h
  rw [he]
  obtain ⟨⟨r, hb⟩, -⟩ := turn_some ht hg
  have hbase := inv_reply h.base hb hr
  have hrid : (s.spm.conn k).internalMsg.rid = r := by
    obtain ⟨-, ⟨ml, hmsg⟩, -⟩ := h.base
    exact hmsg.rid k r (.inr hb)
  have hw : Waits s (s.spm.conn k).internalMsg (s.spm.conn k).internalMsg.rid := by
    rw [hrid]
    exact h.waits k r (.inr hb)
  obtain ⟨hspm, ⟨lens, hrep⟩, hown, hothers⟩ :=
    deliver_waits (s := { s with spm := replied s.spm s₁ k ret }) ret hw
  -- the chunk that is answered, and the others
  have hfree : ∀ x, x ≠ k → (s₁.conn x) = s.spm.conn x ∧ s₁.alloc x = s.spm.alloc x := by
    intro x hx
    rcases replyByType_kept hr with ⟨g, rfl⟩ | rfl
    · exact ⟨rfl, rfl⟩
    · simp [freeConnHandle, setConn_conn, hx]
  have hself : (s₁.conn k).internalMsg.magic = true → s₁.alloc k = true := by
    intro hm
    rcases replyByType_kept hr with ⟨g, rfl⟩ | rfl
    · exact h.magic k hm
    · simp [freeConnHandle, setConn_conn] at hm
  have hnext : s₁.next = s.spm.next := by
    rcases replyByType_kept hr with ⟨g, rfl⟩ | rfl
    · rfl
    · rfl
  refine ⟨?_, fun x hx => ?_, fun x r' hx => ?_, fun r' hr' => ?_, ?_, fun x hx => ?_⟩
  · rw [hspm]
    exact hbase
  · rw [hspm] at hx ⊢
    show s₁.alloc x = true
    by_cases hxk : x = k
    · subst hxk
      simp only [replied, setConn_conn, if_true] at hx
      exact hself hx
    · simp only [replied, setConn_conn, hxk, if_false, (hfree x hxk).1] at hx
      rw [(hfree x hxk).2]
      exact h.magic x hx
  · rw [hspm] at hx ⊢
    have hx : ((replied s.spm s₁ k ret).busy x).Holds r' := hx
    have hxk : x ≠ k := by
      intro hv
      subst hv
      simp only [replied, Function.update_self] at hx
      rcases hx with hx | hx <;> cases hx
    simp only [replied, Function.update_of_ne hxk] at hx
    show Waits _ ((replied s.spm s₁ k ret).conn x).internalMsg r'
    simp only [replied, setConn_conn, hxk, if_false, (hfree x hxk).1]
    refine hothers _ r' ?_ (h.waits x r' hx)
    intro hv
    subst hv
    rw [hrid] at hx
    exact hxk (h.base.log.holds_inj hb hx)
  · rw [hspm] at hr'
    have hr' : s₁.next ≤ r' := hr'
    rw [hnext] at hr'
    exact hown r' (h.fresh r' hr')
  · rw [hrep, hspm]
    exact congrArg (_ :: ·) h.answered
  · rw [hrep, List.mem_cons] at hx
    rcases hx with rfl | hx
    · rfl
    · exact h.own x hx

/-! ## Runs -/

theorem rinv_step (hpid : PidsOk db) {s' : RSt nS nP n} {l : RLbl nP n} (h : RInv db s)
    (hx : disciplined db s l = true) (hs : rstep db s l = some s') : RInv db s' := by
  unfold rstep at hs
  split at hs
  · cases hs
  rename_i hp
  have hp : s.spm.panicked = false := by simpa using hp
  cases l with
  | mailbox i q =>
    dsimp only at hs
    split at hs
    · rename_i hfree
      cases hs
      exact rinv_handleMsg h hp hx hfree
    · cases hs
  | svc p privileged ctrlParam q =>
    dsimp only at hs
    split at hs
    · cases hs
    · rename_i hrun
      cases hs
      exact rinv_svcCall hpid h hp hx (by simpa using hrun)
  | service p c =>
    dsimp only at hs
    split at hs
    · cases hs
    cases c with
    | get signal bufOk =>
      obtain ⟨⟨t, m⟩, hg, rfl⟩ := Option.map_eq_some_iff.1 hs
      exact rinv_get h (get_trans (by rw [hg]; rfl))
    | read hd idx numBytes bufOk =>
      cases hs
      exact rinv_psaRead h
    | skip hd idx numBytes =>
      cases hs
      exact rinv_psaSkip h
    | write hd idx numBytes bufOk =>
      cases hs
      exact rinv_psaWrite h
    | setRhandle hd rhandle =>
      cases hs
      exact rinv_psaSetRhandle h
    | reply hd st =>
      cases hs
      exact rinv_serviceReply h hp hx

theorem rinv_inductive (hpid : PidsOk db) (n : Nat) :
    ((rlts db n).restrict fun s l => disciplined db s l = true).Inductive (RInv db) where
  init := by
    intro s hs
    cases hs
    exact rinv_init db n
  step := by
    intro s l s' h hs
    exact rinv_step hpid h hs.1 hs.2

/-! ## Results -/

theorem requestMsg_none {t : St nS nP} {p : Fin nP} {h : UInt32} {idx : Nat}
    (hg : getMsgFromHandle db t p h = none) : requestMsg db t p h idx = none := by
  simp only [requestMsg, hg]

/-- Every service call on a handle that is not accepted panics. -/
theorem service_rejected {s' : RSt nS nP n} {p : Fin nP} {c : SvcCall} {h : UInt32}
    (hc : c.handle = some h) (hn : ¬ Accepts db s.spm p h) (hs : service db s p c = some s') :
    s'.spm.panicked = true := by
  have hg : getMsgFromHandle db s.spm p h = none := by simpa [Accepts] using hn
  have hm : ∀ idx, requestMsg db s.spm p h idx = none := fun idx => requestMsg_none hg
  cases c with
  | get => cases hc
  | read =>
    cases hc
    cases hs
    simp [psaRead, hm, panic]
  | skip =>
    cases hc
    cases hs
    simp [psaSkip, hm, panic]
  | write =>
    cases hc
    cases hs
    simp [psaWrite, hm, panic]
  | setRhandle =>
    cases hc
    cases hs
    simp [psaSetRhandle, hg, panic]
  | reply =>
    cases hc
    cases hs
    simp [serviceReply, psaReply, hg]

/-- Delivering a reply leaves the SPM alone. -/
theorem deliver_spm (s : RSt nS nP n) (m : Msg nS) (ret : Int) : (deliver s m ret).spm = s.spm := by
  unfold deliver mailboxReply mailboxReplyMsg eventWake
  dsimp only
  split
  · split <;> rfl
  · split
    · rfl
    · split <;> rfl

/-- A message that was answered is no longer with its service. -/
theorem reply_second {p : Fin nP} {h : UInt32} {st : Int} (hrun : s.spm.panicked = false)
    (hp : (serviceReply db s p h st).spm.panicked = false) :
    ¬ Window db (serviceReply db s p h st).spm p h := by
  rcases serviceReply_cases db s p h st hrun with he | ⟨k, v, s₁, ret, hg, hr, he⟩
  · rw [he] at hp
    cases hp
  · rw [he, deliver_spm]
    intro hv
    obtain ⟨x, w, r, hx, hb, -⟩ := hv
    rw [(getMsgFromHandle_some hg).1] at hx
    cases hx
    simp only [replied, Function.update_self] at hb
    cases hb

/-- **Replies go to the callers of their messages**, in every run in which client calls
are exclusive and every service uses a handle of a message of its own only while it has
the message: each message answered was answered once and its reply reached the caller
that waits for it; a handle is accepted while its service has the message; a service call
is handled as it should be exactly if it is disciplined; and a call with a handle the SPM
should reject, such as a second reply, panics. -/
theorem reply_reachable (db : Db nS nP) (hpid : PidsOk db) (s : RSt nS nP n)
    (h : ((rlts db n).restrict fun s l => disciplined db s l = true).Reachable s) :
    ReplyLaw db s := by
  have hi := (rinv_inductive hpid n).reachable s h
  refine ⟨hi.answered, hi.base.log.answeredNodup, hi.own, fun p hd => hi.base.window,
    hi.base.accepted, ?_, fun p hd st => reply_second, ?_⟩
  · intro p c hd s' hc ht hw hs
    exact service_rejected hc (fun ha => hw ((hi.base.accepted p hd).2 ht ha)) hs
  · intro p hd k hk ha
    have hm : (s.spm.conn k).internalMsg.magic = false := by
      cases hmagic : (s.spm.conn k).internalMsg.magic with
      | false => rfl
      | true => rw [hi.magic k hmagic] at ha; cases ha
    simp [turn, hk, holdsFor, hm]

/-- Two services of one partition, with id 256: one on connections and one stateless, with
the static handle 0x40000101. -/
def bothServices : Db 2 1 where
  service v := if v = 0 then ⟨0x1000, 0, 4, true, true, 1, .strict⟩
    else ⟨0x1001, 0, 5, true, false, 1, .strict⟩
  partition _ := ⟨256, []⟩
  stateless i := if i = 0 then some 1 else none
  halMemoryHasAccess _ := true

/-- A request on the connection 194 and a stateless one, from the two slots of the mailbox,
answered in the other order. -/
def replyTrace : List (RLbl 1 1) :=
  [.mailbox 0 (.connect 0x1000 1), .service 0 (.get 4 true), .service 0 (.reply 194 0),
    .mailbox 0 (.call ⟨194, 0, 0x100, [⟨0x200, 8⟩], 0x300, [⟨0x400, 4⟩]⟩),
    .mailbox 1 (.call ⟨0x40000101, 0, 0, [], 0, []⟩),
    .service 0 (.get 4 true), .service 0 (.read 194 0 6 true), .service 0 (.get 5 true),
    .service 0 (.reply 1603 7), .service 0 (.write 194 0 3 true), .service 0 (.reply 194 5)]

theorem reply_reachable_two : ∃ s : RSt 2 1 1, ReplyLaw bothServices s ∧
    s.replies = [⟨1, some 1, 5, [3]⟩, ⟨2, some 2, 7, []⟩, ⟨0, some 0, 194, []⟩] := by
  have he : (LTS.execC (disciplined bothServices) (rstep bothServices) (rinit 2 1 1) replyTrace).map
      RSt.replies = some [⟨1, some 1, 5, [3]⟩, ⟨2, some 2, 7, []⟩, ⟨0, some 0, 194, []⟩] := by
    decide +kernel
  obtain ⟨s, hs, hv⟩ := Option.map_eq_some_iff.1 he
  have hpid : PidsOk bothServices := fun _ => Int.le_refl _
  exact ⟨s, reply_reachable bothServices hpid s (LTS.reachable_execC (fun _ _ h => h) _ rfl hs), hv⟩

/-- Client -1 connects from slot 0, calls from slot 1, and asks for another connection
from slot 0; the service answers the call twice. -/
def doubleReply : List (RLbl 1 1) :=
  [.mailbox 0 (.connect 0x1000 1), .service 0 (.get 4 true), .service 0 (.reply 194 0),
    .mailbox 1 (.call ⟨194, 0, 0, [], 0, []⟩), .service 0 (.get 4 true),
    .service 0 (.reply 194 5), .mailbox 0 (.connect 0x1000 1), .service 0 (.reply 194 7)]

/-- **Counterexample**: the second reply to request 1 is no programmer error; it reaches
the caller in slot 0, who waits for the reply to request 2. And a handle is accepted before
`psa_get` delivers its message. -/
theorem reply_misdelivered :
    (∃ s : RSt 2 1 1, (rlts bothServices 1).Reachable s ∧ s.spm.panicked = false ∧
      ⟨1, some 2, 7, []⟩ ∈ s.replies ∧ s.spm.answered = [1, 1, 0] ∧ ¬ ReplyLaw bothServices s) ∧
    ∃ s : RSt 2 1 1, (rlts bothServices 1).Reachable s ∧ Accepts bothServices s.spm 0 194 ∧
      s.spm.delivered = [] ∧ ¬ Window bothServices s.spm 0 194 := by
  have he : (LTS.exec (rstep bothServices) (rinit 2 1 1) doubleReply).map (fun s =>
      (s.spm.panicked, s.replies, s.spm.answered)) = some (false,
        [⟨1, some 2, 7, []⟩, ⟨1, some 1, 5, []⟩, ⟨0, some 0, 194, []⟩], [1, 1, 0]) := by
    decide +kernel
  have he' : (LTS.exec (rstep bothServices) (rinit 2 1 1) [.mailbox 0 (.connect 0x1000 1)]).map
      (fun s => ((getMsgFromHandle bothServices s.spm 0 194).isSome, s.spm.delivered)) =
      some (true, []) := by decide +kernel
  obtain ⟨s, hs, hv⟩ := Option.map_eq_some_iff.1 he
  obtain ⟨s', hs', hv'⟩ := Option.map_eq_some_iff.1 he'
  simp only [Prod.mk.injEq] at hv hv'
  obtain ⟨hp, hr, ha⟩ := hv
  obtain ⟨hacc, hd⟩ := hv'
  refine ⟨⟨s, LTS.reachable_exec _ (.init rfl) hs, hp, ?_, ha, fun h => ?_⟩,
    s', LTS.reachable_exec _ (.init rfl) hs', hacc, hd, ?_⟩
  · rw [hr]
    exact List.mem_cons_self
  · have hn := h.once
    rw [ha] at hn
    exact absurd hn (by decide)
  · intro hx
    obtain ⟨k, v, r, -, -, -, -, -, -, hdel, -⟩ := hx
    rw [hd] at hdel
    cases hdel

end Tfm.L4.Spm
