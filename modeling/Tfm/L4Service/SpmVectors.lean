import Tfm.Core.Pieces
import Tfm.L4Service.SpmEntry
import Tfm.L4Service.SpmNsSafe
import Tfm.L4Service.SpmServe

/-!
# SPM: input and output vectors

A message carries, for each input vector, how much of it is left (`in_size`) and where
that starts (`invec[].base`); for each output vector, its size (`out_size`), where it
starts and how much was written (`outvec[].len`). `psa_read` and `psa_skip` move the
first two, `psa_write` the last, and `psa_reply` gives it to the caller.

The SPM of `SpmNsSafe`, with every client and service call and with stores to the
callers' memory at any time, is watched: a log for each request keeps what its client
passed and every copy made since, with the address it was made from or to. `last` keeps
the vector that a byte was written through, until something else changes the byte. The
buffers of the services are not in this memory; what `psa_write` finds in its buffer
comes with the step.

Results:
* `ioInv_inductive`: the message and its log agree.
* `vectors_stream`: in every reachable state, what was read, skipped and written are
  consecutive pieces of the vectors that the client passed.
-/
namespace Tfm.L4.Spm

open Tfm.BiList Tfm.Bytes Tfm.Pieces

variable {nS nP n : Nat} {db : Db nS nP}

/-! ## The log -/

/-- What the client passed, and the copies made through each vector. -/
structure IoLog where
  ins : List Vec
  outs : List Vec
  outptr : Nat
  read : Nat → List (Nat × Nat)
  wrote : Nat → List (Nat × List UInt8)

def IoLog.start (ins outs : List Vec) (outptr : Nat) : IoLog :=
  ⟨ins, outs, outptr, fun _ => [], fun _ => []⟩

def Req.log : Req → IoLog
  | .call a => .start a.invecs a.outvecs a.outptr
  | _ => .start [] [] 0

def vecOf (l : List Vec) (idx : Nat) : Vec := l.getD idx ⟨0, 0⟩

def IoLog.inAt (L : IoLog) (idx : Nat) : Vec := vecOf L.ins idx
def IoLog.outAt (L : IoLog) (idx : Nat) : Vec := vecOf L.outs idx

/-- The pieces that were written. -/
def IoLog.pieces (L : IoLog) (idx : Nat) : List (Nat × Nat) :=
  (L.wrote idx).map fun w => (w.1, w.2.length)

/-- The concatenation of the buffers that were written. -/
def IoLog.bytes (L : IoLog) (idx : Nat) : List UInt8 := (L.wrote idx).flatMap Prod.snd

def IoLog.addRead (L : IoLog) (idx a bytes : Nat) : IoLog :=
  { L with read := Function.update L.read idx (L.read idx ++ [(a, bytes)]) }

def IoLog.addWrite (L : IoLog) (idx a : Nat) (data : List UInt8) : IoLog :=
  { L with wrote := Function.update L.wrote idx (L.wrote idx ++ [(a, data)]) }

structure IoSt (nS nP n : Nat) where
  v : VSt nS nP n
  /-- ghost -/
  log : Nat → IoLog
  /-- ghost: the request and the vector -/
  last : Nat → Option (Nat × Nat)

def IoSt.spm (s : IoSt nS nP n) : St nS nP := s.v.sys.spm

def IoSt.msg (s : IoSt nS nP n) (k : Chunk) : Msg nS := (s.spm.conn k).internalMsg

/-- The log of the message in a chunk. -/
def IoSt.logOf (s : IoSt nS nP n) (k : Chunk) : IoLog := s.log (s.msg k).rid

/-! ## The watched SPM -/

/-- What `psa_read` copies into the service's buffer.
mirrors secure_fw/spm/ffm/psa_client_service_apis.c:332-335 -/
def readData (db : Db nS nP) (s : VSt nS nP n) (p : Fin nP) (h : UInt32) (idx numBytes : Nat)
    (bufOk : Bool) : List UInt8 :=
  match requestMsg db s.sys.spm p h idx with
  | none => []
  | some k => slice s.mem (inVec s.sys.spm k idx).base (psaRead db s.sys p h idx numBytes bufOk).2

/-- Where `psa_write` copies to.
mirrors secure_fw/spm/ffm/psa_client_service_apis.c:452-453 -/
def writeAt (s : RSt nS nP n) (k : Chunk) (idx : Nat) : Nat :=
  (outVec (s.spm.conn k).internalMsg idx).base + s.written (s.spm.conn k).internalMsg.rid idx

/-- A step to `v` that moves nothing. -/
def IoSt.keep (s : IoSt nS nP n) (v : VSt nS nP n) : IoSt nS nP n where
  v := v
  log := s.log
  last a := if v.mem a = s.v.mem a then s.last a else none

/-- A client call; a message that it fills gets a log. -/
def IoSt.sent (s : IoSt nS nP n) (v : VSt nS nP n) (q : Req) : IoSt nS nP n :=
  if v.sys.spm.next = s.spm.next then s.keep v
  else { s.keep v with log := Function.update s.log s.spm.next q.log }

/-- `psa_read` or `psa_skip` of so many bytes. -/
def IoSt.took (db : Db nS nP) (s : IoSt nS nP n) (v : VSt nS nP n) (p : Fin nP) (h : UInt32)
    (idx bytes : Nat) : IoSt nS nP n :=
  match requestMsg db s.spm p h idx with
  | none => s.keep v
  | some k =>
    { s.keep v with
      log := Function.update s.log (s.msg k).rid
        ((s.logOf k).addRead idx (inVec s.spm k idx).base bytes) }

/-- `psa_write` of `data`. -/
def IoSt.put (db : Db nS nP) (s : IoSt nS nP n) (v : VSt nS nP n) (p : Fin nP) (h : UInt32)
    (idx : Nat) (data : List UInt8) : IoSt nS nP n :=
  match requestMsg db s.spm p h idx with
  | none => s.keep v
  | some k =>
    let a := writeAt s.v.sys k idx
    { v := { v with mem := blit s.v.mem a data }
      log := Function.update s.log (s.msg k).rid ((s.logOf k).addWrite idx a data)
      last := fun b => if a ≤ b ∧ b < a + data.length then some ((s.msg k).rid, idx)
        else s.last b }

/-- A service call that does not panic; `buf` is the buffer of a `psa_write`. -/
def ioService (db : Db nS nP) (s : IoSt nS nP n) (v : VSt nS nP n) (p : Fin nP)
    (buf : Nat → UInt8) : SvcCall → IoSt nS nP n
  | .read h idx num ok => s.took db v p h idx (psaRead db s.v.sys p h idx num ok).2
  | .skip h idx num => s.took db v p h idx (psaSkip db s.v.sys p h idx num).2
  | .write h idx num _ => s.put db v p h idx ((List.range num).map buf)
  | _ => s.keep v

def ioStep (db : Db nS nP) (s : IoSt nS nP n) (l : VLbl nP n × (Nat → UInt8)) :
    Option (IoSt nS nP n) :=
  (vstep db s.v l.1).map fun v =>
    match l.1 with
    | .mailbox _ q => s.sent v q
    | .svc _ _ _ q => s.sent v q
    | .service p c => if v.sys.spm.panicked then s.keep v else ioService db s v p l.2 c
    | .store _ _ => s.keep v

def ioLts (db : Db nS nP) (n : Nat) : LTS (IoSt nS nP n) (VLbl nP n × (Nat → UInt8)) :=
  LTS.ofFn (fun s => s.v.sys = rinit nS nP n ∧ s.last = fun _ => none) (ioStep db)

/-! ## The law -/

/-- A byte that nothing else has changed since is that of the buffers written. -/
def IoSt.Kept (s : IoSt nS nP n) (k : Chunk) (idx : Nat) : Prop :=
  ∀ j (h : j < ((s.logOf k).bytes idx).length),
    s.last (((s.logOf k).outAt idx).base + j) = some ((s.msg k).rid, idx) →
    s.v.mem (((s.logOf k).outAt idx).base + j) = ((s.logOf k).bytes idx).get ⟨j, h⟩

/-- What holds of the vectors of every message, at all times. -/
structure IoLaw (db : Db nS nP) (s : IoSt nS nP n) : Prop where
  /-- The pieces read and skipped follow one another from the client's base, and with
  what is left they are the vector. -/
  input : ∀ k idx, (s.msg k).magic = true →
    Consecutive ((s.logOf k).inAt idx).base ((s.logOf k).read idx) ∧
    total ((s.logOf k).read idx) + (inVec s.spm k idx).len = ((s.logOf k).inAt idx).len
  /-- The next read returns the next bytes, as many as asked for and left. -/
  returned : ∀ p h idx num k, requestMsg db s.spm p h idx = some k →
    (psaRead db s.v.sys p h idx num true).2 = min num (inVec s.spm k idx).len ∧
    (psaSkip db s.v.sys p h idx num).2 = min num (inVec s.spm k idx).len ∧
    readData db s.v p h idx num true = slice s.v.mem
      (((s.logOf k).inAt idx).base + total ((s.logOf k).read idx)) (min num (inVec s.spm k idx).len)
  /-- The pieces written follow one another from the client's base and stay in the
  vector. -/
  output : ∀ k idx, (s.msg k).magic = true →
    Consecutive ((s.logOf k).outAt idx).base ((s.logOf k).pieces idx) ∧
    total ((s.logOf k).pieces idx) ≤ ((s.logOf k).outAt idx).len
  kept : ∀ k idx, (s.msg k).magic = true → s.Kept k idx
  /-- A reply reports the number of bytes written; a vector of size zero keeps the length
  the caller gave it. -/
  reported : ∀ p h status k v, getMsgFromHandle db s.spm p h = some (k, v) →
    ipcCall ≤ (s.msg k).type → (vecReply db s.v p h status).sys.spm.panicked = false →
    ∀ i, i < maxIovec → word (vecReply db s.v p h status).mem ((s.logOf k).outptr + 8 * i + 4) =
      if ((s.logOf k).outAt i).len = 0 then word s.v.mem ((s.logOf k).outptr + 8 * i + 4)
      else total ((s.logOf k).pieces i)

/-! ## Messages and their logs -/

/-- A message with the bytes written through its vectors agrees with its log. -/
structure MsgIo (m : Msg nS) (w : Nat → Nat) (L : IoLog) : Prop where
  invec : ∀ idx, Consecutive (L.inAt idx).base (L.read idx) ∧
    total (L.read idx) ≤ (L.inAt idx).len ∧ vecOf m.invec idx =
      ⟨(L.inAt idx).base + total (L.read idx), (L.inAt idx).len - total (L.read idx)⟩
  outvec : m.outvec = L.outs
  outptr : m.callerOutvec = L.outptr
  output : ∀ idx, Consecutive (L.outAt idx).base (L.pieces idx) ∧
    total (L.pieces idx) ≤ (L.outAt idx).len ∧ w idx = total (L.pieces idx)
  small : ∀ idx, (L.outAt idx).len < 2 ^ 32

/-- The fields that the calls on vectors use. -/
structure SameIo (m' m : Msg nS) : Prop where
  rid : m'.rid = m.rid
  invec : m'.invec = m.invec
  outvec : m'.outvec = m.outvec
  outptr : m'.callerOutvec = m.callerOutvec

theorem SameIo.of_eq {m' m : Msg nS} (h : m' = m) : SameIo m' m := by
  subst h
  exact ⟨rfl, rfl, rfl, rfl⟩

theorem MsgIo.same {m m' : Msg nS} {w w' : Nat → Nat} {L : IoLog} (h : MsgIo m w L)
    (hm : SameIo m' m) (hw : w' = w) : MsgIo m' w' L := by
  subst hw
  refine ⟨fun idx => ?_, hm.outvec.trans h.outvec, hm.outptr.trans h.outptr, h.output, h.small⟩
  rw [hm.invec]
  exact h.invec idx

structure IoInv (s : IoSt nS nP n) : Prop where
  rid : ∀ k, (s.msg k).magic = true → (s.msg k).rid < s.spm.next
  apart : ∀ k x, (s.msg k).magic = true → (s.msg x).magic = true →
    (s.msg k).rid = (s.msg x).rid → k = x
  fresh : ∀ r, s.spm.next ≤ r → s.v.sys.written r = fun _ => 0
  io : ∀ k, (s.msg k).magic = true →
    MsgIo (s.msg k) (s.v.sys.written (s.msg k).rid) (s.logOf k)
  kept : ∀ k idx, (s.msg k).magic = true → s.Kept k idx

/-- No message is filled. -/
structure MsgsKept (s s' : St nS nP) : Prop where
  next : s'.next = s.next
  same : ∀ k, (s'.conn k).internalMsg.magic = true →
    (s.conn k).internalMsg.magic = true ∧ SameIo (s'.conn k).internalMsg (s.conn k).internalMsg

/-- The message of chunk `k` is filled with the vectors of `L`. -/
structure MsgFilled (s s' : St nS nP) (k : Chunk) (L : IoLog) : Prop where
  next : s'.next = s.next + 1
  rid : (s'.conn k).internalMsg.rid = s.next
  invec : (s'.conn k).internalMsg.invec = L.ins
  outvec : (s'.conn k).internalMsg.outvec = L.outs
  outptr : (s'.conn k).internalMsg.callerOutvec = L.outptr
  same : ∀ x, x ≠ k → (s'.conn x).internalMsg.magic = true →
    (s.conn x).internalMsg.magic = true ∧ SameIo (s'.conn x).internalMsg (s.conn x).internalMsg

theorem MsgsKept.refl (s : St nS nP) : MsgsKept s s := ⟨rfl, fun _ hx => ⟨hx, .of_eq rfl⟩⟩

theorem MsgsKept.trans {s s₁ s' : St nS nP} (h : MsgsKept s s₁) (h' : MsgsKept s₁ s') :
    MsgsKept s s' := by
  refine ⟨h'.next.trans h.next, fun x hx => ?_⟩
  obtain ⟨hx₁, h₁⟩ := h'.same x hx
  obtain ⟨hx₀, h₀⟩ := h.same x hx₁
  exact ⟨hx₀, h₁.rid.trans h₀.rid, h₁.invec.trans h₀.invec, h₁.outvec.trans h₀.outvec,
    h₁.outptr.trans h₀.outptr⟩

/-- Changing a connection, but not what the calls on vectors use of its message. -/
theorem msgsKept_setConn (s : St nS nP) (k : Chunk) (f : Conn nS → Conn nS)
    (h : (f (s.conn k)).internalMsg.magic = true → (s.conn k).internalMsg.magic = true)
    (hf : SameIo (f (s.conn k)).internalMsg (s.conn k).internalMsg) :
    MsgsKept s (s.setConn k f) := by
  refine ⟨rfl, fun x hx => ?_⟩
  rw [setConn_conn] at hx ⊢
  by_cases hxk : x = k
  · subst hxk
    rw [if_pos rfl] at hx ⊢
    exact ⟨h hx, hf⟩
  · rw [if_neg hxk] at hx ⊢
    exact ⟨hx, .of_eq rfl⟩

theorem msgsKept_create {s s₁ : St nS nP} {v : Fin nS} {c : Int} {k : Chunk}
    (hn : createConnHandle s v c = some (k, s₁)) : MsgsKept s s₁ := by
  have h := msgsKept_setConn s k
    (fun x => { x with service := some v, status := .idle, clientId := c }) id (.of_eq rfl)
  refine ⟨createConnHandle_next hn, fun x hx => ?_⟩
  rw [createConnHandle_conn hn] at hx ⊢
  exact h.same x hx

theorem msgsKept_stateless {s s₁ : St nS nP} {v : Fin nS} {c : Int} {k : Chunk}
    (hn : createConnHandle s v c = some (k, s₁)) : MsgsKept s (statelessConn s₁ k) := by
  have h := msgsKept_setConn s₁ k (fun x => { x with rhandle := 0 }) id (.of_eq rfl)
  exact (msgsKept_create hn).trans ⟨h.next, h.same⟩

theorem msgFilled_fill {s s₁ : St nS nP} (h : MsgsKept s s₁) (k : Chunk) (v : Fin nS)
    (handle : UInt32) (type clientId : Int) (invec outvec : List Vec) (callerOutvec : Nat)
    (cd : Option Nat) (o : Origin) :
    MsgFilled s
      (sendEvent db (fillMsg s₁ k v handle type clientId invec outvec callerOutvec cd o) v k) k
      (.start invec outvec callerOutvec) := by
  refine ⟨congrArg (· + 1) h.next, ?_, ?_, ?_, ?_, fun x hx hm => ?_⟩
  · simp [sendEvent, fillMsg, setConn_conn, h.next]
  · simp [sendEvent, fillMsg, setConn_conn, IoLog.start]
  · simp [sendEvent, fillMsg, setConn_conn, IoLog.start]
  · simp [sendEvent, fillMsg, setConn_conn, IoLog.start]
  · simp only [sendEvent, fillMsg, setConn_conn, if_neg hx] at hm ⊢
    exact h.same x hm

/-- What the client of a client call passed. -/
def Lbl.ioLog (l : Lbl nP) : IoLog :=
  match l.callReq with
  | some (_, a, _) => .start a.invecs a.outvecs a.outptr
  | none => .start [] [] 0

theorem mailboxLbl_ioLog (i : Nat) (q : Req) : (mailboxLbl i q : Lbl nP).ioLog = q.log := by
  cases q <;> rfl

theorem svcLbl_ioLog (p : Fin nP) (privileged : Bool) (ctrlParam : Nat) (q : Req) :
    (svcLbl p privileged ctrlParam q).ioLog = q.log := by
  cases q <;> rfl

/-- A client call fills one message with what its client passed, or none. -/
theorem client_io {s s' : St nS nP} {l : Lbl nP} {c : Caller nP} {cd : Option Nat}
    (hl : l.client = some (c, cd)) (ht : Trans db s l s') :
    MsgsKept s s' ∨ ∃ k, MsgFilled s s' k l.ioLog := by
  cases ht with
  | stay l b => exact .inl ⟨rfl, (MsgsKept.refl s).same⟩
  | @connect _ _ _ _ v k s₁ _ hn =>
    have h := msgsKept_create hn
    have h' : MsgsKept s { s₁ with loopIndex := nextLoopIndex s₁.loopIndex } := ⟨h.next, h.same⟩
    exact .inr ⟨k, msgFilled_fill h' ..⟩
  | @call _ _ a _ k _ hq =>
    have hlog : l.ioLog = .start a.invecs a.outvecs a.outptr := by simp [Lbl.ioLog, hq]
    rw [hlog]
    exact .inr ⟨k, msgFilled_fill (.refl s) ..⟩
  | @callStatic _ _ a _ k _ _ hq _ _ _ hn =>
    have hlog : l.ioLog = .start a.invecs a.outvecs a.outptr := by simp [Lbl.ioLog, hq]
    rw [hlog]
    exact .inr ⟨k, msgFilled_fill (msgsKept_stateless hn) ..⟩
  | leak b _ hn =>
    have h := msgsKept_stateless hn
    exact .inl ⟨h.next, h.same⟩
  | @close c h cd k v =>
    have h : MsgFilled s (sendEvent db (fillMsg s k v h ipcDisconnect (c.id db) [] [] 0 cd
        .close) v k) k (.start [] [] 0) := msgFilled_fill (.refl s) ..
    exact .inr ⟨k, h.next, h.rid, h.invec, h.outvec, h.outptr, h.same⟩
  | get => cases hl
  | getNone => cases hl
  | reply => cases hl

theorem msgsKept_get {s s' : St nS nP} {p : Fin nP} {signal : Nat} {ok : Bool}
    (ht : Trans db s (.get p signal ok) s') : MsgsKept s s' := by
  cases ht with
  | stay l b => exact ⟨rfl, (MsgsKept.refl s).same⟩
  | call hq => cases hq
  | callStatic hq => cases hq
  | leak b hl => cases hl
  | @get _ _ _ clear m k =>
    have h := msgsKept_setConn s k (fun c => { c with status := .active }) id (.of_eq rfl)
    exact ⟨rfl, h.same⟩
  | getNone => exact ⟨rfl, (MsgsKept.refl s).same⟩

theorem msgsKept_replied {s s₁ : St nS nP} {k : Chunk} {v : Fin nS} {h : UInt32} {st ret : Int}
    (hr : replyByType db s k v h st = some (s₁, ret)) : MsgsKept s (replied s s₁ k ret) := by
  have hk : MsgsKept s s₁ := by
    rcases replyByType_kept hr with ⟨g, rfl⟩ | rfl
    · exact ⟨rfl, (MsgsKept.refl s).same⟩
    · have hf := msgsKept_setConn s k
        (fun c => { c with internalMsg := { c.internalMsg with magic := false } }) nofun
        ⟨rfl, rfl, rfl, rfl⟩
      exact ⟨rfl, hf.same⟩
  have h := msgsKept_setConn s₁ k (fun c => { c with
      status := if ret = psaErrorProgrammerError then .connectError else .idle }) id (.of_eq rfl)
  exact hk.trans ⟨rfl, h.same⟩

/-! ## Invariant -/

theorem IoSt.Kept.same {s t : IoSt nS nP n} {k : Chunk} {idx : Nat} (h : s.Kept k idx)
    (hb : (t.logOf k).bytes idx = (s.logOf k).bytes idx)
    (ho : (t.logOf k).outAt idx = (s.logOf k).outAt idx) (hr : (t.msg k).rid = (s.msg k).rid)
    (hm : ∀ a, t.last a = some ((s.msg k).rid, idx) →
      s.last a = some ((s.msg k).rid, idx) ∧ t.v.mem a = s.v.mem a) : t.Kept k idx := by
  unfold Kept at h ⊢
  rw [hb, ho, hr]
  intro j hj hlast
  obtain ⟨hs, hmem⟩ := hm _ hlast
  rw [hmem]
  exact h j hj hs

theorem IoSt.kept_of {t : IoSt nS nP n} {k : Chunk} {idx r : Nat} (base : Nat)
    (bytes : List UInt8) (hb : (t.logOf k).bytes idx = bytes)
    (ho : ((t.logOf k).outAt idx).base = base) (hr : (t.msg k).rid = r)
    (h : ∀ j (hj : j < bytes.length), t.last (base + j) = some (r, idx) →
      t.v.mem (base + j) = bytes.get ⟨j, hj⟩) : t.Kept k idx := by
  subst hb ho hr
  exact h

/-- A step that fills no message and moves nothing. -/
theorem ioInv_keep {s : IoSt nS nP n} {v : VSt nS nP n} (h : IoInv s)
    (hk : MsgsKept s.spm v.sys.spm) (hw : v.sys.written = s.v.sys.written) :
    IoInv (s.keep v) := by
  have hlog : ∀ x, ((s.keep v).msg x).magic = true → (s.keep v).logOf x = s.logOf x := by
    intro x hx
    exact congrArg s.log (hk.same x hx).2.rid
  refine ⟨fun x hx => ?_, fun x y hx hy hr => ?_, fun r hr => ?_, fun x hx => ?_,
    fun x idx hx => ?_⟩
  · obtain ⟨hm, hsame⟩ := hk.same x hx
    have hlt : (v.sys.spm.conn x).internalMsg.rid < v.sys.spm.next := by
      rw [hsame.rid, hk.next]
      exact h.rid x hm
    exact hlt
  · obtain ⟨hmx, hsx⟩ := hk.same x hx
    obtain ⟨hmy, hsy⟩ := hk.same y hy
    exact h.apart x y hmx hmy (hsx.rid.symm.trans (hr.trans hsy.rid))
  · have hr : v.sys.spm.next ≤ r := hr
    rw [hk.next] at hr
    exact (congrFun hw r).trans (h.fresh r hr)
  · obtain ⟨hm, hsame⟩ := hk.same x hx
    rw [hlog x hx]
    refine (h.io x hm).same hsame ?_
    show v.sys.written (v.sys.spm.conn x).internalMsg.rid = _
    rw [hw, hsame.rid]
    rfl
  · obtain ⟨hm, hsame⟩ := hk.same x hx
    have hlx := hlog x hx
    refine (h.kept x idx hm).same (by rw [hlx]) (by rw [hlx]) hsame.rid fun a ha => ?_
    have ha : (if v.mem a = s.v.mem a then s.last a else none) = _ := ha
    split at ha
    · rename_i he
      exact ⟨ha, he⟩
    · cases ha

/-- A step that only changes, or fills, the message of chunk `k`. -/
theorem ioInv_touch {s t : IoSt nS nP n} {k : Chunk} (h : IoInv s)
    (hn : s.spm.next ≤ t.spm.next) (hrid : (t.msg k).rid < t.spm.next)
    (hapart : ∀ x, x ≠ k → (s.msg x).magic = true → (s.msg x).rid ≠ (t.msg k).rid)
    (hothers : ∀ x, x ≠ k → (t.msg x).magic = true →
      (s.msg x).magic = true ∧ SameIo (t.msg x) (s.msg x))
    (hlog : ∀ r, r ≠ (t.msg k).rid →
      t.log r = s.log r ∧ t.v.sys.written r = s.v.sys.written r)
    (hio : MsgIo (t.msg k) (t.v.sys.written (t.msg k).rid) (t.logOf k))
    (hkept : ∀ x idx, (t.msg x).magic = true → t.Kept x idx) : IoInv t := by
  refine ⟨fun x hx => ?_, fun x y hx hy hr => ?_, fun r hr => ?_, fun x hx => ?_, hkept⟩
  · by_cases hxk : x = k
    · rw [hxk]
      exact hrid
    · obtain ⟨hm, hsame⟩ := hothers x hxk hx
      rw [hsame.rid]
      exact Nat.lt_of_lt_of_le (h.rid x hm) hn
  · by_cases hxk : x = k
    · by_cases hyk : y = k
      · rw [hxk, hyk]
      · obtain ⟨hm, hsame⟩ := hothers y hyk hy
        rw [hxk, hsame.rid] at hr
        exact absurd hr.symm (hapart y hyk hm)
    · obtain ⟨hm, hsame⟩ := hothers x hxk hx
      by_cases hyk : y = k
      · rw [hyk, hsame.rid] at hr
        exact absurd hr (hapart x hxk hm)
      · obtain ⟨hm', hsame'⟩ := hothers y hyk hy
        rw [hsame.rid, hsame'.rid] at hr
        exact h.apart x y hm hm' hr
  · rw [(hlog r (Nat.ne_of_gt (Nat.lt_of_lt_of_le hrid hr))).2]
    exact h.fresh r (Nat.le_trans hn hr)
  · by_cases hxk : x = k
    · rw [hxk]
      exact hio
    · obtain ⟨hm, hsame⟩ := hothers x hxk hx
      obtain ⟨hl, hw⟩ := hlog (s.msg x).rid (hapart x hxk hm)
      have hlx : t.logOf x = s.logOf x := by
        show t.log (t.msg x).rid = _
        rw [hsame.rid, hl]
        rfl
      rw [hlx]
      refine (h.io x hm).same hsame ?_
      rw [hsame.rid, hw]

/-! ## Client calls -/

theorem msgIo_log {m : Msg nS} {q : Req} (hi : m.invec = q.log.ins) (ho : m.outvec = q.log.outs)
    (hp : m.callerOutvec = q.log.outptr) (hlen : ∀ idx, (q.log.outAt idx).len < 2 ^ 32) :
    MsgIo m (fun _ => 0) q.log := by
  have hread : q.log.read = fun _ => [] := by cases q <;> rfl
  have hwrote : ∀ idx, q.log.pieces idx = [] := by
    intro idx
    cases q <;> rfl
  refine ⟨fun idx => ?_, ho, hp, fun idx => ?_, hlen⟩
  · rw [hread, hi]
    exact ⟨trivial, Nat.zero_le _, rfl⟩
  · rw [hwrote]
    exact ⟨trivial, Nat.zero_le _, rfl⟩

theorem word_lt (mem : Mem) (a : Nat) : word mem a < 2 ^ 32 := by
  have h := ofLe_lt ((List.range 4).map fun i => mem (a + i))
  rw [List.length_map, List.length_range] at h
  exact h

/-- A size read from the caller's array is a 32-bit word. -/
theorem Req.small {mem : Mem} {q : Req} (h : q.inMemory mem = true) (idx : Nat) :
    (q.log.outAt idx).len < 2 ^ 32 := by
  cases q with
  | connect sid version => exact Nat.two_pow_pos 32
  | close hd => exact Nat.two_pow_pos 32
  | call a =>
    simp only [Req.inMemory, Bool.and_eq_true, decide_eq_true_eq] at h
    show (vecOf a.outvecs idx).len < 2 ^ 32
    rw [h.2, vecOf, List.getD_eq_getElem?_getD, List.getElem?_map]
    cases (List.range a.outvecs.length)[idx]? with
    | none => exact Nat.two_pow_pos 32
    | some i => exact word_lt _ _

theorem ioInv_sent {s : IoSt nS nP n} {v : VSt nS nP n} {q : Req} (h : IoInv s)
    (hc : MsgsKept s.spm v.sys.spm ∨ ∃ k, MsgFilled s.spm v.sys.spm k q.log)
    (hw : v.sys.written = s.v.sys.written) (hmem : v.mem = s.v.mem)
    (hq : q.inMemory s.v.mem = true) : IoInv (s.sent v q) := by
  unfold IoSt.sent
  rcases hc with hk | ⟨k, hk⟩
  · rw [if_pos hk.next]
    exact ioInv_keep h hk hw
  rw [if_neg (by rw [hk.next]; exact Nat.succ_ne_self _)]
  have hrid : (v.sys.spm.conn k).internalMsg.rid = s.spm.next := hk.rid
  have hold : ∀ r, r ≠ s.spm.next → Function.update s.log s.spm.next q.log r = s.log r :=
    fun r hr => Function.update_of_ne hr _ _
  refine ioInv_touch (k := k) h ?_ ?_ (fun x hx hm => ?_) hk.same (fun r hr => ?_) ?_
    fun x idx hx => ?_
  · exact Nat.le_of_lt (hk.next ▸ Nat.lt_succ_self _)
  · exact (hrid.trans_lt (Nat.lt_succ_self _)).trans_eq hk.next.symm
  · exact fun he => absurd (he.trans hrid) (Nat.ne_of_lt (h.rid x hm))
  · exact ⟨hold r fun he => hr (he.trans hrid.symm), congrFun hw r⟩
  · show MsgIo (v.sys.spm.conn k).internalMsg
      (v.sys.written (v.sys.spm.conn k).internalMsg.rid)
      (Function.update s.log s.spm.next q.log (v.sys.spm.conn k).internalMsg.rid)
    rw [hrid, hw, h.fresh _ (Nat.le_refl _), Function.update_self]
    exact msgIo_log hk.invec hk.outvec hk.outptr (Req.small hq)
  · by_cases hxk : x = k
    · subst hxk
      intro j hj
      have hnil : ((Function.update s.log s.spm.next q.log
          (v.sys.spm.conn x).internalMsg.rid).bytes idx).length = 0 := by
        rw [hrid, Function.update_self]
        cases q <;> rfl
      exact absurd (Nat.lt_of_lt_of_eq hj hnil) (Nat.not_lt_zero j)
    · obtain ⟨hm, hsame⟩ := hk.same x hxk hx
      have hlx : Function.update s.log s.spm.next q.log (v.sys.spm.conn x).internalMsg.rid =
          s.logOf x := by
        rw [hsame.rid]
        exact hold _ (Nat.ne_of_lt (h.rid x hm))
      refine (h.kept x idx hm).same (congrArg (fun L => L.bytes idx) hlx)
        (congrArg (fun L => L.outAt idx) hlx) hsame.rid fun a ha => ?_
      · have ha : (if v.mem a = s.v.mem a then s.last a else none) = _ := ha
        rw [hmem, if_pos rfl] at ha
        exact ⟨ha, congrFun hmem a⟩

/-! ## Reads and skips -/

theorem vecOf_modify (l : List Vec) (idx i bytes : Nat) (hb : bytes ≤ (vecOf l idx).len) :
    vecOf (l.modify idx fun x => ⟨x.base + bytes, x.len - bytes⟩) i =
      if i = idx then ⟨(vecOf l idx).base + bytes, (vecOf l idx).len - bytes⟩ else vecOf l i := by
  simp only [vecOf, List.getD_eq_getElem?_getD, List.getElem?_modify] at hb ⊢
  by_cases hi : i = idx
  · subst hi
    cases hl : l[i]? with
    | some x => simp
    | none =>
      -- the vector that is missing is empty, and so is what is taken of it
      rw [hl] at hb
      have hb : bytes = 0 := Nat.le_zero.1 hb
      simp [hb]
  · rw [if_neg hi]
    cases l[i]? with
    | none => rfl
    | some x => simp [Ne.symm hi]

theorem takeIn_zero (s : RSt nS nP n) (k : Chunk) (idx : Nat) : takeIn s k idx 0 = s := by
  have hid : ∀ l : List Vec, l.modify idx (fun x => ⟨x.base, x.len⟩) = l :=
    fun l => List.modify_id idx l
  simp [takeIn, St.setConn, hid]

theorem getMsgFromHandle_magic {s : St nS nP} {p : Fin nP} {h : UInt32} {k : Chunk} {v : Fin nS}
    (hg : getMsgFromHandle db s p h = some (k, v)) : (s.conn k).internalMsg.magic = true := by
  unfold getMsgFromHandle at hg
  split at hg
  · cases hg
  dsimp only at hg
  split at hg
  · rename_i hm
    split at hg
    · cases hg
    split at hg
    · cases hg
      exact hm
    · cases hg
  · cases hg

theorem requestMsg_magic {s : St nS nP} {p : Fin nP} {h : UInt32} {idx : Nat} {k : Chunk}
    (hq : requestMsg db s p h idx = some k) : (s.conn k).internalMsg.magic = true := by
  obtain ⟨v, hg⟩ := requestMsg_some hq
  exact getMsgFromHandle_magic hg

/-- `psa_read` takes what is asked for, or what is left. -/
theorem psaRead_some {s : RSt nS nP n} {p : Fin nP} {h : UInt32} {idx : Nat} {k : Chunk}
    (hq : requestMsg db s.spm p h idx = some k) (num : Nat) {ok : Bool}
    (hok : ok = false → (inVec s.spm k idx).len = 0) :
    psaRead db s p h idx num ok = (takeIn s k idx (min num (inVec s.spm k idx).len),
      min num (inVec s.spm k idx).len) := by
  simp only [psaRead, hq]
  by_cases hl : (inVec s.spm k idx).len = 0
  · rw [if_pos hl, hl, Nat.min_zero, takeIn_zero]
  · have hb : (if (inVec s.spm k idx).len < num then (inVec s.spm k idx).len else num) =
        min num (inVec s.spm k idx).len := by
      split <;> omega
    cases ok with
    | false => exact absurd (hok rfl) hl
    | true => simp [hl, hb]

theorem psaSkip_some {s : RSt nS nP n} {p : Fin nP} {h : UInt32} {idx : Nat} {k : Chunk}
    (hq : requestMsg db s.spm p h idx = some k) (num : Nat) :
    psaSkip db s p h idx num = (takeIn s k idx (min num (inVec s.spm k idx).len),
      min num (inVec s.spm k idx).len) := by
  simp only [psaSkip, hq]
  by_cases hl : (inVec s.spm k idx).len = 0
  · rw [if_pos hl, hl, Nat.min_zero, takeIn_zero]
  · have hb : (if (inVec s.spm k idx).len < num then (inVec s.spm k idx).len else num) =
        min num (inVec s.spm k idx).len := by
      split <;> omega
    simp [hl, hb]

theorem psaRead_bufOk {s : RSt nS nP n} {p : Fin nP} {h : UInt32} {idx num : Nat} {k : Chunk}
    {ok : Bool} (hq : requestMsg db s.spm p h idx = some k)
    (hp : (psaRead db s p h idx num ok).1.spm.panicked = false) :
    ok = false → (inVec s.spm k idx).len = 0 := by
  intro hok
  by_contra hl
  simp [psaRead, hq, hl, hok, panic] at hp

theorem MsgIo.take {m m' : Msg nS} {w : Nat → Nat} {L : IoLog} {idx bytes : Nat}
    (h : MsgIo m w L) (hb : bytes ≤ (vecOf m.invec idx).len)
    (hi : m'.invec = m.invec.modify idx fun x => ⟨x.base + bytes, x.len - bytes⟩)
    (ho : m'.outvec = m.outvec) (hp : m'.callerOutvec = m.callerOutvec) :
    MsgIo m' w (L.addRead idx (vecOf m.invec idx).base bytes) := by
  refine ⟨fun i => ?_, ho.trans h.outvec, hp.trans h.outptr, h.output, h.small⟩
  obtain ⟨hc, hle, hv⟩ := h.invec i
  rw [hi, vecOf_modify _ _ _ _ hb]
  show Consecutive (L.inAt i).base (Function.update L.read idx _ i) ∧
    total (Function.update L.read idx _ i) ≤ (L.inAt i).len ∧ _ = (⟨(L.inAt i).base +
      total (Function.update L.read idx _ i), (L.inAt i).len -
      total (Function.update L.read idx _ i)⟩ : Vec)
  by_cases hidx : i = idx
  · subst hidx
    rw [hv] at hb
    have hb : bytes ≤ (L.inAt i).len - total (L.read i) := hb
    rw [Function.update_self, if_pos rfl, hv, total_append]
    have hone : ∀ a, total [(a, bytes)] = bytes := fun a => Nat.add_zero bytes
    rw [hone, Nat.add_assoc, Nat.sub_sub]
    exact ⟨hc.snoc rfl bytes, by omega, rfl⟩
  · rw [Function.update_of_ne hidx, if_neg hidx]
    exact ⟨hc, hle, hv⟩

theorem ioInv_took {s : IoSt nS nP n} {v : VSt nS nP n} {p : Fin nP} {hd : UInt32}
    {idx bytes : Nat} {k : Chunk} (h : IoInv s) (hq : requestMsg db s.spm p hd idx = some k)
    (hb : bytes ≤ (inVec s.spm k idx).len) (hv : v.sys = takeIn s.v.sys k idx bytes)
    (hmem : v.mem = s.v.mem) : IoInv (s.took db v p hd idx bytes) := by
  have hm : (s.msg k).magic = true := requestMsg_magic hq
  have hmsg : ∀ x, (v.sys.spm.conn x).internalMsg = if x = k then { s.msg k with
      invec := (s.msg k).invec.modify idx fun x => ⟨x.base + bytes, x.len - bytes⟩ }
      else s.msg x := by
    intro x
    rw [hv]
    simp only [takeIn, setConn_conn]
    split <;> rfl
  have hk := (hmsg k).trans (if_pos rfl)
  have hrid : (v.sys.spm.conn k).internalMsg.rid = (s.msg k).rid := by rw [hk]
  have hnext : v.sys.spm.next = s.spm.next := by
    rw [hv]
    rfl
  have hw : v.sys.written = s.v.sys.written := by
    rw [hv]
    rfl
  unfold IoSt.took
  rw [hq]
  dsimp only
  generalize hL : (s.logOf k).addRead idx (inVec s.spm k idx).base bytes = L
  have hlast : ∀ a, ((s.keep v).last a) = s.last a := by
    intro a
    show (if v.mem a = s.v.mem a then s.last a else none) = s.last a
    rw [hmem, if_pos rfl]
  refine ioInv_touch (k := k) h (Nat.le_of_eq hnext.symm) ?_ (fun x hx hmx => ?_)
    (fun x hx hmx => ?_) (fun r hr => ?_) ?_ fun x idx' hmx => ?_
  · exact (hrid.trans_lt (h.rid k hm)).trans_eq hnext.symm
  · exact fun he => hx (h.apart x k hmx hm (he.trans hrid))
  · have he := (hmsg x).trans (if_neg hx)
    have hmx : (v.sys.spm.conn x).internalMsg.magic = true := hmx
    rw [he] at hmx
    exact ⟨hmx, .of_eq he⟩
  · exact ⟨Function.update_of_ne (fun he => hr (he.trans hrid.symm)) _ _, congrFun hw r⟩
  · show MsgIo (v.sys.spm.conn k).internalMsg
      (v.sys.written (v.sys.spm.conn k).internalMsg.rid)
      (Function.update s.log (s.msg k).rid L (v.sys.spm.conn k).internalMsg.rid)
    rw [hrid, Function.update_self, hw, ← hL, hk]
    exact (h.io k hm).take hb rfl rfl rfl
  · have hold : (s.msg x).magic = true ∧ (v.sys.spm.conn x).internalMsg.rid = (s.msg x).rid := by
      have hmx : (v.sys.spm.conn x).internalMsg.magic = true := hmx
      rw [hmsg x] at hmx ⊢
      by_cases hx : x = k
      · subst hx
        exact ⟨hm, by rw [if_pos rfl]⟩
      · rw [if_neg hx] at hmx ⊢
        exact ⟨hmx, rfl⟩
    obtain ⟨hmx', hridx⟩ := hold
    have hlog : ∀ r, (Function.update s.log (s.msg k).rid L r).bytes idx' = (s.log r).bytes idx' ∧
        (Function.update s.log (s.msg k).rid L r).outAt idx' = (s.log r).outAt idx' := by
      intro r
      by_cases hr : r = (s.msg k).rid
      · rw [hr, Function.update_self, ← hL]
        exact ⟨rfl, rfl⟩
      · rw [Function.update_of_ne hr]
        exact ⟨rfl, rfl⟩
    refine (h.kept x idx' hmx').same ?_ ?_ hridx fun a ha => ?_
    · exact (hlog _).1.trans (congrArg (fun r => (s.log r).bytes idx') hridx)
    · exact (hlog _).2.trans (congrArg (fun r => (s.log r).outAt idx') hridx)
    · exact ⟨(hlast a).symm.trans ha, congrFun hmem a⟩

/-! ## Writes -/

/-- `psa_write` records what it copies, if it fits. -/
theorem psaWrite_some {s : RSt nS nP n} {p : Fin nP} {h : UInt32} {idx num : Nat} {k : Chunk}
    {ok : Bool} (hq : requestMsg db s.spm p h idx = some k)
    (hp : (psaWrite db s p h idx num ok).spm.panicked = false) :
    num ≤ (outVec (s.spm.conn k).internalMsg idx).len -
      s.written (s.spm.conn k).internalMsg.rid idx ∧
    psaWrite db s p h idx num ok =
      { s with
        written := Function.update s.written (s.spm.conn k).internalMsg.rid
          (Function.update (s.written (s.spm.conn k).internalMsg.rid) idx
            (s.written (s.spm.conn k).internalMsg.rid idx + num)) } := by
  simp only [psaWrite, hq] at hp ⊢
  split at hp
  · simp [panic] at hp
  split at hp
  · simp [panic] at hp
  · rename_i hlen hok
    rw [if_neg hlen, if_neg hok]
    exact ⟨Nat.not_lt.1 hlen, rfl⟩

@[simp] theorem IoLog.bytes_length (L : IoLog) (idx : Nat) :
    (L.bytes idx).length = total (L.pieces idx) := by
  unfold IoLog.bytes IoLog.pieces
  induction L.wrote idx with
  | nil => rfl
  | cons w l ih => rw [List.flatMap_cons, List.length_append, ih, List.map_cons, total_cons]

theorem IoLog.addWrite_self (L : IoLog) (idx a : Nat) (data : List UInt8) :
    (L.addWrite idx a data).pieces idx = L.pieces idx ++ [(a, data.length)] ∧
      (L.addWrite idx a data).bytes idx = L.bytes idx ++ data := by
  simp [IoLog.addWrite, IoLog.pieces, IoLog.bytes]

theorem IoLog.addWrite_other (L : IoLog) {idx i : Nat} (hi : i ≠ idx) (a : Nat)
    (data : List UInt8) : (L.addWrite idx a data).pieces i = L.pieces i ∧
      (L.addWrite idx a data).bytes i = L.bytes i := by
  simp [IoLog.addWrite, IoLog.pieces, IoLog.bytes, hi]

theorem MsgIo.outVec {m : Msg nS} {w : Nat → Nat} {L : IoLog} (h : MsgIo m w L) (idx : Nat) :
    outVec m idx = L.outAt idx := by
  rw [Spm.outVec, h.outvec]
  rfl

theorem MsgIo.add {m : Msg nS} {w : Nat → Nat} {L : IoLog} {idx : Nat} {data : List UInt8}
    (h : MsgIo m w L) (hd : data.length ≤ (Spm.outVec m idx).len - w idx) :
    MsgIo m (Function.update w idx (w idx + data.length))
      (L.addWrite idx ((Spm.outVec m idx).base + w idx) data) := by
  refine ⟨h.invec, h.outvec, h.outptr, fun i => ?_, h.small⟩
  obtain ⟨hc, hle, hw⟩ := h.output i
  by_cases hi : i = idx
  · subst hi
    rw [h.outVec] at hd ⊢
    rw [(L.addWrite_self ..).1, Function.update_self, total_append, hw]
    have hone : ∀ a, total [(a, data.length)] = data.length := fun a => Nat.add_zero _
    rw [hone]
    rw [hw] at hd
    exact ⟨hc.snoc rfl _, (by omega : _ ≤ (L.outAt i).len), rfl⟩
  · rw [(L.addWrite_other hi ..).1, Function.update_of_ne hi]
    exact ⟨hc, hle, hw⟩

/-- The byte at an address of a vector, after a write through it. -/
theorem blit_appended {mem : Mem} {base : Nat} {old data : List UInt8} {j : Nat}
    (hj : j < (old ++ data).length)
    (h : ∀ hj : j < old.length, mem (base + j) = old.get ⟨j, hj⟩) :
    blit mem (base + old.length) data (base + j) = (old ++ data).get ⟨j, hj⟩ := by
  by_cases hlt : j < old.length
  · rw [blit_outside _ _ _ _ (.inl (by omega)), h hlt]
    simp [hlt]
  · have hd : j - old.length < data.length := by
      rw [List.length_append] at hj
      omega
    have hb := blit_inside mem (base + old.length) data (j - old.length) hd
    rw [show base + old.length + (j - old.length) = base + j by omega] at hb
    rw [hb]
    simp [List.getElem_append_right (Nat.not_lt.1 hlt)]

theorem ioInv_put {s : IoSt nS nP n} {v : VSt nS nP n} {p : Fin nP} {hd : UInt32} {idx : Nat}
    {data : List UInt8} {k : Chunk} (h : IoInv s) (hq : requestMsg db s.spm p hd idx = some k)
    (hb : data.length ≤ (outVec (s.msg k) idx).len - s.v.sys.written (s.msg k).rid idx)
    (hspm : v.sys.spm = s.v.sys.spm)
    (hw : v.sys.written = Function.update s.v.sys.written (s.msg k).rid
      (Function.update (s.v.sys.written (s.msg k).rid) idx
        (s.v.sys.written (s.msg k).rid idx + data.length))) :
    IoInv (s.put db v p hd idx data) := by
  have hm : (s.msg k).magic = true := requestMsg_magic hq
  have hmsg : ∀ x, (v.sys.spm.conn x).internalMsg = s.msg x := by
    intro x
    rw [hspm]
    rfl
  have hio := h.io k hm
  unfold IoSt.put
  rw [hq]
  dsimp only
  have ha : writeAt s.v.sys k idx =
      ((s.logOf k).outAt idx).base + ((s.logOf k).bytes idx).length := by
    rw [IoLog.bytes_length, ← (hio.output idx).2.2, ← hio.outVec]
    rfl
  generalize hL : (s.logOf k).addWrite idx (writeAt s.v.sys k idx) data = L
  have hnext : v.sys.spm.next = s.spm.next := by rw [hspm]; rfl
  have hrid : ∀ x, (v.sys.spm.conn x).internalMsg.rid = (s.msg x).rid := fun x => by rw [hmsg]
  refine ioInv_touch (k := k) h (Nat.le_of_eq hnext.symm) ?_ (fun x hx hmx => ?_)
    (fun x hx hmx => ?_) (fun r hr => ?_) ?_ fun x i hmx => ?_
  · exact ((hrid k).trans_lt (h.rid k hm)).trans_eq hnext.symm
  · exact fun he => hx (h.apart x k hmx hm (he.trans (hrid k)))
  · have hmx : (v.sys.spm.conn x).internalMsg.magic = true := hmx
    rw [hmsg] at hmx
    exact ⟨hmx, .of_eq (hmsg x)⟩
  · have hr : r ≠ (s.msg k).rid := fun he => hr (he.trans (hrid k).symm)
    refine ⟨Function.update_of_ne hr _ _, ?_⟩
    show v.sys.written r = _
    rw [hw, Function.update_of_ne hr]
  · show MsgIo (v.sys.spm.conn k).internalMsg
      (v.sys.written (v.sys.spm.conn k).internalMsg.rid)
      (Function.update s.log (s.msg k).rid L (v.sys.spm.conn k).internalMsg.rid)
    rw [hmsg, hw, Function.update_self, Function.update_self, ← hL]
    exact hio.add hb
  · have hmx : (v.sys.spm.conn x).internalMsg.magic = true := hmx
    rw [hmsg] at hmx
    have hold := h.kept x i hmx
    by_cases hki : x = k ∧ i = idx
    · obtain ⟨rfl, rfl⟩ := hki
      have hlog : Function.update s.log (s.msg x).rid L (v.sys.spm.conn x).internalMsg.rid =
          (s.logOf x).addWrite i (writeAt s.v.sys x i) data := by
        rw [hrid, Function.update_self, hL]
      refine IoSt.kept_of ((s.logOf x).outAt i).base ((s.logOf x).bytes i ++ data) ?_
        (congrArg (fun L => (L.outAt i).base) hlog) (hrid x) fun j hj hlast => ?_
      · exact (congrArg (fun L => L.bytes i) hlog).trans (IoLog.addWrite_self ..).2
      · dsimp only at hlast ⊢
        rw [ha] at hlast ⊢
        refine blit_appended hj fun hlt => hold j hlt ?_
        rw [if_neg (by omega)] at hlast
        exact hlast
    · refine hold.same ?_ ?_ (hrid x) fun b hlast => ?_
      · show ((Function.update s.log (s.msg k).rid L
          (v.sys.spm.conn x).internalMsg.rid).bytes i) = _
        rw [hrid]
        by_cases hx : x = k
        · subst hx
          rw [Function.update_self, ← hL]
          exact ((s.logOf x).addWrite_other (fun hi => hki ⟨rfl, hi⟩) ..).2
        · rw [Function.update_of_ne fun he => hx (h.apart x k hmx hm he)]
          rfl
      · show ((Function.update s.log (s.msg k).rid L
          (v.sys.spm.conn x).internalMsg.rid).outAt i) = _
        rw [hrid]
        by_cases hx : x = k
        · subst hx
          rw [Function.update_self, ← hL]
          rfl
        · rw [Function.update_of_ne fun he => hx (h.apart x k hmx hm he)]
          rfl
      · dsimp only at hlast
        split at hlast
        · -- the bytes just written are those of the other vector
          simp only [Option.some.injEq, Prod.mk.injEq] at hlast
          exact absurd ⟨h.apart x k hmx hm hlast.1.symm, hlast.2.symm⟩ hki
        · rename_i hb'
          refine ⟨hlast, blit_outside _ _ _ _ ?_⟩
          omega

/-! ## Steps -/

theorem ioInv_mailbox {s : IoSt nS nP n} {i : Fin (n + 1)} {q : Req} (h : IoInv s)
    (hq : q.inMemory s.v.mem = true) :
    IoInv (s.sent { s.v with sys := handleMsg db s.v.sys i q } q) := by
  have hl : (mailboxLbl i.val q : Lbl nP).client = _ := mailboxLbl_client i.val q
  refine ioInv_sent h ?_ (handleMsg_written db s.v.sys i q) rfl hq
  have hio := client_io hl (client_trans_answer db s.v.sys.spm hl)
  rw [mailboxLbl_ioLog, ← (handleMsg_spm db s.v.sys i q).1] at hio
  exact hio

theorem ioInv_svc {s : IoSt nS nP n} {p : Fin nP} {privileged : Bool} {ctrlParam : Nat} {q : Req}
    (h : IoInv s) (hq : q.inMemory s.v.mem = true) :
    IoInv (s.sent { s.v with sys := svcCall db s.v.sys p privileged ctrlParam q } q) := by
  have hl := svcLbl_client p privileged ctrlParam q
  refine ioInv_sent h ?_ (svcCall_written db s.v.sys p privileged ctrlParam q) rfl hq
  have hio := client_io hl (client_trans_answer db s.v.sys.spm hl)
  rw [svcLbl_ioLog, ← (svcCall_spm db s.v.sys p privileged ctrlParam q).1] at hio
  exact hio

theorem ioInv_panic {s : IoSt nS nP n} {v : VSt nS nP n} (h : IoInv s)
    (hv : v.sys = panic s.v.sys) : IoInv (s.keep v) := by
  refine ioInv_keep h ?_ ?_
  · rw [hv]
    exact ⟨rfl, (MsgsKept.refl _).same⟩
  · rw [hv]
    rfl

theorem psaRead_panic {s : RSt nS nP n} {p : Fin nP} {h : UInt32} {idx num : Nat} {ok : Bool}
    (hs : s.spm.panicked = false) (hp : (psaRead db s p h idx num ok).1.spm.panicked = true) :
    (psaRead db s p h idx num ok).1 = panic s := by
  unfold psaRead at hp ⊢
  split at hp
  · rfl
  dsimp only at hp ⊢
  split at hp
  · simp [hs] at hp
  rename_i hl
  rw [if_neg hl]
  split at hp
  · rename_i hok
    rw [if_pos hok]
  · simp [takeIn, St.setConn, hs] at hp

theorem psaSkip_panic {s : RSt nS nP n} {p : Fin nP} {h : UInt32} {idx num : Nat}
    (hs : s.spm.panicked = false) (hp : (psaSkip db s p h idx num).1.spm.panicked = true) :
    (psaSkip db s p h idx num).1 = panic s := by
  unfold psaSkip at hp ⊢
  split at hp
  · rfl
  dsimp only at hp ⊢
  split at hp
  · simp [hs] at hp
  · simp [takeIn, St.setConn, hs] at hp

theorem psaWrite_panic {s : RSt nS nP n} {p : Fin nP} {h : UInt32} {idx num : Nat} {ok : Bool}
    (hs : s.spm.panicked = false) (hp : (psaWrite db s p h idx num ok).spm.panicked = true) :
    psaWrite db s p h idx num ok = panic s := by
  unfold psaWrite at hp ⊢
  split at hp
  · rfl
  dsimp only at hp ⊢
  split at hp
  · rename_i hl
    rw [if_pos hl]
  rename_i hl
  rw [if_neg hl]
  split at hp
  · rename_i hok
    rw [if_pos hok]
  · simp [hs] at hp

theorem ioInv_setRhandle {s : IoSt nS nP n} {p : Fin nP} {hd : UInt32} {rhandle : Nat}
    (h : IoInv s) : IoInv (s.keep { s.v with sys := psaSetRhandle db s.v.sys p hd rhandle }) := by
  unfold psaSetRhandle
  split
  · exact ioInv_panic h rfl
  split
  · exact ioInv_panic h rfl
  · rename_i k _ _ _
    have hk := msgsKept_setConn s.v.sys.spm k (fun c => { c with
      rhandle := rhandle, internalMsg := { c.internalMsg with rhandle := rhandle } }) id
      ⟨rfl, rfl, rfl, rfl⟩
    exact ioInv_keep h ⟨hk.next, hk.same⟩ rfl

theorem ioInv_reply {s : IoSt nS nP n} {p : Fin nP} {hd : UInt32} {st : Int} (h : IoInv s)
    (hp : s.v.sys.spm.panicked = false) : IoInv (s.keep (vecReply db s.v p hd st)) := by
  rcases vecReply_sys db s.v p hd st with he | he
  · rcases serviceReply_cases db s.v.sys p hd st hp with hr | ⟨k, v, s₁, ret, -, hr, hs⟩
    · exact ioInv_panic h (he.trans hr)
    · refine ioInv_keep h ?_ ?_
      · rw [he, hs, deliver_spm]
        exact msgsKept_replied hr
      · rw [he, hs, deliver_written]
  · exact ioInv_panic h he

theorem ioInv_service {s : IoSt nS nP n} {v : VSt nS nP n} {p : Fin nP} {c : SvcCall}
    (buf : Nat → UInt8) (h : IoInv s) (hp : s.v.sys.spm.panicked = false)
    (hs : vservice db s.v p c = some v) :
    IoInv (if v.sys.spm.panicked then s.keep v else ioService db s v p buf c) := by
  cases c with
  | get signal ok =>
    obtain ⟨t, ht, rfl⟩ := Option.map_eq_some_iff.1 hs
    obtain ⟨⟨u, m⟩, hg, rfl⟩ := Option.map_eq_some_iff.1 ht
    have hk := msgsKept_get (get_trans (by rw [hg]; rfl))
    have hkeep := ioInv_keep (v := { s.v with sys := { s.v.sys with spm := u } }) h hk rfl
    split <;> exact hkeep
  | read hd idx num ok =>
    cases hs
    split
    · rename_i hpan
      exact ioInv_panic h (psaRead_panic hp hpan)
    · rename_i hrun
      have hrun : (psaRead db s.v.sys p hd idx num ok).1.spm.panicked = false := by
        simpa using hrun
      cases hq : requestMsg db s.v.sys.spm p hd idx with
      | none => simp [psaRead, hq, panic] at hrun
      | some k =>
        have he := psaRead_some hq num (psaRead_bufOk hq hrun)
        refine ioInv_took h hq ?_ ?_ rfl
        · rw [he]
          exact Nat.min_le_right _ _
        · show (psaRead db s.v.sys p hd idx num ok).1 = _
          rw [he]
  | skip hd idx num =>
    cases hs
    split
    · rename_i hpan
      exact ioInv_panic h (psaSkip_panic hp hpan)
    · rename_i hrun
      have hrun : (psaSkip db s.v.sys p hd idx num).1.spm.panicked = false := by
        simpa using hrun
      cases hq : requestMsg db s.v.sys.spm p hd idx with
      | none => simp [psaSkip, hq, panic] at hrun
      | some k =>
        have he := psaSkip_some hq num
        refine ioInv_took h hq ?_ ?_ rfl
        · rw [he]
          exact Nat.min_le_right _ _
        · show (psaSkip db s.v.sys p hd idx num).1 = _
          rw [he]
  | write hd idx num ok =>
    cases hs
    split
    · rename_i hpan
      exact ioInv_panic h (psaWrite_panic hp hpan)
    · rename_i hrun
      have hrun : (psaWrite db s.v.sys p hd idx num ok).spm.panicked = false := by
        simpa using hrun
      cases hq : requestMsg db s.v.sys.spm p hd idx with
      | none => simp [psaWrite, hq, panic] at hrun
      | some k =>
        obtain ⟨hlen, he⟩ := psaWrite_some hq hrun
        have hdata : ((List.range num).map buf).length = num := by simp
        refine ioInv_put h hq ?_ ?_ ?_
        · rw [hdata]
          exact hlen
        · show (psaWrite db s.v.sys p hd idx num ok).spm = _
          rw [he]
        · show (psaWrite db s.v.sys p hd idx num ok).written = _
          rw [he, hdata]
          rfl
  | setRhandle hd rhandle =>
    cases hs
    split <;> exact ioInv_setRhandle h
  | reply hd st =>
    cases hs
    split <;> exact ioInv_reply h hp

theorem ioInv_step {s s' : IoSt nS nP n} {l : VLbl nP n × (Nat → UInt8)} (h : IoInv s)
    (hs : ioStep db s l = some s') : IoInv s' := by
  obtain ⟨l, buf⟩ := l
  obtain ⟨v, hv, rfl⟩ := Option.map_eq_some_iff.1 hs
  unfold vstep at hv
  split at hv
  · cases hv
  rename_i hp
  have hp : s.v.sys.spm.panicked = false := by simpa using hp
  cases l with
  | mailbox i q =>
    dsimp only at hv
    split at hv
    · rename_i hq
      cases hv
      exact ioInv_mailbox h hq
    · cases hv
  | svc p privileged ctrlParam q =>
    dsimp only at hv
    split at hv
    · rename_i hq
      cases hv
      simp only [Bool.and_eq_true] at hq
      exact ioInv_svc h hq.2
    · cases hv
  | service p c =>
    dsimp only at hv
    split at hv
    · cases hv
    · exact ioInv_service buf h hp hv
  | store a x =>
    cases hv
    exact ioInv_keep h (.refl _) rfl

theorem ioInv_init {s : IoSt nS nP n} (hs : s.v.sys = rinit nS nP n) : IoInv s := by
  have hm : ∀ k, (s.msg k).magic = false := by
    intro k
    rw [IoSt.msg, IoSt.spm, hs]
    rfl
  refine ⟨fun k hk => ?_, fun k x hk => ?_, fun r _ => ?_, fun k hk => ?_, fun k idx hk => ?_⟩
  · rw [hm] at hk
    cases hk
  · rw [hm] at hk
    cases hk
  · rw [hs]
    rfl
  · rw [hm] at hk
    cases hk
  · rw [hm] at hk
    cases hk

theorem ioInv_inductive (db : Db nS nP) (n : Nat) : (ioLts db n).Inductive IoInv where
  init := by
    intro s hs
    exact ioInv_init hs.1
  step := by
    intro s l s' h hs
    exact ioInv_step h hs

/-! ## Results -/

theorem word_setWord_self (mem : Mem) (a x : Nat) : word (setWord mem a x) a = x % 2 ^ 32 := by
  have hl : ((List.range 4).map fun i => setWord mem a x (a + i)) = le 4 x := by
    simp [setWord, List.range_succ, le]
  rw [word, hl]
  exact ofLe_le 4 x

/-- A turn reports the length of its vector, unless the size of the vector is zero. -/
theorem updateLen_len {m : Msg nS} {w : Nat → Nat} {mem mem' : Mem} {i : Nat}
    (h : updateLen m w mem i = some mem') :
    word mem' (m.callerOutvec + 8 * i + 4) =
      (if (outVec m i).len = 0 then word mem (m.callerOutvec + 8 * i + 4)
        else w i % 2 ^ 32) ∧
    ∀ j, j ≠ i →
      word mem' (m.callerOutvec + 8 * j + 4) = word mem (m.callerOutvec + 8 * j + 4) := by
  simp only [updateLen] at h
  split at h
  · rename_i hl
    cases h
    exact ⟨(if_pos hl).symm, fun _ _ => rfl⟩
  rename_i hl
  split at h
  · cases h
    rw [if_neg hl]
    refine ⟨word_setWord_self .., fun j hj => word_setWord ?_⟩
    omega
  · cases h

theorem foldlM_updateLen_len {m : Msg nS} {w : Nat → Nat} {l : List Nat} (hnd : l.Nodup) :
    ∀ {mem mem' : Mem}, l.foldlM (updateLen m w) mem = some mem' →
      (∀ i ∈ l, word mem' (m.callerOutvec + 8 * i + 4) =
        if (outVec m i).len = 0 then word mem (m.callerOutvec + 8 * i + 4)
        else w i % 2 ^ 32) ∧
      ∀ i, i ∉ l →
        word mem' (m.callerOutvec + 8 * i + 4) = word mem (m.callerOutvec + 8 * i + 4) := by
  induction l with
  | nil =>
    intro mem mem' h
    cases h
    exact ⟨nofun, fun _ _ => rfl⟩
  | cons i l ih =>
    intro mem mem' h
    obtain ⟨hi, hnd⟩ := List.nodup_cons.1 hnd
    rw [List.foldlM_cons] at h
    cases hu : updateLen m w mem i with
    | none =>
      rw [hu] at h
      cases h
    | some mem₁ =>
      rw [hu] at h
      obtain ⟨hself, hother⟩ := updateLen_len hu
      obtain ⟨hin, hout⟩ := ih hnd h
      refine ⟨fun j hj => ?_, fun j hj => ?_⟩
      · rcases List.mem_cons.1 hj with rfl | hj
        · rw [hout j hi, hself]
        · rw [hin j hj, hother j fun he => hi (he ▸ hj)]
      · rw [hout j fun he => hj (List.mem_cons_of_mem _ he),
          hother j fun he => hj (he ▸ List.mem_cons_self)]

theorem IoInv.reported {s : IoSt nS nP n} (h : IoInv s) {p : Fin nP} {hd : UInt32} {status : Int}
    {k : Chunk} {v : Fin nS} (hg : getMsgFromHandle db s.spm p hd = some (k, v))
    (hty : ipcCall ≤ (s.msg k).type) (hp : (vecReply db s.v p hd status).sys.spm.panicked = false)
    (i : Nat) (hi : i < maxIovec) :
    word (vecReply db s.v p hd status).mem ((s.logOf k).outptr + 8 * i + 4) =
      if ((s.logOf k).outAt i).len = 0 then word s.v.mem ((s.logOf k).outptr + 8 * i + 4)
      else total ((s.logOf k).pieces i) := by
  have hio := h.io k (getMsgFromHandle_magic hg)
  have hg : getMsgFromHandle db s.v.sys.spm p hd = some (k, v) := hg
  have hty : ipcCall ≤ (s.v.sys.spm.conn k).internalMsg.type := hty
  simp only [vecReply, hg, if_pos hty] at hp ⊢
  cases hu : updateCallerOutvecLen s.v.sys s.v.mem (s.v.sys.spm.conn k).internalMsg with
  | none => simp [hu, panic] at hp
  | some mem =>
    unfold updateCallerOutvecLen at hu
    split at hu
    · cases hu
    have hlen := (foldlM_updateLen_len List.nodup_range hu).1 i (List.mem_range.2 hi)
    have hptr : (s.v.sys.spm.conn k).internalMsg.callerOutvec = (s.logOf k).outptr := hio.outptr
    obtain ⟨-, hle, hw⟩ := hio.output i
    have hw : s.v.sys.written (s.v.sys.spm.conn k).internalMsg.rid i = _ := hw
    have hov : outVec (s.v.sys.spm.conn k).internalMsg i = (s.logOf k).outAt i := hio.outVec i
    rw [hptr, hov, hw, Nat.mod_eq_of_lt (Nat.lt_of_le_of_lt hle (hio.small i))] at hlen
    exact hlen

theorem IoInv.law (db : Db nS nP) {s : IoSt nS nP n} (h : IoInv s) : IoLaw db s where
  input := by
    intro k idx hm
    obtain ⟨hc, hle, hv⟩ := (h.io k hm).invec idx
    have hlen : (inVec s.spm k idx).len =
        ((s.logOf k).inAt idx).len - total ((s.logOf k).read idx) := congrArg Vec.len hv
    exact ⟨hc, by rw [hlen, Nat.add_sub_cancel' hle]⟩
  returned := by
    intro p hd idx num k hq
    have hread : psaRead db s.v.sys p hd idx num true = _ := psaRead_some hq num nofun
    have hskip : psaSkip db s.v.sys p hd idx num = _ := psaSkip_some hq num
    obtain ⟨-, -, hv⟩ := (h.io k (requestMsg_magic hq)).invec idx
    have hbase : (inVec s.spm k idx).base =
        ((s.logOf k).inAt idx).base + total ((s.logOf k).read idx) := congrArg Vec.base hv
    refine ⟨by rw [hread]; rfl, by rw [hskip]; rfl, ?_⟩
    have hq : requestMsg db s.v.sys.spm p hd idx = some k := hq
    simp only [readData, hq, hread]
    rw [← hbase]
    rfl
  output := by
    intro k idx hm
    obtain ⟨hc, hle, -⟩ := (h.io k hm).output idx
    exact ⟨hc, hle⟩
  kept := h.kept
  reported := by
    intro p hd status k v hg hty hp i hi
    exact h.reported hg hty hp i hi

/-- **Input and output vectors.** In every reachable state, whatever the clients and the
services call and whoever stores to the callers' memory, and for every message: the pieces
read and skipped of an input vector follow one another from the client's base, and with
what is left add up to its size; the next read gets the bytes that follow, as many as are
asked for and left; the pieces written to an output vector follow one another from the
client's base within its size, and hold the buffers written; a reply reports their size. -/
theorem vectors_stream (db : Db nS nP) (n : Nat) (s : IoSt nS nP n)
    (h : (ioLts db n).Reachable s) : IoLaw db s :=
  ((ioInv_inductive db n).reachable s h).law db

def emptyIo : IoSt 2 1 1 := ⟨⟨rinit 2 1 1, fun _ => 0⟩, fun _ => .start [] [] 0, fun _ => none⟩

/-- Client -1 connects and calls with an input vector of five bytes at 0x500 and an output
vector of four at 0x400. The service reads two bytes, skips one, and asks for ten; it
writes one byte, none and three. -/
def streamed : List (VLbl 1 1 × (Nat → UInt8)) :=
  ([.mailbox 0 (.connect 0x1000 1), .service 0 (.get 4 true), .service 0 (.reply 194 0),
    .store 0x101 5, .store 0x104 5, .store 0x301 4, .store 0x304 4, .store 0x503 9,
    .mailbox 1 (.call ⟨194, 0, 0x100, [⟨0x500, 5⟩], 0x300, [⟨0x400, 4⟩]⟩),
    .service 0 (.get 4 true), .service 0 (.read 194 0 2 true), .service 0 (.skip 194 0 1),
    .service 0 (.write 194 0 1 true), .service 0 (.read 194 0 10 true),
    .service 0 (.write 194 0 0 true), .service 0 (.write 194 0 3 true)] :
      List (VLbl 1 1)).map fun l => (l, fun i => UInt8.ofNat (i + 7))

theorem vectors_stream_run : ∃ s : IoSt 2 1 1, IoLaw bothServices s ∧
    (s.logOf 0).read 0 = [(0x500, 2), (0x502, 1), (0x503, 2)] ∧ (inVec s.spm 0 0).len = 0 ∧
    (s.logOf 0).bytes 0 = [7, 7, 8, 9] ∧ Pieces.slice s.v.mem 0x400 4 = [7, 7, 8, 9] ∧
    word (vecReply bothServices s.v 0 194 5).mem 0x304 = 4 := by
  have he : (LTS.exec (ioStep bothServices) emptyIo streamed).map (fun s =>
      ((s.logOf 0).read 0, (inVec s.spm 0 0).len, (s.logOf 0).bytes 0,
        Pieces.slice s.v.mem 0x400 4, word (vecReply bothServices s.v 0 194 5).mem 0x304)) =
      some ([(0x500, 2), (0x502, 1), (0x503, 2)], 0, [7, 7, 8, 9], [7, 7, 8, 9], 4) := by
    decide +kernel
  obtain ⟨s, hs, hv⟩ := Option.map_eq_some_iff.1 he
  simp only [Prod.mk.injEq] at hv
  have hinit : (ioLts bothServices 1).Reachable emptyIo := .init ⟨rfl, rfl⟩
  exact ⟨s, vectors_stream bothServices 1 s (LTS.reachable_exec _ hinit hs), hv⟩

end Tfm.L4.Spm
