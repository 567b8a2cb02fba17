import Tfm.Core.Bytes
import Tfm.L4Service.SpmReply

/-!
# SPM: non-secure callers and panics

`psa_call` reads its handle as a static handle, with an index into
`stateless_service_ref`, or as a connection handle. The table has 32 entries, one
for every index that passes the test of the handle, or none when the manifests have
no stateless service; the pointer of an entry without a service is null. Both are
`db.stateless i = none`, and the panic of `resolveHandle` there is the assertion
that `tfm_spm_check_authorization` begins with.

Before `psa_reply` answers a request, `update_caller_outvec_len` writes the lengths
into the caller's array of output vectors and asserts that the bases in it are those
of the call. The array is in the memory of the caller, and a mailbox caller runs on.
Here the SPM of `SpmReply` gets that memory: a request passes the vectors that its
arrays hold, and `store` writes a byte at any time, by the non-secure side or for it
(what `psa_write` puts into its buffers). Slots of the mailbox may be used again
before their reply.

Results:
* `updateCallerOutvecLen_isSome`: when the assertions hold.
* `ninv_inductive`: the invariant of every run that meets `nsSafe`.
* `ns_calls`: in every reachable state a non-secure request panics exactly if it names a
  static handle without a service, and in every such run the reply to one completes
  exactly if the bases are unchanged.
* `ns_calls_panic`: both panics.
-/
namespace Tfm.L4.Spm
open Tfm.BiList Tfm.Bytes

variable {nS nP n : Nat} {db : Db nS nP}

/-! ## Requests -/

/-- mirrors interface/include/psa/client.h:27 and 33 -/
def psaFrameworkVersion : Nat := 0x0101
def psaVersionNone : Nat := 0

/-- mirrors secure_fw/spm/ffm/spm_psa_client_call.c:25-28 -/
def clientPsaFrameworkVersion : Nat := psaFrameworkVersion

/-- mirrors secure_fw/spm/ffm/spm_psa_client_call.c:30-51 -/
def clientPsaVersion (db : Db nS nP) (caller : Caller nP) (sid : Nat) : Nat :=
  match getServiceBySid db sid with
  | none => psaVersionNone
  | some v =>
    if !checkAuthorization db sid v caller then psaVersionNone else (db.service v).version

/-- A request of a non-secure client; `client` is `psa_connect`, `psa_call` or
`psa_close`, at either entry. -/
inductive NsReq (nP : Nat)
  | frameworkVersion
  | version (sid : Nat)
  | client (l : Lbl nP)

def NsReq.From (c : Int) : NsReq nP → Prop
  | .client l => ∃ cd, l.client = some (.ns c, cd)
  | _ => True

/-- The version calls return at once. -/
inductive NsEnd
  | value (n : Nat)
  | call (o : Outcome)
  deriving DecidableEq, Repr

def nsAnswer (db : Db nS nP) (s : St nS nP) (c : Int) : NsReq nP → NsEnd
  | .frameworkVersion => .value clientPsaFrameworkVersion
  | .version sid => .value (clientPsaVersion db (.ns c) sid)
  | .client l => .call (answer db s l).2

/-! ## Memory of the callers -/

abbrev Mem : Type := Nat → UInt8

/-- The 32-bit word at address `a`. -/
def word (mem : Mem) (a : Nat) : Nat := ofLe ((List.range 4).map fun i => mem (a + i))

def setWord (mem : Mem) (a x : Nat) : Mem := fun b =>
  if a ≤ b ∧ b < a + 4 then (le 4 x).getD (b - a) 0 else mem b

/-- Entry `i` of an array of `psa_invec` or `psa_outvec`. -/
def vecAt (mem : Mem) (a i : Nat) : Vec := ⟨word mem (a + 8 * i), word mem (a + 8 * i + 4)⟩

/-- The vectors of the request are those in the caller's arrays. -/
def Req.inMemory (mem : Mem) : Req → Bool
  | .call a =>
    decide (a.invecs = (List.range a.invecs.length).map (vecAt mem a.inptr)) &&
      decide (a.outvecs = (List.range a.outvecs.length).map (vecAt mem a.outptr))
  | _ => true

/-- `msg.out_size[i]` and `outvec[i].base`. -/
def outVec (m : Msg nS) (i : Nat) : Vec := m.outvec.getD i ⟨0, 0⟩

/-- A turn of the loop in `update_caller_outvec_len`; `none` is the assertion. -/
def updateLen (m : Msg nS) (written : Nat → Nat) (mem : Mem) (i : Nat) : Option Mem :=
  let a := m.callerOutvec + 8 * i
  if (outVec m i).len = 0 then some mem
  else if word mem a = (outVec m i).base then some (setWord mem (a + 4) (written i))
  else none

/-- mirrors secure_fw/spm/cmsis_psa/spm_ipc.c:863-885 -/
def updateCallerOutvecLen (s : RSt nS nP n) (mem : Mem) (m : Msg nS) : Option Mem :=
  if !isTfmRpcMsg m.clientId (s.owner m.rid) && !(s.owner m.rid).any s.blocked then none
  else (List.range maxIovec).foldlM (updateLen m (s.written m.rid)) mem

/-! ## Transition system -/

structure VSt (nS nP n : Nat) where
  sys : RSt nS nP n
  mem : Mem

/-- `psa_reply` with the lengths for the caller.
mirrors secure_fw/spm/ffm/psa_client_service_apis.c:460-566 -/
def vecReply (db : Db nS nP) (s : VSt nS nP n) (p : Fin nP) (h : UInt32) (status : Int) :
    VSt nS nP n :=
  let sys := serviceReply db s.sys p h status
  match getMsgFromHandle db s.sys.spm p h with
  | none => { s with sys := sys }
  | some (k, _) =>
    let m := (s.sys.spm.conn k).internalMsg
    if ipcCall ≤ m.type then
      match updateCallerOutvecLen s.sys s.mem m with
      | none => { s with sys := panic s.sys }
      | some mem => ⟨sys, mem⟩
    else { s with sys := sys }

inductive VLbl (nP n : Nat)
  | mailbox (i : Fin (n + 1)) (q : Req)
  | svc (p : Fin nP) (privileged : Bool) (ctrlParam : Nat) (q : Req)
  | service (p : Fin nP) (c : SvcCall)
  | store (a : Nat) (x : UInt8)
  deriving DecidableEq, Repr

/-- A service call of partition `p`; all but `psa_reply` leave the memory alone or
write what a `store` can write. -/
def vservice (db : Db nS nP) (s : VSt nS nP n) (p : Fin nP) : SvcCall → Option (VSt nS nP n)
  | .reply h status => some (vecReply db s p h status)
  | c => (service db s.sys p c).map fun t => { s with sys := t }

def vstep (db : Db nS nP) (s : VSt nS nP n) (l : VLbl nP n) : Option (VSt nS nP n) :=
  if s.sys.spm.panicked then none
  else
    match l with
    | .mailbox i q =>
      if q.inMemory s.mem then some { s with sys := handleMsg db s.sys i q } else none
    | .svc p privileged ctrlParam q =>
      if !s.sys.blocked p && q.inMemory s.mem then
        some { s with sys := svcCall db s.sys p privileged ctrlParam q }
      else none
    | .service p c => if s.sys.blocked p then none else vservice db s p c
    | .store a x => some { s with mem := Function.update s.mem a x }

def vlts (db : Db nS nP) (n : Nat) : LTS (VSt nS nP n) (VLbl nP n) :=
  LTS.ofFn (fun s => s.sys = rinit nS nP n) (vstep db)

/-! ## The property and its condition -/

/-- The handle passes as static, and no service has its index. -/
def unassigned (db : Db nS nP) (h : UInt32) : Bool :=
  (staticIndex h).any fun i => (db.stateless i).isNone

/-- The call gets as far as its handle, and that is such a handle. -/
def nullService (db : Db nS nP) : Lbl nP → Bool
  | .callSvc c pr ctrl a _ =>
    memoryCheck db ctrl 12 c.isNs true pr && decide (0 ≤ a.type) && a.countsOk &&
      unassigned db a.handle
  | .callRpc _ a _ => a.countsOk && unassigned db a.handle
  | _ => false

def NsReq.nullService (db : Db nS nP) : NsReq nP → Bool
  | .client l => Spm.nullService db l
  | _ => false

/-- The caller's array has the bases the call passed. -/
def basesKept (mem : Mem) (m : Msg nS) : Bool :=
  (List.range maxIovec).all fun i =>
    (outVec m i).len == 0 || word mem (m.callerOutvec + 8 * i) == (outVec m i).base

/-- No assertion of `update_caller_outvec_len` fails for the message of a
non-secure caller. -/
def replySafe (mem : Mem) (m : Msg nS) : Bool := decide (m.type < ipcCall) || basesKept mem m

/-- Requests on a connection come one at a time and have no forged type, and services
use the handles of messages they have. -/
def nsSafe (db : Db nS nP) (s : VSt nS nP n) : VLbl nP n → Bool
  | .mailbox i q =>
    exclusive db s.sys.spm (mailboxLbl i.val q) && typed db s.sys.spm (mailboxLbl i.val q)
  | .svc p privileged ctrlParam q => exclusive db s.sys.spm (svcLbl p privileged ctrlParam q)
  | .service p c => c.handle.all (turn db s.sys.spm p)
  | .store _ _ => true

/-- A status a service may answer the message with. -/
def statusOk (m : Msg nS) (status : Int) : Prop :=
  m.type = ipcConnect → status = psaSuccess ∨ status = psaErrorConnectionRefused ∨
    status = psaErrorConnectionBusy

/-- The SPM after the call runs on, and request `r` is answered. -/
def VSt.Completed (s : VSt nS nP n) (r : Nat) : Prop :=
  s.sys.spm.panicked = false ∧ r ∈ s.sys.spm.answered

/-- A non-secure request returns or queues a message, unless it names a null service. -/
def EntryLaw (db : Db nS nP) (s : St nS nP) : Prop :=
  ∀ c q, c < 0 → q.From c → (nsAnswer db s c q = .call .panic ↔ q.nullService db = true)

structure NsLaw (db : Db nS nP) (s : VSt nS nP n) : Prop where
  entry : EntryLaw db s.sys.spm
  /-- and the service that has the message can answer it -/
  reply : ∀ k r v status, s.sys.spm.panicked = false → s.sys.spm.busy k = .delivered r →
    (s.sys.spm.conn k).internalMsg.service = some v →
    (s.sys.spm.conn k).internalMsg.clientId < 0 →
    statusOk (s.sys.spm.conn k).internalMsg status →
    ((vecReply db s (db.service v).partition (s.sys.spm.conn k).internalMsg.handle
        status).Completed r ↔ replySafe s.mem (s.sys.spm.conn k).internalMsg = true)

/-! ## Output vectors -/

theorem word_setWord {mem : Mem} {a b x : Nat} (h : b + 4 ≤ a ∨ a + 4 ≤ b) :
    word (setWord mem a x) b = word mem b := by
  unfold word
  congr 1
  apply List.map_congr_left
  intro i hi
  have hi := List.mem_range.1 hi
  have hout : ¬ (a ≤ b + i ∧ b + i < a + 4) := by omega
  rw [setWord, if_neg hout]

/-- A turn leaves the bases alone. -/
theorem updateLen_word {m : Msg nS} {w : Nat → Nat} {mem mem' : Mem} {i : Nat}
    (h : updateLen m w mem i = some mem') (j : Nat) :
    word mem' (m.callerOutvec + 8 * j) = word mem (m.callerOutvec + 8 * j) := by
  simp only [updateLen] at h
  split at h
  · cases h
    rfl
  split at h
  · cases h
    apply word_setWord
    omega
  · cases h

theorem updateLen_isSome (m : Msg nS) (w : Nat → Nat) (mem : Mem) (i : Nat) :
    (updateLen m w mem i).isSome = ((outVec m i).len == 0 ||
      word mem (m.callerOutvec + 8 * i) == (outVec m i).base) := by
  simp only [updateLen]
  by_cases hl : (outVec m i).len = 0
  · simp [hl]
  by_cases hb : word mem (m.callerOutvec + 8 * i) = (outVec m i).base
  · simp [hl, hb]
  · simp [hl, hb]

/-- The loop ends unless a base has changed: its own writes change none. -/
theorem foldlM_updateLen_isSome (m : Msg nS) (w : Nat → Nat) (l : List Nat) : ∀ mem : Mem,
    (l.foldlM (updateLen m w) mem).isSome = l.all fun i =>
      (outVec m i).len == 0 || word mem (m.callerOutvec + 8 * i) == (outVec m i).base := by
  induction l with
  | nil =>
    intro mem
    rfl
  | cons i l ih =>
    intro mem
    have hi := updateLen_isSome m w mem i
    rw [List.foldlM_cons, List.all_cons, ← hi]
    cases hu : updateLen m w mem i with
    | none => rfl
    | some mem' =>
      simp only [Option.bind_eq_bind, Option.bind_some, Option.isSome_some, Bool.true_and,
        ih mem', updateLen_word hu]

theorem updateCallerOutvecLen_isSome {s : RSt nS nP n} {m : Msg nS} (mem : Mem)
    (hc : m.clientId < 0) (ho : s.owner m.rid = none) :
    (updateCallerOutvecLen s mem m).isSome = basesKept mem m := by
  have hrpc : isTfmRpcMsg m.clientId (s.owner m.rid) = true := by
    simp [isTfmRpcMsg, ho, Int.le_of_lt hc]
  unfold updateCallerOutvecLen basesKept
  rw [hrpc, if_neg (by simp), foldlM_updateLen_isSome]

/-! ## Invariant -/

/-- A chunk no connection was made of has the client id of no client. -/
def Made (conn : Chunk → Conn nS) : Prop := ∀ k, (conn k).service = none → (conn k).clientId = 0

theorem made_update {conn : Chunk → Conn nS} {k : Chunk} {c : Conn nS} (h : Made conn)
    (hc : c.service = none → c.clientId = 0) : Made (Function.update conn k c) := by
  intro x hx
  by_cases hk : x = k
  · subst hk
    rw [Function.update_self] at hx ⊢
    exact hc hx
  · rw [Function.update_of_ne hk] at hx ⊢
    exact h x hx

theorem made_create {s s₁ : St nS nP} {v : Fin nS} {c : Int} {k : Chunk} (h : Made s.conn)
    (hn : createConnHandle s v c = some (k, s₁)) : Made s₁.conn := by
  rw [createConnHandle_conn hn]
  exact made_update h nofun

theorem made_trans {s s' : St nS nP} {l : Lbl nP} (h : Made s.conn) (ht : Trans db s l s') :
    Made s'.conn := by
  cases ht with
  | stay l b => exact h
  | connect hb hn =>
    have h₁ := made_create h hn
    exact made_update h₁ (h₁ _)
  | call hq hvet hs hk hst hv => exact made_update h (h _)
  | @callStatic l c a cd k v s₁ hq hvet hok hs hn =>
    have h₁ := made_create h hn
    have h₂ : Made (statelessConn s₁ k).conn := made_update h₁ (h₁ k)
    exact made_update h₂ (h₂ k)
  | leak b hl hn =>
    have h₁ := made_create h hn
    exact made_update h₁ (h₁ _)
  | close hs hk hst hv => exact made_update h (h _)
  | get _ _ hf => exact made_update h (h _)
  | getNone _ _ hf => exact h
  | @reply p hd st ret k v s₁ hg hr =>
    rcases replyByType_kept hr with ⟨g, rfl⟩ | rfl
    · exact made_update h (h _)
    · have h₁ : Made (freeConnHandle s k).conn := made_update h (h k)
      exact made_update h₁ (h₁ k)

theorem made_inductive (db : Db nS nP) : (lts db).Inductive fun s => Made s.conn where
  init := by
    intro s hs
    have hs : s = init nS nP := hs
    rw [hs]
    exact fun _ _ => rfl
  step := by
    intro s l s' h hs
    exact made_trans h (step_trans hs)

structure NInv (db : Db nS nP) (s : RSt nS nP n) : Prop where
  base : Inv db s.spm
  typed : TypeInv s.spm.conn
  made : Made s.spm.conn
  /-- no thread waits for the reply to a non-secure caller -/
  unowned : ∀ k, (s.spm.conn k).internalMsg.clientId < 0 →
    (s.spm.conn k).internalMsg.rid < s.spm.next ∧ s.owner (s.spm.conn k).internalMsg.rid = none
  fresh : ∀ r, s.spm.next ≤ r → s.owner r = none

theorem ninv_init (db : Db nS nP) (n : Nat) : NInv db (rinit nS nP n) := by
  refine ⟨inv_init db, ?_, fun _ _ => rfl, ?_, fun _ _ => rfl⟩
  · intro k
    exact msgTyped_call rfl (Int.le_refl _)
  · intro k hk
    cases hk

/-- A step that fills no message. -/
theorem NInv.keep {s s' : RSt nS nP n} (h : NInv db s) (hi : Inv db s'.spm)
    (ht : TypeInv s'.spm.conn) (hm : Made s'.spm.conn) (hn : s'.spm.next = s.spm.next)
    (ho : ∀ r, s.owner r = none → s'.owner r = none)
    (hmsg : ∀ x, (s'.spm.conn x).internalMsg.clientId = (s.spm.conn x).internalMsg.clientId ∧
      (s'.spm.conn x).internalMsg.rid = (s.spm.conn x).internalMsg.rid) : NInv db s' := by
  refine ⟨hi, ht, hm, fun k hk => ?_, fun r hr => ?_⟩
  · rw [(hmsg k).1] at hk
    rw [(hmsg k).2, hn]
    obtain ⟨hlt, hnone⟩ := h.unowned k hk
    exact ⟨hlt, ho _ hnone⟩
  · rw [hn] at hr
    exact ho r (h.fresh r hr)

/-- A client call that fills the message of chunk `k`. -/
theorem NInv.sent {s s' : RSt nS nP n} {c : Int} {cd : Option Nat} {k : Chunk} (h : NInv db s)
    (hi : Inv db s'.spm) (ht : TypeInv s'.spm.conn) (hm : Made s'.spm.conn)
    (hs : Sent s.spm s'.spm c cd k) (hk : c < 0 → s'.owner s.spm.next = none)
    (ho : ∀ r, r ≠ s.spm.next → s'.owner r = s.owner r) : NInv db s' := by
  refine ⟨hi, ht, hm, fun x hx => ?_, fun r hr => ?_⟩
  · rw [hs.next]
    by_cases hxk : x = k
    · subst hxk
      obtain ⟨-, ⟨ml, hmsg⟩, -⟩ := hi
      have hrid := hmsg.rid x s.spm.next (.inl (by rw [hs.busy, Function.update_self]))
      rw [hs.client] at hx
      rw [hrid]
      exact ⟨Nat.lt_succ_self _, hk hx⟩
    · rw [(hs.others x hxk).1] at hx ⊢
      obtain ⟨hlt, hnone⟩ := h.unowned x hx
      exact ⟨Nat.lt_succ_of_lt hlt, by rw [ho _ (Nat.ne_of_lt hlt)]; exact hnone⟩
  · rw [hs.next] at hr
    rw [ho r (by omega)]
    exact h.fresh r (by omega)

/-! ## Client calls -/

theorem handleMsg_spm (db : Db nS nP) (s : RSt nS nP n) (i : Fin (n + 1)) (q : Req) :
    (handleMsg db s i q).spm = finish (answer db s.spm (mailboxLbl i.val q)) ∧
      (handleMsg db s i q).owner = s.owner := by
  unfold handleMsg
  dsimp only
  split <;> exact ⟨rfl, rfl⟩

theorem svcCall_spm (db : Db nS nP) (s : RSt nS nP n) (p : Fin nP) (privileged : Bool)
    (ctrlParam : Nat) (q : Req) :
    (svcCall db s p privileged ctrlParam q).spm =
        finish (answer db s.spm (svcLbl p privileged ctrlParam q)) ∧
      ∀ r, r ≠ s.spm.next → (svcCall db s p privileged ctrlParam q).owner r = s.owner r := by
  unfold svcCall
  dsimp only
  split
  · exact ⟨rfl, fun r hr => by simp [eventWait, hr]⟩
  · exact ⟨rfl, fun _ _ => rfl⟩

theorem client_trans_answer (db : Db nS nP) (s : St nS nP) {l : Lbl nP} {c : Caller nP}
    {cd : Option Nat} (hl : l.client = some (c, cd)) : Trans db s l (finish (answer db s l)) := by
  cases l with
  | connect c sid version cd => exact connect_trans db s c sid version cd
  | callSvc c pr ctrl a cd => exact callSvc_trans db s c pr ctrl a cd
  | callRpc c a cd =>
    refine call_trans rfl (fun hc hv => ?_) fun hb => hb
    have hv : vecsOk db a true false = true := hv
    simp [Lbl.vetted, hc, hv]
  | close c h cd => exact close_trans db s c h cd
  | get => cases hl
  | reply => cases hl

/-- Both kinds of client calls: the callers' data apart, they do to the SPM what the
call does. -/
theorem ninv_client {s s' : RSt nS nP n} {l : Lbl nP} {c : Caller nP} {cd : Option Nat}
    (h : NInv db s) (hp : s.spm.panicked = false) (hx : exclusive db s.spm l = true)
    (ht : typed db s.spm l = true) (hl : l.client = some (c, cd))
    (hspm : s'.spm = finish (answer db s.spm l))
    (hown : c.id db < 0 → s'.owner = s.owner)
    (ho : ∀ r, r ≠ s.spm.next → s'.owner r = s.owner r)
    (hq : (answer db s.spm l).2 ≠ .accepted → s'.owner = s.owner) : NInv db s' := by
  obtain ⟨hi, hcase⟩ := client_cases h.base hp hx hl
  have htr := client_trans_answer db s.spm hl
  have hty := typeInv_trans h.typed ht htr
  have hm := made_trans h.made htr
  rw [← hspm] at hi hcase hty hm
  rcases hcase with ⟨-, k, hk⟩ | ⟨hno, hquiet⟩
  · refine h.sent hi hty hm hk (fun hc => ?_) ho
    rw [hown hc]
    exact h.fresh _ (Nat.le_refl _)
  · refine h.keep hi hty hm hquiet.next (fun r hr => ?_) fun x => ?_
    · rw [hq hno]
      exact hr
    · rw [hquiet.msg x]
      exact ⟨rfl, rfl⟩

theorem ninv_handleMsg {s : RSt nS nP n} {i : Fin (n + 1)} {q : Req} (h : NInv db s)
    (hp : s.spm.panicked = false) (hx : exclusive db s.spm (mailboxLbl i.val q) = true)
    (ht : typed db s.spm (mailboxLbl i.val q) = true) : NInv db (handleMsg db s i q) := by
  obtain ⟨hspm, hown⟩ := handleMsg_spm db s i q
  exact ninv_client h hp hx ht (mailboxLbl_client i.val q) hspm (fun _ => hown)
    (fun r _ => congrFun hown r) fun _ => hown

theorem ninv_svcCall (hpid : PidsOk db) {s : RSt nS nP n} {p : Fin nP} {privileged : Bool}
    {ctrlParam : Nat} {q : Req} (h : NInv db s) (hp : s.spm.panicked = false)
    (hx : exclusive db s.spm (svcLbl p privileged ctrlParam q) = true) :
    NInv db (svcCall db s p privileged ctrlParam q) := by
  obtain ⟨hspm, hown⟩ := svcCall_spm db s p privileged ctrlParam q
  have ht : typed db s.spm (svcLbl p privileged ctrlParam q) = true := by cases q <;> rfl
  refine ninv_client h hp hx ht (svcLbl_client p privileged ctrlParam q) hspm (fun hc => ?_) hown
    fun hno => ?_
  · have hpos := hpid p
    simp only [Caller.id] at hc
    omega
  · unfold svcCall
    simp [hno]

/-! ## Service calls -/

/-- Changing what the message of chunk `k` carries. -/
theorem ninv_setMsg {s : RSt nS nP n} {k : Chunk} {f : Conn nS → Conn nS} (h : NInv db s)
    (hs : (f (s.spm.conn k)).service = (s.spm.conn k).service ∧
      (f (s.spm.conn k)).status = (s.spm.conn k).status ∧
      (f (s.spm.conn k)).clientId = (s.spm.conn k).clientId)
    (hm : (f (s.spm.conn k)).internalMsg.Same (s.spm.conn k).internalMsg)
    (ht : (f (s.spm.conn k)).internalMsg.type = (s.spm.conn k).internalMsg.type ∧
      (f (s.spm.conn k)).internalMsg.origin = (s.spm.conn k).internalMsg.origin ∧
      (f (s.spm.conn k)).internalMsg.clientId = (s.spm.conn k).internalMsg.clientId) :
    NInv db { s with spm := s.spm.setConn k f } := by
  obtain ⟨hty, hor, hcl⟩ := ht
  refine h.keep ?_ (typeInv_update h.typed ?_) (made_update h.made ?_) rfl (fun _ hr => hr)
    fun x => ?_
  · refine h.base.similar rfl rfl rfl rfl rfl rfl rfl rfl rfl rfl rfl fun x => ?_
    rw [setConn_conn]
    split
    · rename_i hx
      rw [hx]
      exact ⟨hs.1, hs.2.1, hm⟩
    · exact ⟨rfl, rfl, .of_eq rfl⟩
  · have hk := h.typed k
    exact ⟨by rw [hty, hor]; exact hk.connect, by rw [hty, hor]; exact hk.close,
      by rw [hty, hor]; exact hk.call⟩
  · rw [hs.1, hs.2.2]
    exact h.made k
  · show ((s.spm.setConn k f).conn x).internalMsg.clientId = _ ∧ _
    rw [setConn_conn]
    split
    · rename_i hx
      rw [hx]
      exact ⟨hcl, hm.rid⟩
    · exact ⟨rfl, rfl⟩

theorem ninv_panic {s : RSt nS nP n} (h : NInv db s) : NInv db (panic s) := by
  refine h.keep ?_ h.typed h.made rfl (fun _ hr => hr) fun _ => ⟨rfl, rfl⟩
  exact h.base.congr rfl rfl rfl rfl rfl rfl rfl rfl rfl rfl rfl fun _ => ⟨rfl, rfl, rfl⟩

theorem ninv_takeIn {s : RSt nS nP n} {k : Chunk} {idx bytes : Nat} (h : NInv db s) :
    NInv db (takeIn s k idx bytes) :=
  ninv_setMsg h ⟨rfl, rfl, rfl⟩ ⟨rfl, rfl, rfl, rfl⟩ ⟨rfl, rfl, rfl⟩

theorem ninv_get {s : RSt nS nP n} {t : St nS nP} {p : Fin nP} {signal : Nat} {bufOk : Bool}
    (h : NInv db s) (ht : Trans db s.spm (.get p signal bufOk) t) :
    NInv db { s with spm := t } := by
  have hi : Inv db t := inv_trans h.base rfl ht
  have hty := typeInv_trans h.typed rfl ht
  have hm := made_trans h.made ht
  refine h.keep hi hty hm ?_ (fun _ hr => hr) fun x => ?_
  · cases ht with
    | leak b hl => cases hl
    | call hq => cases hq
    | callStatic hq => cases hq
    | _ => rfl
  · cases ht with
    | leak b hl => cases hl
    | call hq => cases hq
    | callStatic hq => cases hq
    | @get _ _ _ clear m k =>
      show ((taken s.spm p signal m clear k).conn x).internalMsg.clientId = _ ∧ _
      simp only [taken, setConn_conn]
      split
      · rename_i hx
        rw [hx]
        exact ⟨rfl, rfl⟩
      · exact ⟨rfl, rfl⟩
    | _ => exact ⟨rfl, rfl⟩

theorem deliver_owner {s : RSt nS nP n} {m : Msg nS} {ret : Int} {r : Nat}
    (h : s.owner r = none) : (deliver s m ret).owner r = none := by
  unfold deliver mailboxReply mailboxReplyMsg eventWake
  dsimp only
  split
  · split <;> exact h
  · split
    · exact h
    · split
      · rename_i p hp hb
        by_cases hr : r = m.rid
        · simp [hr]
        · simpa [hr] using h
      · exact h

theorem ninv_serviceReply {s : RSt nS nP n} {p : Fin nP} {hd : UInt32} {st : Int} (h : NInv db s)
    (hp : s.spm.panicked = false) (ht : turn db s.spm p hd = true) :
    NInv db (serviceReply db s p hd st) := by
  rcases serviceReply_cases db s p hd st hp with he | ⟨k, v, s₁, ret, hg, hr, he⟩
  · rw [he]
    exact ninv_panic h
  have htr : Trans db s.spm (.reply p hd st) (replied s.spm s₁ k ret) := .reply hg hr
  have hi := inv_trans h.base (exclusive_turn ht) htr
  have hty := typeInv_trans h.typed rfl htr
  have hm := made_trans h.made htr
  rw [he]
  refine h.keep ?_ ?_ ?_ ?_ (fun r hr => deliver_owner hr) fun x => ?_
  · rw [deliver_spm]
    exact hi
  · rw [deliver_spm]
    exact hty
  · rw [deliver_spm]
    exact hm
  · rw [deliver_spm]
    rcases replyByType_kept hr with ⟨g, rfl⟩ | rfl <;> rfl
  · rw [deliver_spm]
    rcases replyByType_kept hr with ⟨g, rfl⟩ | rfl
    · simp only [replied, setConn_conn]
      split
      · rename_i hx
        rw [hx]
        exact ⟨rfl, rfl⟩
      · exact ⟨rfl, rfl⟩
    · simp only [replied, freeConnHandle, setConn_conn]
      split
      · rename_i hx
        rw [hx]
        exact ⟨rfl, rfl⟩
      · exact ⟨rfl, rfl⟩

/-- `psa_reply` does what it did without the callers' memory, or an assertion fails. -/
theorem vecReply_sys (db : Db nS nP) (s : VSt nS nP n) (p : Fin nP) (hd : UInt32) (st : Int) :
    (vecReply db s p hd st).sys = serviceReply db s.sys p hd st ∨
      (vecReply db s p hd st).sys = panic s.sys := by
  unfold vecReply
  dsimp only
  split
  · exact .inl rfl
  split
  · split
    · exact .inr rfl
    · exact .inl rfl
  · exact .inl rfl

theorem ninv_vservice {s s' : VSt nS nP n} {p : Fin nP} {c : SvcCall} (h : NInv db s.sys)
    (hp : s.sys.spm.panicked = false) (ht : c.handle.all (turn db s.sys.spm p) = true)
    (hs : vservice db s p c = some s') : NInv db s'.sys := by
  cases c with
  | get signal bufOk =>
    obtain ⟨t, ht', rfl⟩ := Option.map_eq_some_iff.1 hs
    obtain ⟨⟨u, m⟩, hg, rfl⟩ := Option.map_eq_some_iff.1 ht'
    exact ninv_get h (get_trans (by rw [hg]; rfl))
  | read hd idx numBytes bufOk =>
    cases hs
    show NInv db (psaRead db s.sys p hd idx numBytes bufOk).1
    unfold psaRead
    split
    · exact ninv_panic h
    dsimp only
    split
    · exact h
    split
    · exact ninv_panic h
    · exact ninv_takeIn h
  | skip hd idx numBytes =>
    cases hs
    show NInv db (psaSkip db s.sys p hd idx numBytes).1
    unfold psaSkip
    split
    · exact ninv_panic h
    dsimp only
    split
    · exact h
    · exact ninv_takeIn h
  | write hd idx numBytes bufOk =>
    cases hs
    show NInv db (psaWrite db s.sys p hd idx numBytes bufOk)
    unfold psaWrite
    split
    · exact ninv_panic h
    dsimp only
    split
    · exact ninv_panic h
    split
    · exact ninv_panic h
    · exact h.keep h.base h.typed h.made rfl (fun _ hr => hr) fun _ => ⟨rfl, rfl⟩
  | setRhandle hd rhandle =>
    cases hs
    show NInv db (psaSetRhandle db s.sys p hd rhandle)
    unfold psaSetRhandle
    split
    · exact ninv_panic h
    split
    · exact ninv_panic h
    · exact ninv_setMsg h ⟨rfl, rfl, rfl⟩ ⟨rfl, rfl, rfl, rfl⟩ ⟨rfl, rfl, rfl⟩
  | reply hd st =>
    cases hs
    rcases vecReply_sys db s p hd st with he | he
    · rw [he]
      exact ninv_serviceReply h hp ht
    · rw [he]
      exact ninv_panic h

/-! ## Runs -/

theorem ninv_step (hpid : PidsOk db) {s s' : VSt nS nP n} {l : VLbl nP n} (h : NInv db s.sys)
    (hx : nsSafe db s l = true) (hs : vstep db s l = some s') : NInv db s'.sys := by
  unfold vstep at hs
  split at hs
  · cases hs
  rename_i hp
  have hp : s.sys.spm.panicked = false := by simpa using hp
  cases l with
  | mailbox i q =>
    dsimp only at hs
    split at hs
    · cases hs
      simp only [nsSafe, Bool.and_eq_true] at hx
      exact ninv_handleMsg h hp hx.1 hx.2
    · cases hs
  | svc p privileged ctrlParam q =>
    dsimp only at hs
    split at hs
    · cases hs
      exact ninv_svcCall hpid h hp hx
    · cases hs
  | service p c =>
    dsimp only at hs
    split at hs
    · cases hs
    · exact ninv_vservice h hp hx hs
  | store a x =>
    cases hs
    exact h

theorem ninv_inductive (hpid : PidsOk db) (n : Nat) :
    ((vlts db n).restrict fun s l => nsSafe db s l = true).Inductive fun s => NInv db s.sys where
  init := by
    intro s hs
    have hs : s.sys = rinit nS nP n := hs
    rw [hs]
    exact ninv_init db n
  step := by
    intro s l s' h hs
    exact ninv_step hpid h hs.1 hs.2

/-! ## Results -/

/-- The handle of a non-secure call leads to a null service just when it is static and no
service has its index. -/
theorem resolveHandle_panics {s : St nS nP} (h : Made s.conn) {c : Int} (hc : c < 0)
    (hd : UInt32) :
    (resolveHandle db s (.ns c) hd).2 = .error .panic ↔ unassigned db hd = true := by
  have hpe : ∀ e : PsaStatus, programmerError (Caller.ns c : Caller nP).isNs e = .refused e :=
    fun _ => rfl
  unfold resolveHandle unassigned
  cases hst : staticIndex hd with
  | some i =>
    simp only [Option.any_some]
    cases hv : db.stateless i with
    | none => simp
    | some v =>
      simp only [hpe, Option.isNone_some]
      split
      · simp
      split
      · simp
      split <;> simp
  | none =>
    simp only [hpe, Option.any_none]
    cases hk : validateConnHandle s hd ((Caller.ns c : Caller nP).id db) with
    | none => simp
    | some k =>
      have hid := (validateConnHandle_some hk).2
      have hmade := h k
      simp only
      cases (s.conn k).status with
      | active => simp
      | connectError => simp
      | idle =>
        cases hserv : (s.conn k).service with
        | none =>
          rw [hmade hserv] at hid
          simp only [Caller.id] at hid
          omega
        | some v => simp

theorem clientPsaCall_panics {s : St nS nP} (h : Made s.conn) {c : Int} (hc : c < 0) (pr : Bool)
    (a : CallArgs) (cd : Option Nat) :
    (clientPsaCall db s (.ns c) pr a cd).2 = .panic ↔
      a.countsOk = true ∧ unassigned db a.handle = true := by
  have hr : (resolveHandle db s (.ns c) a.handle).2 = .error .panic ↔
      unassigned db a.handle = true := resolveHandle_panics h hc a.handle
  unfold clientPsaCall
  cases hcnt : a.countsOk with
  | false => simp [programmerError, Caller.isNs]
  | true =>
    simp only [Bool.not_true, Bool.false_eq_true, if_false, true_and, ← hr]
    rcases he : resolveHandle db s (.ns c) a.handle with ⟨s₁, o | ⟨k, v, hd⟩⟩
    · simp
    · simp only
      split
      · simp [programmerError, Caller.isNs]
      · simp

/-- The entries for non-secure callers. -/
theorem answer_panics {s : St nS nP} (h : Made s.conn) {l : Lbl nP} {c : Int} {cd : Option Nat}
    (hl : l.client = some (.ns c, cd)) (hc : c < 0) :
    (answer db s l).2 = .panic ↔ nullService db l = true := by
  cases l with
  | connect c' sid version cd' =>
    cases hl
    simp only [answer, nullService, clientPsaConnect, programmerError, Caller.isNs, if_true]
    split
    · simp
    split
    · simp
    split
    · simp
    split
    · simp
    split <;> simp
  | callSvc c' pr ctrl a cd' =>
    cases hl
    simp only [answer, nullService, spmPsaCall]
    split
    · rename_i hm
      simp [programmerError, Caller.isNs] at hm ⊢
      simp [hm]
    split
    · rename_i hm ht
      have ht' : ¬ 0 ≤ a.type := Int.not_le.2 ht
      simp [programmerError, Caller.isNs, ht']
    · rename_i hm ht
      have hm' : memoryCheck db ctrl 12 (Caller.ns c : Caller nP).isNs true pr = true := by
        simpa using hm
      rw [clientPsaCall_panics h hc]
      simp [hm', Int.not_lt.1 ht]
  | callRpc c' a cd' =>
    cases hl
    simp only [answer, nullService, rpcPsaCall, clientPsaCall_panics h hc, Bool.and_eq_true]
  | close c' hd cd' =>
    cases hl
    simp only [answer, nullService, clientPsaClose, programmerError, Caller.isNs, if_true]
    split
    · simp
    split
    · simp
    split
    · simp
    rename_i k hk
    split
    · rename_i hserv
      have hid := (validateConnHandle_some hk).2
      rw [h k hserv] at hid
      simp only [Caller.id] at hid
      omega
    split <;> simp
  | get => cases hl
  | reply => cases hl

theorem entryLaw {s : St nS nP} (h : Made s.conn) : EntryLaw db s := by
  intro c q hc hq
  cases q with
  | frameworkVersion => simp [nsAnswer, NsReq.nullService]
  | version sid => simp [nsAnswer, NsReq.nullService]
  | client l =>
    obtain ⟨cd, hl⟩ := hq
    simp only [nsAnswer, NsReq.nullService, NsEnd.call.injEq]
    exact answer_panics h hl hc

theorem getMsgFromHandle_own {s : St nS nP} (hi : Inv db s) {k : Chunk} {v : Fin nS} {r : Nat}
    (hb : s.busy k = .delivered r) (hv : (s.conn k).internalMsg.service = some v) :
    getMsgFromHandle db s (db.service v).partition (s.conn k).internalMsg.handle = some (k, v) := by
  obtain ⟨-, ⟨ml, hmsg⟩, -⟩ := hi
  obtain ⟨w, -, hm, hk⟩ := hmsg.own k (by simp [hb])
  simp [getMsgFromHandle, hk, hm, hv]

/-- The reply to a message of a non-secure caller, the assertions apart. -/
theorem serviceReply_ns {s : RSt nS nP n} {p : Fin nP} {hd : UInt32} {k : Chunk} {v : Fin nS}
    {status ret : Int} {s₁ : St nS nP} (hp : s.spm.panicked = false)
    (hc : (s.spm.conn k).internalMsg.clientId < 0)
    (hg : getMsgFromHandle db s.spm p hd = some (k, v))
    (hr : replyByType db s.spm k v hd status = some (s₁, ret)) :
    (serviceReply db s p hd status).spm = replied s.spm s₁ k ret ∧ s₁.panicked = false := by
  have hp₁ : s₁.panicked = false := by
    rcases replyByType_kept hr with ⟨g, rfl⟩ | rfl
    · exact hp
    · exact hp
  have hpsa : psaReply db s.spm p hd status = replied s.spm s₁ k ret := by
    simp only [psaReply, hg, hr, hc, not_true, and_false, if_false]
    rfl
  refine ⟨?_, hp₁⟩
  have hrun : (replied s.spm s₁ k ret).panicked = false := hp₁
  simp only [serviceReply, hpsa, hrun, Bool.false_eq_true, if_false, hg, hr, deliver_spm]

/-- **Non-secure callers and panics.** In every reachable state of the SPM a non-secure
request panics exactly if it gets as far as a static handle without a service. In every run
in which requests on a connection come one at a time, mailbox requests have no negative
type and services use the handle of a message only while they have it, a service can
complete a message it has from a non-secure caller, with any status it may answer, exactly
if the bases in the caller's array are still those of the call. -/
theorem ns_calls (db : Db nS nP) (hpid : PidsOk db) :
    (∀ s, (lts db).Reachable s → EntryLaw db s) ∧
    ∀ n (s : VSt nS nP n),
      ((vlts db n).restrict fun s l => nsSafe db s l = true).Reachable s → NsLaw db s := by
  refine ⟨fun s h => entryLaw ((made_inductive db).reachable s h), fun n s h => ?_⟩
  have hi := (ninv_inductive hpid n).reachable s h
  refine ⟨entryLaw hi.made, ?_⟩
  intro k r v status hp hb hv hc hst
  have hg := getMsgFromHandle_own hi.base hb hv
  obtain ⟨s₁, ret, hr⟩ : ∃ s₁ ret, replyByType db s.sys.spm k v
      (s.sys.spm.conn k).internalMsg.handle status = some (s₁, ret) := by
    cases hr : replyByType db s.sys.spm k v (s.sys.spm.conn k).internalMsg.handle status with
    | some x => exact ⟨x.1, x.2, rfl⟩
    | none =>
      obtain ⟨hor, h1, h2, h3⟩ := (typesOk_of_inv hi.typed).panics _ _ _ _ _ hg hr
      rcases hst ((hi.typed k).connect.2 hor) with he | he | he
      · exact absurd he h1
      · exact absurd he h2
      · exact absurd he h3
  obtain ⟨hspm, hp₁⟩ := serviceReply_ns hp hc hg hr
  have hrid : (s.sys.spm.conn k).internalMsg.rid = r := by
    obtain ⟨-, ⟨ml, hmsg⟩, -⟩ := hi.base
    exact hmsg.rid k r (.inr hb)
  have hdone : (serviceReply db s.sys (db.service v).partition
      (s.sys.spm.conn k).internalMsg.handle status).spm.panicked = false ∧
      r ∈ (serviceReply db s.sys (db.service v).partition
        (s.sys.spm.conn k).internalMsg.handle status).spm.answered := by
    rw [hspm]
    refine ⟨hp₁, ?_⟩
    show r ∈ (s.sys.spm.conn k).internalMsg.rid :: _
    rw [hrid]
    exact List.mem_cons_self
  have hown := (hi.unowned k hc).2
  have hsome := updateCallerOutvecLen_isSome (s := s.sys) s.mem hc hown
  simp only [vecReply, hg, replySafe, VSt.Completed]
  by_cases hty : ipcCall ≤ (s.sys.spm.conn k).internalMsg.type
  · rw [if_pos hty, decide_eq_false (Int.not_lt.2 hty), Bool.false_or, ← hsome]
    cases updateCallerOutvecLen s.sys s.mem (s.sys.spm.conn k).internalMsg with
    | none => simp [panic]
    | some mem => simpa using hdone
  · rw [if_neg hty, decide_eq_true (Int.not_le.1 hty)]
    simpa using hdone

/-- Client -1 connects and calls with an output vector, whose array is at 0x300. -/
def callWithArray : List (VLbl 1 1) :=
  [.mailbox 0 (.connect 0x1000 1), .service 0 (.get 4 true), .service 0 (.reply 194 0),
    .store 0x301 4, .store 0x304 4,
    .mailbox 1 (.call ⟨194, 0, 0x100, [], 0x300, [⟨0x400, 4⟩]⟩), .service 0 (.get 4 true)]

/-- The message of that call. -/
def arrayMsg : Msg 2 :=
  ⟨true, some 0, 0, 194, -1, 0, [], [⟨0x400, 4⟩], 0x300, some 1, .call, 1⟩

theorem ns_calls_reply : ∃ s : VSt 2 1 1, NsLaw bothServices s ∧
    (vecReply bothServices s 0 194 5).Completed 1 := by
  have he : (LTS.execC (nsSafe bothServices) (vstep bothServices) ⟨rinit 2 1 1, fun _ => 0⟩
      callWithArray).map (fun s => (s.sys.spm.panicked, s.sys.spm.busy 0,
        (s.sys.spm.conn 0).internalMsg, replySafe s.mem (s.sys.spm.conn 0).internalMsg)) =
      some (false, .delivered 1, arrayMsg, true) := by decide +kernel
  obtain ⟨s, hs, hv⟩ := Option.map_eq_some_iff.1 he
  simp only [Prod.mk.injEq] at hv
  obtain ⟨hp, hb, hm, hsafe⟩ := hv
  have hl : NsLaw bothServices s := (ns_calls bothServices fun _ => Int.le_refl _).2 1 s
    (LTS.reachable_execC (fun _ _ h => h) _ rfl hs)
  have hr := (hl.reply 0 1 0 5 hp hb (by rw [hm]; rfl) (by rw [hm]; decide)
    (by rw [hm]; exact fun ht => absurd ht (by decide))).2 hsafe
  rw [hm] at hr
  exact ⟨s, hl, hr⟩

/-- **Counterexample**: a call of client -1 with the static handle of an index without a
service panics the SPM; and so does the reply to a request of it whose array it has
changed. -/
theorem ns_calls_panic :
    (answer bothServices (init 2 1) (.callRpc (-1) ⟨0x40000102, 0, 0, [], 0, []⟩ none)).2 =
      .panic ∧
    ∃ s : VSt 2 1 1, (vlts bothServices 1).Reachable s ∧ s.sys.spm.panicked = false ∧
      s.sys.spm.busy 0 = .delivered 1 ∧ (s.sys.spm.conn 0).internalMsg = arrayMsg ∧
      (vecReply bothServices s 0 194 5).sys.spm.panicked = true := by
  refine ⟨by decide +kernel, ?_⟩
  have he : (LTS.exec (vstep bothServices) ⟨rinit 2 1 1, fun _ => 0⟩
      (callWithArray ++ [.store 0x300 1])).map (fun s => (s.sys.spm.panicked, s.sys.spm.busy 0,
        (s.sys.spm.conn 0).internalMsg, (vecReply bothServices s 0 194 5).sys.spm.panicked)) =
      some (false, .delivered 1, arrayMsg, true) := by decide +kernel
  obtain ⟨s, hs, hv⟩ := Option.map_eq_some_iff.1 he
  simp only [Prod.mk.injEq] at hv
  obtain ⟨hp, hb, hm, hr⟩ := hv
  have hinit : (vlts bothServices 1).Reachable ⟨rinit 2 1 1, fun _ => 0⟩ :=
    .init (show rinit 2 1 1 = rinit 2 1 1 from rfl)
  exact ⟨s, LTS.reachable_exec _ hinit hs, hp, hb, hm, hr⟩

end Tfm.L4.Spm
