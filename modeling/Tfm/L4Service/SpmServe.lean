import Tfm.L4Service.SpmNsSafe

/-!
# SPM: a message while its service has it

From `psa_get` to `psa_reply` a service reads the input vectors of its message and writes
the output vectors, with `psa_read` and `psa_write`, which panic for a vector that takes
fewer bytes. Meanwhile the other threads run: clients send requests, other partitions serve
theirs. `byOthers` are their steps; those that break the discipline of `SpmReply`, or panic
the SPM, are left out.

`Ready` is what the service relies on: the SPM has its message as `psa_get` delivered it,
and there is room in the first output vector.

Results:
* `service_cases`: what a service call does to the other messages.
* `Unwritten`, `unwritten_inductive`: nothing is written for a request before `psa_get`.
* `ready_get`, `ready_others`, `ready_read`, `ready_write`, `ready_reply`: from `psa_get` to
  the reply.
-/
namespace Tfm.L4.Spm
open Tfm.BiList

variable {nS nP n : Nat} {db : Db nS nP} {s s' : RSt nS nP n} {p : Fin nP}

/-! ## Steps of the others -/

/-- A service call of partition `p`. -/
def RLbl.ofService (p : Fin nP) : RLbl nP n → Bool
  | .service q _ => q == p
  | _ => false

def byOther (db : Db nS nP) (p : Fin nP) (s : RSt nS nP n) (l : RLbl nP n) : RSt nS nP n :=
  if l.ofService p || !disciplined db s l then s
  else
    match rstep db s l with
    | none => s
    | some s' => if s'.spm.panicked then s else s'

def byOthers (db : Db nS nP) (p : Fin nP) (s : RSt nS nP n) (ls : List (RLbl nP n)) :
    RSt nS nP n := ls.foldl (byOther db p) s

/-! ## Service calls -/

theorem getMsgFromHandle_partition {t : St nS nP} {h : UInt32} {k : Chunk} {v : Fin nS}
    (hg : getMsgFromHandle db t p h = some (k, v)) : (db.service v).partition = p := by
  obtain ⟨hk, hv⟩ := getMsgFromHandle_some hg
  obtain ⟨k', hk', hh⟩ := accepts_iff.1 (by rw [Accepts, hg]; rfl : Accepts db t p h)
  rw [hk] at hk'
  cases hk'
  simp only [holdsFor, hv, Option.any_some, Bool.and_eq_true, beq_iff_eq] at hh
  exact hh.2

/-- The call worked on the message of chunk `k`, which partition `p` has. -/
structure OnMsg (db : Db nS nP) (p : Fin nP) (s s' : RSt nS nP n) (k : Chunk) : Prop where
  busy : ∃ r, s.spm.busy k = .delivered r
  service : ∃ v, (s.spm.conn k).internalMsg.service = some v ∧ (db.service v).partition = p
  conn : ∀ x, x ≠ k → s'.spm.conn x = s.spm.conn x
  othersBusy : ∀ x, x ≠ k → s'.spm.busy x = s.spm.busy x
  written : ∀ r, r ≠ (s.spm.conn k).internalMsg.rid → s'.written r = s.written r
  delivered : s'.spm.delivered = s.spm.delivered

theorem onMsg_of_handle {h : UInt32} {k : Chunk} {v : Fin nS} (ht : turn db s.spm p h = true)
    (hg : getMsgFromHandle db s.spm p h = some (k, v))
    (hc : ∀ x, x ≠ k → s'.spm.conn x = s.spm.conn x)
    (hb : ∀ x, x ≠ k → s'.spm.busy x = s.spm.busy x)
    (hw : ∀ r, r ≠ (s.spm.conn k).internalMsg.rid → s'.written r = s.written r)
    (hd : s'.spm.delivered = s.spm.delivered) : OnMsg db p s s' k :=
  ⟨(turn_some ht hg).1, ⟨v, (getMsgFromHandle_some hg).2, getMsgFromHandle_partition hg⟩,
    hc, hb, hw, hd⟩

theorem requestMsg_some {t : St nS nP} {h : UInt32} {idx : Nat} {k : Chunk}
    (hr : requestMsg db t p h idx = some k) : ∃ v, getMsgFromHandle db t p h = some (k, v) := by
  unfold requestMsg at hr
  split at hr
  · cases hr
  · rename_i k' v hg
    split at hr
    · cases hr
    split at hr
    · cases hr
    · cases hr
      exact ⟨v, hg⟩

theorem onMsg_takeIn {h : UInt32} {idx bytes : Nat} {k : Chunk} (ht : turn db s.spm p h = true)
    (hr : requestMsg db s.spm p h idx = some k) : OnMsg db p s (takeIn s k idx bytes) k := by
  obtain ⟨v, hg⟩ := requestMsg_some hr
  refine onMsg_of_handle ht hg (fun x hx => ?_) (fun _ _ => rfl) (fun _ _ => rfl) rfl
  simp only [takeIn, setConn_conn, if_neg hx]

theorem onMsg_self {h : UInt32} {idx : Nat} {k : Chunk} (ht : turn db s.spm p h = true)
    (hr : requestMsg db s.spm p h idx = some k) : OnMsg db p s s k := by
  obtain ⟨v, hg⟩ := requestMsg_some hr
  exact onMsg_of_handle ht hg (fun _ _ => rfl) (fun _ _ => rfl) (fun _ _ => rfl) rfl

theorem deliver_written (s : RSt nS nP n) (m : Msg nS) (ret : Int) :
    (deliver s m ret).written = s.written := by
  unfold deliver mailboxReply mailboxReplyMsg eventWake
  dsimp only
  split
  · split <;> rfl
  · split
    · rfl
    · split <;> rfl

theorem onMsg_reply {h : UInt32} {k : Chunk} {v : Fin nS} {st ret : Int} {s₁ : St nS nP}
    (ht : turn db s.spm p h = true) (hg : getMsgFromHandle db s.spm p h = some (k, v))
    (hr : replyByType db s.spm k v h st = some (s₁, ret)) :
    OnMsg db p s
      (deliver { s with spm := replied s.spm s₁ k ret } (s.spm.conn k).internalMsg ret) k := by
  refine onMsg_of_handle ht hg (fun x hx => ?_) (fun x hx => ?_) (fun r _ => ?_) ?_
  · rw [deliver_spm]
    rcases replyByType_kept hr with ⟨g, rfl⟩ | rfl
    · simp [replied, setConn_conn, hx]
    · simp [replied, freeConnHandle, setConn_conn, hx]
  · rw [deliver_spm]
    simp [replied, hx]
  · rw [deliver_written]
  · rw [deliver_spm]
    rcases replyByType_kept hr with ⟨g, rfl⟩ | rfl
    · rfl
    · rfl

/-- A service call panics, gets a message, or works on one that the partition has. -/
theorem service_cases {c : SvcCall} (hp : s.spm.panicked = false)
    (ht : c.handle.all (turn db s.spm p) = true) (hs : service db s p c = some s') :
    s' = panic s ∨
    (∃ t signal bufOk, Trans db s.spm (.get p signal bufOk) t ∧ s' = { s with spm := t }) ∨
    ∃ k, OnMsg db p s s' k := by
  cases c with
  | get signal bufOk =>
    obtain ⟨⟨t, m⟩, hg, rfl⟩ := Option.map_eq_some_iff.1 hs
    exact .inr (.inl ⟨t, signal, bufOk, get_trans (by rw [hg]; rfl), rfl⟩)
  | read h idx numBytes bufOk =>
    cases hs
    unfold psaRead
    cases hr : requestMsg db s.spm p h idx with
    | none => exact .inl rfl
    | some k =>
      dsimp only
      split
      · exact .inr (.inr ⟨k, onMsg_self ht hr⟩)
      split
      · exact .inl rfl
      · exact .inr (.inr ⟨k, onMsg_takeIn ht hr⟩)
  | skip h idx numBytes =>
    cases hs
    unfold psaSkip
    cases hr : requestMsg db s.spm p h idx with
    | none => exact .inl rfl
    | some k =>
      dsimp only
      split
      · exact .inr (.inr ⟨k, onMsg_self ht hr⟩)
      · exact .inr (.inr ⟨k, onMsg_takeIn ht hr⟩)
  | write h idx numBytes bufOk =>
    cases hs
    unfold psaWrite
    cases hr : requestMsg db s.spm p h idx with
    | none => exact .inl rfl
    | some k =>
      dsimp only
      split
      · exact .inl rfl
      split
      · exact .inl rfl
      · obtain ⟨v, hg⟩ := requestMsg_some hr
        refine .inr (.inr ⟨k, onMsg_of_handle ht hg (fun _ _ => rfl) (fun _ _ => rfl)
          (fun r hne => ?_) rfl⟩)
        exact Function.update_of_ne hne _ _
  | setRhandle h rhandle =>
    cases hs
    unfold psaSetRhandle
    cases hg : getMsgFromHandle db s.spm p h with
    | none => exact .inl rfl
    | some x =>
      dsimp only
      split
      · exact .inl rfl
      · refine .inr (.inr ⟨x.1, onMsg_of_handle (v := x.2) ht hg (fun y hy => ?_) (fun _ _ => rfl)
          (fun _ _ => rfl) rfl⟩)
        simp only [setConn_conn, if_neg hy]
  | reply h status =>
    cases hs
    rcases serviceReply_cases db s p h status hp with he | ⟨k, v, s₁, ret, hg, hr, he⟩
    · exact .inl he
    · rw [he]
      exact .inr (.inr ⟨k, onMsg_reply ht hg hr⟩)

/-! ## What `psa_get` takes -/

theorem MsgInv.found {t : St nS nP} {ml : Fin nP → List Chunk} {signal : Nat}
    {m : Links (Node (Fin nP))} {clear : Bool} {k : Chunk} (h : MsgInv db t ml)
    (hf : findMsg db t.conn p signal walkFuel t.msgs (t.msgs.next (.head p)) none =
      some (m, some k, clear)) :
    ∃ r v, t.busy k = .queued r ∧ (t.conn k).internalMsg.rid = r ∧
      (t.conn k).internalMsg.service = some v ∧ (db.service v).partition = p := by
  rcases findMsg_spec db signal (h.queued_service p) (h.msgs.isList p) with
    ⟨-, he⟩ | ⟨l₁, j, l₂, hl, -, -, he⟩
  · rw [he] at hf
    cases hf
  · rw [he] at hf
    simp only [Option.some.injEq, Prod.mk.injEq] at hf
    obtain ⟨-, rfl, -⟩ := hf
    obtain ⟨r, v, hq, hv, hvp⟩ := (h.queue j p).1 (by rw [hl]; simp)
    exact ⟨r, v, hq, h.rid j r (.inl hq), hv, hvp⟩

theorem taken_msg (t : St nS nP) (p : Fin nP) (signal : Nat) (m : Links (Node (Fin nP)))
    (clear : Bool) (k x : Chunk) :
    ((taken t p signal m clear k).conn x).internalMsg = (t.conn x).internalMsg := by
  simp only [taken, setConn_conn]
  split
  · rename_i hx
    rw [hx]
  · rfl

/-- `psa_get` with a message. -/
theorem psaGet_taken {t t' : St nS nP} {signal : Nat} {m : Msg nS}
    (hg : psaGet db t p signal true = some (t', some m)) :
    ∃ k m' clear, findMsg db t.conn p signal walkFuel t.msgs (t.msgs.next (.head p)) none =
        some (m', some k, clear) ∧
      t' = taken t p signal m' clear k ∧ m = (t.conn k).internalMsg := by
  unfold psaGet at hg
  split at hg
  · cases hg
  split at hg
  · cases hg
  split at hg
  · cases hg
  rename_i m' msg clear hf
  cases msg with
  | none => cases hg
  | some k =>
    cases hg
    exact ⟨k, m', clear, hf, rfl, rfl⟩

/-! ## What a step leaves alone -/

/-- Chunk `k` holds a message that its service has, and nothing of it changed. -/
structure MsgKept (s s' : RSt nS nP n) (k : Chunk) (r : Nat) : Prop where
  busy : s'.spm.busy k = .delivered r
  msg : (s'.spm.conn k).internalMsg = (s.spm.conn k).internalMsg
  written : s'.written r = s.written r

theorem handleMsg_written (db : Db nS nP) (s : RSt nS nP n) (i : Fin (n + 1)) (q : Req) :
    (handleMsg db s i q).written = s.written := by
  unfold handleMsg
  dsimp only
  split <;> rfl

theorem svcCall_written (db : Db nS nP) (s : RSt nS nP n) (q : Fin nP) (privileged : Bool)
    (ctrlParam : Nat) (r : Req) :
    (svcCall db s q privileged ctrlParam r).written = s.written := by
  unfold svcCall
  dsimp only
  split <;> rfl

/-- A client call, at either entry. -/
theorem client_kept {l : Lbl nP} {c : Caller nP} {cd : Option Nat} {k : Chunk} {r : Nat}
    (hi : Inv db s.spm) (hp : s.spm.panicked = false) (hx : exclusive db s.spm l = true)
    (hl : l.client = some (c, cd)) (hspm : s'.spm = finish (answer db s.spm l))
    (hw : s'.written = s.written) (hb : s.spm.busy k = .delivered r) : MsgKept s s' k r := by
  obtain ⟨-, ⟨-, x, hs⟩ | ⟨-, hq⟩⟩ := client_cases hi hp hx hl
  · have hk : k ≠ x := by
      intro h
      subst h
      rw [hs.idle] at hb
      cases hb
    rw [← hspm] at hs
    refine ⟨?_, (hs.others k hk).1, congrFun hw r⟩
    rw [hs.busy, Function.update_of_ne hk]
    exact hb
  · rw [← hspm] at hq
    exact ⟨by rw [hq.busy]; exact hb, hq.msg k, congrFun hw r⟩

/-- A service call of another partition. -/
theorem service_kept {q : Fin nP} {c : SvcCall} {k : Chunk} {r : Nat} {v : Fin nS}
    (hi : Inv db s.spm) (hp : s.spm.panicked = false)
    (ht : c.handle.all (turn db s.spm q) = true) (hs : service db s q c = some s')
    (hb : s.spm.busy k = .delivered r) (hv : (s.spm.conn k).internalMsg.service = some v)
    (hq : (db.service v).partition ≠ q) : MsgKept s s' k r := by
  obtain ⟨-, ⟨ml, hmsg⟩, hlog⟩ := hi
  have hrid := hmsg.rid k r (.inr hb)
  rcases service_cases hp ht hs with rfl | ⟨t, signal, bufOk, htr, rfl⟩ | ⟨x, hm⟩
  · exact ⟨hb, rfl, rfl⟩
  · cases htr with
    | stay => exact ⟨hb, rfl, rfl⟩
    | leak b hl => cases hl
    | call hq => cases hq
    | callStatic hq => cases hq
    | getNone => exact ⟨hb, rfl, rfl⟩
    | @get _ _ _ clear m y ha hne hf =>
      obtain ⟨r', -, hqueued, -⟩ := hmsg.found hf
      have hk : k ≠ y := by
        intro h
        subst h
        rw [hb] at hqueued
        cases hqueued
      refine ⟨?_, taken_msg .., rfl⟩
      simp only [taken, Function.update_of_ne hk]
      exact hb
  · have hk : k ≠ x := by
      intro h
      subst h
      obtain ⟨w, hw, hwq⟩ := hm.service
      rw [hv] at hw
      cases hw
      exact hq hwq
    obtain ⟨r', hx⟩ := hm.busy
    refine ⟨by rw [hm.othersBusy k hk]; exact hb, by rw [hm.conn k hk], hm.written r ?_⟩
    intro h
    subst h
    rw [hmsg.rid x r' (.inr hx)] at hb
    exact hk (hlog.serviceInj k x r' hb hx)

theorem rstep_kept {l : RLbl nP n} {k : Chunk} {r : Nat} {v : Fin nS} (h : RInv db s)
    (hd : disciplined db s l = true) (hs : rstep db s l = some s')
    (hb : s.spm.busy k = .delivered r) (hv : (s.spm.conn k).internalMsg.service = some v)
    (hl : l.ofService (db.service v).partition = false) : MsgKept s s' k r := by
  unfold rstep at hs
  split at hs
  · cases hs
  rename_i hp
  have hp : s.spm.panicked = false := by simpa using hp
  cases l with
  | mailbox i q =>
    dsimp only at hs
    split at hs
    · cases hs
      exact client_kept h.base hp hd (mailboxLbl_client i.val q) (handleMsg_spm db s i q).1
        (handleMsg_written db s i q) hb
    · cases hs
  | svc q privileged ctrlParam x =>
    dsimp only at hs
    split at hs
    · cases hs
    · cases hs
      exact client_kept h.base hp hd (svcLbl_client q privileged ctrlParam x)
        (svcCall_spm db s q privileged ctrlParam x).1 (svcCall_written ..) hb
  | service q c =>
    dsimp only at hs
    split at hs
    · cases hs
    · refine service_kept h.base hp hd hs hb hv ?_
      simp only [RLbl.ofService, beq_eq_false_iff_ne, ne_eq] at hl
      exact fun he => hl he.symm

theorem byOther_cases (db : Db nS nP) (p : Fin nP) (s : RSt nS nP n) (l : RLbl nP n) :
    byOther db p s l = s ∨ l.ofService p = false ∧ disciplined db s l = true ∧
      rstep db s l = some (byOther db p s l) ∧ (byOther db p s l).spm.panicked = false := by
  unfold byOther
  split
  · exact .inl rfl
  · rename_i hx
    have hx : l.ofService p = false ∧ disciplined db s l = true := by simpa using hx
    split
    · exact .inl rfl
    · rename_i s' hs
      split
      · exact .inl rfl
      · rename_i hrun
        exact .inr ⟨hx.1, hx.2, hs, by simpa using hrun⟩

/-! ## Nothing is written before `psa_get` -/

def Unwritten (s : RSt nS nP n) : Prop := ∀ r, r ∉ s.spm.delivered → s.written r = fun _ => 0

theorem unwritten_mono (h : Unwritten s) (hd : ∀ r ∈ s.spm.delivered, r ∈ s'.spm.delivered)
    (hw : ∀ r, r ∉ s.spm.delivered → s'.written r = s.written r) : Unwritten s' := by
  intro r hr
  have hr' : r ∉ s.spm.delivered := fun hm => hr (hd r hm)
  rw [hw r hr']
  exact h r hr'

/-- What was delivered stays delivered, if its chunk keeps it. -/
theorem LogInv.delivered_kept {t t' : St nS nP} (h : LogInv t) (h' : LogInv t')
    (ha : t'.answered = t.answered)
    (hb : ∀ k r, t.busy k = .delivered r → t'.busy k = .delivered r) :
    ∀ r ∈ t.delivered, r ∈ t'.delivered := by
  intro r hr
  by_cases hn : r ∈ t.answered
  · rw [← ha] at hn
    exact h'.answeredDelivered r hn
  · obtain ⟨k, hk⟩ := (h.inService r).2 ⟨hr, hn⟩
    exact ((h'.inService r).1 ⟨k, hb k r hk⟩).1

theorem unwritten_client {l : Lbl nP} {c : Caller nP} {cd : Option Nat} (h : Unwritten s)
    (hi : Inv db s.spm) (hi' : Inv db s'.spm) (hp : s.spm.panicked = false)
    (hx : exclusive db s.spm l = true) (hl : l.client = some (c, cd))
    (hspm : s'.spm = finish (answer db s.spm l)) (hw : s'.written = s.written) :
    Unwritten s' := by
  refine unwritten_mono h ?_ fun r _ => congrFun hw r
  refine hi.log.delivered_kept hi'.log ?_ fun k r hb => ?_
  · rw [hspm]
    obtain ⟨-, ⟨-, x, hs⟩ | ⟨-, hq⟩⟩ := client_cases hi hp hx hl
    · exact hs.answered
    · exact hq.answered
  · exact (client_kept hi hp hx hl hspm hw hb).busy

theorem unwritten_service {q : Fin nP} {c : SvcCall} (h : Unwritten s) (hi : Inv db s.spm)
    (hp : s.spm.panicked = false) (ht : c.handle.all (turn db s.spm q) = true)
    (hs : service db s q c = some s') : Unwritten s' := by
  rcases service_cases hp ht hs with rfl | ⟨t, signal, bufOk, htr, rfl⟩ | ⟨x, hm⟩
  · exact h
  · refine unwritten_mono h (fun r hr => ?_) fun _ _ => rfl
    cases htr with
    | stay => exact hr
    | leak b hl => cases hl
    | call hq => cases hq
    | callStatic hq => cases hq
    | getNone => exact hr
    | get => exact List.mem_cons_of_mem _ hr
  · refine unwritten_mono h (fun r hr => by rw [hm.delivered]; exact hr) fun r hr => ?_
    refine hm.written r ?_
    intro hx
    subst hx
    obtain ⟨r, hb⟩ := hm.busy
    obtain ⟨-, ⟨ml, hmsg⟩, hlog⟩ := hi
    rw [hmsg.rid x r (.inr hb)] at hr
    exact hr ((hlog.inService r).1 ⟨x, hb⟩).1

/-- What the runs keep: the invariant of `SpmReply`, and that nothing is written early. -/
def WInv (db : Db nS nP) (s : RSt nS nP n) : Prop := RInv db s ∧ Unwritten s

theorem winv_step (hpid : PidsOk db) {l : RLbl nP n} (h : WInv db s)
    (hd : disciplined db s l = true) (hs : rstep db s l = some s') : WInv db s' := by
  have hi' := rinv_step hpid h.1 hd hs
  refine ⟨hi', ?_⟩
  unfold rstep at hs
  split at hs
  · cases hs
  rename_i hp
  have hp : s.spm.panicked = false := by simpa using hp
  cases l with
  | mailbox i q =>
    dsimp only at hs
    split at hs
    · cases hs
      exact unwritten_client h.2 h.1.base hi'.base hp hd (mailboxLbl_client i.val q)
        (handleMsg_spm db s i q).1 (handleMsg_written db s i q)
    · cases hs
  | svc q privileged ctrlParam x =>
    dsimp only at hs
    split at hs
    · cases hs
    · cases hs
      exact unwritten_client h.2 h.1.base hi'.base hp hd
        (svcLbl_client q privileged ctrlParam x) (svcCall_spm db s q privileged ctrlParam x).1
        (svcCall_written ..)
  | service q c =>
    dsimp only at hs
    split at hs
    · cases hs
    · exact unwritten_service h.2 h.1.base hp hd hs

theorem winv_inductive (hpid : PidsOk db) (n : Nat) :
    ((rlts db n).restrict fun s l => disciplined db s l = true).Inductive (WInv db) where
  init := by
    intro s hs
    cases hs
    exact ⟨rinv_init db n, fun _ _ => rfl⟩
  step := by
    intro s l s' h hs
    exact winv_step hpid h hs.1 hs.2

/-! ## From `psa_get` to the reply -/

/-- `msg.in_size[i]` and `msg.out_size[i]` in the copy that `psa_get` makes. -/
def inSize (m : Msg nS) (i : Nat) : Nat := (m.invec.getD i ⟨0, 0⟩).len
def outSize (m : Msg nS) (i : Nat) : Nat := (m.outvec.getD i ⟨0, 0⟩).len

/-- Partition `p` has message `m`, and `b` more bytes fit the first output vector. -/
structure Ready (db : Db nS nP) (p : Fin nP) (m : Msg nS) (s : RSt nS nP n) (b : Nat) :
    Prop where
  inv : RInv db s
  run : s.spm.panicked = false
  has : ∃ k v invec, s.spm.busy k = .delivered m.rid ∧
    (s.spm.conn k).internalMsg = { m with invec := invec } ∧ m.service = some v ∧
    (db.service v).partition = p
  room : s.written m.rid 0 + b ≤ outSize m 0

/-- The request was answered once, and the SPM runs on. -/
structure Served (s s' : RSt nS nP n) (m : Msg nS) : Prop where
  before : m.rid ∉ s.spm.answered
  answered : m.rid ∈ s'.spm.answered
  once : s'.spm.answered.Nodup
  run : s'.spm.panicked = false

section Ready

variable {m : Msg nS} {b c : Nat}

theorem Ready.mono (h : Ready db p m s b) (hc : c ≤ b) : Ready db p m s c :=
  ⟨h.inv, h.run, h.has, Nat.le_trans (Nat.add_le_add_left hc _) h.room⟩

theorem ready_get {t : St nS nP} {signal : Nat} (h : WInv db s) (hp : s.spm.panicked = false)
    (hg : psaGet db s.spm p signal true = some (t, some m)) :
    Ready db p m { s with spm := t } (outSize m 0) ∧ m.rid ∉ s.spm.answered := by
  have hi := rinv_get h.1 (get_trans (by rw [hg]; rfl) : Trans db s.spm (.get p signal true) t)
  obtain ⟨k, m', clear, hf, rfl, rfl⟩ := psaGet_taken hg
  obtain ⟨-, ⟨ml, hmsg⟩, hlog⟩ := h.1.base
  obtain ⟨r, v, hq, hrid, hv, hvp⟩ := hmsg.found hf
  have hnew := ((hlog.queued r).1 ⟨k, hq⟩).2
  refine ⟨⟨hi, hp, ⟨k, v, (s.spm.conn k).internalMsg.invec, ?_, taken_msg .., hv, hvp⟩, ?_⟩, ?_⟩
  · simp [taken]
  · have hw := h.2 r hnew
    simp only [hrid, hw]
    omega
  · rw [hrid]
    exact fun ha => hnew (hlog.answeredDelivered r ha)

theorem ready_other (hpid : PidsOk db) (l : RLbl nP n) (h : Ready db p m s b) :
    Ready db p m (byOther db p s l) b := by
  rcases byOther_cases db p s l with he | ⟨hl, hd, hs, hrun⟩
  · rw [he]
    exact h
  · obtain ⟨k, v, iv, hb, hm, hv, hvp⟩ := h.has
    have hk := rstep_kept h.inv hd hs hb (by rw [hm]; exact hv) (by rw [hvp]; exact hl)
    refine ⟨rinv_step hpid h.inv hd hs, hrun, ⟨k, v, iv, hk.busy, hk.msg.trans hm, hv, hvp⟩, ?_⟩
    rw [hk.written]
    exact h.room

theorem ready_others (hpid : PidsOk db) (ls : List (RLbl nP n)) :
    ∀ {s : RSt nS nP n}, Ready db p m s b → Ready db p m (byOthers db p s ls) b := by
  induction ls with
  | nil => exact fun h => h
  | cons l ls ih => exact fun h => ih (ready_other hpid l h)

/-- The message is found, and its requests are checked as the service expects. -/
theorem Ready.found (h : Ready db p m s b) : ∃ k v invec,
    getMsgFromHandle db s.spm p m.handle = some (k, v) ∧ s.spm.busy k = .delivered m.rid ∧
      (s.spm.conn k).internalMsg = { m with invec := invec } := by
  obtain ⟨k, v, iv, hb, hm, hv, hvp⟩ := h.has
  have hown := getMsgFromHandle_own h.inv.base hb (by rw [hm]; exact hv)
  rw [hvp, hm] at hown
  exact ⟨k, v, iv, hown, hb, hm⟩

theorem Ready.request (h : Ready db p m s b) (hty : ipcCall ≤ m.type) {idx : Nat}
    (hidx : idx < maxIovec) : ∃ k invec, requestMsg db s.spm p m.handle idx = some k ∧
      (s.spm.conn k).internalMsg = { m with invec := invec } := by
  obtain ⟨k, v, iv, hg, -, hm⟩ := h.found
  refine ⟨k, iv, ?_, hm⟩
  have hty' : ¬ (s.spm.conn k).internalMsg.type < ipcCall := by
    rw [hm]
    exact Int.not_lt.2 hty
  simp only [requestMsg, hg, if_neg hty', if_neg (Nat.not_le.2 hidx)]

theorem takeIn_msg (s : RSt nS nP n) (k x : Chunk) (idx bytes : Nat) :
    ∃ invec, ((takeIn s k idx bytes).spm.conn x).internalMsg =
      { (s.spm.conn x).internalMsg with invec := invec } := by
  simp only [takeIn, setConn_conn]
  split
  · rename_i hx
    rw [hx]
    exact ⟨_, rfl⟩
  · exact ⟨_, rfl⟩

theorem ready_read (h : Ready db p m s b) (hty : ipcCall ≤ m.type) {idx : Nat}
    (hidx : idx < maxIovec) (num : Nat) :
    Ready db p m (psaRead db s p m.handle idx num true).1 b := by
  have hi : RInv db (psaRead db s p m.handle idx num true).1 := rinv_psaRead h.inv
  obtain ⟨k, v, iv, hb, hm, hv, hvp⟩ := h.has
  obtain ⟨x, ix, hreq, -⟩ := h.request hty hidx
  unfold psaRead at hi ⊢
  simp only [hreq, Bool.not_true, Bool.false_eq_true, if_false] at hi ⊢
  split
  · exact h
  · rename_i hlen
    rw [if_neg hlen] at hi
    obtain ⟨iv', hm'⟩ := takeIn_msg s x k idx
      (if (inVec s.spm x idx).len < num then (inVec s.spm x idx).len else num)
    rw [hm] at hm'
    exact ⟨hi, h.run, ⟨k, v, iv', hb, hm', hv, hvp⟩, h.room⟩

theorem ready_write (h : Ready db p m s b) (hty : ipcCall ≤ m.type) {num : Nat}
    (hnum : num ≤ b) : Ready db p m (psaWrite db s p m.handle 0 num true) (b - num) := by
  have hi : RInv db (psaWrite db s p m.handle 0 num true) := rinv_psaWrite h.inv
  obtain ⟨k, iv, hreq, hm⟩ := h.request hty (show 0 < maxIovec by decide)
  have hroom := h.room
  have hfits : ¬ (outSize m 0 - s.written m.rid 0 < num) := by omega
  unfold psaWrite at hi ⊢
  simp only [hreq, hm] at hi ⊢
  unfold outSize at hfits
  rw [if_neg hfits, if_neg (by simp)] at hi ⊢
  refine ⟨hi, h.run, h.has, ?_⟩
  simp only [Function.update_self]
  omega

/-- The reply to a request of a non-secure client. -/
theorem ready_reply {s₀ : RSt nS nP n} (h : Ready db p m s b) (hty : ipcCall ≤ m.type)
    (hc : m.clientId < 0) (hnew : m.rid ∉ s₀.spm.answered) (status : Int) :
    Served s₀ (serviceReply db s p m.handle status) m := by
  obtain ⟨k, v, iv, hg, hb, hm⟩ := h.found
  have hk : chunkOf m.handle = some k := (getMsgFromHandle_some hg).1
  have ht : turn db s.spm p m.handle = true := by
    simp [turn, hk, hb, hm, Busy.isDelivered]
  have hi : RInv db (serviceReply db s p m.handle status) := rinv_serviceReply h.inv h.run ht
  obtain ⟨s₁, ret, hr⟩ : ∃ s₁ ret, replyByType db s.spm k v m.handle status = some (s₁, ret) := by
    have h1 : ¬ m.type = ipcConnect := fun he => by rw [he] at hty; exact absurd hty (by decide)
    have h2 : ¬ m.type = ipcDisconnect := fun he => by
      rw [he] at hty
      exact absurd hty (by decide)
    simp only [replyByType, hm, if_neg h1, if_neg h2, if_pos hty]
    split
    · exact ⟨_, _, rfl⟩
    · exact ⟨_, _, rfl⟩
  obtain ⟨hspm, hrun⟩ := serviceReply_ns h.run (by rw [hm]; exact hc) hg hr
  refine ⟨hnew, ?_, hi.base.log.answeredNodup, ?_⟩
  · rw [hspm]
    show m.rid ∈ (s.spm.conn k).internalMsg.rid :: _
    rw [hm]
    exact List.mem_cons_self
  · rw [hspm]
    exact hrun

end Ready

end Tfm.L4.Spm
