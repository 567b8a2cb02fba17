import Mathlib.Data.List.Perm.Basic
import Tfm.L4Service.PsaProxyConn

/-!
# PSA proxy: dispatch

What the main loop of the proxy does with the messages of its services, as the
clients' requests come in between its steps
(secure_fw/partitions/psa_proxy/psa_proxy.c, `psa_proxy_sp_init`).

`psa_wait` reports every asserted signal at once, `psa_get` takes one only: a
loop that hands the whole word on panics as soon as two services have messages.
And `handle_signal` knows one type of call, while a client may send any.

Results:
* `dispatch_exactly_once`: in a run in which the loop never wakes up to two
  signals at once and what it serves is of the kind it can answer, every message
  sent is queued, under service or answered, once; `psa_get` always finds one
  and the lookup its service; and each step of the loop brings the answers
  nearer.
-/
namespace Tfm.L4.PsaProxy
open Spm (ipcCall ipcConnect ipcDisconnect psaSuccess psaErrorProgrammerError)

variable {nCell nConn : Nat} {s s' : St nCell nConn} {signal : Signal} {m : Msg nCell nConn}
  {o : Outcome}

/-! ## Signals and messages -/

/-- A service's signal is asserted exactly while it has messages. -/
structure SignalsOk (s : St nCell nConn) : Prop where
  queued : ∀ v : Service, s.signalsAsserted.getLsbD v.bit = true ↔ ∃ m ∈ s.msgList, m.service = v
  only : ∀ i, s.signalsAsserted.getLsbD i = true → ∃ v : Service, v.bit = i

/-- The loop has one signal in hand, and a message for it. -/
def InHand (s : St nCell nConn) : Prop :=
  ∀ signal, s.pc = .get signal → Signal.onlyOneBit signal = true ∧
    ∃ m ∈ s.msgList, m.service.signal = signal

/-- Every message sent is queued, under service or answered, once. -/
structure Accounted (s : St nCell nConn) : Prop where
  perm : (s.messages.map Msg.rid ++ s.answered).Perm s.sent
  nodup : s.sent.Nodup
  fresh : ∀ r ∈ s.sent, r < s.next

structure LoopInv (s : St nCell nConn) : Prop extends SignalsOk s, Accounted s where
  hand : InHand s

theorem Service.getLsbD_signal {v w : Service} :
    v.signal.getLsbD w.bit = true ↔ v = w := by
  rw [Service.signal, Signal.getLsbD_bit v.bit_lt, decide_eq_true_iff]
  exact ⟨Service.bit_inj, congrArg Service.bit⟩

theorem Service.signal_inj {v w : Service} (h : v.signal = w.signal) : v = w :=
  Service.getLsbD_signal.1 (h ▸ Service.getLsbD_signal.2 rfl)

theorem loopInv_init : LoopInv (init nCell nConn) where
  queued := by simp [init]
  only := by simp [init]
  perm := by simp [St.messages, init]
  nodup := by simp [init]
  fresh := by simp [init]
  hand := by simp [InHand, init]

theorem messages_send {k : Fin nConn} {type : Int} :
    (send s k type).messages = s.messages ++
      [⟨type, k, (s.conn k).client, (s.conn k).service, (s.conn k).rhandle, s.next⟩] := by
  unfold St.messages
  rw [show (send s k type).pc = s.pc from rfl]
  cases s.pc <;> rfl

theorem loopInv_send {k : Fin nConn} {type : Int} (h : LoopInv s) : LoopInv (send s k type) := by
  constructor
  · constructor
    · intro v
      simp only [send, BitVec.getLsbD_or, Bool.or_eq_true, h.queued v, Service.getLsbD_signal]
      simp [or_and_right, exists_or]
    · intro i hi
      simp only [send, BitVec.getLsbD_or, Bool.or_eq_true] at hi
      obtain hi | hi := hi
      · exact h.only i hi
      · rw [Service.signal, Signal.getLsbD_bit (Service.bit_lt _), decide_eq_true_iff] at hi
        exact ⟨_, hi⟩
  · constructor
    · rw [messages_send, List.map_append, List.map_singleton, List.append_assoc]
      exact List.perm_middle.trans (h.perm.cons s.next)
    · refine List.nodup_cons.2 ⟨fun hm => ?_, h.nodup⟩
      exact Nat.lt_irrefl _ (h.fresh _ hm)
    · intro r hr
      obtain rfl | hr := List.mem_cons.1 hr
      · exact Nat.lt_succ_self _
      · exact Nat.lt_succ_of_lt (h.fresh r hr)
  · intro signal hpc
    obtain ⟨hone, m, hm, hms⟩ := h.hand signal hpc
    exact ⟨hone, m, List.mem_append_left _ hm, hms⟩

/-- A change of connections only. -/
theorem loopInv_setConn {k : Fin nConn} {f : Conn nCell → Conn nCell} (h : LoopInv s) :
    LoopInv (s.setConn k f) :=
  ⟨⟨h.queued, h.only⟩, ⟨h.perm, h.nodup, h.fresh⟩, h.hand⟩

/-! ## Steps of the loop -/

theorem loopInv_wait (h : LoopInv s) (hone : Signal.onlyOneBit s.signalsAsserted = true)
    (hs : psaWait s = some s') : LoopInv s' := by
  unfold psaWait at hs
  split at hs
  · next hpc =>
    split at hs
    · cases hs
    · cases hs
      refine ⟨⟨h.queued, h.only⟩, ⟨?_, h.nodup, h.fresh⟩, ?_⟩
      · rw [messages_idle (by simp), ← messages_idle (s := s) (by simp [hpc])]
        exact h.perm
      · intro signal hsig
        cases hsig
        obtain ⟨i, hi, hbit⟩ := Signal.onlyOneBit_iff.1 hone
        have hset : s.signalsAsserted.getLsbD i = true := by
          rw [hbit, Signal.getLsbD_bit hi]
          simp
        obtain ⟨v, rfl⟩ := h.only i hset
        obtain ⟨m, hm, rfl⟩ := (h.queued v).1 hset
        exact ⟨hone, m, hm, hbit.symm⟩
  · cases hs

/-- With a message in hand `psa_get` retrieves one. -/
theorem psaGet_hand (h : LoopInv s) (hpc : s.pc = .get signal) :
    ∃ s₁ m, psaGet s signal = .msg s₁ m := by
  obtain ⟨hone, m, hm, hms⟩ := h.hand signal hpc
  have hbit : s.signalsAsserted &&& signal ≠ 0 := by
    rw [← hms]
    exact (Signal.and_bit_ne_zero m.service.bit_lt).2 ((h.queued _).2 ⟨m, hm, rfl⟩)
  have hne : s.signalsAsserted ≠ 0 := by
    intro hz
    exact hbit (by rw [hz]; simp)
  have hlist : s.msgList.isEmpty = false := by
    cases hl : s.msgList with
    | nil => simp [hl] at hm
    | cons => rfl
  unfold psaGet
  rw [if_neg (by simp [hone]), if_neg hne, if_neg hbit, if_neg (by simp [hlist])]
  unfold getMsgBySignal
  cases hf : s.msgList.find? fun m => m.service.signal == signal with
  | none =>
    have hno := List.find?_eq_none.1 hf m hm
    simp [hms] at hno
  | some x =>
    dsimp only
    rw [hf]
    exact ⟨_, _, rfl⟩

theorem loopInv_get (h : LoopInv s) (hs : handleGet s = some s') : LoopInv s' := by
  unfold handleGet at hs
  split at hs
  · next signal hpc =>
    obtain ⟨s₁, m, hget⟩ := psaGet_hand h hpc
    rw [hget] at hs
    obtain rfl := Option.some.inj hs
    obtain ⟨l₁, l₂, hl, hms, _, rfl⟩ := psaGet_msg hget
    have hidle := messages_idle (s := s) (by simp [hpc])
    refine ⟨⟨fun v => ?_, fun i hi => ?_⟩, ⟨?_, h.nodup, h.fresh⟩, ?_⟩
    · dsimp only
      by_cases hv : v.signal = signal
      · -- the signal served: asserted if another message has it
        have hvm : m.service = v := Service.signal_inj (hms.trans hv.symm)
        have hany : (l₁ ++ l₂).any (fun x => x.service.signal == signal) = true ↔
            ∃ x ∈ l₁ ++ l₂, x.service = v := by
          rw [List.any_eq_true]
          constructor
          · intro ⟨x, hx, hxs⟩
            exact ⟨x, hx, Service.signal_inj ((beq_iff_eq.1 hxs).trans hv.symm)⟩
          · intro ⟨x, hx, hxv⟩
            exact ⟨x, hx, beq_iff_eq.2 (hxv ▸ hv)⟩
        rw [← hany]
        split
        · next ha =>
          refine iff_of_true ((h.queued v).2 ⟨m, ?_, hvm⟩) ha
          simp [hl]
        · next ha =>
          refine iff_of_false ?_ ha
          rw [← hv]
          simp [Service.getLsbD_signal.2]
      · -- the others: unchanged
        have hvm : m.service ≠ v := fun he => hv (he ▸ hms)
        have hsame : (∃ x ∈ l₁ ++ l₂, x.service = v) ↔ ∃ x ∈ s.msgList, x.service = v := by
          rw [hl]
          constructor
          · intro ⟨x, hx, hxv⟩
            exact ⟨x, List.perm_middle.mem_iff.2 (List.mem_cons_of_mem m hx), hxv⟩
          · intro ⟨x, hx, hxv⟩
            obtain rfl | hx := List.mem_cons.1 (List.perm_middle.mem_iff.1 hx)
            · exact absurd hxv hvm
            · exact ⟨x, hx, hxv⟩
        rw [hsame, ← h.queued v]
        split
        · rfl
        · have hclear : signal.getLsbD v.bit = false := by
            rw [← hms, Bool.eq_false_iff, ne_eq, Service.getLsbD_signal]
            exact hvm
          rw [BitVec.getLsbD_and, BitVec.getLsbD_not, hclear]
          simp [v.bit_lt]
    · dsimp only at hi
      split at hi
      · exact h.only i hi
      · rw [BitVec.getLsbD_and, Bool.and_eq_true] at hi
        exact h.only i hi.1
    · have hperm := h.perm
      rw [hidle, hl] at hperm
      rw [messages_serve rfl]
      exact ((List.perm_middle.symm.map Msg.rid).append_right s.answered).trans hperm
    · intro signal' hpc'
      cases hpc'
  · cases hs

theorem handleServe_some (hs : handleServe s o = some s') :
    ∃ signal m, s.pc = .serve signal m ∧ s'.pc = .wait ∧ s'.msgList = s.msgList ∧
      s'.signalsAsserted = s.signalsAsserted ∧ s'.answered = m.rid :: s.answered ∧
      s'.sent = s.sent ∧ s'.next = s.next := by
  unfold handleServe at hs
  split at hs
  · next signal m hpc =>
    refine ⟨signal, m, hpc, ?_⟩
    split at hs
    · obtain ⟨⟨status, t⟩, hconn, hreply⟩ := Option.bind_eq_some_iff.1 hs
      obtain ⟨_, _, rfl, _⟩ := psaReply_some hreply
      obtain ⟨_, _, rfl⟩ | ⟨_, _, _, ⟨_, _, rfl⟩ | ⟨_, _, rfl⟩⟩ := psaConnect_cases hconn
      · exact ⟨rfl, rfl, rfl, rfl, rfl, rfl⟩
      · exact ⟨rfl, rfl, rfl, rfl, rfl, rfl⟩
      · exact ⟨rfl, rfl, rfl, rfl, rfl, rfl⟩
    split at hs
    · obtain ⟨_, _, hreply⟩ := Option.bind_eq_some_iff.1 hs
      obtain ⟨_, _, rfl, _⟩ := psaReply_some hreply
      exact ⟨rfl, rfl, rfl, rfl, rfl, rfl⟩
    split at hs
    · obtain ⟨t, hdis, hreply⟩ := Option.bind_eq_some_iff.1 hs
      obtain ⟨_, _, rfl, _⟩ := psaReply_some hreply
      unfold psaDisconnectFromSecureEnclave at hdis
      split at hdis
      · cases hdis
      · obtain rfl := Option.some.inj hdis
        exact ⟨rfl, rfl, rfl, rfl, rfl, rfl⟩
    · cases hs
  · cases hs

theorem loopInv_serve (h : LoopInv s) (hs : handleServe s o = some s') : LoopInv s' := by
  obtain ⟨signal, m, hpc, hw, hl, hsig, ha, hse, hn⟩ := handleServe_some hs
  refine ⟨⟨?_, ?_⟩, ⟨?_, ?_, ?_⟩, ?_⟩
  · rw [hsig, hl]
    exact h.queued
  · rw [hsig]
    exact h.only
  · have hperm := h.perm
    rw [messages_serve hpc] at hperm
    rw [messages_idle (by simp [hw]), hl, ha, hse]
    exact List.perm_middle.trans hperm
  · rw [hse]
    exact h.nodup
  · rw [hse, hn]
    exact h.fresh
  · intro signal' hpc'
    rw [hw] at hpc'
    cases hpc'

/-! ## Runs -/

/-- What comes back for a call is no `PSA_ERROR_PROGRAMMER_ERROR`. -/
def answerOk (o : Outcome) : Bool :=
  o.put != psaErrorProgrammerError &&
    (o.put != psaSuccess || !o.mailbox || o.reply != psaErrorProgrammerError)

/-- A message the loop can answer: a connect with a proper outcome, a plain call
that does not make `psa_reply` panic its secure client, or a disconnect. -/
def serveOk (s : St nCell nConn) (m : Msg nCell nConn) (o : Outcome) : Bool :=
  if m.type = ipcConnect then connectOk s o
  else if m.type = ipcCall then decide (m.client < 0) || answerOk o
  else m.type == ipcDisconnect

/-- The loop wakes up to one signal, and serves what it can answer. -/
def dispatchOk (s : St nCell nConn) (l : Lbl nConn) : Bool :=
  match s.pc, l with
  | .wait, .wait => Signal.onlyOneBit s.signalsAsserted
  | .serve _ m, .serve o => serveOk s m o
  | _, _ => true

theorem connectsOk_of_dispatchOk {l : Lbl nConn} (h : dispatchOk s l = true) :
    connectsOk s l = true := by
  unfold connectsOk
  split
  · next signal m o hpc =>
    simp only [dispatchOk, hpc] at h
    by_cases hty : m.type = ipcConnect
    · simpa [serveOk, hty] using h
    · simp [hty]
  · rfl

theorem loopInv_step {l : Lbl nConn} (h : LoopInv s) (hok : dispatchOk s l = true)
    (hs : step s l = some s') : LoopInv s' := by
  cases l with
  | connect k v c =>
    simp only [step, connect] at hs
    split at hs
    · cases hs
      exact loopInv_send (loopInv_setConn h)
    · cases hs
  | call k t =>
    simp only [step, call] at hs
    split at hs
    · cases hs
      exact loopInv_send h
    · cases hs
  | close k =>
    simp only [step, close] at hs
    split at hs
    · cases hs
      exact loopInv_send (loopInv_setConn h)
    · cases hs
  | wait =>
    refine loopInv_wait h ?_ hs
    have hpc : s.pc = .wait := by
      simp only [step, psaWait] at hs
      split at hs
      · assumption
      · cases hs
    simpa [dispatchOk, hpc] using hok
  | get => exact loopInv_get h hs
  | serve o => exact loopInv_serve h hs

theorem loopInv_reachable
    (h : ((lts nCell nConn).restrict fun s l => dispatchOk s l = true).Reachable s) :
    LoopInv s := by
  refine LTS.Inductive.reachable ⟨?_, ?_⟩ s h
  · intro s hs
    rw [show s = init nCell nConn from hs]
    exact loopInv_init
  · intro s l s' hi hs
    exact loopInv_step hi hs.1 hs.2

/-! ## Progress -/

def Lbl.ofLoop : Lbl nConn → Bool
  | .wait | .get | .serve _ => true
  | _ => false

/-- The steps of the loop until every message is answered, if no more come. -/
def work (s : St nCell nConn) : Nat :=
  match s.pc with
  | .wait => 3 * s.msgList.length
  | .get _ => 3 * s.msgList.length - 1
  | .serve _ _ => 3 * s.msgList.length + 1

theorem asserted_iff (h : SignalsOk s) : s.signalsAsserted ≠ 0 ↔ s.msgList ≠ [] := by
  constructor
  · intro hne hnil
    refine hne (BitVec.eq_of_getLsbD_eq fun i _ => ?_)
    cases hi : s.signalsAsserted.getLsbD i with
    | false => simp
    | true =>
      obtain ⟨v, rfl⟩ := h.only i hi
      obtain ⟨m, hm, _⟩ := (h.queued v).1 hi
      simp [hnil] at hm
  · intro hne hz
    obtain ⟨m, hm⟩ := List.exists_mem_of_ne_nil _ hne
    have hbit := (h.queued m.service).2 ⟨m, hm, rfl⟩
    simp [hz] at hbit

theorem work_step {l : Lbl nConn} (h : LoopInv s) (hl : l.ofLoop = true)
    (hs : step s l = some s') : work s' < work s := by
  cases l with
  | connect k v c => cases hl
  | call k t => cases hl
  | close k => cases hl
  | wait =>
    simp only [step, psaWait] at hs
    split at hs
    · next hpc =>
      split at hs
      · cases hs
      · next hne =>
        cases hs
        have hpos := List.length_pos_of_ne_nil ((asserted_iff h.toSignalsOk).1 hne)
        simp only [work, hpc]
        omega
    · cases hs
  | get =>
    simp only [step, handleGet] at hs
    split at hs
    · next signal hpc =>
      obtain ⟨s₁, m, hget⟩ := psaGet_hand h hpc
      rw [hget] at hs
      obtain rfl := Option.some.inj hs
      obtain ⟨l₁, l₂, hlist, _, _, rfl⟩ := psaGet_msg hget
      have hlen : s.msgList.length = (l₁ ++ l₂).length + 1 := by
        rw [hlist]
        simp
        omega
      simp only [work, hpc, hlen]
      omega
    · cases hs
  | serve o =>
    obtain ⟨signal, m, hpc, hw, hlist, _⟩ := handleServe_some hs
    simp only [work, hpc, hw, hlist]
    omega

theorem psaReply_call {status : Int} (hty : m.type = ipcCall)
    (hpe : status = psaErrorProgrammerError → m.client < 0) :
    ∃ t, psaReply s m status = some t := by
  unfold psaReply
  rw [if_neg (by rw [hty]; decide), if_neg (by rw [hty]; decide)]
  split
  · next hp =>
    rw [if_pos (hpe hp)]
    exact ⟨_, rfl⟩
  · exact ⟨_, rfl⟩

/-- A message of the kind the loop can answer is answered. -/
theorem serve_answers (h : ConnInv s) (hsig : ServesSignal s) (hpc : s.pc = .serve signal m)
    (hok : serveOk s m o = true) :
    ∃ s', handleServe s o = some s' ∧ s'.answered = m.rid :: s.answered := by
  have hanswered : ∀ {t}, handleServe s o = some t → t.answered = m.rid :: s.answered := by
    intro t ht
    obtain ⟨_, _, hpc', _, _, _, ha, _⟩ := handleServe_some ht
    rw [hpc] at hpc'
    cases hpc'
    exact ha
  unfold serveOk at hok
  split at hok
  · next hty =>
    obtain ⟨t, ht, _⟩ := (connectAnswered_iff hsig hpc hty h.nodup).2 hok
    exact ⟨t, ht, hanswered ht⟩
  next hnc =>
  obtain ⟨c, hc, _⟩ := (agreed_of_connInv h).reads signal m hpc hnc
  split at hok
  · next hty =>
    have hreply : ∃ status, forwardPsaCallToSecureEnclave m o = some status ∧
        (status = psaErrorProgrammerError → m.client < 0) := by
      unfold forwardPsaCallToSecureEnclave
      rw [hc]
      rw [Bool.or_eq_true, decide_eq_true_iff] at hok
      refine ⟨_, (apply_ite some _ _ _).symm, fun hp => hok.resolve_right fun ha => ?_⟩
      unfold answerOk at ha
      split at hp
      · simp [hp] at ha
      · next hput =>
        rw [not_not] at hput
        split at hp
        · next hmb => simp [hput, hmb, hp] at ha
        · exact absurd hp (by decide)
    obtain ⟨status, hst, hpe⟩ := hreply
    obtain ⟨t, hreply⟩ := psaReply_call (s := s) hty hpe
    have ht : handleServe s o = some t := by
      simp [handleServe, hpc, hty, hst, hreply, ipcCall, ipcConnect]
    exact ⟨t, ht, hanswered ht⟩
  · next hncall =>
    have hd : m.type = ipcDisconnect := beq_iff_eq.1 hok
    have hsome : ∃ t, handleServe s o = some t := by
      simp only [handleServe, hpc, hd, if_true,
        psaDisconnectFromSecureEnclave, hc, Option.bind_some, psaReply]
      exact ⟨_, rfl⟩
    obtain ⟨t, ht⟩ := hsome
    exact ⟨t, ht, hanswered ht⟩

/-! ## Results -/

/-- What the loop owes its clients. -/
structure Dispatched (s : St nCell nConn) : Prop where
  /-- every message sent is queued, under service or answered, once -/
  accounted : (s.messages.map Msg.rid ++ s.answered).Perm s.sent ∧ s.sent.Nodup
  wakes : s.pc = .wait → s.msgList ≠ [] → ∃ s', psaWait s = some s'
  /-- `psa_get` does not panic and finds a message -/
  retrieves : ∀ signal, s.pc = .get signal → ∃ s₁ m, psaGet s signal = .msg s₁ m
  /-- the lookup does not come to its default branch -/
  looksUp : ∀ signal m, s.pc = .serve signal m →
    getSidAndVersionForSignal signal = some (m.service.sid, m.service.version)
  answers : ∀ signal m o, s.pc = .serve signal m → serveOk s m o = true →
    ∃ s', handleServe s o = some s' ∧ s'.answered = m.rid :: s.answered
  nearer : ∀ (l : Lbl nConn) s', l.ofLoop = true → step s l = some s' → work s' < work s

/-- **Dispatch**: in a run in which the loop wakes up to one signal at a time and
serves only what it can answer, every message sent is answered once, without a
panic in `psa_get` or in the lookup of the service. -/
theorem dispatch_exactly_once
    (h : ((lts nCell nConn).restrict fun s l => dispatchOk s l = true).Reachable s) :
    Dispatched s := by
  have hloop := loopInv_reachable h
  have hconn := connInv_reachable (LTS.restrict_mono (fun _ _ => connectsOk_of_dispatchOk) h)
  have hsig := servesSignal_reachable (LTS.restrict_reachable h)
  refine ⟨⟨hloop.perm, hloop.nodup⟩, fun hpc hne => ?_, fun signal hpc => psaGet_hand hloop hpc,
    fun signal m hpc => ?_, fun signal m o hpc hok => serve_answers hconn hsig hpc hok,
    fun l s' hl hs => work_step hloop hl hs⟩
  · refine ⟨{ s with pc := .get s.signalsAsserted }, ?_⟩
    simp only [psaWait, hpc]
    rw [if_neg ((asserted_iff hloop.toSignalsOk).2 hne)]
  · rw [← hsig signal m hpc]
    exact lookup_signal m.service

/-- Two clients of the crypto service connect; the first message is answered. -/
theorem dispatch_two_clients : ∃ s : St 2 2, Dispatched s ∧
    s.pc = .get Service.crypto.signal ∧ s.answered = [0] ∧ s.msgList.map Msg.rid = [1] := by
  have he : (LTS.execC dispatchOk step (init 2 2) [.connect 0 .crypto 1, .wait, .get,
      .connect 1 .crypto (-1), .serve ⟨0, true, 5⟩, .wait]).map
      (fun s => (s.pc, s.answered, s.msgList.map Msg.rid)) =
      some (.get Service.crypto.signal, [0], [1]) := by decide +kernel
  obtain ⟨s, hs, hv⟩ := Option.map_eq_some_iff.1 he
  simp only [Prod.mk.injEq] at hv
  exact ⟨s, dispatch_exactly_once (LTS.reachable_execC (fun _ _ h => h) _ rfl hs), hv⟩

/-- **Counterexample**: requests to two services before the loop wakes up, and
`psa_get` panics on the two signals it is given. -/
theorem two_services_panic : ∃ s : St 2 2, (lts 2 2).Reachable s ∧ ¬ Dispatched s ∧
    ∃ signal, s.pc = .get signal ∧ handleGet s = none := by
  have he : (LTS.exec step (init 2 2) [.connect 0 .crypto 1, .connect 1 .itsGet 2, .wait]).map
      (fun s => (s.pc, (handleGet s).isNone)) =
      some (.get (Service.crypto.signal ||| Service.itsGet.signal), true) := by decide +kernel
  obtain ⟨s, hs, hv⟩ := Option.map_eq_some_iff.1 he
  simp only [Prod.mk.injEq] at hv
  obtain ⟨hpc, hnone⟩ := hv
  have hget : handleGet s = none := Option.isNone_iff_eq_none.1 hnone
  refine ⟨s, LTS.reachable_exec _ (.init rfl) hs, fun hd => ?_, _, hpc, hget⟩
  obtain ⟨s₁, m, hm⟩ := hd.retrieves _ hpc
  simp [handleGet, hpc, hm] at hget

end Tfm.L4.PsaProxy
