import Tfm.L4Service.SpmInv

/-!
# SPM: one outstanding message for each connection

A connection handle embeds the one message of its connection, and nothing but
the `status` of the handle says whether that message is in use. `psa_get` sets
`status` to active and `psa_reply` clears it, but between a client call and the
`psa_get` that takes its message the handle still looks idle: a second call, or
a close, on the same handle fills the queued message again and inserts its node
a second time. A mailbox client may do that, since several of its requests may
be outstanding.

`exclusive` is the condition under which this does not happen.

Results:
* `inv_inductive`: the invariant of every run whose steps are exclusive.
* `oneMsg_reachable`: in every such run no message in use is filled again, the
  message lists are lists without duplicates of exactly the queued messages,
  every accepted request is queued, with its service or answered, is delivered
  and answered at most once, and can be delivered and answered.
* `oneMsg_fails_on_second_call`: two calls on one handle before `psa_get`.
-/
namespace Tfm.L4.Spm
open Tfm.BiList

variable {nS nP : Nat} {db : Db nS nP} {s : St nS nP}

/-! ## Condition -/

/-- The existing chunk whose message a client call would fill. -/
def Lbl.target (db : Db nS nP) (s : St nS nP) (l : Lbl nP) : Option Chunk :=
  match l.callReq with
  | some (c, a, _) =>
    if l.vetted db then connTarget s a.handle (c.id db) (· == .idle) else none
  | none =>
    match l with
    | .close c h _ => connTarget s h (c.id db) (· != .active)
    | _ => none

def Busy.isDelivered : Busy → Bool
  | .delivered _ => true
  | _ => false

/-- A client call that passes the checks is on an allocated chunk whose message
is neither queued nor with the service, and a service answers only messages it
was delivered. -/
def exclusive (db : Db nS nP) (s : St nS nP) (l : Lbl nP) : Bool :=
  (l.target db s).all (fun k => s.alloc k && s.busy k == .idle) &&
    match l with
    | .reply p h _ => (getMsgFromHandle db s p h).all fun x => (s.busy x.1).isDelivered
    | _ => true

theorem call_target {l : Lbl nP} {c : Caller nP} {a : CallArgs} {cd : Option Nat} {k : Chunk}
    {v : Fin nS} (hq : l.callReq = some (c, a, cd)) (hvet : l.vetted db = true)
    (hs : staticIndex a.handle = none) (hk : validateConnHandle s a.handle (c.id db) = some k)
    (hst : (s.conn k).status = .idle) (hv : (s.conn k).service = some v) :
    l.target db s = some k := by
  simp only [Lbl.target, hq, hvet, if_true]
  exact connTarget_eq hs hk (by simp [hst]) hv

theorem close_target {c : Caller nP} {h : UInt32} {cd : Option Nat} {k : Chunk} {v : Fin nS}
    (hs : staticIndex h = none) (hk : validateConnHandle s h (c.id db) = some k)
    (hst : (s.conn k).status ≠ .active) (hv : (s.conn k).service = some v) :
    (Lbl.close c h cd).target db s = some k := by
  show connTarget s h (c.id db) (· != .active) = some k
  exact connTarget_eq hs hk (by simp [hst]) hv

theorem exclusive_target {l : Lbl nP} {k : Chunk} (hx : exclusive db s l = true)
    (hk : l.target db s = some k) : s.alloc k = true ∧ s.busy k = .idle := by
  unfold exclusive at hx
  rw [Bool.and_eq_true, hk] at hx
  simpa using hx.1

theorem exclusive_reply {p : Fin nP} {h : UInt32} {st : Int} {k : Chunk} {v : Fin nS}
    (hx : exclusive db s (.reply p h st) = true)
    (hg : getMsgFromHandle db s p h = some (k, v)) : ∃ r, s.busy k = .delivered r := by
  simp only [exclusive, Bool.and_eq_true, hg, Option.all_some] at hx
  have hd := hx.2
  cases hb : s.busy k with
  | idle => simp [hb, Busy.isDelivered] at hd
  | queued r => simp [hb, Busy.isDelivered] at hd
  | delivered r => exact ⟨r, rfl⟩

/-! ## Invariant -/

structure Inv (db : Db nS nP) (s : St nS nP) : Prop where
  pool : ∃ free hl, PoolInv s free hl
  msgs : ∃ ml, MsgInv db s ml
  log : LogInv s

theorem family_emptyLinks (H : Type) :
    Family (emptyLinks H) .head fun _ => ([] : List Chunk).map .chunk := by
  refine ⟨fun h => ⟨⟨rfl, rfl⟩, by simp⟩, fun i j hij y hy hy' => ?_⟩
  simp only [List.map_nil, List.mem_singleton] at hy hy'
  rw [hy] at hy'
  cases hy'
  exact hij rfl

theorem poolInv_init (nS nP : Nat) :
    PoolInv (init nS nP) (List.finRange connHandleMaxNum) fun _ => [] := by
  refine ⟨?_, family_emptyLinks _, ?_, ?_, ?_⟩
  · have hl := IsList.foldl_insertBefore ((List.finRange connHandleMaxNum).map Node.chunk)
      ((family_emptyLinks Unit).isList ()) ?_ ?_
    · rwa [List.foldl_map] at hl
    · exact (List.nodup_finRange _).map fun _ _ h => Node.chunk.inj h
    · simp
  · simp [init]
  · simp [init]
  · simp [init]

theorem msgInv_init (db : Db nS nP) : MsgInv db (init nS nP) fun _ => [] := by
  refine ⟨family_emptyLinks _, ?_, ?_, ?_, ?_, ?_, ?_⟩ <;> simp [init]

theorem inv_init (db : Db nS nP) : Inv db (init nS nP) := by
  refine ⟨⟨_, _, poolInv_init nS nP⟩, ⟨_, msgInv_init db⟩, ?_⟩
  constructor <;> simp [init]

/-- State no part of the invariant looks at. -/
theorem Inv.similar {s' : St nS nP} (h : Inv db s) (hp : s'.pool = s.pool)
    (hh : s'.handles = s.handles) (hm : s'.msgs = s.msgs) (ha : s'.alloc = s.alloc)
    (hs : s'.asserted = s.asserted) (hb : s'.busy = s.busy)
    (ho : s'.overwritten = s.overwritten) (hn : s'.next = s.next)
    (hac : s'.accepted = s.accepted) (hd : s'.delivered = s.delivered)
    (hr : s'.answered = s.answered)
    (hc : ∀ k, (s'.conn k).service = (s.conn k).service ∧
      (s'.conn k).status = (s.conn k).status ∧
      (s'.conn k).internalMsg.Same (s.conn k).internalMsg) : Inv db s' := by
  obtain ⟨⟨free, hl, hpool⟩, ⟨ml, hmsg⟩, hlog⟩ := h
  refine ⟨⟨free, hl, hpool.congr hp hh ha fun k => (hc k).1⟩, ⟨ml, ?_⟩,
    hlog.congr ho hn hac hd hr hb⟩
  refine hmsg.congr hm hs hb ?_ ?_ ?_
  · intro k hk
    rw [ha]
    exact hmsg.busyAlloc k hk
  · intro k
    rw [(hc k).2.1]
  · intro k _
    exact (hc k).2.2

theorem Inv.congr {s' : St nS nP} (h : Inv db s) (hp : s'.pool = s.pool)
    (hh : s'.handles = s.handles) (hm : s'.msgs = s.msgs) (ha : s'.alloc = s.alloc)
    (hs : s'.asserted = s.asserted) (hb : s'.busy = s.busy)
    (ho : s'.overwritten = s.overwritten) (hn : s'.next = s.next)
    (hac : s'.accepted = s.accepted) (hd : s'.delivered = s.delivered)
    (hr : s'.answered = s.answered)
    (hc : ∀ k, (s'.conn k).service = (s.conn k).service ∧
      (s'.conn k).status = (s.conn k).status ∧
      (s'.conn k).internalMsg = (s.conn k).internalMsg) : Inv db s' :=
  h.similar hp hh hm ha hs hb ho hn hac hd hr fun k =>
    ⟨(hc k).1, (hc k).2.1, .of_eq (hc k).2.2⟩

theorem inv_create {s₁ : St nS nP} {v : Fin nS} {c : Int} {k : Chunk} (h : Inv db s)
    (hn : createConnHandle s v c = some (k, s₁)) :
    Inv db s₁ ∧ s₁.alloc k = true ∧ s₁.busy k = .idle ∧ s.alloc k ≠ true := by
  obtain ⟨⟨free, hl, hpool⟩, ⟨ml, hmsg⟩, hlog⟩ := h
  have hmsg' := hmsg.create hpool hn
  obtain ⟨free', hl', hpool'⟩ := hpool.create hn
  obtain ⟨free₀, rfl, rfl⟩ := createConnHandle_some hpool hn
  have hna : s.alloc k ≠ true := fun ha => (hpool.alloc k).1 ha List.mem_cons_self
  refine ⟨⟨⟨free', hl', hpool'⟩, ⟨ml, hmsg'⟩, hlog.congr rfl rfl rfl rfl rfl rfl⟩, ?_,
    hmsg.idle_of_free hna, hna⟩
  simp

theorem inv_send {k : Chunk} {v : Fin nS} {handle : UInt32} {type clientId : Int}
    {invec outvec : List Vec} {callerOutvec : Nat} {cd : Option Nat} {o : Origin} (h : Inv db s)
    (hidle : s.busy k = .idle) (ha : s.alloc k = true) (hk : chunkOf handle = some k) :
    Inv db (sendEvent db (fillMsg s k v handle type clientId invec outvec callerOutvec cd o)
      v k) := by
  obtain ⟨⟨free, hl, hpool⟩, ⟨ml, hmsg⟩, hlog⟩ := h
  refine ⟨⟨free, hl, hpool.congr rfl rfl rfl ?_⟩, hmsg.send hidle ha hk, hlog.send hidle⟩
  intro x
  simp only [sendEvent, fillMsg, setConn_conn]
  split
  · rename_i hx
    rw [hx]
  · rfl

theorem inv_stateless {k : Chunk} (h : Inv db s) : Inv db (statelessConn s k) := by
  refine h.congr rfl rfl rfl rfl rfl rfl rfl rfl rfl rfl rfl fun x => ?_
  simp only [statelessConn, setConn_conn]
  split
  · rename_i hx
    simp [hx]
  · simp

theorem inv_get {p : Fin nP} {signal : Nat} {m : Links (Node (Fin nP))} {clear : Bool}
    {k : Chunk} (h : Inv db s)
    (hf : findMsg db s.conn p signal walkFuel s.msgs (s.msgs.next (.head p)) none =
      some (m, some k, clear)) : Inv db (taken s p signal m clear k) := by
  obtain ⟨⟨free, hl, hpool⟩, ⟨ml, hmsg⟩, hlog⟩ := h
  obtain ⟨⟨r, hq⟩, hmsg'⟩ := hmsg.get hf
  have hrid := hmsg.rid k r (.inl hq)
  refine ⟨⟨free, hl, hpool.congr rfl rfl rfl ?_⟩, hmsg', ?_⟩
  · intro x
    simp only [taken, setConn_conn]
    split
    · rename_i hx
      rw [hx]
    · rfl
  · refine hlog.get hq rfl rfl rfl ?_ rfl ?_
    · simp only [taken, hrid]
    · intro x
      simp only [taken, hrid, Function.update_apply]

theorem inv_reply {k : Chunk} {v : Fin nS} {h : UInt32} {st ret : Int} {s₁ : St nS nP} {r : Nat}
    (hi : Inv db s) (hd : s.busy k = .delivered r)
    (hr : replyByType db s k v h st = some (s₁, ret)) : Inv db (replied s s₁ k ret) := by
  obtain ⟨⟨free, hl, hpool⟩, ⟨ml, hmsg⟩, hlog⟩ := hi
  have hrid := hmsg.rid k r (.inr hd)
  have hsv : ∀ x, ((replied s s₁ k ret).conn x).service = (s₁.conn x).service := by
    intro x
    simp only [replied, setConn_conn]
    split
    · rename_i hx
      rw [hx]
    · rfl
  have hans : (replied s s₁ k ret).answered = r :: s.answered := by simp only [replied, hrid]
  have hbusy : ∀ x, (replied s s₁ k ret).busy x = if x = k then .idle else s.busy x := by
    intro x
    simp only [replied, Function.update_apply]
  rcases replyByType_kept hr with ⟨g, rfl⟩ | rfl
  · refine ⟨⟨free, hl, hpool.congr rfl rfl rfl hsv⟩, ⟨ml, ?_⟩, ?_⟩
    · exact hmsg.reply hd rfl rfl (fun _ _ => rfl) fun _ _ => rfl
    · exact hlog.reply hd rfl rfl rfl rfl hans hbusy
  · obtain ⟨free', hl', hpool'⟩ := hpool.free (hmsg.busyAlloc k (by simp [hd]))
    refine ⟨⟨free', hl', hpool'.congr rfl rfl rfl hsv⟩, ⟨ml, ?_⟩, ?_⟩
    · refine hmsg.reply hd rfl rfl ?_ ?_
      · intro x hx
        simp [freeConnHandle, hx]
      · intro x hx
        simp [freeConnHandle, setConn_conn, hx]
    · exact hlog.reply hd rfl rfl rfl rfl hans hbusy

theorem inv_trans {s' : St nS nP} {l : Lbl nP} (h : Inv db s) (hx : exclusive db s l = true)
    (ht : Trans db s l s') : Inv db s' := by
  cases ht with
  | stay l b =>
    exact h.congr rfl rfl rfl rfl rfl rfl rfl rfl rfl rfl rfl fun _ => ⟨rfl, rfl, rfl⟩
  | connect hb hn =>
    obtain ⟨h₁, ha, hidle, -⟩ := inv_create h hn
    refine inv_send ?_ hidle ha (chunkOf_toUserHandle _ _)
    exact h₁.congr rfl rfl rfl rfl rfl rfl rfl rfl rfl rfl rfl fun _ => ⟨rfl, rfl, rfl⟩
  | call hq hvet hs hk hst hv =>
    obtain ⟨ha, hidle⟩ := exclusive_target hx (call_target hq hvet hs hk hst hv)
    exact inv_send h hidle ha (validateConnHandle_some hk).1
  | callStatic hq hvet hok hs hn =>
    obtain ⟨h₁, ha, hidle, -⟩ := inv_create h hn
    exact inv_send (inv_stateless h₁) hidle ha (chunkOf_toUserHandle _ _)
  | leak b hl hn =>
    obtain ⟨h₁, -⟩ := inv_create h hn
    exact (inv_stateless h₁).congr rfl rfl rfl rfl rfl rfl rfl rfl rfl rfl rfl
      fun _ => ⟨rfl, rfl, rfl⟩
  | close hs hk hst hv =>
    obtain ⟨ha, hidle⟩ := exclusive_target hx (close_target hs hk hst hv)
    exact (inv_send h hidle ha (validateConnHandle_some hk).1).congr rfl rfl rfl rfl rfl rfl rfl
      rfl rfl rfl rfl fun _ => ⟨rfl, rfl, rfl⟩
  | get _ _ hf => exact inv_get h hf
  | getNone _ _ hf =>
    obtain ⟨⟨free, hl, hpool⟩, ⟨ml, hmsg⟩, hlog⟩ := h
    exact ⟨⟨free, hl, hpool.congr rfl rfl rfl fun _ => rfl⟩, ⟨ml, hmsg.getNone hf⟩,
      hlog.congr rfl rfl rfl rfl rfl rfl⟩
  | reply hg hr =>
    obtain ⟨r, hd⟩ := exclusive_reply hx hg
    exact inv_reply h hd hr

theorem inv_inductive (db : Db nS nP) :
    ((lts db).restrict fun s l => exclusive db s l = true).Inductive (Inv db) where
  init := by
    intro s hx
    subst hx
    exact inv_init db
  step := by
    intro s l s' h hs
    exact inv_trans h hs.1 (step_trans hs.2)

theorem inv_reachable (db : Db nS nP) (s : St nS nP)
    (h : ((lts db).restrict fun s l => exclusive db s l = true).Reachable s) : Inv db s :=
  (inv_inductive db).reachable s h

/-! ## One outstanding message -/

/-- One message list: its nodes are linked both ways, none twice, and are
exactly the queued messages of the partition; `psa_get` with the signal of a
queued message delivers the first one that has it. -/
structure QueueOk (db : Db nS nP) (s : St nS nP) (p : Fin nP) (l : List Chunk) : Prop where
  list : IsList s.msgs (.head p) (l.map .chunk)
  queued : ∀ k, k ∈ l ↔ ∃ r v, s.busy k = .queued r ∧
    (s.conn k).internalMsg.service = some v ∧ (db.service v).partition = p
  deliver : ∀ signal, (∃ k ∈ l, signalOf db s.conn k = some signal) →
    ∃ l₁ k l₂ s', l = l₁ ++ k :: l₂ ∧ (∀ x ∈ l₁, signalOf db s.conn x ≠ some signal) ∧
      signalOf db s.conn k = some signal ∧
      psaGet db s p signal true = some (s', some (s.conn k).internalMsg) ∧
      s'.delivered = (s.conn k).internalMsg.rid :: s.delivered

structure OneMsg (db : Db nS nP) (s : St nS nP) : Prop where
  /-- no message was filled while queued or with the service -/
  kept : s.overwritten = false
  queues : ∀ p, ∃ l, QueueOk db s p l
  acceptedOnce : s.accepted.Nodup
  deliveredOnce : s.delivered.Nodup
  answeredOnce : s.answered.Nodup
  deliveredAccepted : ∀ r ∈ s.delivered, r ∈ s.accepted
  answeredDelivered : ∀ r ∈ s.answered, r ∈ s.delivered
  /-- a request that is not delivered is queued, in a message that is still its own -/
  notDelivered : ∀ r ∈ s.accepted, r ∉ s.delivered →
    ∃ k, s.busy k = .queued r ∧ (s.conn k).internalMsg.rid = r
  /-- a delivered request that is not answered is found by `psa_reply` -/
  notAnswered : ∀ r ∈ s.delivered, r ∉ s.answered →
    ∃ k v, s.busy k = .delivered r ∧ (s.conn k).internalMsg.rid = r ∧
      getMsgFromHandle db s (db.service v).partition (s.conn k).internalMsg.handle = some (k, v)

theorem MsgInv.deliver {ml : Fin nP → List Chunk} (h : MsgInv db s ml) {p : Fin nP}
    {signal : Nat} (hk : ∃ k ∈ ml p, signalOf db s.conn k = some signal) :
    ∃ l₁ k l₂ s', ml p = l₁ ++ k :: l₂ ∧ (∀ x ∈ l₁, signalOf db s.conn x ≠ some signal) ∧
      signalOf db s.conn k = some signal ∧
      psaGet db s p signal true = some (s', some (s.conn k).internalMsg) ∧
      s'.delivered = (s.conn k).internalMsg.rid :: s.delivered := by
  obtain ⟨j, hj, hjs⟩ := hk
  have hne : isEmpty s.msgs (.head p) = false := by
    by_contra hc
    have hnil := (h.msgs.isList p).isEmpty_iff.1 (by simpa using hc)
    rw [List.map_eq_nil_iff] at hnil
    rw [hnil] at hj
    cases hj
  have hass : s.asserted p signal = true := by
    obtain ⟨r, v, hq, hv, hp⟩ := (h.queue j p).1 hj
    have hs := h.signal j r v hq hv
    have hsig : (db.service v).signal = signal := by simpa [signalOf, hv] using hjs
    rwa [hp, hsig] at hs
  rcases findMsg_spec db signal (h.queued_service p) (h.msgs.isList p) with
    ⟨hno, -⟩ | ⟨l₁, k, l₂, hl, hno, hk, he⟩
  · exact absurd hjs (hno j hj)
  · refine ⟨l₁, k, l₂, taken s p signal (removeNode s.msgs (.chunk k))
      (l₂.all fun x => signalOf db s.conn x != some signal) k, hl, hno, hk, ?_, rfl⟩
    simp only [psaGet, hass, hne, he, Bool.not_true, Bool.or_self, Bool.false_eq_true, if_false]
    rfl

theorem Inv.oneMsg (h : Inv db s) : OneMsg db s := by
  obtain ⟨-, ⟨ml, hmsg⟩, hlog⟩ := h
  refine ⟨hlog.kept, fun p => ⟨ml p, ?_⟩, hlog.acceptedNodup, hlog.deliveredNodup,
    hlog.answeredNodup, hlog.deliveredAccepted, hlog.answeredDelivered, ?_, ?_⟩
  · exact ⟨hmsg.msgs.isList p, fun k => hmsg.queue k p, fun signal hk => hmsg.deliver hk⟩
  · intro r ha hd
    obtain ⟨k, hk⟩ := (hlog.queued r).2 ⟨ha, hd⟩
    exact ⟨k, hk, hmsg.rid k r (.inl hk)⟩
  · intro r hd hn
    obtain ⟨k, hk⟩ := (hlog.inService r).2 ⟨hd, hn⟩
    obtain ⟨v, hv, hmag, hch⟩ := hmsg.own k (by simp [hk])
    refine ⟨k, v, hk, hmsg.rid k r (.inr hk), ?_⟩
    simp [getMsgFromHandle, hch, hmag, hv]

/-- **In every run in which no client calls on a handle whose message is in
use and no service answers what it was not delivered, each connection has at
most one outstanding message**: none is filled or queued twice, and every
accepted request is delivered once and answered once or is still on its way. -/
theorem oneMsg_reachable (db : Db nS nP) (s : St nS nP)
    (h : ((lts db).restrict fun s l => exclusive db s l = true).Reachable s) : OneMsg db s :=
  (inv_reachable db s h).oneMsg

/-- One connection-based service of one partition, open to non-secure
clients. -/
def oneService : Db 1 1 where
  service _ := ⟨0x1000, 0, 4, true, true, 1, .strict⟩
  partition _ := ⟨1, []⟩
  stateless _ := none
  halMemoryHasAccess _ := true

/-- Client -1 connects, and the service accepts the connection with the handle
194. -/
def openConn : List (Lbl 1) := [.connect (.ns (-1)) 0x1000 1 none, .get 0 4 true, .reply 0 194 0]

/-- A mailbox `psa_call` of client -1 on that handle. -/
def callConn (type : Int) : Lbl 1 := .callRpc (-1) ⟨194, type, 0, [], 0, []⟩ none

theorem oneMsg_reachable_call_close :
    ∃ s : St 1 1, OneMsg oneService s ∧ s.accepted = [2, 1, 0] ∧ s.answered = [2, 1, 0] := by
  have he : (LTS.execC (exclusive oneService) (step oneService) (init 1 1)
      (openConn ++ [callConn 3, .get 0 4 true, .reply 0 194 0, .close (.ns (-1)) 194 none,
        .get 0 4 true, .reply 0 194 0])).map (fun s => (s.accepted, s.answered)) =
      some ([2, 1, 0], [2, 1, 0]) := by decide +kernel
  obtain ⟨s, hs, hv⟩ := Option.map_eq_some_iff.1 he
  rw [Prod.mk.injEq] at hv
  exact ⟨s, oneMsg_reachable oneService s (LTS.reachable_execC (fun _ _ h => h) _ rfl hs), hv⟩

/-- **Counterexample**: two mailbox requests of one client on one handle, before
the service takes the first. Both are accepted, the second overwrites the first,
which is then neither delivered nor queued. -/
theorem oneMsg_fails_on_second_call :
    ∃ s : St 1 1, (lts oneService).Reachable s ∧ s.overwritten = true ∧
      s.accepted = [2, 1, 0] ∧ s.delivered = [0] ∧ s.busy 0 = .queued 2 ∧
      ¬ OneMsg oneService s := by
  have he : (LTS.exec (step oneService) (init 1 1)
      (openConn ++ [callConn 0, callConn 0])).map
        (fun s => (s.overwritten, s.accepted, s.delivered, s.busy 0)) =
      some (true, [2, 1, 0], [0], .queued 2) := by decide +kernel
  obtain ⟨s, hs, hv⟩ := Option.map_eq_some_iff.1 he
  simp only [Prod.mk.injEq] at hv
  obtain ⟨ho, ha, hd, hb⟩ := hv
  refine ⟨s, LTS.reachable_exec _ (.init rfl) hs, ho, ha, hd, hb, fun h => ?_⟩
  have hk := h.kept
  rw [ho] at hk
  cases hk

end Tfm.L4.Spm
