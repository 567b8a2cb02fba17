import Tfm.L4Service.SpmEntry

/-!
# SPM: integrity of the connection-handle pool

`tfm_spm_validate_conn_handle` checks that a handle points at a chunk of the
pool and that the chunk names the client. Both hold for a chunk that was freed:
it keeps its contents. A handle is a chunk's offset with a rolling index the SPM
never compares, so any of eight values denotes the chunk. A client can use a
handle after closing it, and the second close frees the chunk a second time.

`owned` is the condition under which the pool is sound: client calls that pass
the checks are on handles the client was granted and has not closed, on top of
`exclusive` and `typed`.

Results:
* `pool_reachable`: in every such run each chunk is on the free list once and on
  no handle list, or allocated and on the handle list of its service; and what
  the SPM accepts is on an open connection of the client.
* `pool_fails_on_double_close`: a close after a close is accepted and its reply
  damages the free list.
-/
namespace Tfm.L4.Spm
open Tfm.BiList

variable {nS nP : Nat} {db : Db nS nP} {s : St nS nP}

/-! ## Condition -/

/-- The client and the handle of a `psa_call` or `psa_close`. -/
def Lbl.request (db : Db nS nP) : Lbl nP → Option (Int × UInt32)
  | .callSvc c _ _ a _ => some (c.id db, a.handle)
  | .callRpc c a _ => some (c, a.handle)
  | .close c h _ => some (c.id db, h)
  | _ => none

/-- A client call that passes the checks is on a handle that `psa_connect`
returned to the client and that the client has not closed since. -/
def owned (db : Db nS nP) (s : St nS nP) (l : Lbl nP) : Bool :=
  exclusive db s l && typed db s l &&
    ((l.target db s).isNone || (l.request db).all fun x => decide (x ∈ s.granted))

theorem owned_granted {l : Lbl nP} {k : Chunk} {x : Int × UInt32} (hx : owned db s l = true)
    (hk : l.target db s = some k) (hr : l.request db = some x) : x ∈ s.granted := by
  simp only [owned, hk, hr, Bool.and_eq_true, Option.isNone_some, Bool.false_or,
    Option.all_some, decide_eq_true_eq] at hx
  exact hx.2

theorem callReq_request {l : Lbl nP} {c : Caller nP} {a : CallArgs} {cd : Option Nat}
    (hq : l.callReq = some (c, a, cd)) : l.request db = some (c.id db, a.handle) := by
  cases l with
  | callSvc => cases hq; rfl
  | callRpc => cases hq; rfl
  | connect => cases hq
  | close => cases hq
  | get => cases hq
  | reply => cases hq

/-! ## Granted handles -/

/-- A message in use belongs to the connection it is embedded in. -/
structure MsgOk (db : Db nS nP) (s : St nS nP) (k : Chunk) : Prop where
  client : (s.conn k).internalMsg.clientId = (s.conn k).clientId
  service : (s.conn k).internalMsg.service = (s.conn k).service
  connect : (s.conn k).internalMsg.origin = .connect → ∀ v, (s.conn k).service = some v →
    (db.service v).connectionBased = true

/-- The connection of chunk `k` is open for client `c`: no connect or close is
under way on it. -/
structure Live (db : Db nS nP) (s : St nS nP) (c : Int) (k : Chunk) : Prop where
  alloc : s.alloc k = true
  client : (s.conn k).clientId = c
  service : ∃ v, (s.conn k).service = some v ∧ (db.service v).connectionBased = true
  call : s.busy k ≠ .idle → (s.conn k).internalMsg.origin = .call

structure GrantInv (db : Db nS nP) (s : St nS nP) : Prop where
  live : ∀ c h, (c, h) ∈ s.granted → ∃ k, chunkOf h = some k ∧ Live db s c k
  inj : ∀ x ∈ s.granted, ∀ y ∈ s.granted, chunkOf x.2 = chunkOf y.2 → x = y
  msg : ∀ k, s.busy k ≠ .idle → MsgOk db s k

/-- The step from `s` to `s'` does not end the connection of chunk `k`. -/
structure Keeps (s s' : St nS nP) (k : Chunk) : Prop where
  alloc : s'.alloc k = s.alloc k
  client : (s'.conn k).clientId = (s.conn k).clientId
  service : (s'.conn k).service = (s.conn k).service
  call : s'.busy k ≠ .idle → (s'.conn k).internalMsg.origin = .call ∨
    (s.busy k ≠ .idle ∧ (s'.conn k).internalMsg.origin = (s.conn k).internalMsg.origin)

theorem Live.keeps {s' : St nS nP} {c : Int} {k : Chunk} (h : Live db s c k)
    (hk : Keeps s s' k) : Live db s' c k := by
  refine ⟨hk.alloc.trans h.alloc, hk.client.trans h.client, ?_, ?_⟩
  · rw [hk.service]
    exact h.service
  · intro hb
    rcases hk.call hb with ho | ⟨hb', ho⟩
    · exact ho
    · exact ho.trans (h.call hb')

/-- A step that grants nothing and keeps the connections of what stays
granted. -/
theorem GrantInv.congr {s' : St nS nP} (h : GrantInv db s)
    (hg : ∀ x ∈ s'.granted, x ∈ s.granted ∧ ∀ k, chunkOf x.2 = some k → Keeps s s' k)
    (hm : ∀ k, s'.busy k ≠ .idle → MsgOk db s' k) : GrantInv db s' := by
  refine ⟨?_, ?_, hm⟩
  · intro c hh hx
    obtain ⟨hx, hk⟩ := hg _ hx
    obtain ⟨k, hck, hl⟩ := h.live c hh hx
    exact ⟨k, hck, hl.keeps (hk k hck)⟩
  · intro x hx y hy
    exact h.inj x (hg x hx).1 y (hg y hy).1

theorem Keeps.of_eq {s' : St nS nP} {k : Chunk} (ha : s'.alloc k = s.alloc k)
    (hc : s'.conn k = s.conn k) (hb : s'.busy k = s.busy k) : Keeps s s' k := by
  refine ⟨ha, by rw [hc], by rw [hc], ?_⟩
  rw [hb, hc]
  exact fun h => .inr ⟨h, rfl⟩

theorem MsgOk.of_eq {s' : St nS nP} {k : Chunk} (h : MsgOk db s k)
    (hc : s'.conn k = s.conn k) : MsgOk db s' k := by
  refine ⟨?_, ?_, ?_⟩ <;> rw [hc]
  · exact h.client
  · exact h.service
  · exact h.connect

theorem GrantInv.same {s' : St nS nP} (h : GrantInv db s) (ha : s'.alloc = s.alloc)
    (hc : s'.conn = s.conn) (hb : s'.busy = s.busy) (hg : s'.granted = s.granted) :
    GrantInv db s' := by
  refine h.congr ?_ ?_
  · intro x hx
    exact ⟨hg ▸ hx, fun k _ => .of_eq (by rw [ha]) (by rw [hc]) (by rw [hb])⟩
  · intro k hk
    exact (h.msg k (hb ▸ hk)).of_eq (by rw [hc])

/-- A step that only touches a chunk that is not granted afterwards. -/
theorem GrantInv.other {s' : St nS nP} (h : GrantInv db s) (k : Chunk)
    (hg : ∀ x ∈ s'.granted, x ∈ s.granted ∧ chunkOf x.2 ≠ some k)
    (ha : ∀ x, x ≠ k → s'.alloc x = s.alloc x) (hc : ∀ x, x ≠ k → s'.conn x = s.conn x)
    (hb : ∀ x, x ≠ k → s'.busy x = s.busy x)
    (hm : s'.busy k ≠ .idle → MsgOk db s' k) : GrantInv db s' := by
  refine h.congr ?_ ?_
  · intro x hx
    refine ⟨(hg x hx).1, fun j hj => ?_⟩
    have hjk : j ≠ k := by
      intro he
      subst he
      exact (hg x hx).2 hj
    exact .of_eq (ha j hjk) (hc j hjk) (hb j hjk)
  · intro j hj
    by_cases hjk : j = k
    · subst hjk
      exact hm hj
    · exact (h.msg j (hb j hjk ▸ hj)).of_eq (hc j hjk)

/-- Nothing is granted on a chunk that is free, or whose message is a connect or
close in use. -/
theorem GrantInv.not_granted (h : GrantInv db s) {k : Chunk} (hl : ∀ c, ¬ Live db s c k) :
    ∀ x ∈ s.granted, chunkOf x.2 ≠ some k := by
  intro he hx hk
  obtain ⟨c, hh⟩ := he
  obtain ⟨j, hj, hlive⟩ := h.live c hh hx
  rw [hk] at hj
  cases hj
  exact hl c hlive

theorem GrantInv.create {s₁ : St nS nP} {v : Fin nS} {c : Int} {k : Chunk} (h : GrantInv db s)
    (hi : Inv db s) (hn : createConnHandle s v c = some (k, s₁)) :
    GrantInv db s₁ ∧ (∀ x ∈ s₁.granted, chunkOf x.2 ≠ some k) ∧
      (s₁.conn k).clientId = c ∧ (s₁.conn k).service = some v := by
  obtain ⟨⟨free, hl, hpool⟩, ⟨ml, hmsg⟩, -⟩ := hi
  obtain ⟨free', rfl, rfl⟩ := createConnHandle_some hpool hn
  have hna : s.alloc k ≠ true := fun ha => (hpool.alloc k).1 ha List.mem_cons_self
  have hng := h.not_granted (k := k) fun c hlive => hna hlive.alloc
  refine ⟨h.other k (fun x hx => ⟨hx, hng x hx⟩) ?_ ?_ (fun _ _ => rfl) ?_, hng, by simp, by simp⟩
  · intro x hx
    simp [hx]
  · intro x hx
    simp [hx]
  · intro hb
    exact absurd (hmsg.idle_of_free hna) hb

/-- Filling the message of a chunk: the connection stays if it was a call, and
is no longer granted otherwise. -/
theorem GrantInv.send {s₁ : St nS nP} {k : Chunk} {v : Fin nS} {handle : UInt32}
    {type clientId : Int} {invec outvec : List Vec} {callerOutvec : Nat} {cd : Option Nat}
    {o : Origin} {g : List (Int × UInt32)} (h : GrantInv db s₁)
    (hg : ∀ x ∈ g, x ∈ s₁.granted ∧ (o = .call ∨ chunkOf x.2 ≠ some k))
    (hcl : (s₁.conn k).clientId = clientId) (hsv : (s₁.conn k).service = some v)
    (hcb : o = .connect → (db.service v).connectionBased = true) :
    GrantInv db { sendEvent db (fillMsg s₁ k v handle type clientId invec outvec callerOutvec cd o)
      v k with granted := g } := by
  refine h.congr ?_ ?_
  · intro x hx
    refine ⟨(hg x hx).1, fun j hj => ?_⟩
    by_cases hjk : j = k
    · subst hjk
      rcases (hg x hx).2 with ho | hne
      · refine ⟨rfl, ?_, ?_, fun _ => .inl ?_⟩ <;>
          simp [sendEvent, fillMsg, setConn_conn, ho]
      · exact absurd hj hne
    · refine .of_eq rfl ?_ ?_ <;> simp [sendEvent, fillMsg, setConn_conn, hjk]
  · intro j hj
    by_cases hjk : j = k
    · subst hjk
      refine ⟨?_, ?_, ?_⟩
      · simp [sendEvent, fillMsg, setConn_conn, hcl]
      · simp [sendEvent, fillMsg, setConn_conn, hsv]
      · intro ho w hw
        simp only [sendEvent, fillMsg, setConn_conn, if_true] at ho hw
        rw [hsv] at hw
        cases hw
        exact hcb ho
    · have hb : s₁.busy j ≠ .idle := by simpa [sendEvent, fillMsg, hjk] using hj
      refine (h.msg j hb).of_eq ?_
      simp [sendEvent, fillMsg, setConn_conn, hjk]

theorem grantInv_stateless {k : Chunk} (h : GrantInv db s)
    (hng : ∀ x ∈ s.granted, chunkOf x.2 ≠ some k) : GrantInv db (statelessConn s k) := by
  refine h.other k (fun x hx => ⟨hx, hng x hx⟩) (fun _ _ => rfl) ?_ (fun _ _ => rfl) ?_
  · intro x hx
    simp [statelessConn, setConn_conn, hx]
  · intro hb
    have hm := h.msg k hb
    refine ⟨?_, ?_, ?_⟩ <;> simp only [statelessConn, setConn_conn, if_true]
    · exact hm.client
    · exact hm.service
    · exact hm.connect

theorem grantInv_get {p : Fin nP} {signal : Nat} {m : Links (Node (Fin nP))} {clear : Bool}
    {k : Chunk} (h : GrantInv db s) (hb : s.busy k ≠ .idle) :
    GrantInv db (taken s p signal m clear k) := by
  have hconn : ∀ x, (taken s p signal m clear k).conn x =
      if x = k then { s.conn k with status := .active } else s.conn x := by
    intro x
    simp [taken, setConn_conn]
  have hbusy : ∀ x, (taken s p signal m clear k).busy x ≠ .idle → s.busy x ≠ .idle := by
    intro x hx
    by_cases hxk : x = k
    · rwa [hxk]
    · simpa [taken, hxk] using hx
  refine h.congr ?_ ?_
  · intro x hx
    refine ⟨hx, fun j _ => ?_⟩
    refine ⟨rfl, ?_, ?_, fun hj => .inr ⟨hbusy j hj, ?_⟩⟩ <;>
    · rw [hconn]
      split
      · rename_i hjk
        rw [hjk]
      · rfl
  · intro j hj
    have hm := h.msg j (hbusy j hj)
    by_cases hjk : j = k
    · subst hjk
      refine ⟨?_, ?_, ?_⟩ <;> rw [hconn, if_pos rfl]
      · exact hm.client
      · exact hm.service
      · exact hm.connect
    · refine hm.of_eq ?_
      rw [hconn, if_neg hjk]

/-- `psa_reply` that keeps the chunk. -/
theorem grantInv_replied {k : Chunk} {ret : Int} (h : GrantInv db s) :
    GrantInv db (replied s s k ret) := by
  have hbusy : ∀ x, (replied s s k ret).busy x ≠ .idle → x ≠ k ∧ s.busy x ≠ .idle := by
    intro x hx
    by_cases hxk : x = k
    · exact absurd (by simp [replied, hxk]) hx
    · exact ⟨hxk, by simpa [replied, hxk] using hx⟩
  have hconn : ∀ x, x ≠ k → (replied s s k ret).conn x = s.conn x := by
    intro x hx
    simp [replied, setConn_conn, hx]
  refine h.congr ?_ ?_
  · intro x hx
    refine ⟨hx, fun j _ => ?_⟩
    by_cases hjk : j = k
    · subst hjk
      refine ⟨rfl, ?_, ?_, fun hj => absurd rfl (hbusy j hj).1⟩ <;> simp [replied, setConn_conn]
    · exact .of_eq rfl (hconn j hjk) (by simp [replied, hjk])
  · intro j hj
    obtain ⟨hjk, hb⟩ := hbusy j hj
    exact (h.msg j hb).of_eq (hconn j hjk)

/-- `psa_reply` that frees a chunk nothing is granted on. -/
theorem grantInv_freed {k : Chunk} {ret : Int} (h : GrantInv db s)
    (hl : ∀ c, ¬ Live db s c k) : GrantInv db (replied s (freeConnHandle s k) k ret) := by
  have hng := h.not_granted hl
  refine h.other k (fun x hx => ⟨hx, hng x hx⟩) ?_ ?_ ?_ ?_
  · intro x hx
    simp [replied, freeConnHandle, hx]
  · intro x hx
    simp [replied, freeConnHandle, setConn_conn, hx]
  · intro x hx
    simp [replied, hx]
  · intro hb
    exact absurd (by simp [replied]) hb

/-- `psa_reply` that accepts a connection. -/
theorem grantInv_granted {k : Chunk} {v : Fin nS} {h : UInt32} {ret : Int}
    (hi : GrantInv db s) (hk : chunkOf h = some k) (ha : s.alloc k = true)
    (hb : s.busy k ≠ .idle) (ho : (s.conn k).internalMsg.origin = .connect)
    (hv : (s.conn k).internalMsg.service = some v) :
    GrantInv db (replied s { s with
      granted := ((s.conn k).internalMsg.clientId, h) :: s.granted } k ret) := by
  have hm := hi.msg k hb
  have hng := hi.not_granted (k := k) fun c hl => by
    have := hl.call hb
    rw [ho] at this
    cases this
  have hold : GrantInv db (replied s s k ret) := grantInv_replied hi
  refine ⟨?_, ?_, fun j hj => (hold.msg j hj).of_eq rfl⟩
  · intro c hh hx
    rcases List.mem_cons.1 hx with he | hx
    · cases he
      refine ⟨k, hk, ha, ?_, ⟨v, ?_, ?_⟩, fun hb' => absurd (by simp [replied]) hb'⟩
      · simp [replied, setConn_conn, hm.client]
      · simp [replied, setConn_conn, ← hm.service, hv]
      · exact hm.connect ho v (hm.service ▸ hv)
    · obtain ⟨j, hj, hl⟩ := hold.live c hh hx
      exact ⟨j, hj, hl.keeps (.of_eq rfl rfl rfl)⟩
  · intro x hx y hy he
    rcases List.mem_cons.1 hx with rfl | hx
    · rcases List.mem_cons.1 hy with rfl | hy
      · rfl
      · exact absurd (he.symm.trans hk) (hng y hy)
    · rcases List.mem_cons.1 hy with rfl | hy
      · exact absurd (he.trans hk) (hng x hx)
      · exact hi.inj x hx y hy he

theorem grantInv_reply {p : Fin nP} {h : UInt32} {st ret : Int} {k : Chunk} {v : Fin nS}
    {s₁ : St nS nP} (hi : GrantInv db s) (ht : TypeInv s.conn) (ha : s.alloc k = true)
    (hb : s.busy k ≠ .idle) (hg : getMsgFromHandle db s p h = some (k, v))
    (hr : replyByType db s k v h st = some (s₁, ret)) : GrantInv db (replied s s₁ k ret) := by
  obtain ⟨hck, hv⟩ := getMsgFromHandle_some hg
  have hnot : ∀ o, (s.conn k).internalMsg.origin = o → o ≠ .call → ∀ c, ¬ Live db s c k :=
    fun o ho hne c hl => hne (ho.symm.trans (hl.call hb))
  rcases replyByType_cases hr with ⟨hty, -, rfl⟩ | ⟨hty, -, rfl⟩ | ⟨-, -, rfl⟩ | ⟨hty, rfl⟩ |
    ⟨-, -, rfl⟩ | ⟨-, hcb, rfl⟩
  · exact grantInv_granted hi hck ha hb ((ht k).connect.1 hty) hv
  · exact grantInv_freed hi (hnot _ ((ht k).connect.1 hty) (by simp))
  · exact grantInv_replied hi
  · exact grantInv_freed hi (hnot _ ((ht k).close.1 hty) (by simp))
  · exact grantInv_replied hi
  · -- a stateless call: no connection is granted on its chunk
    refine grantInv_freed hi fun c hl => ?_
    obtain ⟨w, hw, hwb⟩ := hl.service
    rw [← (hi.msg k hb).service, hv] at hw
    cases hw
    rw [hcb] at hwb
    cases hwb

/-! ## Runs -/

structure PoolAllInv (db : Db nS nP) (s : St nS nP) : Prop where
  base : Inv db s
  types : TypeInv s.conn
  grants : GrantInv db s

theorem owned_parts {l : Lbl nP} (hx : owned db s l = true) :
    exclusive db s l = true ∧ typed db s l = true := by
  simp only [owned, Bool.and_eq_true] at hx
  exact hx.1

theorem grantInv_trans {s' : St nS nP} {l : Lbl nP} (h : PoolAllInv db s)
    (hx : owned db s l = true) (ht : Trans db s l s') : GrantInv db s' := by
  obtain ⟨hbase, htypes, hgr⟩ := h
  cases ht with
  | stay l b => exact hgr.same rfl rfl rfl rfl
  | @connect c sid version cd v k s₁ hb hn =>
    obtain ⟨h₁, hng, hcl, hsv⟩ := hgr.create hbase hn
    have h₂ : GrantInv db { s₁ with loopIndex := nextLoopIndex s₁.loopIndex } :=
      h₁.same rfl rfl rfl rfl
    exact h₂.send (fun x hx => ⟨hx, .inr (hng x hx)⟩) hcl hsv fun _ => hb
  | call hq hvet hs hk hst hv =>
    exact hgr.send (fun x hx => ⟨hx, .inl rfl⟩) (validateConnHandle_some hk).2 hv (by simp)
  | callStatic hq hvet hok hs hn =>
    obtain ⟨h₁, hng, hcl, hsv⟩ := hgr.create hbase hn
    refine GrantInv.send (grantInv_stateless h₁ hng) (fun x hx => ⟨hx, .inl rfl⟩) ?_ ?_ (by simp)
    · simpa [statelessConn, setConn_conn] using hcl
    · simpa [statelessConn, setConn_conn] using hsv
  | leak b hl hn =>
    obtain ⟨h₁, hng, -⟩ := hgr.create hbase hn
    exact (grantInv_stateless h₁ hng).same rfl rfl rfl rfl
  | @close c hh cd k v hs hk hst hv =>
    have hmem : (c.id db, hh) ∈ s.granted :=
      owned_granted hx (close_target hs hk hst hv) rfl
    obtain ⟨hck, hcl⟩ := validateConnHandle_some hk
    refine hgr.send (fun x hx => ?_) hcl hv (by simp)
    simp only [List.mem_filter, bne_iff_ne, ne_eq] at hx
    refine ⟨hx.1, .inr fun hxk => hx.2 ?_⟩
    exact hgr.inj x hx.1 _ hmem (hxk.trans hck.symm)
  | get _ _ hf =>
    obtain ⟨-, ⟨ml, hmsg⟩, -⟩ := hbase
    obtain ⟨⟨r, hq⟩, -⟩ := hmsg.get hf
    exact grantInv_get hgr (by simp [hq])
  | getNone _ _ hf => exact hgr.same rfl rfl rfl rfl
  | @reply p hh st ret k v s₁ hg hr =>
    obtain ⟨r, hd⟩ := exclusive_reply (owned_parts hx).1 hg
    obtain ⟨-, ⟨ml, hmsg⟩, -⟩ := hbase
    have hb : s.busy k ≠ .idle := by simp [hd]
    exact grantInv_reply hgr htypes (hmsg.busyAlloc _ hb) hb hg hr

theorem poolAllInv_inductive (db : Db nS nP) :
    ((lts db).restrict fun s l => owned db s l = true).Inductive (PoolAllInv db) where
  init := by
    intro s he
    subst he
    refine ⟨inv_init db, (typeInv_inductive db).init _ rfl, ?_, ?_, ?_⟩ <;> simp [init]
  step := by
    intro s l s' h he
    obtain ⟨hx, hs⟩ := he
    have ht := step_trans hs
    obtain ⟨hex, hty⟩ := owned_parts hx
    exact ⟨inv_trans h.base hex ht, typeInv_trans h.types hty ht, grantInv_trans h hx ht⟩

/-! ## Pool integrity -/

/-- Every chunk is free, once on the free list and on no handle list, or
allocated and once on the handle list of one service. (`IsList` says that a list
holds each of its nodes once.) -/
def PoolOk (s : St nS nP) : Prop :=
  ∃ (free : List Chunk) (hl : Fin nS → List Chunk),
    IsList s.pool (.head ()) (free.map .chunk) ∧
    (∀ v, IsList s.handles (.head v) ((hl v).map .chunk)) ∧
    ∀ k, (s.alloc k = false ∧ k ∈ free ∧ ∀ v, k ∉ hl v) ∨
      (s.alloc k = true ∧ k ∉ free ∧ ∃ v, k ∈ hl v ∧ ∀ v', k ∈ hl v' → v' = v)

/-- `h` denotes an open connection of client `c`. -/
def OpenFor (db : Db nS nP) (s : St nS nP) (c : Int) (h : UInt32) : Prop :=
  (c, h) ∈ s.granted ∧ ∃ k, chunkOf h = some k ∧ Live db s c k

/-- How the SPM answers a client call. -/
def outcome (db : Db nS nP) (s : St nS nP) : Lbl nP → Outcome
  | .connect c sid version cd => (clientPsaConnect db s c sid version cd).2
  | .callSvc c pr ctrl a cd => (spmPsaCall db s c pr ctrl a cd).2
  | .callRpc c a cd => (rpcPsaCall db s c a cd).2
  | .close c h cd => (clientPsaClose db s c h cd).2
  | .get _ _ _ => .ignored
  | .reply _ _ _ => .ignored

theorem PoolInv.poolOk {free : List Chunk} {hl : Fin nS → List Chunk} (h : PoolInv s free hl) :
    PoolOk s := by
  refine ⟨free, hl, h.pool, h.handles.isList, fun k => ?_⟩
  cases ha : s.alloc k with
  | false =>
    have hfree : k ∈ free := by
      by_contra hc
      rw [(h.alloc k).2 hc] at ha
      cases ha
    refine .inl ⟨rfl, hfree, fun v hv => ?_⟩
    rw [((h.place k v).1 hv).1] at ha
    cases ha
  | true =>
    obtain ⟨v, hv⟩ := h.served k ha
    refine .inr ⟨rfl, (h.alloc k).1 ha, v, (h.place k v).2 ⟨ha, hv⟩, fun v' hv' => ?_⟩
    have := ((h.place k v').1 hv').2
    rw [hv] at this
    exact (Option.some.inj this).symm

theorem clientPsaCall_target {c : Caller nP} {pr : Bool} {a : CallArgs} {cd : Option Nat}
    (hs : staticIndex a.handle = none) (ho : (clientPsaCall db s c pr a cd).2 = .accepted) :
    a.countsOk = true ∧ vecsOk db a c.isNs pr = true ∧
      ∃ k, connTarget s a.handle (c.id db) (· == .idle) = some k := by
  obtain ⟨hcnt, hok, hv⟩ := (clientPsaCall_accepted_iff db s c pr a cd).1 ho
  simp only [handleOk, hs] at hok
  exact ⟨hcnt, hv, Option.isSome_iff_exists.1 hok⟩

/-- What is accepted on a connection handle passed the checks. -/
theorem accepted_target {l : Lbl nP} {c : Int} {h : UInt32} (hr : l.request db = some (c, h))
    (hs : staticIndex h = none) (ho : outcome db s l = .accepted) :
    ∃ k, l.target db s = some k := by
  cases l with
  | callSvc caller pr ctrl a cd =>
    cases hr
    simp only [outcome, spmPsaCall] at ho
    split at ho
    · exact absurd ho (programmerError_ne _ _)
    · rename_i hm
      split at ho
      · exact absurd ho (programmerError_ne _ _)
      · rename_i ht
        obtain ⟨hcnt, hv, k, hk⟩ := clientPsaCall_target hs ho
        simp only [Bool.not_eq_eq_eq_not, Bool.not_true, Bool.not_eq_false] at hm
        refine ⟨k, ?_⟩
        simp [Lbl.target, Lbl.callReq, Lbl.vetted, hm, Int.not_lt.1 ht, hcnt, hv, hk]
  | callRpc caller a cd =>
    cases hr
    obtain ⟨hcnt, hv, k, hk⟩ := clientPsaCall_target (c := .ns c) hs ho
    have hv : vecsOk db a true false = true := hv
    refine ⟨k, ?_⟩
    simp [Lbl.target, Lbl.callReq, Lbl.vetted, hcnt, hv, hk]
  | close caller h' cd =>
    cases hr
    simp only [outcome, clientPsaClose, hs] at ho
    split at ho
    · cases ho
    · split at ho
      · exact absurd ho (programmerError_ne _ _)
      · split at ho
        · exact absurd ho (programmerError_ne _ _)
        · rename_i k hk
          split at ho
          · cases ho
          · rename_i v hv
            split at ho
            · exact absurd ho (programmerError_ne _ _)
            · rename_i hact
              exact ⟨k, close_target hs hk hact hv⟩
  | connect => cases hr
  | get => cases hr
  | reply => cases hr

/-- **In every run in which clients use the handles they hold, one request at a
time, the pool is sound, and every `psa_call` or `psa_close` the SPM accepts on
a connection handle is on a connection that is open for the client.** -/
theorem pool_reachable (db : Db nS nP) (s : St nS nP)
    (h : ((lts db).restrict fun s l => owned db s l = true).Reachable s) :
    PoolOk s ∧ ∀ l c hd, owned db s l = true → l.request db = some (c, hd) →
      staticIndex hd = none → outcome db s l = .accepted → OpenFor db s c hd := by
  have hi := (poolAllInv_inductive db).reachable s h
  obtain ⟨free, hl, hp⟩ := hi.base.pool
  refine ⟨hp.poolOk, fun l c hd hx hr hs ho => ?_⟩
  obtain ⟨k, hk⟩ := accepted_target hr hs ho
  have hg := owned_granted hx hk hr
  exact ⟨hg, hi.grants.live c hd hg⟩

theorem pool_reachable_close :
    ∃ s : St 1 1, PoolOk s ∧ s.alloc 0 = true ∧ OpenFor oneService s (-1) 194 := by
  have he : (LTS.execC (owned oneService) (step oneService) (init 1 1)
      (openConn ++ [callConn 3, .get 0 4 true, .reply 0 194 0])).map (fun s =>
        (s.alloc 0, owned oneService s (.close (.ns (-1)) 194 none),
          outcome oneService s (.close (.ns (-1)) 194 none))) =
      some (true, true, .accepted) := by decide +kernel
  obtain ⟨s, hs, hv⟩ := Option.map_eq_some_iff.1 he
  simp only [Prod.mk.injEq] at hv
  have h := pool_reachable oneService s (LTS.reachable_execC (fun _ _ h => h) _ rfl hs)
  exact ⟨s, h.1, hv.1, h.2 _ _ _ hv.2.1 rfl (by decide) hv.2.2⟩

/-- **Counterexample**: client -1 connects, closes, and closes again. The second
close is accepted although the handle is not open, and the reply to it inserts
the chunk into the free list a second time: chunk 0 then is its own
predecessor. -/
theorem pool_fails_on_double_close :
    ∃ s s' : St 1 1, (lts oneService).Reachable s ∧
      outcome oneService s (.close (.ns (-1)) 194 none) = .accepted ∧
      ¬ OpenFor oneService s (-1) 194 ∧ (lts oneService).Reachable s' ∧ ¬ PoolOk s' := by
  have he : (LTS.exec (step oneService) (init 1 1)
      (openConn ++ [.close (.ns (-1)) 194 none, .get 0 4 true, .reply 0 194 0])).map (fun s =>
        (s.granted, outcome oneService s (.close (.ns (-1)) 194 none))) =
      some ([], .accepted) := by decide +kernel
  have he' : (LTS.exec (step oneService) (init 1 1)
      (openConn ++ [.close (.ns (-1)) 194 none, .get 0 4 true, .reply 0 194 0,
        .close (.ns (-1)) 194 none, .get 0 4 true, .reply 0 194 0])).map (fun s =>
        (s.pool.next (.chunk 15), s.pool.prev (.chunk 0), s.alloc 15)) =
      some (.chunk 0, .chunk 0, false) := by decide +kernel
  obtain ⟨s, hs, hv⟩ := Option.map_eq_some_iff.1 he
  obtain ⟨s', hs', hv'⟩ := Option.map_eq_some_iff.1 he'
  simp only [Prod.mk.injEq] at hv hv'
  obtain ⟨hgr, hout⟩ := hv
  obtain ⟨hn, hp, hal⟩ := hv'
  refine ⟨s, s', LTS.reachable_exec _ (.init rfl) hs, hout, ?_,
    LTS.reachable_exec _ (.init rfl) hs', ?_⟩
  · intro h
    obtain ⟨hg, -⟩ := h
    rw [hgr] at hg
    cases hg
  · intro h
    obtain ⟨free, hl, hfree, -, hk⟩ := h
    rcases hk 15 with ⟨-, hm, -⟩ | ⟨ha, -⟩
    · have hback := hfree.prev_next (y := .chunk 15) (by simp [hm])
      rw [hn, hp] at hback
      cases hback
    · rw [hal] at ha
      cases ha

end Tfm.L4.Spm
