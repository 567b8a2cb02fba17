import Tfm.L5Concurrency.Mailbox

/-!
# Mailbox agreement

The invariant behind `Agree` and its proof.

For one slot the protocol is a token that travels

  free → prepared → sent → taken → answered → replied → waking → woken → read

and each of these stations fixes all status bits of the slot on both cores
(`Flags`). `ThOk` says at which station the slot of a thread is, from the
thread's own program counter. A slot that no thread owns has the flags of a
free slot (`Inv.free`), and two threads never own one slot (`Inv.inj`): the
only step that could break this is the choice of an empty slot, which
`NoClash` guards.

Results:
* `inv_reachable`: the invariant in every run without a clash.
* `agree_reachable`: **agreement** in every run without a clash.
* `agree_fails_on_clash`: two threads on two slots choose the same slot, and
  one of them returns the answer to the other's request.
-/
namespace Tfm.L5.Mailbox

variable {n N : Nat}

/-- Where a slot is in the SPE's processing. -/
inductive Stage
  | out
  /-- in the snapshot of `tfm_mailbox_handle_msg`, not reached yet -/
  | todo
  /-- handled, `pend_slots` not cleared yet -/
  | done (direct : Bool)
  | replying
  deriving DecidableEq, Repr

/-- Every status bit of one slot. -/
structure Flags where
  empty : Bool
  pend : Bool
  replied : Bool
  woken : Bool
  isr : Bool
  speEmpty : Bool
  stage : Stage
  deriving DecidableEq, Repr

def stage (s : St n N) (i : Fin n) : Stage :=
  match s.spe with
  | .idle => .out
  | .handling pend idx reply =>
    if pend i then if i.val < idx then .done (reply i) else .todo else .out
  | .replying j => if j = i then .replying else .out

def isrBit (isr : Option (Bits n)) (i : Fin n) : Bool :=
  match isr with
  | some b => b i
  | none => false

def flags (s : St n N) (i : Fin n) : Flags where
  empty := s.emptySlots i
  pend := s.pendSlots i
  replied := s.repliedSlots i
  woken := s.isWoken i
  isr := isrBit s.isr i
  speEmpty := s.speEmpty i
  stage := stage s i

def freeF : Flags := ⟨true, false, false, false, false, true, .out⟩
/-- Owned by an NS thread alone, before sending or after the wake-up. -/
def ownF : Flags := ⟨false, false, false, false, false, true, .out⟩

/-- Pending, not taken. -/
def sentF (f : Flags) : Prop :=
  f = ⟨false, true, false, false, false, true, .out⟩ ∨
    f = ⟨false, true, false, false, false, true, .todo⟩

/-- With the SPM. -/
def takenF (f : Flags) : Prop :=
  f = ⟨false, true, false, false, false, false, .done false⟩ ∨
    f = ⟨false, false, false, false, false, false, .out⟩

/-- Dropped by the SPE (unknown call type). -/
def lostF (f : Flags) : Prop :=
  f = ⟨false, true, false, false, false, true, .done false⟩ ∨ f = ownF

/-- The value is written; the five ways its notification is under way. -/
def answeredF (f : Flags) : Prop :=
  f = ⟨false, true, false, false, false, true, .done true⟩ ∨
    f = ⟨false, false, false, false, false, true, .replying⟩ ∨
    f = ⟨false, false, true, false, false, true, .out⟩ ∨
    f = ⟨false, false, false, false, true, true, .out⟩ ∨
    f = ⟨false, false, false, true, false, true, .out⟩

/-- The station of a slot whose owner waits for the reply to `m`. -/
inductive WaitOk (s : St n N) (m : Msg) (i : Fin n) : Prop
  | sent (hf : sentF (flags s i)) (hm : s.msg i = m) (hs : m.rid ∈ s.sent)
      (ht : m.rid ∉ s.taken)
  | taken (hf : takenF (flags s i)) (ho : (m.rid, i) ∈ s.outstanding) (hi : s.nsSlotIdx i = i)
      (hp : ∀ v, (m.rid, v) ∉ s.produced) (ht : m.rid ∈ s.taken)
  | lost (hf : lostF (flags s i)) (ht : m.rid ∈ s.taken)
  | answered (hf : answeredF (flags s i)) (hv : (m.rid, s.returnVal i) ∈ s.produced)

def ThOk (s : St n N) : Pc n → Prop
  | .idle => True
  | .lock m => m.rid ∉ s.sent
  | .picked m _ => m.rid ∉ s.sent
  | .own m i => flags s i = ownF ∧ m.rid ∉ s.sent
  | .filled m i => flags s i = ownF ∧ m.rid ∉ s.sent ∧ s.msg i = m
  | .waiting m i => WaitOk s m i
  | .got m i => flags s i = ownF ∧ (m.rid, s.returnVal i) ∈ s.produced
  | .read m i v => flags s i = ownF ∧ (m.rid, v) ∈ s.produced
  | .post m (some v) => (m.rid, v) ∈ s.produced
  | .post _ none => True

def Pc.rid : Pc n → Option Nat
  | .idle => none
  | .lock m => some m.rid
  | .picked m _ => some m.rid
  | .own m _ => some m.rid
  | .filled m _ => some m.rid
  | .waiting m _ => some m.rid
  | .got m _ => some m.rid
  | .read m _ _ => some m.rid
  | .post m _ => some m.rid

structure Inv (s : St n N) : Prop where
  inj : ∀ t t' i, (s.ths t).slot = some i → (s.ths t').slot = some i → t = t'
  free : ∀ i, (∀ t, (s.ths t).slot ≠ some i) → flags s i = freeF
  th : ∀ t, ThOk s (s.ths t)
  pickInj : ∀ t t' i, (s.ths t).pick = some i → (s.ths t').pick = some i → t = t'
  pickFree : ∀ t t' i, (s.ths t).pick = some i → (s.ths t').slot ≠ some i
  ridLt : ∀ t r, (s.ths t).rid = some r → r < s.next
  ridInj : ∀ t t' r, (s.ths t).rid = some r → (s.ths t').rid = some r → t = t'
  sentLt : ∀ r ∈ s.sent, r < s.next
  takenSent : ∀ r ∈ s.taken, r ∈ s.sent
  takenNodup : s.taken.Nodup
  producedTaken : ∀ r v, (r, v) ∈ s.produced → r ∈ s.taken
  producedFun : ∀ r v v', (r, v) ∈ s.produced → (r, v') ∈ s.produced → v = v'
  outst : ∀ r i, (r, i) ∈ s.outstanding →
    s.speEmpty i = false ∧ ∃ t m, s.ths t = .waiting m i ∧ m.rid = r
  sentOnce : ∀ r ∈ s.sent, r ∈ s.taken ∨
    ∃ t m i, s.ths t = .waiting m i ∧ m.rid = r ∧ s.msg i = m ∧ s.pendSlots i = true
  returnedProduced : ∀ r v, (r, v) ∈ s.returned → (r, v) ∈ s.produced
  replyDone : ∀ pend idx reply, s.spe = .handling pend idx reply →
    ∀ i, reply i = true → pend i = true ∧ i.val < idx

theorem inv_init (n N : Nat) : Inv (init n N) := by
  refine ⟨?_, ?_, ?_, ?_, ?_, ?_, ?_, ?_, ?_, ?_, ?_, ?_, ?_, ?_, ?_, ?_⟩ <;>
    simp [init, Pc.slot, Pc.pick, Pc.rid, ThOk, flags, freeF, stage, isrBit]

/-! ## Frame: what a step leaves alone -/

/-- `s'` looks the same as `s` to a thread that owns slot `i` for the request
`r`. -/
structure Same (s s' : St n N) (i : Fin n) (r : Nat) : Prop where
  flags : flags s' i = flags s i
  msg : s'.msg i = s.msg i
  val : s'.returnVal i = s.returnVal i
  idx : s'.nsSlotIdx i = s.nsSlotIdx i
  sent : r ∈ s'.sent ↔ r ∈ s.sent
  taken : r ∈ s'.taken ↔ r ∈ s.taken
  produced : ∀ v, (r, v) ∈ s'.produced ↔ (r, v) ∈ s.produced
  outst : (r, i) ∈ s.outstanding → (r, i) ∈ s'.outstanding

theorem WaitOk.same {s s' : St n N} {m : Msg} {i : Fin n} (h : WaitOk s m i)
    (hs : Same s s' i m.rid) : WaitOk s' m i := by
  cases h with
  | sent hf hm hsn ht =>
    exact .sent (hs.flags ▸ hf) (hs.msg.trans hm) (hs.sent.2 hsn) (fun h => ht (hs.taken.1 h))
  | taken hf ho hi hp ht =>
    exact .taken (hs.flags ▸ hf) (hs.outst ho) (hs.idx.trans hi)
      (fun v h => hp v ((hs.produced v).1 h)) (hs.taken.2 ht)
  | lost hf ht => exact .lost (hs.flags ▸ hf) (hs.taken.2 ht)
  | answered hf hv =>
    refine .answered (hs.flags ▸ hf) ?_
    rw [hs.val]
    exact (hs.produced _).2 hv

/-- A thread outside its slot only depends on the ghost lists. -/
theorem ThOk.same {s s' : St n N} {p : Pc n} (h : ThOk s p)
    (hslot : ∀ i r, p.slot = some i → p.rid = some r → Same s s' i r)
    (hsent : ∀ r, p.rid = some r → r ∈ s'.sent → r ∈ s.sent)
    (hprod : ∀ r v, p.rid = some r → (r, v) ∈ s.produced → (r, v) ∈ s'.produced) :
    ThOk s' p := by
  cases p with
  | idle => trivial
  | lock m => exact fun hr => h (hsent _ rfl hr)
  | picked m i => exact fun hr => h (hsent _ rfl hr)
  | own m i =>
    exact ⟨(hslot i _ rfl rfl).flags.trans h.1, fun hr => h.2 (hsent _ rfl hr)⟩
  | filled m i =>
    have hs := hslot i _ rfl rfl
    exact ⟨hs.flags.trans h.1, fun hr => h.2.1 (hsent _ rfl hr), hs.msg.trans h.2.2⟩
  | waiting m i => exact WaitOk.same h (hslot i _ rfl rfl)
  | got m i =>
    have hs := hslot i _ rfl rfl
    refine ⟨hs.flags.trans h.1, ?_⟩
    rw [hs.val]
    exact hprod _ _ rfl h.2
  | read m i v => exact ⟨(hslot i _ rfl rfl).flags.trans h.1, hprod _ _ rfl h.2⟩
  | post m ret =>
    cases ret with
    | none => trivial
    | some v => exact hprod _ _ rfl h

/-! ## NS threads -/

theorem WaitOk.not_empty {s : St n N} {m : Msg} {i : Fin n} (h : WaitOk s m i) :
    s.emptySlots i = false := by
  change (flags s i).empty = false
  cases h with
  | sent hf _ _ _ => rcases hf with hf | hf <;> rw [hf]
  | taken hf _ _ _ _ => rcases hf with hf | hf <;> rw [hf]
  | lost hf _ =>
    rcases hf with hf | hf
    · rw [hf]
    · rw [hf]; rfl
  | answered hf _ => rcases hf with hf | hf | hf | hf | hf <;> rw [hf]

theorem owned_not_empty {s : St n N} {p : Pc n} {i : Fin n} (h : ThOk s p)
    (hp : p.slot = some i) : s.emptySlots i = false := by
  cases p <;> simp only [Pc.slot, Option.some.injEq, reduceCtorEq] at hp <;> subst hp
  case waiting m i => exact WaitOk.not_empty h
  all_goals
    change (flags s _).empty = false
    rw [h.1]
    rfl

/-- The woken flag reaches the owner of an answered slot. -/
theorem WaitOk.of_woken {s : St n N} {m : Msg} {i : Fin n} (h : WaitOk s m i)
    (hw : s.isWoken i = true) :
    flags s i = ⟨false, false, false, true, false, true, .out⟩ ∧
      (m.rid, s.returnVal i) ∈ s.produced := by
  have hw : (flags s i).woken = true := hw
  cases h with
  | sent hf _ _ _ => rcases hf with hf | hf <;> rw [hf] at hw <;> cases hw
  | taken hf _ _ _ _ => rcases hf with hf | hf <;> rw [hf] at hw <;> cases hw
  | lost hf _ => rcases hf with hf | hf <;> rw [hf] at hw <;> cases hw
  | answered hf hv =>
    rcases hf with hf | hf | hf | hf | hf <;> rw [hf] at hw
    case inr.inr.inr.inr => exact ⟨hf, hv⟩
    all_goals cases hw

/-- A step of one thread that leaves the SPE and the interrupt handler alone.
The slot the thread holds afterwards is the one it held or had picked, and the
other threads' slots look the same. -/
theorem inv_thread {s s' : St n N} {t : Fin N} {p : Pc n} (h : Inv s)
    (hths : s'.ths = Function.update s.ths t p) (hp : ThOk s' p)
    (hother : ∀ t', t' ≠ t → ThOk s' (s.ths t'))
    (hfree : ∀ i, (∀ t', t' ≠ t → (s.ths t').slot ≠ some i) → p.slot ≠ some i →
      flags s' i = freeF)
    (hslot : ∀ i, p.slot = some i → (s.ths t).slot = some i ∨ (s.ths t).pick = some i)
    (hpick : ∀ i, p.pick = some i → ∀ t', (s.ths t').pick ≠ some i ∧ (s.ths t').slot ≠ some i)
    (hnext : s.next ≤ s'.next)
    (hrid : ∀ r, p.rid = some r → r < s'.next ∧ ((s.ths t).rid = some r ∨ r = s.next))
    (hsent : ∀ r ∈ s'.sent, r ∈ s.sent ∨ p.rid = some r)
    (hsent' : ∀ r ∈ s.sent, r ∈ s'.sent)
    (htaken : s'.taken = s.taken) (hprod : s'.produced = s.produced)
    (houtst : s'.outstanding = s.outstanding) (hspe : s'.spe = s.spe)
    (hempty : s'.speEmpty = s.speEmpty)
    (hwait : ∀ m i, s.ths t = .waiting m i → p = .waiting m i ∨ s.speEmpty i = true)
    (honce : ∀ r ∈ s'.sent, r ∈ s'.taken ∨
      ∃ t m i, s'.ths t = .waiting m i ∧ m.rid = r ∧ s'.msg i = m ∧ s'.pendSlots i = true)
    (hret : ∀ r v, (r, v) ∈ s'.returned → (r, v) ∈ s'.produced) : Inv s' := by
  have hself : s'.ths t = p := by rw [hths, Function.update_self]
  have hne : ∀ t', t' ≠ t → s'.ths t' = s.ths t' := fun t' ht => by
    rw [hths, Function.update_of_ne ht]
  refine ⟨?_, ?_, ?_, ?_, ?_, ?_, ?_, ?_, ?_, ?_, ?_, ?_, ?_, honce, hret, ?_⟩
  · intro a b i ha hb
    by_cases hat : a = t
    · subst hat
      by_cases hbt : b = a
      · exact hbt.symm
      · rw [hself] at ha
        rw [hne b hbt] at hb
        rcases hslot i ha with ha | ha
        · exact h.inj _ _ i ha hb
        · exact absurd hb (h.pickFree _ _ i ha)
    · rw [hne a hat] at ha
      by_cases hbt : b = t
      · subst hbt
        rw [hself] at hb
        rcases hslot i hb with hb | hb
        · exact h.inj _ _ i ha hb
        · exact absurd ha (h.pickFree _ _ i hb)
      · rw [hne b hbt] at hb
        exact h.inj _ _ i ha hb
  · intro i hi
    refine hfree i (fun t' ht' => ?_) ?_
    · rw [← hne t' ht']
      exact hi t'
    · rw [← hself]
      exact hi t
  · intro a
    by_cases hat : a = t
    · subst hat
      rw [hself]
      exact hp
    · rw [hne a hat]
      exact hother a hat
  · intro a b i ha hb
    by_cases hat : a = t
    · subst hat
      by_cases hbt : b = a
      · exact hbt.symm
      · rw [hself] at ha
        rw [hne b hbt] at hb
        exact absurd hb (hpick i ha b).1
    · rw [hne a hat] at ha
      by_cases hbt : b = t
      · subst hbt
        rw [hself] at hb
        exact absurd ha (hpick i hb a).1
      · rw [hne b hbt] at hb
        exact h.pickInj _ _ i ha hb
  · intro a b i ha hb
    by_cases hat : a = t
    · subst hat
      rw [hself] at ha
      by_cases hbt : b = a
      · subst hbt
        rw [hself] at hb
        cases p <;> simp [Pc.pick, Pc.slot] at ha hb
      · rw [hne b hbt] at hb
        exact (hpick i ha b).2 hb
    · rw [hne a hat] at ha
      by_cases hbt : b = t
      · subst hbt
        rw [hself] at hb
        rcases hslot i hb with hb | hb
        · exact h.pickFree _ _ i ha hb
        · exact hat (h.pickInj _ _ i ha hb)
      · rw [hne b hbt] at hb
        exact h.pickFree _ _ i ha hb
  · intro a r ha
    by_cases hat : a = t
    · subst hat
      rw [hself] at ha
      exact (hrid r ha).1
    · rw [hne a hat] at ha
      exact lt_of_lt_of_le (h.ridLt a r ha) hnext
  · -- the rid of the stepping thread is its old one or brand new
    have hfresh : ∀ b r, b ≠ t → p.rid = some r → (s.ths b).rid = some r → b = t := by
      intro b r hbt hpr hb
      rcases (hrid r hpr).2 with ho | rfl
      · exact h.ridInj _ _ r hb ho
      · exact absurd (h.ridLt b _ hb) (lt_irrefl _)
    intro a b r ha hb
    by_cases hat : a = t
    · subst hat
      by_cases hbt : b = a
      · exact hbt.symm
      · rw [hself] at ha
        rw [hne b hbt] at hb
        exact (hfresh b r hbt ha hb).symm
    · rw [hne a hat] at ha
      by_cases hbt : b = t
      · subst hbt
        rw [hself] at hb
        exact hfresh a r hat hb ha
      · rw [hne b hbt] at hb
        exact h.ridInj _ _ r ha hb
  · intro r hr
    rcases hsent r hr with hr | hr
    · exact lt_of_lt_of_le (h.sentLt r hr) hnext
    · exact (hrid r hr).1
  · intro r hr
    rw [htaken] at hr
    exact hsent' r (h.takenSent r hr)
  · rw [htaken]
    exact h.takenNodup
  · rw [hprod, htaken]
    exact h.producedTaken
  · rw [hprod]
    exact h.producedFun
  · intro r i hr
    rw [houtst] at hr
    obtain ⟨he, a, m, ha, hm⟩ := h.outst r i hr
    refine ⟨by rw [hempty]; exact he, a, m, ?_, hm⟩
    by_cases hat : a = t
    · subst hat
      rw [hself]
      rcases hwait m i ha with hw | hw
      · exact hw
      · rw [hw] at he
        cases he
    · rw [hne a hat]
      exact ha
  · rw [hspe]
    exact h.replyDone

/-- A sent request stays accounted for when the stepping thread was not waiting
on a pending slot and no message or pending bit of another thread changed. -/
theorem once_keep {s s' : St n N} {t : Fin N} {p : Pc n} (h : Inv s)
    (hths : s'.ths = Function.update s.ths t p)
    (hsent : ∀ r ∈ s'.sent, r ∈ s.sent) (htaken : s'.taken = s.taken)
    (hself : ∀ m i, s.ths t = .waiting m i → s.pendSlots i = false)
    (hmsg : ∀ t' m i, t' ≠ t → s.ths t' = .waiting m i →
      s'.msg i = s.msg i ∧ s'.pendSlots i = s.pendSlots i) :
    ∀ r ∈ s'.sent, r ∈ s'.taken ∨
      ∃ t m i, s'.ths t = .waiting m i ∧ m.rid = r ∧ s'.msg i = m ∧ s'.pendSlots i = true := by
  intro r hr
  rw [htaken]
  rcases h.sentOnce r (hsent r hr) with hr | ⟨a, m, i, ha, hm, hi, hpend⟩
  · exact .inl hr
  · right
    have hat : a ≠ t := by
      intro hx
      subst hx
      rw [hself m i ha] at hpend
      cases hpend
    obtain ⟨h₁, h₂⟩ := hmsg a m i hat ha
    exact ⟨a, m, i, by rw [hths, Function.update_of_ne hat]; exact ha, hm, h₁.trans hi,
      h₂.trans hpend⟩

/-- Nothing a thread can see of its slot changed. -/
theorem ThOk.quiet {s s' : St n N} {p : Pc n} (h : ThOk s p) (hf : flags s' = flags s)
    (hm : s'.msg = s.msg) (hv : s'.returnVal = s.returnVal) (hx : s'.nsSlotIdx = s.nsSlotIdx)
    (hs : s'.sent = s.sent) (ht : s'.taken = s.taken) (hp : s'.produced = s.produced)
    (ho : s'.outstanding = s.outstanding) : ThOk s' p :=
  h.same
    (fun i r _ _ => ⟨by rw [hf], by rw [hm], by rw [hv], by rw [hx], by rw [hs],
      by rw [ht], fun v => by rw [hp], by rw [ho]; exact id⟩)
    (fun r _ => by rw [hs]; exact id) (fun r v _ => by rw [hp]; exact id)

/-- The thread `t` changed its own slot `i` only. -/
theorem ThOk.other {s s' : St n N} {t t' : Fin N} {i : Fin n} {r : Nat} (h : Inv s)
    (hne : t' ≠ t) (hti : (s.ths t).slot = some i ∨ (s.ths t).pick = some i)
    (htr : (s.ths t).rid = some r) (hf : ∀ j, j ≠ i → flags s' j = flags s j)
    (hm : ∀ j, j ≠ i → s'.msg j = s.msg j) (hv : s'.returnVal = s.returnVal)
    (hx : s'.nsSlotIdx = s.nsSlotIdx) (hs : ∀ r' ∈ s'.sent, r' ∈ s.sent ∨ r' = r)
    (hs' : ∀ r' ∈ s.sent, r' ∈ s'.sent)
    (ht : s'.taken = s.taken) (hp : s'.produced = s.produced)
    (ho : s'.outstanding = s.outstanding) : ThOk s' (s.ths t') := by
  have hsent : ∀ r', (s.ths t').rid = some r' → r' ∈ s'.sent → r' ∈ s.sent := by
    intro r' hr' hmem
    rcases hs r' hmem with hmem | rfl
    · exact hmem
    · exact absurd (h.ridInj _ _ _ hr' htr) hne
  refine (h.th t').same (fun j r' hj hr' => ?_) hsent (fun r v _ => by rw [hp]; exact id)
  have hji : j ≠ i := by
    intro he
    subst he
    rcases hti with hti | hti
    · exact hne (h.inj _ _ j hj hti)
    · exact h.pickFree _ _ j hti hj
  exact ⟨hf j hji, hm j hji, by rw [hv], by rw [hx], ⟨hsent r' hr', hs' r'⟩, by rw [ht],
    fun v => by rw [hp], by rw [ho]; exact id⟩

theorem inv_lockAcquire {s s' : St n N} {t : Fin N} {ct : Nat} {ps : List Nat} {c : Int}
    (h : Inv s) (hs : lockAcquire s t ct ps c = some s') : Inv s' := by
  unfold lockAcquire at hs
  split at hs
  · rename_i ht
    split at hs
    · cases hs
    cases hs
    have hnew : s.next ∉ s.sent := fun hr => lt_irrefl _ (h.sentLt _ hr)
    refine inv_thread (t := t) h rfl hnew
      (fun t' _ => (h.th t').quiet rfl rfl rfl rfl rfl rfl rfl rfl) ?_ ?_ ?_ (Nat.le_succ _) ?_ ?_
      (fun r hr => hr) rfl rfl rfl rfl rfl ?_ ?_ h.returnedProduced
    · intro i hi _
      refine h.free i fun t' => ?_
      by_cases htt : t' = t
      · subst htt; rw [ht]; simp [Pc.slot]
      · exact hi t' htt
    · intro i hi; cases hi
    · intro i hi; cases hi
    · intro r hr
      cases hr
      exact ⟨Nat.lt_succ_self _, .inr rfl⟩
    · intro r hr; exact .inl hr
    · intro m i hw; rw [ht] at hw; cases hw
    · exact once_keep h rfl (fun r hr => hr) rfl (fun m i hw => by rw [ht] at hw; cases hw)
        (fun _ _ _ _ _ => ⟨rfl, rfl⟩)
  · cases hs

theorem firstSet_some {b : Bits n} {i : Fin n} (h : firstSet b = some i) : b i = true :=
  List.find?_some h

theorem firstSet_none {b : Bits n} (h : firstSet b = none) (i : Fin n) : b i = false := by
  have := List.find?_eq_none.1 h i (List.mem_finRange i)
  simpa using this

theorem inv_snapshotEmpty {s s' : St n N} {t : Fin N} (h : Inv s)
    (hc : NoClash s (.snapshotEmpty t) = true) (hs : snapshotEmpty s t = some s') : Inv s' := by
  unfold snapshotEmpty at hs
  split at hs
  · rename_i m ht
    have hth : m.rid ∉ s.sent := by have := h.th t; rwa [ht] at this
    have hfree : ∀ i, (∀ t', t' ≠ t → (s.ths t').slot ≠ some i) → flags s i = freeF := by
      intro i hi
      refine h.free i fun t' => ?_
      by_cases htt : t' = t
      · subst htt; rw [ht]; simp [Pc.slot]
      · exact hi t' htt
    have hwait : ∀ m i, s.ths t ≠ .waiting m i := fun m i hw => by rw [ht] at hw; cases hw
    have hrid : (s.ths t).rid = some m.rid := by rw [ht]; rfl
    split at hs
    · rename_i i hi
      cases hs
      refine inv_thread (t := t) h rfl hth
        (fun t' _ => (h.th t').quiet rfl rfl rfl rfl rfl rfl rfl rfl) (fun j hj _ => hfree j hj) ?_ ?_
        le_rfl ?_ (fun r hr => .inl hr) (fun r hr => hr) rfl rfl rfl rfl rfl
        (fun m i hw => absurd hw (hwait m i)) ?_ h.returnedProduced
      · intro j hj; cases hj
      · intro j hj t'
        cases hj
        constructor
        · simp only [NoClash, hi, List.all_eq_true] at hc
          simpa using hc t' (List.mem_finRange t')
        · intro hslot
          have he := firstSet_some hi
          rw [owned_not_empty (h.th t') hslot] at he
          cases he
      · intro r hr
        cases hr
        exact ⟨h.ridLt t _ hrid, .inl hrid⟩
      · exact once_keep h rfl (fun r hr => hr) rfl (fun m i hw => absurd hw (hwait m i))
          (fun _ _ _ _ _ => ⟨rfl, rfl⟩)
    · cases hs
      refine inv_thread (t := t) h rfl trivial
        (fun t' _ => (h.th t').quiet rfl rfl rfl rfl rfl rfl rfl rfl) (fun j hj _ => hfree j hj) ?_
        ?_ le_rfl ?_ (fun r hr => .inl hr) (fun r hr => hr) rfl rfl rfl rfl rfl
        (fun m i hw => absurd hw (hwait m i)) ?_ h.returnedProduced
      · intro j hj; cases hj
      · intro j hj; cases hj
      · intro r hr
        cases hr
        exact ⟨h.ridLt t _ hrid, .inl hrid⟩
      · exact once_keep h rfl (fun r hr => hr) rfl (fun m i hw => absurd hw (hwait m i))
          (fun _ _ _ _ _ => ⟨rfl, rfl⟩)
  · cases hs

theorem slot_none_of_pick {p : Pc n} {i : Fin n} (h : p.pick = some i) : p.slot = none := by
  cases p with
  | picked m j => rfl
  | _ => cases h

/-- A step of the thread that owns (or has just picked) slot `i` and keeps its
request. -/
theorem inv_owner {s s' : St n N} {t : Fin N} {p : Pc n} {i : Fin n} {r : Nat} (h : Inv s)
    (hths : s'.ths = Function.update s.ths t p)
    (hti : (s.ths t).slot = some i ∨ (s.ths t).pick = some i)
    (htr : (s.ths t).rid = some r) (hpr : p.rid = some r) (hp : ThOk s' p)
    (hf : ∀ j, j ≠ i → flags s' j = flags s j)
    (hslot : p.slot = some i ∨ (p.slot = none ∧ flags s' i = freeF)) (hpick : p.pick = none)
    (hm : ∀ j, j ≠ i → s'.msg j = s.msg j) (hv : s'.returnVal = s.returnVal)
    (hx : s'.nsSlotIdx = s.nsSlotIdx) (hs : ∀ r' ∈ s'.sent, r' ∈ s.sent ∨ r' = r)
    (hs' : ∀ r' ∈ s.sent, r' ∈ s'.sent)
    (ht : s'.taken = s.taken) (hprod : s'.produced = s.produced)
    (ho : s'.outstanding = s.outstanding) (hspe : s'.spe = s.spe)
    (hempty : s'.speEmpty = s.speEmpty) (hnext : s'.next = s.next)
    (hret : s'.returned = s.returned)
    (hwait : ∀ m j, s.ths t = .waiting m j → s.speEmpty j = true)
    (honce : ∀ r ∈ s'.sent, r ∈ s'.taken ∨
      ∃ t m i, s'.ths t = .waiting m i ∧ m.rid = r ∧ s'.msg i = m ∧ s'.pendSlots i = true) :
    Inv s' := by
  refine inv_thread (t := t) h hths hp ?_ ?_ ?_ ?_ hnext.ge ?_ ?_ hs' ht hprod ho hspe hempty
    (fun m j hw => .inr (hwait m j hw)) honce ?_
  · intro t' hne
    exact ThOk.other h hne hti htr hf hm hv hx hs hs' ht hprod ho
  · intro j hj hpj
    by_cases hji : j = i
    · subst hji
      rcases hslot with hslot | ⟨-, hfree⟩
      · exact absurd hslot hpj
      · exact hfree
    · rw [hf j hji]
      refine h.free j fun t' => ?_
      by_cases htt : t' = t
      · subst htt
        rcases hti with hti | hti
        · rw [hti]
          exact fun he => hji (Option.some.inj he).symm
        · rw [slot_none_of_pick hti]
          simp
      · exact hj t' htt
  · intro j hj
    rcases hslot with hslot | ⟨hslot, -⟩
    · rw [hslot] at hj
      cases hj
      exact hti
    · rw [hslot] at hj
      cases hj
  · intro j hj
    rw [hpick] at hj
    cases hj
  · intro r' hr'
    rw [hpr] at hr'
    cases hr'
    exact ⟨hnext ▸ h.ridLt t r htr, .inl htr⟩
  · intro r' hr'
    rcases hs r' hr' with hr' | rfl
    · exact .inl hr'
    · exact .inr hpr
  · rw [hret, hprod]
    exact h.returnedProduced

theorem inv_clearEmpty {s s' : St n N} {t : Fin N} (h : Inv s)
    (hs : clearEmpty s t = some s') : Inv s' := by
  unfold clearEmpty at hs
  split at hs
  · rename_i m i ht
    cases hs
    have hpick : (s.ths t).pick = some i := by rw [ht]; rfl
    have hth : m.rid ∉ s.sent := by have := h.th t; rwa [ht] at this
    have hfi : flags s i = freeF := h.free i fun t' => h.pickFree t t' i hpick
    have hwait : ∀ m i, s.ths t ≠ .waiting m i := fun m i hw => by rw [ht] at hw; cases hw
    refine inv_owner (t := t) (i := i) (r := m.rid) h rfl (.inr hpick) (by rw [ht]; rfl) rfl
      ⟨?_, hth⟩ ?_ (.inl rfl) rfl (fun _ _ => rfl) rfl rfl (fun _ hr => .inl hr) (fun _ hr => hr)
      rfl rfl rfl rfl rfl rfl rfl (fun m j hw => absurd hw (hwait m j)) ?_
    · have := congrArg (fun f : Flags => { f with empty := false }) hfi
      simpa [flags, setPc, isrBit, stage, freeF, ownF] using this
    · intro j hj
      simp [flags, setPc, isrBit, stage, hj]
    · exact once_keep h rfl (fun r hr => hr) rfl (fun m i hw => absurd hw (hwait m i))
        (fun _ _ _ _ _ => ⟨rfl, rfl⟩)
  · cases hs

theorem inv_fillMsg {s s' : St n N} {t : Fin N} (h : Inv s) (hs : fillMsg s t = some s') :
    Inv s' := by
  unfold fillMsg at hs
  split at hs
  · rename_i m i ht
    cases hs
    have hslot : (s.ths t).slot = some i := by rw [ht]; rfl
    have hth : flags s i = ownF ∧ m.rid ∉ s.sent := by have := h.th t; rwa [ht] at this
    have hwait : ∀ m i, s.ths t ≠ .waiting m i := fun m i hw => by rw [ht] at hw; cases hw
    refine inv_owner (t := t) (i := i) (r := m.rid) h rfl (.inl hslot) (by rw [ht]; rfl) rfl
      ⟨hth.1, hth.2, Function.update_self ..⟩ (fun _ _ => rfl) (.inl rfl) rfl
      (fun j hj => Function.update_of_ne hj ..) rfl rfl (fun _ hr => .inl hr) (fun _ hr => hr)
      rfl rfl rfl rfl rfl rfl rfl (fun m j hw => absurd hw (hwait m j)) ?_
    refine once_keep h rfl (fun r hr => hr) rfl (fun m i hw => absurd hw (hwait m i)) ?_
    intro t' m' j hne hw
    refine ⟨Function.update_of_ne ?_ .., rfl⟩
    intro hx
    subst hx
    exact hne (h.inj _ _ _ (by rw [hw]; rfl) hslot)
  · cases hs

theorem inv_setPend {s s' : St n N} {t : Fin N} (h : Inv s) (hs : setPend s t = some s') :
    Inv s' := by
  unfold setPend at hs
  split at hs
  · rename_i m i ht
    cases hs
    have hslot : (s.ths t).slot = some i := by rw [ht]; rfl
    have hth : flags s i = ownF ∧ m.rid ∉ s.sent ∧ s.msg i = m := by
      have := h.th t; rwa [ht] at this
    have hwait : ∀ m i, s.ths t ≠ .waiting m i := fun m i hw => by rw [ht] at hw; cases hw
    refine inv_owner (t := t) (i := i) (r := m.rid) h rfl (.inl hslot) (by rw [ht]; rfl) rfl
      (.sent (.inl ?_) hth.2.2 List.mem_cons_self fun hr => hth.2.1 (h.takenSent _ hr)) ?_ (.inl rfl) rfl
      (fun _ _ => rfl) rfl rfl
      (fun r hr => ?_) (fun r hr => List.mem_cons_of_mem _ hr)
      rfl rfl rfl rfl rfl rfl rfl (fun m j hw => absurd hw (hwait m j)) ?_
    · have := congrArg (fun f : Flags => { f with pend := true }) hth.1
      simpa [flags, setPc, isrBit, stage, ownF] using this
    · intro j hj
      simp [flags, setPc, isrBit, stage, hj]
    · rcases List.mem_cons.1 hr with rfl | hr
      · exact .inr rfl
      · exact .inl hr
    · intro r hr
      rcases List.mem_cons.1 hr with rfl | hr
      · exact .inr ⟨t, m, i, Function.update_self .., rfl, hth.2.2, Function.update_self ..⟩
      · rcases h.sentOnce r hr with hr | ⟨a, m', j, ha, hm, hj, hpend⟩
        · exact .inl hr
        · right
          refine ⟨a, m', j, ?_, hm, hj, ?_⟩
          · have hat : a ≠ t := by
              intro hx
              subst hx
              exact hwait _ _ ha
            exact (Function.update_of_ne hat ..).trans ha
          · change Function.update s.pendSlots i true j = true
            by_cases hji : j = i
            · rw [hji, Function.update_self]
            · rw [Function.update_of_ne hji]
              exact hpend
  · cases hs

theorem inv_waitReplySignal {s s' : St n N} {t : Fin N} (h : Inv s)
    (hs : waitReplySignal s t = some s') : Inv s' := by
  unfold waitReplySignal at hs
  split at hs
  · rename_i m i ht
    split at hs
    · rename_i hwk
      cases hs
      have hslot : (s.ths t).slot = some i := by rw [ht]; rfl
      have hth : WaitOk s m i := by have := h.th t; rwa [ht] at this
      obtain ⟨hf, hv⟩ := hth.of_woken hwk
      have hpend : s.pendSlots i = false := congrArg Flags.pend hf
      have hsp : s.speEmpty i = true := congrArg Flags.speEmpty hf
      refine inv_owner (t := t) (i := i) (r := m.rid) h rfl (.inl hslot) (by rw [ht]; rfl) rfl
        ⟨?_, hv⟩ ?_ (.inl rfl) rfl (fun _ _ => rfl) rfl rfl (fun _ hr => .inl hr) (fun _ hr => hr)
        rfl rfl rfl rfl rfl rfl rfl ?_ ?_
      · have := congrArg (fun f : Flags => { f with woken := false }) hf
        simpa [flags, setPc, isrBit, stage, ownF] using this
      · intro j hj
        simp [flags, setPc, isrBit, stage, hj]
      · intro m' j hw
        rw [ht] at hw
        cases hw
        exact hsp
      · refine once_keep h rfl (fun r hr => hr) rfl ?_ (fun _ _ _ _ _ => ⟨rfl, rfl⟩)
        intro m' j hw
        rw [ht] at hw
        cases hw
        exact hpend
    · cases hs
      exact h
  · cases hs

theorem inv_rxReadReply {s s' : St n N} {t : Fin N} (h : Inv s)
    (hs : rxReadReply s t = some s') : Inv s' := by
  unfold rxReadReply at hs
  split at hs
  · rename_i m i ht
    cases hs
    have hslot : (s.ths t).slot = some i := by rw [ht]; rfl
    have hth : flags s i = ownF ∧ (m.rid, s.returnVal i) ∈ s.produced := by
      have := h.th t; rwa [ht] at this
    have hwait : ∀ m i, s.ths t ≠ .waiting m i := fun m i hw => by rw [ht] at hw; cases hw
    refine inv_owner (t := t) (i := i) (r := m.rid) h rfl (.inl hslot) (by rw [ht]; rfl) rfl
      ⟨hth.1, hth.2⟩ (fun _ _ => rfl) (.inl rfl) rfl (fun _ _ => rfl) rfl rfl
      (fun _ hr => .inl hr) (fun _ hr => hr) rfl rfl rfl rfl rfl rfl rfl
      (fun m j hw => absurd hw (hwait m j)) ?_
    exact once_keep h rfl (fun r hr => hr) rfl (fun m i hw => absurd hw (hwait m i))
      (fun _ _ _ _ _ => ⟨rfl, rfl⟩)
  · cases hs

theorem inv_rxSetEmpty {s s' : St n N} {t : Fin N} (h : Inv s)
    (hs : rxSetEmpty s t = some s') : Inv s' := by
  unfold rxSetEmpty at hs
  split at hs
  · rename_i m i v ht
    cases hs
    have hslot : (s.ths t).slot = some i := by rw [ht]; rfl
    have hth : flags s i = ownF ∧ (m.rid, v) ∈ s.produced := by have := h.th t; rwa [ht] at this
    have hwait : ∀ m i, s.ths t ≠ .waiting m i := fun m i hw => by rw [ht] at hw; cases hw
    refine inv_owner (t := t) (i := i) (r := m.rid) h rfl (.inl hslot) (by rw [ht]; rfl) rfl
      hth.2 ?_ (.inr ⟨rfl, ?_⟩) rfl (fun _ _ => rfl) rfl rfl
      (fun _ hr => .inl hr) (fun _ hr => hr) rfl rfl rfl rfl rfl rfl rfl
      (fun m j hw => absurd hw (hwait m j)) ?_
    · intro j hj
      simp [flags, setPc, isrBit, stage, hj]
    · have := congrArg (fun f : Flags => { f with woken := false, empty := true }) hth.1
      simpa [flags, setPc, isrBit, stage, ownF, freeF] using this
    · exact once_keep h rfl (fun r hr => hr) rfl (fun m i hw => absurd hw (hwait m i))
        (fun _ _ _ _ _ => ⟨rfl, rfl⟩)
  · cases hs

theorem inv_lockRelease {s s' : St n N} {t : Fin N} (h : Inv s)
    (hs : lockRelease s t = some s') : Inv s' := by
  unfold lockRelease at hs
  have hfree : (s.ths t).slot = none → ∀ i, (∀ t', t' ≠ t → (s.ths t').slot ≠ some i) →
      flags s i = freeF := by
    intro hn i hi
    refine h.free i fun t' => ?_
    by_cases htt : t' = t
    · subst htt; rw [hn]; simp
    · exact hi t' htt
  split at hs
  · rename_i m v ht
    cases hs
    have hth : (m.rid, v) ∈ s.produced := by have := h.th t; rwa [ht] at this
    have hwait : ∀ m i, s.ths t ≠ .waiting m i := fun m i hw => by rw [ht] at hw; cases hw
    refine inv_thread (t := t) h rfl trivial
      (fun t' _ => (h.th t').quiet rfl rfl rfl rfl rfl rfl rfl rfl)
      (fun i hi _ => hfree (by rw [ht]; rfl) i hi) (fun i hi => by cases hi)
      (fun i hi => by cases hi) le_rfl (fun r hr => by cases hr) (fun r hr => .inl hr)
      (fun r hr => hr) rfl rfl rfl rfl rfl (fun m i hw => absurd hw (hwait m i)) ?_ ?_
    · exact once_keep h rfl (fun r hr => hr) rfl (fun m i hw => absurd hw (hwait m i))
        (fun _ _ _ _ _ => ⟨rfl, rfl⟩)
    · intro r v' hr
      rcases List.mem_cons.1 hr with hr | hr
      · cases hr
        exact hth
      · exact h.returnedProduced r v' hr
  · rename_i m ht
    cases hs
    have hwait : ∀ m i, s.ths t ≠ .waiting m i := fun m i hw => by rw [ht] at hw; cases hw
    refine inv_thread (t := t) h rfl trivial
      (fun t' _ => (h.th t').quiet rfl rfl rfl rfl rfl rfl rfl rfl)
      (fun i hi _ => hfree (by rw [ht]; rfl) i hi) (fun i hi => by cases hi)
      (fun i hi => by cases hi) le_rfl (fun r hr => by cases hr) (fun r hr => .inl hr)
      (fun r hr => hr) rfl rfl rfl rfl rfl (fun m i hw => absurd hw (hwait m i)) ?_
      h.returnedProduced
    exact once_keep h rfl (fun r hr => hr) rfl (fun m i hw => absurd hw (hwait m i))
      (fun _ _ _ _ _ => ⟨rfl, rfl⟩)
  · cases hs

/-! ## Interrupt handler and SPE -/

/-- A waiting request that was never taken is still pending. -/
theorem once_of_wait {s : St n N} {t : Fin N} {m : Msg} {i : Fin n} (h : WaitOk s m i)
    (ht : s.ths t = .waiting m i) (hp : ∀ r v, (r, v) ∈ s.produced → r ∈ s.taken) :
    m.rid ∈ s.taken ∨
      ∃ t m' i, s.ths t = .waiting m' i ∧ m'.rid = m.rid ∧ s.msg i = m' ∧
        s.pendSlots i = true := by
  cases h with
  | sent hf hm _ _ =>
    have hpend : (flags s i).pend = true := by rcases hf with hf | hf <;> rw [hf]
    exact .inr ⟨t, m, i, ht, rfl, hm, hpend⟩
  | taken _ _ _ _ h => exact .inl h
  | lost _ h => exact .inl h
  | answered _ hv => exact .inl (hp _ _ hv)

/-- How the peer side may change the flags of a slot. -/
structure Moves (f f' : Flags) : Prop where
  free : f = freeF → f' = freeF
  own : f = ownF → f' = ownF
  sent : sentF f → sentF f'
  taken : takenF f → takenF f'
  lost : lostF f → lostF f'
  answered : answeredF f → answeredF f'

/-- A step of the interrupt handler or the SPE that moves status bits only. -/
theorem inv_moves {s s' : St n N} (h : Inv s) (hths : s'.ths = s.ths)
    (hf : ∀ i, Moves (flags s i) (flags s' i)) (hm : s'.msg = s.msg)
    (hv : s'.returnVal = s.returnVal) (hx : s'.nsSlotIdx = s.nsSlotIdx)
    (hs : s'.sent = s.sent) (ht : s'.taken = s.taken) (hp : s'.produced = s.produced)
    (ho : s'.outstanding = s.outstanding) (he : s'.speEmpty = s.speEmpty)
    (hn : s'.next = s.next) (hr : s'.returned = s.returned)
    (hd : ∀ pend idx reply, s'.spe = .handling pend idx reply →
      ∀ i, reply i = true → pend i = true ∧ i.val < idx) : Inv s' := by
  have hwait : ∀ m i, WaitOk s m i → WaitOk s' m i := by
    intro m i hw
    cases hw with
    | sent hf' hm' hs' ht' =>
      exact .sent ((hf i).sent hf') (by rw [hm]; exact hm') (by rwa [hs]) (by rwa [ht])
    | taken hf' ho' hi' hp' ht' =>
      exact .taken ((hf i).taken hf') (by rwa [ho]) (by rw [hx]; exact hi') (by rwa [hp])
        (by rwa [ht])
    | lost hf' ht' => exact .lost ((hf i).lost hf') (by rwa [ht])
    | answered hf' hv' => exact .answered ((hf i).answered hf') (by rwa [hv, hp])
  have hth : ∀ t, ThOk s' (s'.ths t) := by
    intro t
    have hold := h.th t
    rw [hths]
    cases hpc : s.ths t with
    | waiting m i =>
      rw [hpc] at hold
      exact hwait m i hold
    | own m i =>
      rw [hpc] at hold
      exact ⟨(hf i).own hold.1, by rw [hs]; exact hold.2⟩
    | filled m i =>
      rw [hpc] at hold
      exact ⟨(hf i).own hold.1, by rw [hs]; exact hold.2.1, by rw [hm]; exact hold.2.2⟩
    | got m i =>
      rw [hpc] at hold
      exact ⟨(hf i).own hold.1, by rw [hv, hp]; exact hold.2⟩
    | read m i v =>
      rw [hpc] at hold
      exact ⟨(hf i).own hold.1, by rw [hp]; exact hold.2⟩
    | post m ret =>
      rw [hpc] at hold
      cases ret with
      | none => trivial
      | some v => simpa only [ThOk, hp] using hold
    | lock m =>
      rw [hpc] at hold
      simpa only [ThOk, hs] using hold
    | picked m i =>
      rw [hpc] at hold
      simpa only [ThOk, hs] using hold
    | idle => trivial
  refine ⟨?_, ?_, hth, ?_, ?_, ?_, ?_, ?_, ?_, ?_, ?_, ?_, ?_, ?_, ?_, hd⟩
  · rw [hths]; exact h.inj
  · intro i hi
    rw [hths] at hi
    exact (hf i).free (h.free i hi)
  · rw [hths]; exact h.pickInj
  · rw [hths]; exact h.pickFree
  · rw [hths, hn]; exact h.ridLt
  · rw [hths]; exact h.ridInj
  · rw [hs, hn]; exact h.sentLt
  · rw [hs, ht]; exact h.takenSent
  · rw [ht]; exact h.takenNodup
  · rw [hp, ht]; exact h.producedTaken
  · rw [hp]; exact h.producedFun
  · rw [ho, he, hths]; exact h.outst
  · intro r hr'
    rw [hs] at hr'
    rcases h.sentOnce r hr' with hr' | ⟨t, m, i, hw, rfl, -, -⟩
    · exact .inl (by rwa [ht])
    · have hold := hth t
      rw [hths, hw] at hold
      exact once_of_wait hold (by rw [hths]; exact hw) (by rw [hp, ht]; exact h.producedTaken)
  · rw [hr, hp]; exact h.returnedProduced

theorem isrBit_toWake (b : Bits n) (i : Fin n) : isrBit (toWake b) i = b i := by
  unfold toWake
  split
  · rfl
  · rename_i hn
    have := firstSet_none (b := b) (by simpa using hn) i
    simp [isrBit, this]

/-- The bit moves from `replied_slots` to the handler's local copy. -/
theorem moves_isrBegin {f : Flags} (hf : f.isr = false) :
    Moves f { f with replied := false, isr := f.replied } := by
  constructor
  · rintro rfl; rfl
  · rintro rfl; rfl
  · intro h
    obtain rfl | rfl := h
    · exact .inl rfl
    · exact .inr rfl
  · intro h
    obtain rfl | rfl := h
    · exact .inl rfl
    · exact .inr rfl
  · intro h
    obtain rfl | rfl := h
    · exact .inl rfl
    · exact .inr rfl
  · intro h
    obtain rfl | rfl | rfl | rfl | rfl := h
    · exact .inl rfl
    · exact .inr (.inl rfl)
    · exact .inr (.inr (.inr (.inl rfl)))
    · cases hf
    · exact .inr (.inr (.inr (.inr rfl)))

theorem inv_isrBegin {s s' : St n N} (h : Inv s) (hs : isrBegin s = some s') : Inv s' := by
  unfold isrBegin at hs
  split at hs
  · rename_i hisr
    cases hs
    refine inv_moves h rfl (fun i => ?_) rfl rfl rfl rfl rfl rfl rfl rfl rfl rfl h.replyDone
    have hfl : (flags s i).isr = false := by simp [flags, isrBit, hisr]
    have := moves_isrBegin hfl
    simpa [flags, isrBit_toWake, stage] using this
  · cases hs

theorem moves_refl (f : Flags) : Moves f f := ⟨id, id, id, id, id, id⟩

/-- The slot the handler wakes is answered, so only its own two bits move. -/
theorem moves_isrWake {f : Flags} (hf : f.isr = true) :
    Moves f { f with woken := true, isr := false } := by
  constructor
  · rintro rfl; cases hf
  · rintro rfl; cases hf
  · rintro (rfl | rfl) <;> cases hf
  · rintro (rfl | rfl) <;> cases hf
  · rintro (rfl | rfl) <;> cases hf
  · rintro (rfl | rfl | rfl | rfl | rfl) <;> try cases hf
    exact .inr (.inr (.inr (.inr rfl)))

theorem inv_isrWake {s s' : St n N} (h : Inv s) (hs : isrWake s = some s') : Inv s' := by
  unfold isrWake at hs
  split at hs
  · rename_i b hisr
    split at hs
    · rename_i i hi
      cases hs
      refine inv_moves h rfl (fun j => ?_) rfl rfl rfl rfl rfl rfl rfl rfl rfl rfl h.replyDone
      by_cases hji : j = i
      · subst hji
        have hfl : (flags s j).isr = true := by simp [flags, isrBit, hisr, firstSet_some hi]
        have := moves_isrWake hfl
        simpa [flags, isrBit_toWake, stage] using this
      · have hb : isrBit (toWake (Function.update b i false)) j = isrBit s.isr j := by
          rw [isrBit_toWake, Function.update_of_ne hji, hisr]
          rfl
        have := moves_refl (flags s j)
        simpa [flags, hb, stage, hji] using this
    · rename_i hi
      cases hs
      refine inv_moves h rfl (fun j => ?_) rfl rfl rfl rfl rfl rfl rfl rfl rfl rfl h.replyDone
      have := moves_refl (flags s j)
      simpa [flags, stage, isrBit, hisr, firstSet_none hi j] using this
  · cases hs

theorem moves_handleBegin {f : Flags} (hf : f.stage = .out) :
    Moves f { f with stage := if f.pend then .todo else .out } := by
  constructor
  · rintro rfl; rfl
  · rintro rfl; rfl
  · intro h
    obtain rfl | rfl := h
    · exact .inr rfl
    · cases hf
  · intro h
    obtain rfl | rfl := h
    · cases hf
    · exact .inr rfl
  · intro h
    obtain rfl | rfl := h
    · cases hf
    · exact .inr rfl
  · rintro (rfl | rfl | rfl | rfl | rfl) <;> try cases hf
    · exact .inr (.inr (.inl rfl))
    · exact .inr (.inr (.inr (.inl rfl)))
    · exact .inr (.inr (.inr (.inr rfl)))

theorem inv_handleBegin {s s' : St n N} (h : Inv s) (hs : handleBegin s = some s') : Inv s' := by
  unfold handleBegin at hs
  split at hs
  · rename_i hspe
    split at hs
    · cases hs
      refine inv_moves h rfl (fun i => ?_) rfl rfl rfl rfl rfl rfl rfl rfl rfl rfl ?_
      · have hfl : (flags s i).stage = .out := by simp [flags, stage, hspe]
        have := moves_handleBegin hfl
        simpa [flags, stage, hspe] using this
      · intro pend idx reply he i hi
        cases he
        cases hi
    · cases hs
      exact h
  · cases hs

/-- The pending bits of the snapshot go, the directly answered slots become
replied. -/
theorem moves_handleEnd {f : Flags} {snap rep : Bool}
    (hf : f.stage = if snap then .done rep else .out) (hr : rep = true → snap = true) :
    Moves f { f with pend := f.pend && !snap, replied := f.replied || rep, stage := .out } := by
  cases snap with
  | false =>
    have hr : rep = false := by cases rep with | false => rfl | true => exact (hr rfl).symm
    subst hr
    simp only [Bool.not_false, Bool.and_true, Bool.or_false]
    have he : { f with stage := .out } = f := by
      obtain ⟨e, p, r, w, i, se, st⟩ := f
      simp only [Bool.false_eq_true, if_false] at hf
      simp [hf]
    rw [he]
    exact ⟨id, id, id, id, id, id⟩
  | true =>
    simp only [if_true] at hf
    constructor
    · rintro rfl; cases hf
    · rintro rfl; cases hf
    · rintro (rfl | rfl) <;> cases hf
    · rintro (rfl | rfl) <;> cases hf
      exact .inr rfl
    · rintro (rfl | rfl) <;> cases hf
      exact .inr rfl
    · rintro (rfl | rfl | rfl | rfl | rfl) <;> cases hf
      exact .inr (.inr (.inl rfl))

theorem inv_handleEnd {s s' : St n N} (h : Inv s) (hs : handleEnd s = some s') : Inv s' := by
  unfold handleEnd at hs
  split at hs
  · rename_i pend idx reply hspe
    split at hs
    · cases hs
    rename_i hidx
    cases hs
    refine inv_moves h rfl (fun i => ?_) rfl rfl rfl rfl rfl rfl rfl rfl rfl rfl
      (fun _ _ _ he => by cases he)
    have hlt : i.val < idx := by have := i.isLt; omega
    have hstage : (flags s i).stage = if pend i then .done (reply i) else .out := by
      simp [flags, stage, hspe, hlt]
    exact moves_handleEnd hstage fun hri => (h.replyDone _ _ _ hspe i hri).1
  · cases hs

theorem moves_replyEnd {f : Flags} (hf : f.stage = .replying) :
    Moves f { f with replied := true, stage := .out } := by
  constructor
  · rintro rfl; cases hf
  · rintro rfl; cases hf
  · rintro (rfl | rfl) <;> cases hf
  · rintro (rfl | rfl) <;> cases hf
  · rintro (rfl | rfl) <;> cases hf
  · rintro (rfl | rfl | rfl | rfl | rfl) <;> try cases hf
    exact .inr (.inr (.inl rfl))

theorem inv_replyEnd {s s' : St n N} (h : Inv s) (hs : replyEnd s = some s') : Inv s' := by
  unfold replyEnd at hs
  split at hs
  · rename_i idx hspe
    cases hs
    refine inv_moves h rfl (fun i => ?_) rfl rfl rfl rfl rfl rfl rfl rfl rfl rfl
      (fun _ _ _ he => by cases he)
    by_cases hi : i = idx
    · subst hi
      have := moves_replyEnd (f := flags s i) (by simp [flags, stage, hspe])
      simpa [flags, stage, hspe] using this
    · have := moves_refl (flags s i)
      simpa [flags, stage, hspe, hi, Ne.symm hi] using this
  · cases hs

/-- Only a waiting call has its slot inside the SPE's processing. -/
theorem waiting_of_stage {s : St n N} {i : Fin n} (h : Inv s) (hst : stage s i ≠ .out) :
    ∃ t m, s.ths t = .waiting m i ∧ WaitOk s m i := by
  by_cases hex : ∃ t, (s.ths t).slot = some i
  · obtain ⟨t, ht⟩ := hex
    have hth := h.th t
    cases hpc : s.ths t with
    | waiting m j =>
      rw [hpc] at ht hth
      cases ht
      exact ⟨t, m, hpc, hth⟩
    | own m j =>
      rw [hpc] at ht hth
      cases ht
      exact absurd (congrArg Flags.stage hth.1) hst
    | filled m j =>
      rw [hpc] at ht hth
      cases ht
      exact absurd (congrArg Flags.stage hth.1) hst
    | got m j =>
      rw [hpc] at ht hth
      cases ht
      exact absurd (congrArg Flags.stage hth.1) hst
    | read m j v =>
      rw [hpc] at ht hth
      cases ht
      exact absurd (congrArg Flags.stage hth.1) hst
    | _ => rw [hpc] at ht; cases ht
  · have := h.free i fun t ht => hex ⟨t, ht⟩
    exact absurd (congrArg Flags.stage this) hst

/-- The SPE works on slot `i`, whose owner `t` waits for the reply to `m`, and
on no other slot or request. -/
theorem inv_serve {s s' : St n N} {t : Fin N} {m : Msg} {i : Fin n} (h : Inv s)
    (hw : s.ths t = .waiting m i) (hths : s'.ths = s.ths) (hwait : WaitOk s' m i)
    (hf : ∀ j, j ≠ i → flags s' j = flags s j) (hm : s'.msg = s.msg)
    (hv : ∀ j, j ≠ i → s'.returnVal j = s.returnVal j)
    (hx : ∀ j, j ≠ i → s'.nsSlotIdx j = s.nsSlotIdx j) (hs : s'.sent = s.sent)
    (ht : ∀ r, r ≠ m.rid → (r ∈ s'.taken ↔ r ∈ s.taken)) (htn : s'.taken.Nodup)
    (htm : m.rid ∈ s'.taken)
    (hp : ∀ r v, r ≠ m.rid → ((r, v) ∈ s'.produced ↔ (r, v) ∈ s.produced))
    (hpf : ∀ v v', (m.rid, v) ∈ s'.produced → (m.rid, v') ∈ s'.produced → v = v')
    (ho : ∀ r j, r ≠ m.rid → ((r, j) ∈ s'.outstanding ↔ (r, j) ∈ s.outstanding))
    (hom : ∀ j, (m.rid, j) ∈ s'.outstanding → j = i ∧ s'.speEmpty i = false)
    (hn : s'.next = s.next) (hr : s'.returned = s.returned)
    (hnr : ∀ v, (m.rid, v) ∉ s.returned)
    (hsm : m.rid ∈ s.sent)
    (hd : ∀ pend idx reply, s'.spe = .handling pend idx reply →
      ∀ i, reply i = true → pend i = true ∧ i.val < idx) : Inv s' := by
  have hrid : (s.ths t).rid = some m.rid := by rw [hw]; rfl
  have hslot : (s.ths t).slot = some i := by rw [hw]; rfl
  have hne : ∀ t' r, t' ≠ t → (s.ths t').rid = some r → r ≠ m.rid := by
    intro t' r htt hr hq
    subst hq
    exact htt (h.ridInj _ _ _ hr hrid)
  have hth : ∀ t', ThOk s' (s'.ths t') := by
    intro t'
    rw [hths]
    by_cases htt : t' = t
    · subst htt
      rw [hw]
      exact hwait
    · refine (h.th t').same (fun j r hj hr => ?_) (fun r _ => by rw [hs]; exact id)
        (fun r v hr hv' => (hp r v (hne t' r htt hr)).2 hv')
      have hji : j ≠ i := by
        intro hq
        subst hq
        exact htt (h.inj _ _ _ hj hslot)
      have hrm := hne t' r htt hr
      exact ⟨hf j hji, by rw [hm], hv j hji, hx j hji, by rw [hs], ht r hrm,
        fun v => hp r v hrm, (ho r j hrm).2⟩
  have hprod : ∀ r v, (r, v) ∈ s'.produced → r ∈ s'.taken := by
    intro r v hrv
    by_cases hrm : r = m.rid
    · rw [hrm]; exact htm
    · exact (ht r hrm).2 (h.producedTaken r v ((hp r v hrm).1 hrv))
  refine ⟨?_, ?_, hth, ?_, ?_, ?_, ?_, ?_, ?_, htn, hprod, ?_, ?_, ?_, ?_, hd⟩
  · rw [hths]; exact h.inj
  · intro j hj
    rw [hths] at hj
    have hji : j ≠ i := by
      intro hq
      subst hq
      exact hj t hslot
    rw [hf j hji]
    exact h.free j hj
  · rw [hths]; exact h.pickInj
  · rw [hths]; exact h.pickFree
  · rw [hths, hn]; exact h.ridLt
  · rw [hths]; exact h.ridInj
  · rw [hs, hn]; exact h.sentLt
  · intro r hr'
    rw [hs]
    by_cases hrm : r = m.rid
    · rw [hrm]; exact hsm
    · exact h.takenSent r ((ht r hrm).1 hr')
  · intro r v v' h₁ h₂
    by_cases hrm : r = m.rid
    · subst hrm
      exact hpf v v' h₁ h₂
    · exact h.producedFun r v v' ((hp r v hrm).1 h₁) ((hp r v' hrm).1 h₂)
  · intro r j hrj
    rw [hths]
    by_cases hrm : r = m.rid
    · subst hrm
      obtain ⟨rfl, he⟩ := hom j hrj
      exact ⟨he, t, m, hw, rfl⟩
    · obtain ⟨he, t', m', hw', hm'⟩ := h.outst r j ((ho r j hrm).1 hrj)
      have hji : j ≠ i := by
        intro hq
        subst hq
        have htt := h.inj t' t j (by rw [hw']; rfl) hslot
        rw [htt, hw] at hw'
        cases hw'
        exact hrm hm'.symm
      exact ⟨(congrArg Flags.speEmpty (hf j hji)).trans he, t', m', hw', hm'⟩
  · intro r hr'
    rw [hs] at hr'
    rcases h.sentOnce r hr' with hr' | ⟨t', m', j, hw', rfl, -, -⟩
    · left
      by_cases hrm : r = m.rid
      · rw [hrm]; exact htm
      · exact (ht r hrm).2 hr'
    · have hold := hth t'
      rw [hths, hw'] at hold
      exact once_of_wait hold (by rw [hths]; exact hw') hprod
  · intro r v hrv
    rw [hr] at hrv
    by_cases hrm : r = m.rid
    · rw [hrm] at hrv
      exact absurd hrv (hnr v)
    · exact (hp r v hrm).2 (h.returnedProduced r v hrv)

/-- What the SPE does with the message of slot `i`. -/
structure Took (s s' : St n N) (i : Fin n) (direct : Bool) : Prop where
  empty : s'.emptySlots = s.emptySlots
  pend : s'.pendSlots = s.pendSlots
  replied : s'.repliedSlots = s.repliedSlots
  woken : s'.isWoken = s.isWoken
  isr : s'.isr = s.isr
  ths : s'.ths = s.ths
  msg : s'.msg = s.msg
  next : s'.next = s.next
  sent : s'.sent = s.sent
  returned : s'.returned = s.returned
  speEmpty : ∀ j, j ≠ i → s'.speEmpty j = s.speEmpty j
  nsSlotIdx : ∀ j, j ≠ i → s'.nsSlotIdx j = s.nsSlotIdx j
  returnVal : ∀ j, j ≠ i → s'.returnVal j = s.returnVal j
  taken : s'.taken = (s.msg i).rid :: s.taken
  outcome : (direct = true ∧ s'.speEmpty i = true ∧ s'.outstanding = s.outstanding ∧
      s'.produced = ((s.msg i).rid, s'.returnVal i) :: s.produced) ∨
    (direct = false ∧ s'.produced = s.produced ∧ ((s'.speEmpty i = false ∧ s'.nsSlotIdx i = i ∧
      s'.outstanding = ((s.msg i).rid, i) :: s.outstanding) ∨
      (s'.speEmpty i = true ∧ s'.outstanding = s.outstanding)))

theorem took_direct {s : St n N} {i : Fin n} {v : Int} :
    Took s { mailboxDirectReply { s with
        speEmpty := Function.update s.speEmpty i false,
        nsSlotIdx := Function.update s.nsSlotIdx i i,
        taken := (s.msg i).rid :: s.taken } i v with
      produced := ((s.msg i).rid, v) :: s.produced } i true := by
  refine ⟨rfl, rfl, rfl, rfl, rfl, rfl, rfl, rfl, rfl, rfl, ?_, ?_, ?_, rfl, .inl ⟨rfl, ?_, rfl, ?_⟩⟩
  · intro j hj; simp [mailboxDirectReply, mailboxCleanQueueSlot, hj]
  · intro j hj; simp [mailboxDirectReply, mailboxCleanQueueSlot, hj]
  · intro j hj; simp [mailboxDirectReply, mailboxCleanQueueSlot, hj]
  · simp [mailboxDirectReply, mailboxCleanQueueSlot]
  · simp [mailboxDirectReply, mailboxCleanQueueSlot]

theorem took_accepted {s : St n N} {i : Fin n} :
    Took s { s with
        speEmpty := Function.update s.speEmpty i false,
        nsSlotIdx := Function.update s.nsSlotIdx i i,
        taken := (s.msg i).rid :: s.taken,
        outstanding := ((s.msg i).rid, i) :: s.outstanding } i false := by
  refine ⟨rfl, rfl, rfl, rfl, rfl, rfl, rfl, rfl, rfl, rfl, ?_, ?_, fun _ _ => rfl, rfl,
    .inr ⟨rfl, rfl, .inl ⟨?_, ?_, rfl⟩⟩⟩
  · intro j hj; simp [hj]
  · intro j hj; simp [hj]
  · simp
  · simp

theorem took_lost {s : St n N} {i : Fin n} :
    Took s (mailboxCleanQueueSlot { s with
        speEmpty := Function.update s.speEmpty i false,
        nsSlotIdx := Function.update s.nsSlotIdx i i,
        taken := (s.msg i).rid :: s.taken } i) i false := by
  refine ⟨rfl, rfl, rfl, rfl, rfl, rfl, rfl, rfl, rfl, rfl, ?_, ?_, fun _ _ => rfl, rfl,
    .inr ⟨rfl, rfl, .inr ⟨?_, rfl⟩⟩⟩
  · intro j hj; simp [mailboxCleanQueueSlot, hj]
  · intro j hj; simp [mailboxCleanQueueSlot, hj]
  · simp [mailboxCleanQueueSlot]

theorem took_handleMsg {s s' : St n N} {i : Fin n} {psaRet : Int} {direct : Bool}
    (h : handleMsg s i psaRet = (s', direct)) : Took s s' i direct := by
  unfold handleMsg at h
  simp only at h
  split at h
  · cases h
    exact took_direct
  split at h
  · split at h
    · cases h
      exact took_direct
    · cases h
      exact took_accepted
  split at h
  · cases h
    exact took_accepted
  · cases h
    exact took_lost

/-- A slot the loop has not reached holds an untaken request. -/
theorem WaitOk.of_todo {s : St n N} {m : Msg} {i : Fin n} (h : WaitOk s m i)
    (hst : stage s i = .todo) :
    flags s i = ⟨false, true, false, false, false, true, .todo⟩ ∧ s.msg i = m ∧
      m.rid ∈ s.sent ∧ m.rid ∉ s.taken := by
  have hst : (flags s i).stage = .todo := hst
  cases h with
  | sent hf hm hs ht =>
    rcases hf with hf | hf
    · rw [hf] at hst; cases hst
    · exact ⟨hf, hm, hs, ht⟩
  | taken hf _ _ _ _ => rcases hf with hf | hf <;> rw [hf] at hst <;> cases hst
  | lost hf _ => rcases hf with hf | hf <;> rw [hf] at hst <;> cases hst
  | answered hf hv => rcases hf with hf | hf | hf | hf | hf <;> rw [hf] at hst <;> cases hst

/-- The slots the loop is not at keep their flags. -/
theorem flags_handling {s u : St n N} {i j : Fin n} {pend reply : Bits n} {idx : Nat}
    {direct : Bool} (hspe : s.spe = .handling pend idx reply) (hi : i.val = idx)
    (htook : Took s u i direct) (hj : j ≠ i) :
    flags { u with spe := .handling pend (idx + 1) (Function.update reply i direct) } j =
      flags s j := by
  have hjv : j.val ≠ idx := fun he => hj (Fin.ext (he.trans hi.symm))
  have hlt : j.val < idx + 1 ↔ j.val < idx := by omega
  simp [flags, stage, hspe, htook.empty, htook.pend, htook.replied, htook.woken,
    htook.isr, htook.speEmpty j hj, hlt, hj]

/-- The request the loop takes ends with the SPM, dropped, or answered. -/
theorem waitOk_took {s u : St n N} {i : Fin n} {m : Msg} {pend reply : Bits n} {idx : Nat}
    {direct : Bool} (hpend : pend i = true) (hi : i.val = idx)
    (hfl : flags s i = ⟨false, true, false, false, false, true, .todo⟩) (hmsg : s.msg i = m)
    (hnp : ∀ v, (m.rid, v) ∉ s.produced) (htook : Took s u i direct) :
    WaitOk { u with spe := .handling pend (idx + 1) (Function.update reply i direct) } m i := by
  have hfi : flags { u with spe := .handling pend (idx + 1) (Function.update reply i direct) } i =
      ⟨false, true, false, false, false, u.speEmpty i, .done direct⟩ := by
    simp only [flags, Flags.mk.injEq] at hfl ⊢
    simp [stage, hpend, hi, htook.empty, htook.pend, htook.replied, htook.woken, htook.isr, hfl]
  have htaken : m.rid ∈ u.taken := by
    rw [htook.taken, hmsg]
    exact List.mem_cons_self
  have hout := htook.outcome
  rw [hmsg] at hout
  rcases hout with ⟨rfl, he, -, hp⟩ | ⟨rfl, hp, ⟨he, hx, ho⟩ | ⟨he, -⟩⟩
  · exact .answered (.inl (by rw [hfi, he])) (by simp [hp])
  · exact .taken (.inl (by rw [hfi, he])) (by simp [ho]) hx (fun v => by simpa [hp] using hnp v)
      htaken
  · exact .lost (.inl (by rw [hfi, he])) htaken

theorem inv_took {s u : St n N} {i : Fin n} {pend reply : Bits n} {idx : Nat} {direct : Bool}
    (h : Inv s) (hspe : s.spe = .handling pend idx reply) (hi : i.val = idx)
    (hpend : pend i = true) (htook : Took s u i direct) :
    Inv { u with spe := .handling pend (idx + 1) (Function.update reply i direct) } := by
  have hst : stage s i = .todo := by simp [stage, hspe, hpend, hi]
  obtain ⟨t, m, hw, hwok⟩ := waiting_of_stage h (by rw [hst]; simp)
  obtain ⟨hfl, hmsg, hsent, hnt⟩ := hwok.of_todo hst
  have hnp : ∀ v, (m.rid, v) ∉ s.produced := fun v hv => hnt (h.producedTaken _ _ hv)
  have hno : ∀ j, (m.rid, j) ∉ s.outstanding := by
    intro j hj
    obtain ⟨he, t', m', hw', hm'⟩ := h.outst _ _ hj
    have htt : t' = t := h.ridInj _ _ m.rid (by rw [hw', ← hm']; rfl) (by rw [hw]; rfl)
    rw [htt, hw] at hw'
    cases hw'
    rw [show s.speEmpty i = true from congrArg Flags.speEmpty hfl] at he
    cases he
  have htaken : u.taken = m.rid :: s.taken := by rw [htook.taken, hmsg]
  have hout := htook.outcome
  rw [hmsg] at hout
  refine inv_serve h hw htook.ths (waitOk_took hpend hi hfl hmsg hnp htook)
    (fun j hj => flags_handling hspe hi htook hj) htook.msg htook.returnVal htook.nsSlotIdx
    htook.sent ?_ ?_ ?_ ?_ ?_ ?_ ?_ htook.next htook.returned
    (fun v hv => hnp v (h.returnedProduced _ _ hv)) hsent ?_
  · intro r hr
    change r ∈ u.taken ↔ r ∈ s.taken
    rw [htaken, List.mem_cons, or_iff_right hr]
  · change u.taken.Nodup
    rw [htaken]
    exact List.nodup_cons.2 ⟨hnt, h.takenNodup⟩
  · change m.rid ∈ u.taken
    rw [htaken]
    exact List.mem_cons_self
  · intro r v hr
    change (r, v) ∈ u.produced ↔ (r, v) ∈ s.produced
    rcases hout with ⟨-, -, -, hp⟩ | ⟨-, hp, -⟩
    · simp [hp, hr]
    · rw [hp]
  · intro v v'
    change (m.rid, v) ∈ u.produced → (m.rid, v') ∈ u.produced → v = v'
    rcases hout with ⟨-, -, -, hp⟩ | ⟨-, hp, -⟩
    · simp only [hp, List.mem_cons, Prod.mk.injEq, true_and]
      rintro (rfl | hv) (rfl | hv')
      · rfl
      · exact absurd hv' (hnp _)
      · exact absurd hv (hnp _)
      · exact absurd hv (hnp _)
    · rw [hp]
      exact fun hv => absurd hv (hnp v)
  · intro r j hr
    change (r, j) ∈ u.outstanding ↔ (r, j) ∈ s.outstanding
    rcases hout with ⟨-, -, ho, -⟩ | ⟨-, -, ⟨-, -, ho⟩ | ⟨-, ho⟩⟩
    · rw [ho]
    · simp [ho, hr]
    · rw [ho]
  · intro j
    change (m.rid, j) ∈ u.outstanding → j = i ∧ u.speEmpty i = false
    rcases hout with ⟨-, -, ho, -⟩ | ⟨-, -, ⟨he, -, ho⟩ | ⟨-, ho⟩⟩
    · rw [ho]
      exact fun hj => absurd hj (hno j)
    · simp only [ho, List.mem_cons, Prod.mk.injEq, true_and]
      intro hx
      obtain rfl | hj := hx
      · exact ⟨rfl, he⟩
      · exact absurd hj (hno j)
    · rw [ho]
      exact fun hj => absurd hj (hno j)
  · intro pend' idx' reply' he j hj
    cases he
    by_cases hji : j = i
    · subst hji
      exact ⟨hpend, by omega⟩
    · rw [Function.update_of_ne hji] at hj
      obtain ⟨h₁, h₂⟩ := h.replyDone _ _ _ hspe j hj
      exact ⟨h₁, by omega⟩

theorem inv_handleSlot {s s' : St n N} {psaRet : Int} (h : Inv s)
    (hs : handleSlot s psaRet = some s') : Inv s' := by
  unfold handleSlot at hs
  split at hs
  · rename_i pend idx reply hspe
    split at hs
    · rename_i hidx
      simp only at hs
      split at hs
      · rename_i hpend
        generalize hres : handleMsg s ⟨idx, hidx⟩ psaRet = res at hs
        obtain ⟨u, direct⟩ := res
        cases hs
        exact inv_took h hspe rfl hpend (took_handleMsg hres)
      · rename_i hpend
        cases hs
        refine inv_moves h rfl (fun j => ?_) rfl rfl rfl rfl rfl rfl rfl rfl rfl rfl ?_
        · have hfl : flags { s with spe := .handling pend (idx + 1) reply } j = flags s j := by
            by_cases hj : j.val = idx
            · have hpj : pend j = false := by
                rw [show j = ⟨idx, hidx⟩ from Fin.ext hj]
                simpa using hpend
              simp [flags, stage, hspe, hpj]
            · have hlt : j.val < idx + 1 ↔ j.val < idx := by omega
              simp [flags, stage, hspe, hlt]
          rw [hfl]
          exact moves_refl _
        · intro pend' idx' reply' he j hj
          cases he
          obtain ⟨h₁, h₂⟩ := h.replyDone _ _ _ hspe j hj
          exact ⟨h₁, by omega⟩
    · cases hs
  · cases hs

/-- A message handle names its slot: there are at most 32 of them. -/
theorem msgIdx_succ (hn : n ≤ 32) (i : Fin n) : msgIdx (i.val + 1) = i.val := by
  have := i.isLt
  rw [msgIdx, if_neg (by omega)]
  omega

/-- A request the SPM holds while the SPE is idle. -/
theorem WaitOk.of_outstanding {s : St n N} {m : Msg} {i : Fin n} (h : WaitOk s m i)
    (he : s.speEmpty i = false) (hspe : s.spe = .idle) :
    flags s i = ⟨false, false, false, false, false, false, .out⟩ ∧ s.nsSlotIdx i = i ∧
      (∀ v, (m.rid, v) ∉ s.produced) ∧ m.rid ∈ s.taken := by
  have he : (flags s i).speEmpty = false := he
  have hst : (flags s i).stage = .out := by simp [flags, stage, hspe]
  cases h with
  | sent hf _ _ _ => rcases hf with hf | hf <;> rw [hf] at he <;> cases he
  | taken hf _ hi hp ht =>
    rcases hf with hf | hf
    · rw [hf] at hst; cases hst
    · exact ⟨hf, hi, hp, ht⟩
  | lost hf _ => rcases hf with hf | hf <;> rw [hf] at he <;> cases he
  | answered hf _ => rcases hf with hf | hf | hf | hf | hf <;> rw [hf] at he <;> cases he

theorem inv_answer {s s' : St n N} {r : Nat} {v : Int} (hn : n ≤ 32) (h : Inv s)
    (hs : answer s r v = some s') : Inv s' := by
  unfold answer at hs
  split at hs
  · rename_i r' i hfind
    have hmem := List.mem_of_find?_eq_some hfind
    have hr' : r' = r := by simpa using List.find?_some hfind
    subst hr'
    obtain ⟨he, t, m, hw, rfl⟩ := h.outst r' i hmem
    have hwok : WaitOk s m i := by have := h.th t; rwa [hw] at this
    unfold replyMsg at hs
    split at hs
    · rename_i hspe
      obtain ⟨hfl, hx, hnp, htk⟩ := hwok.of_outstanding he hspe
      have hidx : msgIdx (i.val + 1) < n := by rw [msgIdx_succ hn]; exact i.isLt
      have hfin : (⟨msgIdx (i.val + 1), hidx⟩ : Fin n) = i := Fin.ext (msgIdx_succ hn i)
      rw [dif_pos hidx] at hs
      simp only [hfin, he, Bool.false_eq_true, if_false, Option.map_some, Option.some.injEq] at hs
      subst hs
      refine inv_serve h hw rfl ?_ ?_ rfl ?_ ?_ rfl (fun _ _ => Iff.rfl) h.takenNodup htk ?_ ?_ ?_
        ?_ rfl rfl (fun v hv => hnp v (h.returnedProduced _ _ hv)) (h.takenSent _ htk)
        (fun _ _ _ hd => by cases hd)
      · refine .answered (.inr (.inl ?_)) ?_
        · simp only [flags, Flags.mk.injEq] at hfl ⊢
          simp [mailboxDirectReply, mailboxCleanQueueSlot, stage, hfl]
        · simp [mailboxDirectReply, mailboxCleanQueueSlot, hx]
      · intro j hj
        simp [flags, mailboxDirectReply, mailboxCleanQueueSlot, stage, hspe, hj, Ne.symm hj]
      · intro j hj
        simp [mailboxDirectReply, mailboxCleanQueueSlot, hx, hj]
      · intro j hj
        simp [mailboxDirectReply, mailboxCleanQueueSlot, hj]
      · intro r v' hr
        simp [hr]
      · intro v₁ v₂
        simp only [List.mem_cons, Prod.mk.injEq, true_and]
        rintro (rfl | hv) (rfl | hv')
        · rfl
        · exact absurd hv' (hnp _)
        · exact absurd hv (hnp _)
        · exact absurd hv (hnp _)
      · intro r j hr
        simp [hr]
      · intro j hj
        simp at hj
    · cases hs
  · cases hs

theorem inv_step {s s' : St n N} {l : Lbl N} (hn : n ≤ 32) (h : Inv s) (hc : NoClash s l = true)
    (hs : step s l = some s') : Inv s' := by
  cases l with
  | lockAcquire t ct ps c => exact inv_lockAcquire h hs
  | snapshotEmpty t => exact inv_snapshotEmpty h hc hs
  | clearEmpty t => exact inv_clearEmpty h hs
  | fillMsg t => exact inv_fillMsg h hs
  | setPend t => exact inv_setPend h hs
  | waitReplySignal t => exact inv_waitReplySignal h hs
  | rxReadReply t => exact inv_rxReadReply h hs
  | rxSetEmpty t => exact inv_rxSetEmpty h hs
  | lockRelease t => exact inv_lockRelease h hs
  | isrBegin => exact inv_isrBegin h hs
  | isrWake => exact inv_isrWake h hs
  | handleBegin => exact inv_handleBegin h hs
  | handleSlot r => exact inv_handleSlot h hs
  | handleEnd => exact inv_handleEnd h hs
  | answer r v => exact inv_answer hn h hs
  | replyEnd => exact inv_replyEnd h hs

theorem inv_inductive (hn : n ≤ 32) :
    ((lts n N).restrict fun s l => NoClash s l = true).Inductive Inv where
  init := by
    intro s hs
    rw [hs]
    exact inv_init n N
  step := by
    intro s l s' h hs
    exact inv_step hn h hs.1 hs.2

theorem inv_reachable (hn : n ≤ 32) (s : St n N)
    (h : ((lts n N).restrict fun s l => NoClash s l = true).Reachable s) : Inv s :=
  (inv_inductive hn).reachable s h

theorem agree_of_inv {s : St n N} (h : Inv s) : Agree s where
  own := h.inj
  once := by
    intro r hr
    rcases h.sentOnce r hr with ht | ⟨t, m, i, hw, rfl, hm, hp⟩
    · exact .inl (List.count_eq_one_of_mem h.takenNodup ht)
    · by_cases ht : m.rid ∈ s.taken
      · exact .inl (List.count_eq_one_of_mem h.takenNodup ht)
      · exact .inr ⟨List.count_eq_zero_of_not_mem ht, t, m, i, hw, rfl, hm, hp⟩
  genuine := h.takenSent
  value := by
    intro r v hr v'
    have hp := h.returnedProduced r v hr
    constructor
    · intro hv
      exact h.producedFun r v' v hv hp
    · intro hx
      subst hx
      exact hp

/-- **Agreement.** With up to 32 slots and any number of threads, in every run
in which no thread chooses a slot that another has chosen and not yet cleared:
a slot has one owner, a sent request is still pending or was taken once, and a
successful call returns the one value the SPE produced for it. -/
theorem agree_reachable (n N : Nat) (hn : n ≤ 32) (s : St n N)
    (h : ((lts n N).restrict fun s l => NoClash s l = true).Reachable s) : Agree s :=
  agree_of_inv (inv_reachable hn s h)

/-- One call of thread `t` up to its pending bit. -/
def sendTrace {N : Nat} (t : Fin N) (callType : Nat) : List (Lbl N) :=
  [.lockAcquire t callType [] 0, .snapshotEmpty t, .clearEmpty t, .fillMsg t, .setPend t]

/-- Two calls at once on two slots: the SPE answers the version query of thread
1 directly with 7 and the call of thread 0 later with 9. -/
def twoCalls : List (Lbl 2) :=
  sendTrace 0 4 ++ sendTrace 1 2 ++
    [.handleBegin, .handleSlot 0, .handleSlot 7, .handleEnd, .answer 0 9, .replyEnd,
     .isrBegin, .isrWake, .isrWake, .waitReplySignal 0, .rxReadReply 0, .rxSetEmpty 0,
     .lockRelease 0, .waitReplySignal 1, .rxReadReply 1, .rxSetEmpty 1, .lockRelease 1]

theorem agree_reachable_two_calls :
    ∃ s : St 2 2, Agree s ∧ s.returned = [(1, 7), (0, 9)] := by
  have he : (LTS.execC NoClash step (init 2 2) twoCalls).map (fun s => s.returned) =
      some [(1, 7), (0, 9)] := by decide +kernel
  obtain ⟨s, hs, hv⟩ := Option.map_eq_some_iff.1 he
  exact ⟨s, agree_reachable 2 2 (by decide) s
    (LTS.reachable_execC (fun _ _ h => h) twoCalls rfl hs), hv⟩

/-- Both threads read `empty_slots` before either clears its bit, so both get
slot 0. Thread 1 overwrites thread 0's message; the one answer, to request 1,
wakes thread 0. -/
def clashTrace : List (Lbl 2) :=
  [.lockAcquire 0 2 [] 0, .lockAcquire 1 2 [] 0, .snapshotEmpty 0, .snapshotEmpty 1,
   .clearEmpty 0, .clearEmpty 1, .fillMsg 0, .fillMsg 1, .setPend 0, .setPend 1,
   .handleBegin, .handleSlot 7, .handleSlot 0, .handleEnd, .isrBegin, .isrWake,
   .waitReplySignal 0, .rxReadReply 0, .rxSetEmpty 0, .lockRelease 0]

/-- **Counterexample**: request 0 was sent and never taken, yet its call
returns `MAILBOX_SUCCESS` with the value produced for request 1, whose own
caller still owns the slot. -/
theorem agree_fails_on_clash :
    ∃ s : St 2 2, (lts 2 2).Reachable s ∧ s.returned = [(0, 7)] ∧ s.produced = [(1, 7)] ∧
      s.taken = [1] ∧ s.sent = [1, 0] ∧ ¬ Agree s := by
  have he : (LTS.exec step (init 2 2) clashTrace).map (fun s =>
      (s.returned, s.produced, s.taken, s.sent)) = some ([(0, 7)], [(1, 7)], [1], [1, 0]) := by
    decide +kernel
  obtain ⟨s, hs, hv⟩ := Option.map_eq_some_iff.1 he
  simp only [Prod.mk.injEq] at hv
  obtain ⟨hr, hp, ht, hse⟩ := hv
  refine ⟨s, LTS.reachable_exec clashTrace (.init rfl) hs, hr, hp, ht, hse, fun ha => ?_⟩
  have := (ha.value 0 7 (by simp [hr]) 7).2 rfl
  simp [hp] at this

end Tfm.L5.Mailbox
