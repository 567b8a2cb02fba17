import Tfm.L4Service.VendorKey

/-!
# The key-handle ownership table over whole histories

`handle_owner` is searched by the bare key id. Two entries with one id but
different owners hide one of them (`hidden_by_equal_id`): the search stops at the
first used entry with the id and answers `PSA_ERROR_NOT_PERMITTED` to the other
owner. Two entries with one id and one owner come from opening a key twice; the
call that destroys the key clears the first of them, and the second one names a key
that is gone.

Results:
* `change_call`: every way a call of `VendorKey` changes the table, the live keys and
  the history, for any answers of the back end.
* `inv_reachable`, `owned_reachable`: in the runs in which no client is given an id
  that another client has in the table, and no key is destroyed while it has two
  entries (`Apart`), used entries name live keys, and whoever holds a key passes the
  check.
-/
namespace Tfm.L4.KeyOwner
open Tfm.L4.CryptoKey Tfm.L4.VendorKey

/-! ## The property and the condition under which it holds -/

/-- Used entries name keys that are live for their owner, and a client that created
or opened a key and did not close, destroy or purge it passes the check for it. -/
structure Owned (s : St) : Prop where
  live : ∀ i c k, Used s.sys i c k → Sys.isLive s.sys c k = true
  passes : ∀ c k o, holds c k o s.hist = true → ∃ i, checkHandleOwner s.sys c k = .ok i

/-- Used entries with the id that is given to `c` belong to `c`. -/
def ownId (s : Sys) (c : ClientId) : Except PsaStatus KeyId → Bool
  | .ok k => s.handleOwner.all fun h => !(h.inUse && h.key == k) || h.owner == c
  | .error _ => true

/-- At most one used entry of `c` names `k`. -/
def single (s : Sys) (c : ClientId) (k : KeyId) : Bool :=
  s.handleOwner.Pairwise fun a b => ¬ (a = ⟨c, k, true⟩ ∧ b = ⟨c, k, true⟩)

/-- `psa_close_key` destroys a volatile key. -/
def isVolatile (s : Sys) (c : ClientId) (k : KeyId) : Bool :=
  s.live.any fun l => l.owner == c && l.key == k && l.lifetime == .volatile

/-- The condition on a call: an id is given to a client only if no other client has it in
the table, and a key with two entries is not destroyed. -/
def Apart (s : St) : Lbl → Bool
  | .importKey c _ _ ans => ownId s.sys c ans
  | .generateKey c _ _ ans => ownId s.sys c ans
  | .copyKey c _ _ _ ans => ownId s.sys c ans
  | .deriveKey c _ _ _ ans => ownId s.sys c ans
  | .openKey c _ id va opened =>
    if keyIdVendorMin ≤ id ∧ id ≤ keyIdVendorMax then ownId s.sys c va.imported
    else ownId s.sys c opened
  | .closeKey c _ key _ => !isVolatile s.sys c key || single s.sys c key
  | .destroyKey c _ key _ => single s.sys c key
  | .purgeKey .. => true

/-! ## What a call can do -/

theorem ownId_used {s : Sys} {c c' : ClientId} {k : KeyId} {i : Nat} (h : ownId s c (.ok k) = true)
    (hu : Used s i c' k) : c' = c := by
  have hm := List.all_eq_true.mp h _ (List.mem_of_getElem? hu)
  simpa using hm

theorem single_used {s : Sys} {c : ClientId} {k : KeyId} {i j : Nat} (h : single s c k = true)
    (hi : Used s i c k) (hj : Used s j c k) : i = j := by
  have hp := List.pairwise_iff_getElem.mp (of_decide_eq_true h)
  obtain ⟨hli, hei⟩ := List.getElem?_eq_some_iff.mp hi
  obtain ⟨hlj, hej⟩ := List.getElem?_eq_some_iff.mp hj
  rcases Nat.lt_trichotomy i j with hlt | heq | hlt
  · exact absurd ⟨hei, hej⟩ (hp i j hli hlj hlt)
  · exact heq
  · exact absurd ⟨hej, hei⟩ (hp j i hlj hli hlt)

theorem isLive_iff {s : Sys} {c : ClientId} {k : KeyId} :
    Sys.isLive s c k = true ↔ ∃ l ∈ s.live, l.owner = c ∧ l.key = k := by
  simp [Sys.isLive]

/-- Live keys stay live. -/
def Keeps (s s' : Sys) : Prop := ∀ c k, Sys.isLive s c k = true → Sys.isLive s' c k = true

theorem keeps_psaNewKey (s : Sys) (c : ClientId) (lt : Lifetime) (k : KeyId) :
    Keeps s (s.psaNewKey c lt (.ok k)) := by
  intro c' k' hl
  obtain ⟨l, hm, h⟩ := isLive_iff.mp hl
  exact isLive_iff.mpr ⟨l, List.mem_cons_of_mem _ hm, h⟩

theorem psaNewKey_live (s : Sys) (c : ClientId) (lt : Lifetime) (k : KeyId) :
    Sys.isLive (s.psaNewKey c lt (.ok k)) c k = true :=
  isLive_iff.mpr ⟨_, List.mem_cons_self, rfl, rfl⟩

/-- Every way a call changes the table, the live keys and the history. A vendor key can
get an entry without reaching its client. -/
inductive Change (s : St) : St → Prop
  | same {s' : St} (hh : s'.sys.handleOwner = s.sys.handleOwner) (hl : Keeps s.sys s'.sys)
      (hi : s'.hist = s.hist) : Change s s'
  | add {s' : St} (c : ClientId) (k : KeyId) (i : Nat) (hf : freeAt s.sys.handleOwner i)
      (hk : ownId s.sys c (.ok k) = true)
      (hh : s'.sys.handleOwner = s.sys.handleOwner.set i ⟨c, k, true⟩) (hl : Keeps s.sys s'.sys)
      (hlk : Sys.isLive s'.sys c k = true)
      (hi : s'.hist = s.hist ∨ ∃ o, s'.hist = .got c k o :: s.hist) : Change s s'
  | release {s' : St} (c : ClientId) (k : KeyId) (i : Nat) (hu : Used s.sys i c k)
      (hh : s'.sys.handleOwner = s.sys.handleOwner.set i .empty)
      (hl : ∀ c' k', Sys.isLive s.sys c' k' = true → ¬ (c' = c ∧ k' = k) →
        Sys.isLive s'.sys c' k' = true)
      (hlk : Keeps s.sys s'.sys ∨ single s.sys c k = true)
      (hi : s'.hist = .released c k :: s.hist) : Change s s'

theorem change_error {s : St} {c : ClientId} {o : Origin} {e : PsaStatus} :
    Change s (got c o s.hist (s.sys, .error e)) := .same rfl (fun _ _ h => h) rfl

theorem change_storeNewKey {s : St} {c : ClientId} {i : Nat} {lt : Lifetime}
    {ans : Except PsaStatus KeyId} {o : Origin} (hi : checkKeyStorage s.sys = .ok i)
    (hk : ownId s.sys c ans = true) :
    Change s (got c o s.hist (storeNewKey s.sys c i lt ans)) := by
  cases ans with
  | error e => exact change_error
  | ok k =>
    exact .add c k i (checkKeyStorage_ok hi) hk rfl (keeps_psaNewKey s.sys c lt k)
      (psaNewKey_live s.sys c lt k) (.inr ⟨o, rfl⟩)

theorem change_vendorKeyOpenKey {cfg : Cfg} {s : St} {c : ClientId} {id : KeyId} {va : VendorAns}
    {o : Origin} (hk : ownId s.sys c va.imported = true) :
    Change s (got c o s.hist (vendorKeyOpenKey cfg s.sys c id va)) := by
  unfold vendorKeyOpenKey
  split
  · exact change_error
  split
  · exact change_error
  rename_i index hidx
  have hf := checkKeyStorage_ok hidx
  split <;> try exact change_error
  rename_i k hmeta hdata himp
  rw [himp] at hk
  have hkeep := keeps_psaNewKey s.sys c .volatile k
  have hlive := psaNewKey_live s.sys c .volatile k
  by_cases hmax : cfg.maxKeyHandles ≤ index
  · simp only [setKeyStorage, if_pos hmax]
    exact .same rfl hkeep rfl
  · simp only [setKeyStorage, if_neg hmax, halAddKeyIdMapping]
    cases hj : s.sys.keyIdMappingTable.findIdx? (fun e => !e.inUse) with
    | none =>
      -- the mapping table is full: the entry stays, the client gets no handle
      simp only [Sys.setHandle, Sys.psaNewKey, hj]
      exact .add c k index hf hk rfl hkeep hlive (.inl rfl)
    | some j =>
      simp only [Sys.setHandle, Sys.psaNewKey, hj]
      exact .add c k index hf hk rfl hkeep hlive (.inr ⟨o, rfl⟩)

theorem change_openKey {cfg : Cfg} {s : St} {c : ClientId} {v : Vecs} {id : KeyId} {va : VendorAns}
    {opened : Except PsaStatus KeyId} (hb : backendOk s.sys (.openKey c v id va opened) = true)
    (hk : Apart s (.openKey c v id va opened) = true) :
    Change s (call cfg s (.openKey c v id va opened)) := by
  simp only [call, openKey]
  split
  · exact change_error
  split
  · exact change_error
  split
  · exact change_error
  rename_i i hidx
  simp only [Apart] at hk
  split
  · rename_i hv
    rw [if_pos hv] at hk
    exact change_vendorKeyOpenKey hk
  · rename_i hv
    rw [if_neg hv] at hk
    cases opened with
    | error e => exact change_error
    | ok k =>
      simp only [backendOk, Bool.and_eq_true, beq_iff_eq] at hb
      have hlive : Sys.isLive s.sys c k = true := by
        rw [hb.2.1]
        exact hb.2.2
      exact .add c k i (checkKeyStorage_ok hidx) hk rfl (fun _ _ h => h) hlive (.inr ⟨_, rfl⟩)

theorem change_deriveKey {cfg : Cfg} {s : St} {c : ClientId} {v : Vecs}
    {lookup : Except PsaStatus Unit} {lt : Lifetime} {ans : Except PsaStatus KeyId}
    (hk : ownId s.sys c ans = true) :
    Change s (call cfg s (.deriveKey c v lookup lt ans)) := by
  simp only [call, keyDerivationOutputKey]
  split
  · exact change_error
  split
  · exact change_error
  split
  · exact change_error
  split
  · exact change_error
  rename_i index hidx
  cases ans with
  | error e => exact change_error
  | ok k =>
    have hkeep := keeps_psaNewKey s.sys c lt k
    by_cases hmax : cfg.maxKeyHandles ≤ index
    · simp only [setKeyStorage, if_pos hmax]
      exact .same rfl hkeep rfl
    · simp only [setKeyStorage, if_neg hmax]
      exact .add c k index (checkKeyStorage_ok hidx) hk rfl hkeep (psaNewKey_live s.sys c lt k)
        (.inr ⟨_, rfl⟩)

theorem change_releaseKey {s : St} {c : ClientId} {v : Vecs} {key : KeyId}
    {backend : Sys → ClientId → KeyId → Except PsaStatus Unit → Sys} {ans : Except PsaStatus Unit}
    (hb : (backend s.sys c key (.ok ())).handleOwner = s.sys.handleOwner)
    (hl : ∀ c' k', Sys.isLive s.sys c' k' = true → ¬ (c' = c ∧ k' = key) →
      Sys.isLive (backend s.sys c key (.ok ())) c' k' = true)
    (hlk : Keeps s.sys (backend s.sys c key (.ok ())) ∨ single s.sys c key = true) :
    Change s (released c key s.hist (releaseKey s.sys c v key backend ans)) := by
  unfold releaseKey
  split
  · exact .same rfl (fun _ _ h => h) rfl
  split
  · exact .same rfl (fun _ _ h => h) rfl
  split
  · exact .same rfl (fun _ _ h => h) rfl
  rename_i index hidx
  cases ans with
  | error e => exact .same rfl (fun _ _ h => h) rfl
  | ok u =>
    exact .release c key index (checkHandleOwner_ok hidx) (by simp [released, Sys.setHandle, hb])
      hl hlk rfl

theorem psaCloseKey_live {s : Sys} {c c' : ClientId} {k k' : KeyId}
    (h : Sys.isLive s c' k' = true) (hne : ¬ (c' = c ∧ k' = k) ∨ isVolatile s c k = false) :
    Sys.isLive (s.psaCloseKey c k (.ok ())) c' k' = true := by
  obtain ⟨l, hm, ho, hk⟩ := isLive_iff.mp h
  refine isLive_iff.mpr ⟨l, List.mem_filter.mpr ⟨hm, ?_⟩, ho, hk⟩
  rcases hne with hne | hv
  · subst ho hk
    simpa using Or.inl (Classical.not_and_iff_not_or_not.mp hne)
  · simp only [isVolatile, List.any_eq_false] at hv
    rw [Bool.not_eq_true']
    exact Bool.eq_false_iff.mpr (hv l hm)

theorem psaDestroyKey_live {s : Sys} {c c' : ClientId} {k k' : KeyId}
    (h : Sys.isLive s c' k' = true) (hne : ¬ (c' = c ∧ k' = k)) :
    Sys.isLive (s.psaDestroyKey c k (.ok ())) c' k' = true := by
  obtain ⟨l, hm, ho, hk⟩ := isLive_iff.mp h
  refine isLive_iff.mpr ⟨l, List.mem_filter.mpr ⟨hm, ?_⟩, ho, hk⟩
  subst ho hk
  simpa using Classical.not_and_iff_not_or_not.mp hne

/-- Inversion of one call under the condition. -/
theorem change_call {cfg : Cfg} {s : St} {l : Lbl} (hb : backendOk s.sys l = true)
    (hk : Apart s l = true) : Change s (call cfg s l) := by
  cases l with
  | importKey c v lt ans =>
    simp only [call, importKey]
    split
    · exact change_error
    split
    · exact change_error
    split
    · exact change_error
    · rename_i i hidx
      exact change_storeNewKey hidx hk
  | generateKey c v lt ans =>
    simp only [call, generateKey]
    split
    · exact change_error
    split
    · exact change_error
    split
    · exact change_error
    · rename_i i hidx
      exact change_storeNewKey hidx hk
  | copyKey c v src lt ans =>
    simp only [call, copyKey]
    split
    · exact change_error
    split
    · exact change_error
    split
    · exact change_error
    split
    · exact change_error
    · rename_i i hidx _ _ _
      exact change_storeNewKey hidx hk
  | deriveKey c v lookup lt ans => exact change_deriveKey hk
  | openKey c v id va opened => exact change_openKey hb hk
  | closeKey c v key ans =>
    refine change_releaseKey (psaCloseKey_tables _ _ _ _).1
      (fun c' k' h hne => psaCloseKey_live h (.inl hne)) ?_
    simp only [Apart, Bool.or_eq_true, Bool.not_eq_true'] at hk
    exact hk.imp (fun hv c' k' h => psaCloseKey_live h (.inr hv)) id
  | destroyKey c v key ans =>
    exact change_releaseKey (psaDestroyKey_tables _ _ _ _).1
      (fun c' k' h hne => psaDestroyKey_live h hne) (.inr hk)
  | purgeKey c v key ans =>
    exact change_releaseKey rfl (fun c' k' h _ => h) (.inl fun _ _ h => h)

/-! ## Invariant -/

structure Inv (s : St) : Prop where
  live : ∀ i c k, Used s.sys i c k → Sys.isLive s.sys c k = true
  /-- equal ids have equal owners -/
  owner : ∀ i j c c' k, Used s.sys i c k → Used s.sys j c' k → c = c'
  entry : ∀ c k o, holds c k o s.hist = true → ∃ i, Used s.sys i c k

theorem inv_init (cfg : Cfg) : Inv (init cfg) := by
  have hno : ∀ i c k, ¬ Used (init cfg).sys i c k := by
    intro i c k hu
    have hm := List.mem_of_getElem? hu
    simp [init, Sys.init, HandleOwner.empty] at hm
  refine ⟨fun i c k hu => absurd hu (hno i c k), fun i j c c' k hu => absurd hu (hno i c k), ?_⟩
  intro c k o h
  simp [init, holds] at h

theorem inv_add {s s' : St} {c : ClientId} {k : KeyId} {i : Nat} (h : Inv s)
    (hf : freeAt s.sys.handleOwner i) (hk : ownId s.sys c (.ok k) = true)
    (hh : s'.sys.handleOwner = s.sys.handleOwner.set i ⟨c, k, true⟩) (hl : Keeps s.sys s'.sys)
    (hlk : Sys.isLive s'.sys c k = true)
    (hi : s'.hist = s.hist ∨ ∃ o, s'.hist = .got c k o :: s.hist) : Inv s' := by
  refine ⟨fun a c' k' ha => ?_, fun a b c₁ c₂ k' ha hb => ?_, fun c' k' o hh' => ?_⟩
  · rcases used_of_set hh ha with ⟨-, rfl, rfl⟩ | ⟨-, ha⟩
    · exact hlk
    · exact hl c' k' (h.live a c' k' ha)
  · rcases used_of_set hh ha with ⟨-, rfl, rfl⟩ | ⟨-, ha'⟩
    · rcases used_of_set hh hb with ⟨-, rfl, -⟩ | ⟨-, hb'⟩
      · rfl
      · exact (ownId_used hk hb').symm
    · rcases used_of_set hh hb with ⟨-, rfl, rfl⟩ | ⟨-, hb'⟩
      · exact ownId_used hk ha'
      · exact h.owner a b c₁ c₂ k' ha' hb'
  · have hold : holds c' k' o s.hist = true → ∃ a, Used s'.sys a c' k' := by
      intro hho
      obtain ⟨a, ha⟩ := h.entry c' k' o hho
      exact ⟨a, used_set_keep hf hh ha⟩
    rcases hi with hi | ⟨o', hi⟩
    · exact hold (hi ▸ hh')
    · rw [hi, holds, Bool.or_eq_true, decide_eq_true_eq] at hh'
      rcases hh' with ⟨rfl, rfl, -⟩ | hh'
      · exact ⟨i, used_set_self hf hh⟩
      · exact hold hh'

theorem inv_release {s s' : St} {c : ClientId} {k : KeyId} {i : Nat} (h : Inv s)
    (hu : Used s.sys i c k) (hh : s'.sys.handleOwner = s.sys.handleOwner.set i .empty)
    (hl : ∀ c' k', Sys.isLive s.sys c' k' = true → ¬ (c' = c ∧ k' = k) →
      Sys.isLive s'.sys c' k' = true)
    (hlk : Keeps s.sys s'.sys ∨ single s.sys c k = true)
    (hi : s'.hist = .released c k :: s.hist) : Inv s' := by
  refine ⟨fun a c' k' ha => ?_, fun a b c₁ c₂ k' ha hb => ?_, fun c' k' o hh' => ?_⟩
  · obtain ⟨hne, ha⟩ := used_of_clear hh ha
    have hlive := h.live a c' k' ha
    rcases hlk with hlk | hlk
    · exact hlk c' k' hlive
    · refine hl c' k' hlive ?_
      -- the cleared entry was the only one of the key
      intro hx
      obtain ⟨rfl, rfl⟩ := hx
      exact hne (single_used hlk ha hu)
  · exact h.owner a b c₁ c₂ k' (used_of_clear hh ha).2 (used_of_clear hh hb).2
  · rw [hi, holds, Bool.and_eq_true, Bool.not_eq_true', decide_eq_false_iff_not] at hh'
    obtain ⟨hne, hh'⟩ := hh'
    obtain ⟨a, ha⟩ := h.entry c' k' o hh'
    refine ⟨a, used_clear_keep hh ?_ ha⟩
    intro hx
    subst hx
    unfold Used at ha hu
    rw [ha] at hu
    simp only [Option.some.injEq, HandleOwner.mk.injEq, and_true] at hu
    exact hne ⟨hu.1.symm, hu.2.symm⟩

theorem inv_change {s s' : St} (h : Inv s) (hc : Change s s') : Inv s' := by
  cases hc with
  | same hh hl hi =>
    have hU : ∀ i c k, Used s'.sys i c k ↔ Used s.sys i c k := fun i c k => by unfold Used; rw [hh]
    refine ⟨fun i c k hu => hl c k (h.live i c k ((hU _ _ _).mp hu)), fun i j c c' k hu hu' =>
      h.owner i j c c' k ((hU _ _ _).mp hu) ((hU _ _ _).mp hu'), fun c k o hho => ?_⟩
    obtain ⟨i, hu⟩ := h.entry c k o (hi ▸ hho)
    exact ⟨i, (hU _ _ _).mpr hu⟩
  | add c k i hf hk hh hl hlk hi => exact inv_add h hf hk hh hl hlk hi
  | release c k i hu hh hl hlk hi => exact inv_release h hu hh hl hlk hi

/-- The runs all of whose calls meet the condition. -/
def apartLts (cfg : Cfg) : LTS St Lbl := (lts cfg).restrict fun s l => Apart s l = true

theorem inv_inductive (cfg : Cfg) : (apartLts cfg).Inductive Inv where
  init := by
    intro s hs
    rw [hs]
    exact inv_init cfg
  step := by
    intro s l s' h hs
    obtain ⟨hk, hs⟩ := hs
    simp only [lts, LTS.ofFn, step] at hs
    split at hs
    · next hb =>
      cases hs
      exact inv_change h (change_call hb hk)
    · cases hs

theorem inv_reachable (cfg : Cfg) (s : St) (h : (apartLts cfg).Reachable s) : Inv s :=
  (inv_inductive cfg).reachable s h

/-! ## The check -/

/-- The search stops at an entry of `c`, where all entries with the id are of `c`. -/
theorem scanOwner_own {c : ClientId} {k : KeyId} (l : List HandleOwner) : ∀ i : Nat,
    (∀ h ∈ l, h.inUse = true → h.key = k → h.owner = c) →
    (∃ h ∈ l, h.inUse = true ∧ h.key = k) → ∃ j, scanOwner c k l i = .ok j := by
  induction l with
  | nil =>
    rintro i - ⟨h, hm, -⟩
    cases hm
  | cons a l ih =>
    intro i hall hx
    obtain ⟨h, hm, hu, hk⟩ := hx
    unfold scanOwner
    split
    · next ha =>
      rw [if_pos (hall a List.mem_cons_self ha.1 ha.2)]
      exact ⟨i, rfl⟩
    · next ha =>
      refine ih (i + 1) (fun h' hm' => hall h' (List.mem_cons_of_mem _ hm')) ⟨h, ?_, hu, hk⟩
      rcases List.mem_cons.mp hm with rfl | hm
      · exact absurd ⟨hu, hk⟩ ha
      · exact hm

theorem check_of_inv {s : St} (h : Inv s) {i : Nat} {c : ClientId} {k : KeyId}
    (hu : Used s.sys i c k) : ∃ j, checkHandleOwner s.sys c k = .ok j := by
  refine scanOwner_own _ 0 (fun e hm hin hkey => ?_) ⟨_, List.mem_of_getElem? hu, rfl, rfl⟩
  obtain ⟨j, hj⟩ := List.mem_iff_getElem?.mp hm
  obtain ⟨o, k', u⟩ := e
  simp only at hin hkey
  subst hin hkey
  exact h.owner j i o c k' hj hu

theorem owned_of_inv {s : St} (h : Inv s) : Owned s where
  live := h.live
  passes c k o hh := by
    obtain ⟨i, hu⟩ := h.entry c k o hh
    exact check_of_inv h hu

/-- **Handles belong to who holds the key** in every run in which no client is given an
id that another client has in the table, and no key is destroyed while it has two
entries: used entries name live keys of their owners, and whoever created or opened a
key and did not close, destroy or purge it passes the check. -/
theorem owned_reachable (cfg : Cfg) (s : St)
    (h : ((lts cfg).restrict fun s l => Apart s l = true).Reachable s) : Owned s :=
  owned_of_inv (inv_reachable cfg s h)

def destroyVecs : Vecs := ⟨1, 0, 44, 0, 0⟩

/-- Client 1 imports 5, client 2 imports 6, and client 1 opens 5 again and closes it. -/
def apartTrace : List Lbl :=
  [.importKey 1 importVecs .persistent (.ok 5), .importKey 2 importVecs .persistent (.ok 6),
    .openKey 1 openVecs 5 ⟨.error .doesNotExist, .error .doesNotExist, .error .doesNotExist⟩ (.ok 5),
    .closeKey 1 closeVecs 5 (.ok ())]

theorem owned_apart :
    ∃ s, Owned s ∧ checkHandleOwner s.sys 2 6 = .ok 1 ∧ Used s.sys 2 1 5 := by
  have he : (LTS.execC Apart (step exCfg) (init exCfg) apartTrace).isSome = true := by decide +kernel
  obtain ⟨s, hs⟩ := Option.isSome_iff_exists.1 he
  refine ⟨s, owned_reachable exCfg s (LTS.reachable_execC (fun _ _ h => h) apartTrace rfl hs), ?_⟩
  have hv : (LTS.execC Apart (step exCfg) (init exCfg) apartTrace).map (fun s =>
      (checkHandleOwner s.sys 2 6, s.sys.handleOwner[2]?)) =
      some (.ok 1, some ⟨1, 5, true⟩) := by decide +kernel
  rw [hs] at hv
  simpa [Used] using hv

/-- Two clients create persistent keys with the id 5. -/
def equalTrace : List Lbl :=
  [.importKey 1 importVecs .persistent (.ok 5), .importKey 2 importVecs .persistent (.ok 5)]

/-- Client 1 opens its key 5 once more and destroys it. -/
def twiceTrace : List Lbl :=
  [.importKey 1 importVecs .persistent (.ok 5),
    .openKey 1 openVecs 5 ⟨.error .doesNotExist, .error .doesNotExist, .error .doesNotExist⟩ (.ok 5),
    .destroyKey 1 destroyVecs 5 (.ok ())]

/-- **Counterexample**: client 2 holds the key 5 it just created and is not permitted to
use it; and an entry names key 5 of client 1 after it was destroyed. -/
theorem hidden_by_equal_id :
    (∃ s, (lts exCfg).Reachable s ∧ holds 2 5 .imported s.hist = true ∧
      checkHandleOwner s.sys 2 5 = .error .notPermitted ∧ ¬ Owned s) ∧
    ∃ s, (lts exCfg).Reachable s ∧ Used s.sys 1 1 5 ∧ Sys.isLive s.sys 1 5 = false ∧ ¬ Owned s := by
  constructor
  · have he : (LTS.exec (step exCfg) (init exCfg) equalTrace).isSome = true := by decide +kernel
    obtain ⟨s, hs⟩ := Option.isSome_iff_exists.1 he
    have hv : (LTS.exec (step exCfg) (init exCfg) equalTrace).map (fun s =>
        (holds 2 5 .imported s.hist, checkHandleOwner s.sys 2 5)) =
        some (true, .error .notPermitted) := by decide +kernel
    rw [hs] at hv
    simp only [Option.map_some, Option.some.injEq, Prod.mk.injEq] at hv
    refine ⟨s, LTS.reachable_exec equalTrace (.init rfl) hs, hv.1, hv.2, fun ho => ?_⟩
    obtain ⟨i, hi⟩ := ho.passes 2 5 .imported hv.1
    rw [hv.2] at hi
    cases hi
  · have he : (LTS.exec (step exCfg) (init exCfg) twiceTrace).isSome = true := by decide +kernel
    obtain ⟨s, hs⟩ := Option.isSome_iff_exists.1 he
    have hv : (LTS.exec (step exCfg) (init exCfg) twiceTrace).map (fun s =>
        (s.sys.handleOwner[1]?, Sys.isLive s.sys 1 5)) =
        some (some ⟨1, 5, true⟩, false) := by decide +kernel
    rw [hs] at hv
    simp only [Option.map_some, Option.some.injEq, Prod.mk.injEq] at hv
    refine ⟨s, LTS.reachable_exec twiceTrace (.init rfl) hs, hv.1, hv.2, fun ho => ?_⟩
    have := ho.live 1 1 5 hv.1
    rw [hv.2] at this
    cases this

end Tfm.L4.KeyOwner
