import Tfm.L4Service.VendorKey

/-!
# Opening a vendor key

An open goes through three tables: the key is imported into the back end, then the
handle is stored, then the mapping from its id to the provisioned key. Nothing is
undone when the last step finds no slot: the caller gets an error, and the key and its
handle stay, although the open failed. A slot of the mapping table is never given
back, so that happens after `CY_P64_KEY_SLOT_STATIC_MAX` opens, however many of the
handles are closed again.

Results:
* `vendorKeyOpenKey_ready`, `vendorKeyOpenKey_refused`: one open.
* `counted_reachable`: the used slots are the opens that succeeded so far.
* `vendor_open_iff`: when an open is atomic and succeeds.
* `vendor_open_ninth`: eight opens and closes of the device key.
-/
namespace Tfm.L4.VendorOpen

open Tfm.L4.CryptoKey Tfm.L4.VendorKey

/-- The flash-boot library gives the key, and the back end imports it as `k`. -/
def Succeeds (a : VendorAns) (k : KeyId) : Prop :=
  a.metadata = .ok () ∧ a.data = .ok () ∧ a.imported = .ok k

def HandleFree (s : Sys) : Prop := ∃ h ∈ s.handleOwner, h.inUse = false

def MappingFree (s : Sys) : Prop := ∃ e ∈ s.keyIdMappingTable, e.inUse = false

/-- Everything that an open asks for before it takes effect. -/
def Ready (cfg : Cfg) (s : Sys) (id : KeyId) (a : VendorAns) : Prop :=
  halIsValidKeyId cfg id = true ∧ HandleFree s ∧ ∃ k, Succeeds a k

/-- What an open promises. The state is the two tables and the keys of the back end. -/
structure OpenLaw (cfg : Cfg) (s : Sys) (c : ClientId) (id : KeyId) (a : VendorAns) : Prop where
  atomic : ∀ e, (vendorKeyOpenKey cfg s c id a).2 = .error e →
    (vendorKeyOpenKey cfg s c id a).1 = s
  succeeds : Ready cfg s id a → ∃ k, (vendorKeyOpenKey cfg s c id a).2 = .ok k

/-! ## One open -/

section One

variable {cfg : Cfg} {s : Sys} {c : ClientId} {id : KeyId} {a : VendorAns}

theorem handleFree_iff : HandleFree s ↔ ∃ i, checkKeyStorage s = .ok i := by
  unfold HandleFree checkKeyStorage
  cases h : s.handleOwner.findIdx? (fun h => !h.inUse) with
  | none =>
    simp only [reduceCtorEq, exists_const, iff_false, not_exists, not_and]
    intro x hx
    simpa using List.findIdx?_eq_none_iff.mp h x hx
  | some i =>
    obtain ⟨hlt, hp, -⟩ := List.findIdx?_eq_some_iff_getElem.mp h
    simp only [Except.ok.injEq, exists_eq', iff_true]
    exact ⟨_, List.getElem_mem hlt, by simpa using hp⟩

theorem mappingFree_iff :
    MappingFree s ↔ ∃ j, s.keyIdMappingTable.findIdx? (fun e => !e.inUse) = some j := by
  unfold MappingFree
  cases h : s.keyIdMappingTable.findIdx? (fun e => !e.inUse) with
  | none =>
    simp only [reduceCtorEq, exists_const, iff_false, not_exists, not_and]
    intro x hx
    simpa using List.findIdx?_eq_none_iff.mp h x hx
  | some i =>
    obtain ⟨hlt, hp, -⟩ := List.findIdx?_eq_some_iff_getElem.mp h
    simp only [Option.some.injEq, exists_eq', iff_true]
    exact ⟨_, List.getElem_mem hlt, by simpa using hp⟩

theorem checkKeyStorage_lt {i : Nat} (h : checkKeyStorage s = .ok i) :
    i < s.handleOwner.length := by
  obtain ⟨x, hx, -⟩ := checkKeyStorage_ok h
  exact (List.getElem?_eq_some_iff.mp hx).1

/-- The key is imported and has a handle. -/
def imported (s : Sys) (c : ClientId) (i : Nat) (k : KeyId) : Sys :=
  (s.psaNewKey c .volatile (.ok k)).setHandle i ⟨c, k, true⟩

/-- What is left of an open that is ready: the mapping. -/
theorem vendorKeyOpenKey_ready {i : Nat} {k : KeyId}
    (hlen : s.handleOwner.length = cfg.maxKeyHandles) (hid : halIsValidKeyId cfg id = true)
    (hi : checkKeyStorage s = .ok i) (ha : Succeeds a k) :
    vendorKeyOpenKey cfg s c id a =
      match s.keyIdMappingTable.findIdx? (fun e => !e.inUse) with
      | some j => ({ imported s c i k with
          keyIdMappingTable := s.keyIdMappingTable.set j ⟨k, id, true⟩ }, .ok k)
      | none => (imported s c i k, .error .insufficientMemory) := by
  obtain ⟨hm, hd, hk⟩ := ha
  have hlt : ¬ cfg.maxKeyHandles ≤ i := by
    have := checkKeyStorage_lt hi
    omega
  simp only [vendorKeyOpenKey, hid, hi, hm, hd, hk, setKeyStorage, if_neg hlt, halAddKeyIdMapping,
    Bool.not_true, Bool.false_eq_true, if_false]
  have htable : ((s.psaNewKey c .volatile (.ok k)).setHandle i ⟨c, k, true⟩).keyIdMappingTable =
      s.keyIdMappingTable := rfl
  rw [htable]
  cases s.keyIdMappingTable.findIdx? (fun e => !e.inUse) <;> rfl

theorem vendorKeyOpenKey_refused (h : ¬ Ready cfg s id a) :
    (vendorKeyOpenKey cfg s c id a).1 = s ∧ ∃ e, (vendorKeyOpenKey cfg s c id a).2 = .error e := by
  unfold vendorKeyOpenKey
  split
  · exact ⟨rfl, _, rfl⟩
  rename_i hid
  split
  · exact ⟨rfl, _, rfl⟩
  rename_i i hi
  split
  · exact ⟨rfl, _, rfl⟩
  · exact ⟨rfl, _, rfl⟩
  · exact ⟨rfl, _, rfl⟩
  · rename_i k hm hd hk
    exact absurd ⟨by simpa using hid, handleFree_iff.mpr ⟨i, hi⟩, k, hm, hd, hk⟩ h

/-- An open is atomic and succeeds unless only the mapping table stands in its way. -/
theorem openLaw_iff (hlen : s.handleOwner.length = cfg.maxKeyHandles) :
    OpenLaw cfg s c id a ↔ (Ready cfg s id a → MappingFree s) := by
  constructor
  · intro h hr
    obtain ⟨k', hok⟩ := h.succeeds hr
    obtain ⟨hid, hfree, k, ha⟩ := hr
    obtain ⟨i, hi⟩ := handleFree_iff.mp hfree
    rw [vendorKeyOpenKey_ready hlen hid hi ha] at hok
    cases hj : s.keyIdMappingTable.findIdx? (fun e => !e.inUse) with
    | none =>
      rw [hj] at hok
      cases hok
    | some j => exact mappingFree_iff.mpr ⟨j, hj⟩
  · intro h
    by_cases hr : Ready cfg s id a
    · obtain ⟨j, hj⟩ := mappingFree_iff.mp (h hr)
      obtain ⟨hid, hfree, k, ha⟩ := hr
      obtain ⟨i, hi⟩ := handleFree_iff.mp hfree
      have heq : (vendorKeyOpenKey cfg s c id a).2 = .ok k := by
        rw [vendorKeyOpenKey_ready hlen hid hi ha, hj]
      refine ⟨fun e he => ?_, fun _ => ⟨k, heq⟩⟩
      rw [heq] at he
      cases he
    · exact ⟨fun _ _ => (vendorKeyOpenKey_refused hr).1, fun h => absurd h hr⟩

end One

/-! ## Opens are counted -/

def HistEv.isVendorOpen : HistEv → Bool
  | .got _ _ o => o.isVendor
  | .released .. => false

/-- The vendor opens that succeeded. -/
def opens (h : List HistEv) : Nat := h.countP HistEv.isVendorOpen

/-- The tables have their sizes, and each successful open has a slot. -/
structure Counted (cfg : Cfg) (s : St) : Prop where
  handles : s.sys.handleOwner.length = cfg.maxKeyHandles
  mappings : s.sys.keyIdMappingTable.length = cfg.keySlotStaticMax
  used : s.sys.keyIdMappingTable.countP (·.inUse) = opens s.hist

theorem counted_init (cfg : Cfg) : Counted cfg (init cfg) where
  handles := List.length_replicate
  mappings := List.length_replicate
  used := by
    simp [init, Sys.init, opens, List.countP_replicate]

/-- The call opens no vendor key. -/
theorem counted_same {cfg : Cfg} {s s' : St} (h : Counted cfg s)
    (hh : s'.sys.handleOwner.length = s.sys.handleOwner.length)
    (hm : s'.sys.keyIdMappingTable = s.sys.keyIdMappingTable)
    (hi : opens s'.hist = opens s.hist) : Counted cfg s' :=
  ⟨hh.trans h.handles, by rw [hm, h.mappings], by rw [hm, hi, h.used]⟩

section Calls

variable {cfg : Cfg} {s : St} {c : ClientId} {v : Vecs}

theorem counted_error (h : Counted cfg s) (o : Origin) (e : PsaStatus) :
    Counted cfg (got c o s.hist (s.sys, .error e)) := counted_same h rfl rfl rfl

theorem opens_got (k : KeyId) {o : Origin} (ho : o.isVendor = false) (h : List HistEv) :
    opens (.got c k o :: h) = opens h := by
  simp [opens, HistEv.isVendorOpen, ho]

theorem counted_storeNewKey (h : Counted cfg s) {o : Origin} (ho : o.isVendor = false) (i : Nat)
    (lt : Lifetime) (ans : Except PsaStatus KeyId) :
    Counted cfg (got c o s.hist (storeNewKey s.sys c i lt ans)) := by
  cases ans with
  | error e => exact counted_error h o e
  | ok k => exact counted_same h (List.length_set) rfl (opens_got k ho s.hist)

theorem counted_derive (h : Counted cfg s) (lookup : Except PsaStatus Unit) (lt : Lifetime)
    (ans : Except PsaStatus KeyId) : Counted cfg (call cfg s (.deriveKey c v lookup lt ans)) := by
  simp only [call, keyDerivationOutputKey]
  split
  · exact counted_error h _ _
  split
  · exact counted_error h _ _
  split
  · exact counted_error h _ _
  split
  · exact counted_error h _ _
  rename_i index _
  cases ans with
  | error e => exact counted_error h _ _
  | ok k =>
    by_cases hmax : cfg.maxKeyHandles ≤ index
    · simp only [setKeyStorage, if_pos hmax]
      exact counted_same h rfl rfl rfl
    · simp only [setKeyStorage, if_neg hmax]
      exact counted_same h (List.length_set) rfl (opens_got k rfl s.hist)

/-- A vendor open that succeeds takes one slot. -/
theorem counted_vendor (h : Counted cfg s) (id : KeyId) (va : VendorAns) :
    Counted cfg (got c (.vendor id) s.hist (vendorKeyOpenKey cfg s.sys c id va)) := by
  by_cases hr : Ready cfg s.sys id va
  · obtain ⟨hid, hfree, k, ha⟩ := hr
    obtain ⟨i, hi⟩ := handleFree_iff.mp hfree
    rw [vendorKeyOpenKey_ready h.handles hid hi ha]
    cases hj : s.sys.keyIdMappingTable.findIdx? (fun e => !e.inUse) with
    | none => exact counted_same h (List.length_set) rfl rfl
    | some j =>
      obtain ⟨hlt, hp, -⟩ := List.findIdx?_eq_some_iff_getElem.mp hj
      refine ⟨(List.length_set).trans h.handles, (List.length_set).trans h.mappings, ?_⟩
      have hcount := h.used
      simp only [got, opens, List.countP_cons, HistEv.isVendorOpen, Origin.isVendor]
      rw [List.countP_set hlt, if_neg (by simpa using hp)]
      simpa [opens] using hcount
  · obtain ⟨hs, e, he⟩ := vendorKeyOpenKey_refused (c := c) hr
    generalize vendorKeyOpenKey cfg s.sys c id va = r at hs he
    obtain ⟨s₁, reply⟩ := r
    dsimp only at hs he
    rw [hs, he]
    exact counted_error h _ _

theorem counted_open (h : Counted cfg s) (id : KeyId) (va : VendorAns)
    (opened : Except PsaStatus KeyId) : Counted cfg (call cfg s (.openKey c v id va opened)) := by
  simp only [call, openKey]
  split
  · exact counted_error h _ _
  split
  · exact counted_error h _ _
  split
  · exact counted_error h _ _
  split
  · rename_i hv
    simp only [openOrigin, if_pos hv]
    exact counted_vendor h id va
  · rename_i hv
    simp only [openOrigin, if_neg hv]
    cases opened with
    | error e => exact counted_error h _ _
    | ok k => exact counted_same h (List.length_set) rfl (opens_got k rfl s.hist)

theorem counted_release (h : Counted cfg s) (key : KeyId)
    {backend : Sys → ClientId → KeyId → Except PsaStatus Unit → Sys} (ans : Except PsaStatus Unit)
    (hb : ∀ s c k a, (backend s c k a).handleOwner = s.handleOwner ∧
      (backend s c k a).keyIdMappingTable = s.keyIdMappingTable) :
    Counted cfg (released c key s.hist (releaseKey s.sys c v key backend ans)) := by
  unfold releaseKey
  split
  · exact counted_same h rfl rfl rfl
  split
  · exact counted_same h rfl rfl rfl
  split
  · exact counted_same h rfl rfl rfl
  cases ans with
  | error e => exact counted_same h rfl rfl rfl
  | ok u =>
    obtain ⟨hh, hm⟩ := hb s.sys c key (.ok ())
    refine counted_same h ?_ (by simp [released, Sys.setHandle, hm]) ?_
    · simp [released, Sys.setHandle, hh]
    · simp [released, opens, HistEv.isVendorOpen]

end Calls

theorem counted_call {cfg : Cfg} {s : St} (h : Counted cfg s) (l : Lbl) :
    Counted cfg (call cfg s l) := by
  cases l with
  | importKey c v lt ans =>
    simp only [call, importKey]
    split
    · exact counted_error h _ _
    split
    · exact counted_error h _ _
    split
    · exact counted_error h _ _
    · exact counted_storeNewKey h rfl _ lt ans
  | generateKey c v lt ans =>
    simp only [call, generateKey]
    split
    · exact counted_error h _ _
    split
    · exact counted_error h _ _
    split
    · exact counted_error h _ _
    · exact counted_storeNewKey h rfl _ lt ans
  | copyKey c v src lt ans =>
    simp only [call, copyKey]
    split
    · exact counted_error h _ _
    split
    · exact counted_error h _ _
    split
    · exact counted_error h _ _
    split
    · exact counted_error h _ _
    · exact counted_storeNewKey h rfl _ lt ans
  | deriveKey c v lookup lt ans => exact counted_derive h lookup lt ans
  | openKey c v id va opened => exact counted_open h id va opened
  | closeKey c v key ans => exact counted_release h key ans psaCloseKey_tables
  | destroyKey c v key ans => exact counted_release h key ans psaDestroyKey_tables
  | purgeKey c v key ans => exact counted_release h key ans fun _ _ _ _ => ⟨rfl, rfl⟩

theorem counted_inductive (cfg : Cfg) : (lts cfg).Inductive (Counted cfg) where
  init := by
    intro s hs
    rw [hs]
    exact counted_init cfg
  step := by
    intro s l s' h hs
    simp only [lts, LTS.ofFn, step] at hs
    split at hs
    · cases hs
      exact counted_call h l
    · cases hs

theorem counted_reachable (cfg : Cfg) (s : St) (h : (lts cfg).Reachable s) : Counted cfg s :=
  (counted_inductive cfg).reachable s h

theorem mappingFree_iff_opens {cfg : Cfg} {s : St} (h : Counted cfg s) :
    MappingFree s.sys ↔ opens s.hist < cfg.keySlotStaticMax := by
  rw [← h.used, ← h.mappings]
  constructor
  · intro hx
    obtain ⟨e, he, hfree⟩ := hx
    refine Nat.lt_of_le_of_ne List.countP_le_length fun heq => ?_
    rw [List.countP_eq_length.mp heq e he] at hfree
    cases hfree
  · intro hlt
    by_contra hn
    refine absurd (List.countP_eq_length.mpr fun e he => ?_) (Nat.ne_of_lt hlt)
    by_contra hfree
    exact hn ⟨e, he, by simpa using hfree⟩

/-- **When opening a vendor key is atomic and repeatable.** Whatever the tables hold, and
for any caller, id and answers of the flash-boot library and the back end, an open leaves
everything as it was when it fails, and succeeds when a handle is free and all answers
are good, exactly when a slot of the mapping table is free or the open is refused before
the import. In a run of any calls by any clients, a slot is free as long as fewer vendor
opens have succeeded than the table has slots. -/
theorem vendor_open_iff (cfg : Cfg) :
    (∀ (s : Sys) (c : ClientId) (id : KeyId) (a : VendorAns),
      s.handleOwner.length = cfg.maxKeyHandles →
      (OpenLaw cfg s c id a ↔ (Ready cfg s id a → MappingFree s))) ∧
    ∀ s, (lts cfg).Reachable s → ∀ (c : ClientId) (id : KeyId) (a : VendorAns),
      OpenLaw cfg s.sys c id a ↔
        (Ready cfg s.sys id a → opens s.hist < cfg.keySlotStaticMax) := by
  refine ⟨fun s c id a hlen => openLaw_iff hlen, fun s hs c id a => ?_⟩
  have hc := counted_reachable cfg s hs
  rw [openLaw_iff hc.handles, mappingFree_iff_opens hc]

/-- Client 1 opens the device key as 5 and closes it, so many times. -/
def cycles (n : Nat) : List Lbl :=
  (List.replicate n [openDevice 5, .closeKey 1 closeVecs 5 (.ok ())]).flatten

def goodAns : VendorAns := ⟨.ok (), .ok (), .ok 5⟩

theorem vendor_open_second : ∃ s, (lts exCfg).Reachable s ∧ opens s.hist = 1 ∧
    (vendorKeyOpenKey exCfg s.sys 1 keyIdVendorMin goodAns).2 = .ok 5 ∧
    OpenLaw exCfg s.sys 1 keyIdVendorMin goodAns := by
  have hrun : (LTS.exec (step exCfg) (init exCfg) (cycles 1)).map (fun s =>
      (opens s.hist, decide ((vendorKeyOpenKey exCfg s.sys 1 keyIdVendorMin goodAns).2.toOption =
        some 5))) = some (1, true) := by decide +kernel
  obtain ⟨s, hs, hv⟩ := Option.map_eq_some_iff.mp hrun
  simp only [Prod.mk.injEq, decide_eq_true_eq] at hv
  obtain ⟨hopens, hok⟩ := hv
  have hreach : (lts exCfg).Reachable s := LTS.reachable_exec _ (.init rfl) hs
  refine ⟨s, hreach, hopens, ?_, ((vendor_open_iff exCfg).2 s hreach 1 _ _).mpr fun _ => ?_⟩
  · generalize (vendorKeyOpenKey exCfg s.sys 1 keyIdVendorMin goodAns).2 = r at hok
    cases r with
    | error e => cases hok
    | ok k => exact congrArg Except.ok (Option.some.inj hok)
  · rw [hopens]
    decide

/-- The status of an open that fails. -/
def refusal {α : Type} : Except PsaStatus α → Option PsaStatus
  | .ok _ => none
  | .error e => some e

/-- The ninth open fails with 32 free handles, and leaves a key and a handle behind. -/
theorem vendor_open_ninth : ∃ s, (lts exCfg).Reachable s ∧ s.sys.live = [] ∧
    (vendorKeyOpenKey exCfg s.sys 1 keyIdVendorMin goodAns).2 = .error .insufficientMemory ∧
    (vendorKeyOpenKey exCfg s.sys 1 keyIdVendorMin goodAns).1.live = [⟨1, 5, .volatile⟩] ∧
    ¬ OpenLaw exCfg s.sys 1 keyIdVendorMin goodAns := by
  have hrun : (LTS.exec (step exCfg) (init exCfg) (cycles 8)).map (fun s =>
      (s.sys.live, (vendorKeyOpenKey exCfg s.sys 1 keyIdVendorMin goodAns).1.live,
        refusal (vendorKeyOpenKey exCfg s.sys 1 keyIdVendorMin goodAns).2)) =
      some ([], [⟨1, 5, .volatile⟩], some .insufficientMemory) := by decide +kernel
  obtain ⟨s, hs, hv⟩ := Option.map_eq_some_iff.mp hrun
  simp only [Prod.mk.injEq] at hv
  obtain ⟨hlive, hafter, hreply⟩ := hv
  have herr : (vendorKeyOpenKey exCfg s.sys 1 keyIdVendorMin goodAns).2 =
      .error .insufficientMemory := by
    generalize (vendorKeyOpenKey exCfg s.sys 1 keyIdVendorMin goodAns).2 = r at hreply
    cases r with
    | ok k => cases hreply
    | error e => exact congrArg Except.error (Option.some.inj hreply)
  refine ⟨s, LTS.reachable_exec _ (.init rfl) hs, hlive, herr, hafter, fun h => ?_⟩
  rw [h.atomic _ herr, hlive] at hafter
  cases hafter

end Tfm.L4.VendorOpen
