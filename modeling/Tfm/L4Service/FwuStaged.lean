import Tfm.L4Service.FwuQuery

/-!
# Firmware update: the query and what was written

A run is watched by a mark for each staging area: the end of the highest byte that an
accepted block has stored there since the update started. The shim keeps no such mark.
Its `loaded_size` grows by the size of each block, so it is the mark as long as every
block starts where the data written so far end.

Results:
* `sized_reachable`: the entry of an update in process has the mark as its size.
* `query_reports_staged`: what is reported in such a run.
* `query_after_retry`: a block that is sent twice, an abort, and an image that was
  never updated.
-/
namespace Tfm.L4.Fwu.Query

variable {cfg : Cfg}

/-! ## The size that the shim keeps -/

/-- The shim has the area open, with so many bytes loaded. -/
def Loaded (s : St cfg) (a : Area) (n : Nat) : Prop :=
  ∃ k, getFlashImageIndex s a = some k ∧ (s.mcubootCtx k).fap = some a ∧
    (s.mcubootCtx k).loadedSize = n

theorem Loaded.isOpen {s : St cfg} {a : Area} {n : Nat} (h : Loaded s a n) : IsOpen s a := by
  obtain ⟨k, hk, hf, -⟩ := h
  exact ⟨k, hk, hf⟩

theorem Loaded.congr {s s' : St cfg} {a : Area} {n : Nat} (h : Loaded s a n)
    (hm : s'.mcubootCtx = s.mcubootCtx) : Loaded s' a n := by
  obtain ⟨k, hk, hf, hl⟩ := h
  refine ⟨k, ?_, by rw [hm, hf], by rw [hm, hl]⟩
  rw [getFlashImageIndex, hm]
  exact hk

theorem Loaded.setMcuboot {s : St cfg} {a b : Area} {k : Fin cfg.maxImages} {c : McubootCtx}
    {n : Nat} (h : Loaded s b n)
    (hk : getFlashImageIndex s a = some k ∨ (s.mcubootCtx k).fap = none)
    (hc : c.mcubootImageId = a) (hab : b ≠ a) : Loaded (s.setMcuboot k c) b n := by
  obtain ⟨i, hi, hf, hl⟩ := h
  obtain ⟨hik, hi'⟩ := getFlashImageIndex_other hi hf hk hc hab
  refine ⟨i, hi', ?_, ?_⟩
  · simp [St.setMcuboot, Function.update_of_ne hik, hf]
  · simp [St.setMcuboot, Function.update_of_ne hik, hl]

/-- What is loaded elsewhere stays. -/
def Elsewhere (a : Area) (s s' : St cfg) : Prop :=
  ∀ b, b ≠ a → ∀ n, Loaded s b n → Loaded s' b n

section Shim

variable {s : St cfg} {bl : UInt8} {a : Area}

/-- The block of an update in process. -/
theorem loadImage_loaded {n : Nat} (off : Nat) (data : List UInt8) (e : Env)
    (hbl : convertIdFromBlToMcuboot cfg bl = some a) (h : Loaded s a n)
    (hsz : cfg.areaSize a < 2 ^ 32) (hn : n ≤ cfg.areaSize a)
    (hoff : data ≠ [] → off + data.length ≤ cfg.areaSize a → e.write = .done → off = n) :
    (loadImage s bl off data e).2.fwuCtx = s.fwuCtx ∧
    Elsewhere a s (loadImage s bl off data e).2 ∧
    ∃ m, m = (if (loadImage s bl off data e).1 = .success ∧ data ≠ []
      then max n (off + data.length) else n) ∧ m ≤ cfg.areaSize a ∧
      Loaded (loadImage s bl off data e).2 a m := by
  obtain ⟨k, hk, hf, rfl⟩ := id h
  rw [loadImage_open hbl hk hf]
  by_cases hout : cfg.areaSize a < off + data.length
  · rw [if_pos hout]
    exact ⟨rfl, fun _ _ _ h => h, _, (if_neg (by simp)).symm, hn, h⟩
  rw [if_neg hout]
  cases he : e.write with
  | failed left =>
    exact ⟨rfl, fun b _ m hb => hb.congr rfl, _, (if_neg (by simp)).symm, hn, h.congr rfl⟩
  | done =>
    dsimp only
    -- the entry is the first of its image before and after
    have hid := (getFlashImageIndex_iff.mp hk).1
    generalize hs₁ : s.setArea a (overlay (s.flash a) off data) = s₁
    have hm₁ : s₁.mcubootCtx = s.mcubootCtx := by rw [← hs₁]; rfl
    have hk₁ : getFlashImageIndex s₁ a = some k := by
      rw [getFlashImageIndex, hm₁]
      exact hk
    refine ⟨by rw [← hs₁]; rfl, fun b hb m hl => ?_, (s.mcubootCtx k).loadedSize + data.length,
      ?_, ?_, k, getFlashImageIndex_setMcuboot (.inl hk₁) hid, ?_, ?_⟩
    · exact (hl.congr hm₁).setMcuboot (.inl hk₁) hid hb
    · by_cases hd : data = []
      · simp [hd]
      · have := hoff hd (by omega) he
        rw [if_pos ⟨rfl, hd⟩]
        omega
    · by_cases hd : data = []
      · simpa [hd] using hn
      · have := hoff hd (by omega) he
        omega
    · simp [St.setMcuboot, hf]
    · have hlt : (s.mcubootCtx k).loadedSize + data.length < 2 ^ 32 := by
        by_cases hd : data = []
        · simp only [hd, List.length_nil]
          omega
        · have := hoff hd (by omega) he
          omega
      simpa [St.setMcuboot] using hlt

/-- The entry of a new update. -/
theorem setMcuboot_entry {k : Fin cfg.maxImages}
    (hk : (getFlashImageIndex s a).or (getNextFreeArea s) = some k) :
    Elsewhere a s (s.setMcuboot k ⟨some a, a, 0⟩) ∧ Loaded (s.setMcuboot k ⟨some a, a, 0⟩) a 0 := by
  refine ⟨fun b hb n hl => ?_, k, getFlashImageIndex_entry hk rfl, by simp [St.setMcuboot],
    by simp [St.setMcuboot]⟩
  refine hl.setMcuboot ?_ rfl hb
  cases hi : getFlashImageIndex s a with
  | some i =>
    rw [hi, Option.some_or] at hk
    exact .inl hk
  | none =>
    rw [hi, Option.none_or] at hk
    exact .inr (by simpa using Fin.eq_true_of_find?_eq_some hk)

/-- An install changes flash only. -/
theorem installImage_frame (e : Env) : (installImage s bl e).2.mcubootCtx = s.mcubootCtx ∧
    (installImage s bl e).2.fwuCtx = s.fwuCtx := by
  unfold installImage withArea
  split
  · exact ⟨rfl, rfl⟩
  split
  · exact ⟨rfl, rfl⟩
  split
  · exact ⟨rfl, rfl⟩
  rename_i b _
  dsimp only
  split
  · exact ⟨rfl, rfl⟩
  obtain ⟨ht, hm⟩ :=
    flashOp_touch s b (overlay (s.flash b) (cfg.magicOff b) cfg.magic) e.magic
  rw [bootWriteMagic]
  split
  all_goals
    rename_i heq
    rw [heq] at ht hm
    exact ⟨hm, ht.fwuCtx⟩

theorem bootloaderAbort_elsewhere (e : Env) (hbl : convertIdFromBlToMcuboot cfg bl = some a)
    (ho : IsOpen s a) : Elsewhere a s (bootloaderAbort s bl e).2 := by
  obtain ⟨k, hk, heq⟩ := withArea_open hbl ho fun index area =>
    let s := (flashAreaErase s area e.erase).2
    (.success, s.setMcuboot index { s.mcubootCtx index with fap := none, loadedSize := 0 })
  rw [bootloaderAbort, heq]
  have hm := (flashOp_touch s a (fun _ => cfg.erased) e.erase).2
  have hk₁ : getFlashImageIndex (flashOp s a (fun _ => cfg.erased) e.erase).2 a = some k := by
    rw [getFlashImageIndex, hm]
    exact hk
  exact fun b hb n hl =>
    (hl.congr hm).setMcuboot (.inl hk₁) (getFlashImageIndex_iff.mp hk₁).1 hb

end Shim

/-! ## The mark -/

/-- The marks after a request: an update that starts has none, and a block that is
accepted moves the mark of its area to its end. -/
def markAfter (s : St cfg) (mark : Area → Nat) (l : Lbl) : Area → Nat :=
  match l.req with
  | .write id off data =>
    match stagingArea cfg id with
    | none => mark
    | some a =>
      let rs := writeIpc s id off data l.env
      let m := if getImageIndex s id = none ∧ getImageIndex rs.2 id ≠ none then 0 else mark a
      Function.update mark a
        (if rs.1 = .success ∧ data ≠ [] then max m (off + data.length) else m)
  | _ => mark

def watchedStep (p : St cfg × (Area → Nat)) (l : Lbl) : Option (St cfg × (Area → Nat)) :=
  (step p.1 l).map fun s => (s, markAfter p.1 p.2 l)

/-- The service, watched. -/
def watched (cfg : Cfg) : LTS (St cfg × (Area → Nat)) Lbl :=
  LTS.ofFn (fun p => ∃ f, p = (.init cfg f, fun _ => 0)) watchedStep

/-- The block gets to the flash, and the flash writes it. -/
def Stores (s : St cfg) (id : ImageId) (off : Nat) (data : List UInt8) (e : Env) : Prop :=
  data ≠ [] ∧ e.write = .done ∧
  (∀ a, stagingArea cfg id = some a → off + data.length ≤ cfg.areaSize a) ∧
  ((∃ k, Continues s id k) ∨ Starts s id ∧ e.openOk = true ∧ e.erase = .done)

/-- A block that is stored starts where the data written so far end, and an update that
starts has an area of its own. -/
def Contiguous (p : St cfg × (Area → Nat)) (l : Lbl) : Prop :=
  StartsApart p.1 l ∧
  match l.req with
  | .write id off data => Stores p.1 id off data l.env → ∀ a, stagingArea cfg id = some a →
      off = if getImageIndex p.1 id = none then 0 else p.2 a
  | _ => True

/-- An update in process has its mark as the size of its entry. -/
def Sized (s : St cfg) (mark : Area → Nat) : Prop :=
  ∀ i a, Owns s i a → Loaded s a (mark a) ∧ mark a ≤ cfg.areaSize a

/-- A change that concerns one area. -/
theorem sized_of {s s' : St cfg} {mark mark' : Area → Nat} {a : Area} (h : Sized s mark)
    (howns : ∀ i b, b ≠ a → Owns s' i b → Owns s i b) (hl : Elsewhere a s s')
    (hm : ∀ b, b ≠ a → mark' b = mark b)
    (ha : ∀ i, Owns s' i a → Loaded s' a (mark' a) ∧ mark' a ≤ cfg.areaSize a) :
    Sized s' mark' := by
  intro i b hb
  by_cases hba : b = a
  · subst hba
    exact ha i hb
  · obtain ⟨hload, hle⟩ := h i b (howns i b hba hb)
    rw [hm b hba]
    exact ⟨hl b hba _ hload, hle⟩

section Mark

variable {s : St cfg} {mark : Area → Nat} {id : ImageId} {off : Nat} {data : List UInt8} {e : Env}

theorem getImageIndex_congr {s' : St cfg} (h : s'.fwuCtx = s.fwuCtx) :
    getImageIndex s' id = getImageIndex s id := by
  rw [getImageIndex, h, getImageIndex]

theorem owns_congr {s' : St cfg} (h : s'.fwuCtx = s.fwuCtx) {i : Fin cfg.maxImages} {a : Area} :
    Owns s' i a ↔ Owns s i a := by
  rw [Owns, h, Owns]

/-- The marks stay where the request starts no update and accepts no block. -/
theorem markAfter_same (hf : (writeIpc s id off data e).2.fwuCtx = s.fwuCtx)
    (hr : (writeIpc s id off data e).1 ≠ .success) :
    markAfter s mark ⟨.write id off data, e⟩ = mark := by
  simp only [markAfter]
  cases stagingArea cfg id with
  | none => rfl
  | some a =>
    dsimp only
    rw [if_neg fun h => hr h.1, if_neg, Function.update_eq_self]
    rw [getImageIndex_congr hf]
    exact fun h => h.2 h.1

theorem markAfter_write {a : Area} {n : Nat} (ha : stagingArea cfg id = some a)
    (hn : (if getImageIndex s id = none ∧ getImageIndex (writeIpc s id off data e).2 id ≠ none
      then 0 else mark a) = n) :
    markAfter s mark ⟨.write id off data, e⟩ = Function.update mark a
      (if (writeIpc s id off data e).1 = .success ∧ data ≠ [] then max n (off + data.length)
      else n) := by
  simp only [markAfter, ha]
  rw [hn]

theorem sized_continues (hi : Inv s) (h : Sized s mark) {k : Fin cfg.maxImages}
    (hsz : ∀ a, cfg.areaSize a < 2 ^ 32) (hlen : data.length ≤ maxBlockSize)
    (hc : Continues s id k)
    (hoff : Stores s id off data e → ∀ a, stagingArea cfg id = some a →
      off = if getImageIndex s id = none then 0 else mark a) :
    Sized (writeIpc s id off data e).2 (markAfter s mark ⟨.write id off data, e⟩) := by
  have heq := write_continues off hlen hc e
  have ⟨⟨i, hidx, _⟩, _, a, ha, _⟩ := hc
  obtain ⟨-, a', ha', hown, -⟩ := hi.found hidx
  rw [stagingArea] at ha
  rw [ha] at ha'
  cases ha'
  have hsome : getImageIndex s id ≠ none := by
    rw [hidx]
    exact Option.some_ne_none i
  obtain ⟨hload, hle⟩ := h i a hown
  obtain ⟨hfwu, helse, m, hm, hma, hl⟩ := loadImage_loaded off data e ha
    hload (hsz a) hle fun hd hin hw => by
      have := hoff ⟨hd, hw, fun b hb => by rw [stagingArea, ha] at hb; cases hb; exact hin,
        .inl ⟨k, hc⟩⟩ a ha
      rwa [if_neg hsome] at this
  rw [markAfter_write ha (if_neg fun hn => hsome hn.1), heq, ← hm]
  refine sized_of h (fun j b _ => (owns_congr hfwu).mp) helse
    (fun b hb => Function.update_of_ne hb _ _) fun j _ => ?_
  rw [Function.update_self]
  exact ⟨hl, hma⟩

theorem started_found (s : St cfg) (id : ImageId) (j k : Fin cfg.maxImages) (a : Area) :
    getImageIndex (started s id j k a) id ≠ none := by
  rw [getImageIndex, ne_eq, Fin.find?_eq_none_iff]
  intro h
  have := h j
  simp [started, St.setFwu] at this

/-- What is loaded elsewhere stays while an update starts. -/
theorem started_elsewhere (id : ImageId) (j : Fin cfg.maxImages) {k : Fin cfg.maxImages} {a : Area}
    (hk : (getFlashImageIndex s a).or (getNextFreeArea s) = some k) :
    Elsewhere a s (started s id j k a) ∧ Loaded (started s id j k a) a 0 := by
  obtain ⟨helse, hload⟩ := setMcuboot_entry hk
  exact ⟨fun b hb n hl => (helse b hb n hl).congr rfl, hload.congr rfl⟩

theorem sized_starts (h : Sized s mark) (hsz : ∀ a, cfg.areaSize a < 2 ^ 32)
    (hlen : data.length ≤ maxBlockSize) (hs : Starts s id)
    (hown : ∀ a, stagingArea cfg id = some a → ∀ i, ¬ Owns s i a)
    (hoff : Stores s id off data e → ∀ a, stagingArea cfg id = some a →
      off = if getImageIndex s id = none then 0 else mark a) :
    Sized (writeIpc s id off data e).2 (markAfter s mark ⟨.write id off data, e⟩) := by
  obtain ⟨a, j, k, ha, hfree, hk, heq⟩ := write_starts off hlen hs
  replace heq := heq e
  have hnone := hs.1
  cases ho : e.openOk with
  | false =>
    simp only [ho, Bool.false_eq_true, if_false] at heq
    rw [markAfter_same (by rw [heq]) (by rw [heq]; simp), heq]
    exact h
  | true =>
    simp only [ho, if_true] at heq
    cases he : e.erase with
    | failed left =>
      rw [he] at heq
      rw [markAfter_same (by rw [heq]; rfl) (by rw [heq]; simp), heq]
      refine sized_of h (fun i b _ hi => hi) ?_ (fun b _ => rfl) fun i hi =>
        absurd hi (hown a ha i)
      exact fun b hb n hl => ((setMcuboot_entry hk).1 b hb n hl).congr rfl
    | done =>
      rw [he] at heq
      dsimp only at heq
      obtain ⟨helse, hload⟩ := started_elsewhere id j hk
      obtain ⟨hfwu, helse', m, hm, hma, hl⟩ := loadImage_loaded off data e
        ha hload (hsz a) (Nat.zero_le _) fun hd hin hw => by
          have := hoff ⟨hd, hw, fun b hb => by rw [ha] at hb; cases hb; exact hin,
            .inr ⟨hs, ho, he⟩⟩ a ha
          rwa [if_pos hnone] at this
      have hstart : getImageIndex (writeIpc s id off data e).2 id ≠ none := by
        rw [heq, getImageIndex_congr hfwu]
        exact started_found s id j k a
      rw [markAfter_write ha (if_pos ⟨hnone, hstart⟩), heq, ← hm]
      refine sized_of h (fun i b hb hi => ?_) (fun b hb n hn => helse' b hb n (helse b hb n hn))
        (fun b hb => Function.update_of_ne hb _ _) fun i _ => ?_
      · -- the new entry owns `a` only
        rw [owns_congr hfwu] at hi
        by_cases hij : i = j
        · subst hij
          have := hi.2
          simp only [started, St.setFwu, Function.update_self, ha] at this
          exact absurd (Option.some.inj this).symm hb
        · simpa [Owns, started, St.setFwu, St.setArea, St.setMcuboot, hij] using hi
      · rw [Function.update_self]
        exact ⟨hl, hma⟩

theorem sized_write (hi : Inv s) (h : Sized s mark) (hsz : ∀ a, cfg.areaSize a < 2 ^ 32)
    (hC : Contiguous (s, mark) ⟨.write id off data, e⟩) :
    Sized (writeIpc s id off data e).2 (markAfter s mark ⟨.write id off data, e⟩) := by
  obtain ⟨⟨hlen, hapart⟩, hoff⟩ := hC
  by_cases hc : ∃ k, Continues s id k
  · obtain ⟨k, hk⟩ := hc
    exact sized_continues hi h hsz hlen hk hoff
  by_cases hs : Starts s id
  · refine sized_starts h hsz hlen hs (fun a ha i hown => ?_) hoff
    exact hapart hs.1 hs.2.1 hs.2.2.1 i hown.1 (convert_injective hown.2 ha)
  obtain ⟨hr, hst⟩ := write_refused off hlen (not_exists.mp hc) hs e
  have hne : (writeIpc s id off data e).1 ≠ .success := by
    intro hsucc
    rw [hsucc] at hr
    exact hr
  rw [markAfter_same (by rw [hst]) hne, hst]
  exact h

end Mark

theorem record_fwuCtx (l : Lbl) (rs : Reply × St cfg) : (record l rs).fwuCtx = rs.2.fwuCtx := by
  unfold record
  split <;> rfl

theorem owns_record {l : Lbl} {rs : Reply × St cfg} {i : Fin cfg.maxImages} {a : Area} :
    Owns (record l rs) i a ↔ Owns rs.2 i a :=
  owns_congr (record_fwuCtx l rs)

/-- An entry that keeps its image id is in process only if it was. -/
theorem owns_setFwu {s : St cfg} {i j : Fin cfg.maxImages} {a : Area} {c : FwuCtx}
    (hid : c.inUse = true → c.imageId = (s.fwuCtx i).imageId ∧ (s.fwuCtx i).inUse = true)
    (h : Owns (s.setFwu i c) j a) : Owns s j a := by
  by_cases hji : j = i
  · subst hji
    rw [Owns, St.setFwu] at h
    simp only [Function.update_self] at h
    obtain ⟨hid, huse⟩ := hid h.1
    exact ⟨huse, by rw [← hid]; exact h.2⟩
  · simpa [Owns, St.setFwu, Function.update_of_ne hji] using h

theorem sized_install {s : St cfg} {mark : Area → Nat} {id : ImageId} {e : Env}
    (h : Sized s mark) : Sized (record ⟨.install id, e⟩ (installIpc s id e)) mark := by
  have hframe : (internalInstall s id e).2.mcubootCtx = s.mcubootCtx ∧
      (internalInstall s id e).2.fwuCtx = s.fwuCtx := by
    rw [internalInstall]
    split
    · exact ⟨rfl, rfl⟩
    · exact installImage_frame e
  have hm : (installIpc s id e).2.mcubootCtx = s.mcubootCtx ∧
      ∀ i a, Owns (installIpc s id e).2 i a → Owns s i a := by
    rw [installIpc]
    cases hidx : getImageIndex s id with
    | none => exact ⟨rfl, fun _ _ h => h⟩
    | some i =>
      dsimp only
      split
      · exact ⟨rfl, fun _ _ h => h⟩
      obtain ⟨hmc, hfw⟩ := hframe
      generalize internalInstall s id e = rs at hmc hfw
      obtain ⟨r, s₁⟩ := rs
      dsimp only at hmc hfw ⊢
      have hown : ∀ st, ∀ j a, Owns (s₁.setFwu i { s₁.fwuCtx i with imageState := st }) j a →
          Owns s j a := fun st j a ho =>
        (owns_congr hfw).mp (owns_setFwu (c := { s₁.fwuCtx i with imageState := st })
          (fun hu => ⟨rfl, hu⟩) ho)
      cases r with
      | success =>
        refine ⟨hmc, fun j a ho => (owns_congr hfw).mp (owns_setFwu (fun hu => ?_) ho)⟩
        cases hu
      | successReboot => exact ⟨hmc, hown _⟩
      | currentlyInstalling => exact ⟨hmc, hown _⟩
      | dependencyNeeded => exact ⟨hmc, hown _⟩
      | error _ => exact ⟨hmc, hown _⟩
  intro i a ho
  obtain ⟨hl, hle⟩ := h i a (hm.2 i a (owns_record.mp ho))
  exact ⟨hl.congr ((record_mcubootCtx _ _).trans hm.1), hle⟩

theorem sized_abort {s : St cfg} {mark : Area → Nat} {id : ImageId} {e : Env} (hi : Inv s)
    (h : Sized s mark) : Sized (record ⟨.abort id, e⟩ (abortIpc s id e)) mark := by
  rw [abortIpc]
  cases hidx : getImageIndex s id with
  | none => exact h
  | some i =>
    dsimp only
    split
    case isFalse => exact h
    obtain ⟨hslot, a, hbl, hown, ho⟩ := hi.found hidx
    rw [internalAbort, if_neg (not_not.mpr hslot)]
    obtain ⟨hr, ht⟩ := bootloaderAbort_touch e hbl ho
    have helse := bootloaderAbort_elsewhere e hbl ho
    cases hab : bootloaderAbort s (imageType id) e with
    | mk r s₁ =>
      rw [hab] at hr ht helse
      cases hr
      dsimp only
      have hsub : ∀ j b, Owns (s₁.setFwu i ⟨0, .undefined, false⟩) j b → j ≠ i ∧ Owns s j b := by
        intro j b hj
        refine ⟨?_, (owns_congr ht.fwuCtx).mp (owns_setFwu (c := ⟨0, .undefined, false⟩)
          (fun hu => absurd hu Bool.false_ne_true) hj)⟩
        intro hx
        subst hx
        simp [Owns, St.setFwu] at hj
      intro j b hj
      obtain ⟨hji, hjb⟩ := hsub j b (owns_record.mp hj)
      obtain ⟨hl, hle⟩ := h j b hjb
      have hba : b ≠ a := by
        intro hx
        subst hx
        exact hji (hi.apart j i b hjb hown)
      exact ⟨(helse b hba _ hl).congr ((record_mcubootCtx _ _).trans rfl), hle⟩

theorem sized_step {s : St cfg} {mark : Area → Nat} {l : Lbl} (hi : Inv s) (h : Sized s mark)
    (hsz : ∀ a, cfg.areaSize a < 2 ^ 32) (hC : Contiguous (s, mark) l) :
    Sized (record l (handle s l)) (markAfter s mark l) := by
  obtain ⟨req, e⟩ := l
  cases req with
  | malformed => exact h
  | write id off data => exact sized_write hi h hsz hC
  | install id => exact sized_install h
  | query id => exact h
  | abort id => exact sized_abort hi h

theorem sized_inductive (hsz : ∀ a, cfg.areaSize a < 2 ^ 32) :
    ((watched cfg).restrict Contiguous).Inductive fun p => Inv p.1 ∧ Sized p.1 p.2 where
  init := by
    intro p hx
    obtain ⟨f, rfl⟩ := hx
    exact ⟨inv_init f, fun i a h => by cases h.1⟩
  step := by
    intro hx l p' he hr
    obtain ⟨s, mark⟩ := hx
    obtain ⟨hi, h⟩ := he
    obtain ⟨hC, hs⟩ := hr
    simp only [watched, LTS.ofFn, watchedStep, step] at hs
    split at hs
    · cases hs
    · cases hs
      exact ⟨inv_step hi hC.1, sized_step hi h hsz hC⟩

/-- **The size is the mark.** In a run whose blocks are contiguous, the entry of every
update in process has the end of the data written so far as its size. -/
theorem sized_reachable (hsz : ∀ a, cfg.areaSize a < 2 ^ 32) {p : St cfg × (Area → Nat)}
    (h : ((watched cfg).restrict Contiguous).Reachable p) : Inv p.1 ∧ Sized p.1 p.2 :=
  (sized_inductive hsz).reachable p h

/-! ## What is reported -/

/-- What a query of the staging slot `a` promises. -/
structure QueryLaw (B : Build) (s : St cfg) (mark : Area → Nat) (id : ImageId) (a : Area) :
    Prop where
  inProcess : (∃ i, Owns s i a) → ∀ q info, (queryIpc B s id q).1 = .ok info →
    info.digest = cfg.hash ((List.range (mark a)).map (s.flash a))
  /-- No update in process, and a header in the slot. -/
  header : (∀ i, ¬ Owns s i a) → ∀ v n, cfg.header (s.flash a) = some (v, n) → ∀ q,
    (queryIpc B s id q).1 ≠ .error .doesNotExist ∧
    ∀ info, (queryIpc B s id q).1 = .ok info →
      info.version = v ∧ info.digest = cfg.hash ((List.range n).map (s.flash a))
  noHeader : (∀ i, ¬ Owns s i a) → cfg.header (s.flash a) = none → ∀ q,
    (∀ info, (queryIpc B s id q).1 ≠ .ok info) ∧
    (q.openOk = true → (flashAreaRead B s a q 0 B.hdrSize).isSome = true →
      (queryIpc B s id q).1 = .error .doesNotExist)
  inside : ∀ q, (queryIpc B s id q).2.length ≤ cfg.areaSize a

/-- Where no update has the slot, the shim has no entry of its image number, and the
sizes in the header stay in the area unless reads are checked. -/
def Plain (B : Build) (s : St cfg) (a : Area) : Prop :=
  (∀ i, ¬ Owns s i a) → getFlashImageIndex s a = none ∧
    (B.readChecks = true ∨ ∀ v n, cfg.header (s.flash a) = some (v, n) → n ≤ cfg.areaSize a)

section Law

variable {B : Build} {s : St cfg} {mark : Area → Nat} {id : ImageId} {a : Area}

theorem Loaded.imageRange {n : Nat} (h : Loaded s a n) :
    imageRange s a = some (⟨0, 0, 0, 0⟩, n) := by
  obtain ⟨k, hk, -, rfl⟩ := h
  simp only [Query.imageRange, hk]

/-- A query of a slot where an update is in process. -/
theorem law_inProcess (hslot : imageSlot id = slotStage) (ha : stagingArea cfg id = some a)
    (hl : Loaded s a (mark a)) (hle : mark a ≤ cfg.areaSize a) (hown : ∃ i, Owns s i a) :
    QueryLaw B s mark id a := by
  obtain ⟨i, hi⟩ := hown
  refine ⟨fun _ q info h => ?_, fun hn => absurd hi (hn i), fun hn => absurd hi (hn i), fun q => ?_⟩
  · obtain ⟨info', -, hd, hok⟩ := (queryIpc_stage hslot ha).2.2 info h
    obtain ⟨-, n, hr, hdig⟩ := secondary_ok hok
    rw [hl.imageRange] at hr
    rw [← hd, hdig, (Prod.mk.inj (Option.some.inj hr)).2]
  · rw [(queryIpc_stage hslot ha).1]
    refine secondary_length (.inr fun v n hr => ?_)
    rw [hl.imageRange] at hr
    cases hr
    exact hle

/-- A query of a slot that no update has. -/
theorem law_idle (hslot : imageSlot id = slotStage) (ha : stagingArea cfg id = some a)
    (hp : Plain B s a) (hown : ∀ i, ¬ Owns s i a) : QueryLaw B s mark id a := by
  obtain ⟨hnone, hsize⟩ := hp hown
  have hrange : imageRange s a = cfg.header (s.flash a) := by simp only [imageRange, hnone]
  refine ⟨fun hi => absurd hi (not_exists.mpr hown), fun _ v n hh q => ⟨fun hne => ?_, fun info h => ?_⟩,
    fun _ hh q => ⟨fun info h => ?_, fun ho hr => ?_⟩, fun q => ?_⟩
  · have := (secondary_not_exist.mp (((queryIpc_stage hslot ha).2.1 _).mp hne)).2.2
    rw [hrange, hh] at this
    cases this
  · obtain ⟨info', hv, hd, hok⟩ := (queryIpc_stage hslot ha).2.2 info h
    obtain ⟨-, m, hr, hdig⟩ := secondary_ok hok
    rw [hrange, hh] at hr
    cases hr
    exact ⟨hv.symm, by rw [← hd, hdig]⟩
  · obtain ⟨info', -, -, hok⟩ := (queryIpc_stage hslot ha).2.2 info h
    obtain ⟨-, m, hr, -⟩ := secondary_ok hok
    rw [hrange, hh] at hr
    cases hr
  · exact ((queryIpc_stage hslot ha).2.1 _).mpr
      (secondary_not_exist.mpr ⟨ho, hr, by rw [hrange, hh]⟩)
  · rw [(queryIpc_stage hslot ha).1]
    refine secondary_length (hsize.imp_right fun h v n hr => ?_)
    rw [hrange] at hr
    exact h v n hr

end Law

/-- **The query reports what is staged.** Take any run in which every block that is
stored starts where the data written so far end, and an update starts only on a slot
that no update has. In every state of it, and for every image id of a staging slot, a
query keeps its promise where an update of the image is in process, and also where none
is if the shim has no entry of the image number and the sizes in the header stay in the
area (or `flash_area_read` checks them). -/
theorem query_reports_staged (B : Build) (cfg : Cfg) (hsz : ∀ a, cfg.areaSize a < 2 ^ 32)
    (p : St cfg × (Area → Nat)) (h : ((watched cfg).restrict Contiguous).Reachable p)
    (id : ImageId) (a : Area) (hslot : imageSlot id = slotStage)
    (ha : stagingArea cfg id = some a) (hp : Plain B p.1 a) : QueryLaw B p.1 p.2 id a := by
  obtain ⟨-, hsized⟩ := sized_reachable hsz h
  by_cases hown : ∃ i, Owns p.1 i a
  · have ⟨i, hi⟩ := hown
    obtain ⟨hl, hle⟩ := hsized i a hi
    exact law_inProcess hslot ha hl hle hown
  · exact law_idle hslot ha hp (not_exists.mp hown)

/-- A check for the steps of a concrete run. -/
def contiguousB (p : St cfg × (Area → Nat)) (l : Lbl) : Bool :=
  decide (StartsApart p.1 l) &&
  match l.req with
  | .write id off _ =>
    off == if getImageIndex p.1 id = none then 0 else p.2 ((stagingArea cfg id).getD 0)
  | _ => true

theorem contiguous_of_check (p : St cfg × (Area → Nat)) (l : Lbl) (h : contiguousB p l = true) :
    Contiguous p l := by
  rw [contiguousB, Bool.and_eq_true, decide_eq_true_eq] at h
  refine ⟨h.1, ?_⟩
  obtain ⟨req, e⟩ := l
  cases req with
  | write id off data =>
    intro _ a ha
    have := h.2
    simp only [ha, Option.getD_some, beq_iff_eq] at this
    exact this
  | malformed => trivial
  | install id => trivial
  | query id => trivial
  | abort id => trivial

/-- Pieces of two bytes, and reads that are checked. -/
def demoBuild : Build := ⟨2, by decide, 32, true⟩

def allGood : Answers := ⟨true, fun _ _ => true, true, fun _ => true, true⟩

/-- The digest that is reported; `demoCfg` hashes to the bytes themselves. -/
def digestOf (p : St demoCfg × (Area → Nat)) : Option (List UInt8) :=
  (queryIpc demoBuild p.1 secureId allGood).1.toOption.map (·.digest)

theorem query_reports_two_blocks : ∃ p : St demoCfg × (Area → Nat),
    digestOf p = some [1, 2, 3] ∧ QueryLaw demoBuild p.1 p.2 secureId 0 := by
  have hrun : (LTS.execC contiguousB watchedStep (St.init demoCfg fun _ _ => 0, fun _ => 0)
      [⟨.write secureId 0 [1, 2], goodFlash⟩, ⟨.write secureId 2 [3], goodFlash⟩]).map
      (fun p => (digestOf p, decide (∃ i, (p.1.fwuCtx i).inUse = true ∧
        stagingArea demoCfg (p.1.fwuCtx i).imageId = some 0))) =
      some (some [1, 2, 3], true) := by decide +kernel
  obtain ⟨p, hp, hv⟩ := Option.map_eq_some_iff.mp hrun
  simp only [Prod.mk.injEq, decide_eq_true_eq] at hv
  obtain ⟨hd, i, hown⟩ := hv
  refine ⟨p, hd, query_reports_staged demoBuild demoCfg (fun _ => (by decide : 64 < 2 ^ 32)) p ?_
    secureId 0 (by decide) (by decide) fun hn => absurd hown (hn i)⟩
  exact LTS.reachable_execC contiguous_of_check _ ⟨_, rfl⟩ hp

/-- A block of two bytes is sent twice: four bytes are hashed. After the abort the query
still succeeds, and it does before any update of this image. -/
theorem query_after_retry :
    (∃ p : St demoCfg × (Area → Nat), (watched demoCfg).Reachable p ∧ p.2 0 = 2 ∧
      digestOf p = some [1, 2, 0xFF, 0xFF] ∧ ¬ QueryLaw demoBuild p.1 p.2 secureId 0) ∧
    (∃ p : St demoCfg × (Area → Nat), (watched demoCfg).Reachable p ∧ (∀ i, ¬ Owns p.1 i 0) ∧
      digestOf p = some [] ∧ ¬ QueryLaw demoBuild p.1 p.2 secureId 0) ∧
    ¬ QueryLaw demoBuild (St.init demoCfg fun _ _ => 0) (fun _ => 0) secureId 0 := by
  have hnot : ∀ p : St demoCfg × (Area → Nat), (∀ i, ¬ Owns p.1 i 0) → digestOf p = some [] →
      (demoCfg.header (p.1.flash 0)).isNone = true → ¬ QueryLaw demoBuild p.1 p.2 secureId 0 := by
    intro p hown hd hno h
    obtain ⟨info, hok, -⟩ := Option.map_eq_some_iff.mp hd
    refine (h.noHeader hown (Option.isNone_iff_eq_none.mp hno) allGood).1 info ?_
    generalize (queryIpc demoBuild p.1 secureId allGood).1 = r at hok
    cases r with
    | error e => cases hok
    | ok info' =>
      cases hok
      rfl
  refine ⟨?_, ?_, ?_⟩
  · have hrun : (LTS.exec watchedStep (St.init demoCfg fun _ _ => 0, fun _ => 0)
        [⟨.write secureId 0 [1, 2], goodFlash⟩, ⟨.write secureId 0 [1, 2], goodFlash⟩]).map
        (fun p => (p.2 0, digestOf p, (List.range 2).map (p.1.flash 0),
          decide (∃ i, (p.1.fwuCtx i).inUse = true ∧
            stagingArea demoCfg (p.1.fwuCtx i).imageId = some 0))) =
        some (2, some [1, 2, 0xFF, 0xFF], [1, 2], true) := by decide +kernel
    obtain ⟨p, hp, hv⟩ := Option.map_eq_some_iff.mp hrun
    simp only [Prod.mk.injEq, decide_eq_true_eq] at hv
    obtain ⟨hm, hd, hflash, hown⟩ := hv
    refine ⟨p, LTS.reachable_exec _ (.init ⟨_, rfl⟩) hp, hm, hd, fun h => ?_⟩
    obtain ⟨info, hok, hdig⟩ := Option.map_eq_some_iff.mp hd
    have hreply : (queryIpc demoBuild p.1 secureId allGood).1 = .ok info := by
      generalize (queryIpc demoBuild p.1 secureId allGood).1 = r at hok
      cases r with
      | error e => cases hok
      | ok info' =>
        cases hok
        rfl
    have := h.inProcess hown allGood info hreply
    rw [hm, hflash, hdig] at this
    exact absurd this (by decide)
  · have hrun : (LTS.exec watchedStep (St.init demoCfg fun _ _ => 0, fun _ => 0)
        [⟨.write secureId 0 [1, 2], goodFlash⟩, ⟨.abort secureId, goodFlash⟩]).map
        (fun p => (digestOf p, (demoCfg.header (p.1.flash 0)).isNone,
          decide (∀ i, ¬ ((p.1.fwuCtx i).inUse = true ∧
            stagingArea demoCfg (p.1.fwuCtx i).imageId = some 0)))) =
        some (some [], true, true) := by decide +kernel
    obtain ⟨p, hp, hv⟩ := Option.map_eq_some_iff.mp hrun
    simp only [Prod.mk.injEq, decide_eq_true_eq] at hv
    obtain ⟨hd, hno, hown⟩ := hv
    exact ⟨p, LTS.reachable_exec _ (.init ⟨_, rfl⟩) hp, hown, hd, hnot p hown hd hno⟩
  · exact hnot (St.init demoCfg fun _ _ => 0, fun _ => 0) (fun i h => by cases h.1)
      (by decide +kernel) (by decide +kernel)

end Tfm.L4.Fwu.Query
