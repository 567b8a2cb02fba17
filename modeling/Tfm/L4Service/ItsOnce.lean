import Tfm.L4Service.ItsChunked

/-!
# Write-once assets

`tfm_its_set` and `tfm_its_remove` look at the flags of the file before they change it.
The flags are in the file's metadata, with the flags of the filesystem next to them, and
the calls of the other clients move and copy both.

Results: `keeps_write_once`, over every later run of calls of any clients, power cuts and
starts: a write-once asset is neither replaced nor removed, its size and flags stay, and
its data as long as no other file is replaced or removed that has the size 0 and others
behind it.
-/
namespace Tfm.L4.Its

section Calls

variable {c : Cfg} {t u : Tab} {buf : Nat}

/-- Where the call replaces or deletes a file, the later files of the block are found. -/
def Call.Safe (c : Cfg) (hb : Buffer c.toConfig buf) (t : Tab) : Call → Prop
  | .set client uid n flags data => ∀ h : uid ≠ 0,
    ReplacesSafely c t (chunk c hb (assetFid client uid h) data (flags ||| createFlags) n 0)
  | .remove client uid => ∀ h : uid ≠ 0, DeletesSafely c t (assetFid client uid h)
  | .get .. | .getInfo .. => True

theorem SameTable.callSafe {hb : Buffer c.toConfig buf} (h : SameTable c t u) {q : Call}
    (hq : q.Safe c hb t) : q.Safe c hb u := by
  cases q with
  | set client uid n flags data => exact fun hu => h.replacesSafely (hq hu)
  | remove client uid => exact fun hu => h.deletesSafely (hq hu)
  | get client uid offset size => trivial
  | getInfo client uid => trivial

/-- File `g` is write-once with the answer `i`, and reads as in `t` while `S` holds. -/
structure Sealed (c : Cfg) (g : Nat) (i : FileInfo) (S : Prop) (t u : Tab) : Prop where
  info : u.info c g = .ok (.info i)
  same : S → t.Same c u g

theorem Tab.Same.trans {v : Tab} {g : Nat} (h : t.Same c u g) (h' : u.Same c v g) : t.Same c v g :=
  ⟨h'.1.trans h.1, fun size offset => (h'.2 size offset).trans (h.2 size offset)⟩

variable {g : Nat} {i : FileInfo} {S : Prop}

theorem Sealed.write {v : Tab} {a : WriteArgs c.toConfig} (h : Sealed c g i S t u)
    (hl : Layout c u none) (hg : g ≠ 0) (hne : g ≠ a.fid.id) (hsafe : S → ReplacesSafely c u a)
    (hoff : ∀ o, u.find c a.fid.id = some o → a.flags &&& flagTruncate = 0 →
      a.offset = (u.fm o).curSize)
    (hw : u.writeArgs c (some c.eraseVal) a = .ok v) : Sealed c g i S t v where
  info := ((hl.write_entry a.args hw).2 g hg hne).trans h.info
  same hS := (h.same hS).trans (hl.same_write (hsafe hS) hoff hw hg hne)

theorem Sealed.delete {fid k : Nat} (h : Sealed c g i S t u) (hl : Layout c u none) (hg : g ≠ 0)
    (hfid : fid ≠ 0) (hne : g ≠ fid) (hk : u.find c fid = some k) (hsafe : S → DeleteSafe c u k) :
    Sealed c g i S t (u.deleteIdx c (some c.eraseVal) k) where
  info := (hl.info_delete hfid hk hg hne).trans h.info
  same hS := (h.same hS).trans (hl.same_delete hfid hk (hsafe hS) hg hne)

/-- **A call keeps a write-once file**: it does not get as far as its own file. -/
theorem fsWp_sealed (hb : Buffer c.toConfig buf) (hpos : 0 < buf) (q : Call) (hg : g ≠ 0)
    (hi : i.flags &&& storageFlagWriteOnce.toNat ≠ 0) (h : Sealed c g i S t u)
    (hsafe : S → q.Safe c hb u) :
    fsWp c (q.prog c buf) u (fun _ v => Sealed c g i S t v) (Sealed c g i S t) := by
  cases q with
  | set client uid n flags data =>
    refine fsWp_map (fsWp_tfmItsSet h (fun _ => ⟨h, h⟩) (fun _ _ => ⟨h, h⟩)
      (fun _ _ _ _ _ => ⟨h, h⟩) fun hu hfl hgo => ?_)
    have hne : g ≠ getFid client uid := fun he => hi (hgo i (he ▸ h.info))
    refine fsWp_setFile (f := assetFid client uid hu) (I := fun _ v => Sealed c g i S t v) hb hpos
      hfl h (fun _ _ hv => hv) (fun v hl hw => ?_) (fun fl m off v v' hl hv hinfo htr hw => ?_)
      (fun _ hv _ => ⟨hv, hv⟩) (fun _ _ => ⟨h, h⟩) fun _ _ _ hv => ⟨hv, hv⟩
    · exact h.write hl hg hne (fun hS => hsafe hS hu)
        (fun o _ htr => absurd htr (first_truncates flags)) hw
    · refine hv.write hl hg hne (fun _ o _ htr' => absurd htr htr') (fun o ho _ => ?_) hw
      -- the loop appends where the file ends
      have hcur : v.info c (getFid client uid) = .ok (.info (v.fileInfo o)) := by
        unfold Tab.info
        rw [show v.find c (getFid client uid) = some o from ho]
        rfl
      have heq := hcur.symm.trans hinfo
      simp only [Except.ok.injEq, Answer.info.injEq] at heq
      exact (congrArg FileInfo.sizeCurrent heq).symm
  | get client uid offset size => exact fsWp_map (fsWp_tfmItsGet hpos h ⟨h, h⟩)
  | getInfo client uid => exact fsWp_map (fsWp_tfmItsGetInfo h ⟨h, h⟩)
  | remove client uid =>
    refine fsWp_map (fsWp_layout fun hl => fsWp_tfmItsRemove h (fun _ => ⟨h, h⟩)
      (fun _ _ => ⟨h, h⟩) (fun _ _ _ _ => ⟨h, h⟩) fun j k hu hj hfl hk => ?_)
    have hne : g ≠ getFid client uid := by
      intro hx
      subst hx
      have heq := hj.symm.trans h.info
      simp only [Except.ok.injEq, Answer.info.injEq] at heq
      exact hi (heq ▸ hfl)
    have hdel := h.delete hl hg (getFid_ne_zero client hu) hne hk fun hS => hsafe hS hu k hk
    exact ⟨⟨hdel, hdel⟩, hdel⟩

theorem Tab.Same.get {client : UInt32} {uid : UInt64} (h : t.Same c u (getFid client uid))
    (offset size : Nat) : u.get c client uid offset size = t.get c client uid offset size := by
  obtain ⟨hinfo, hread⟩ := h
  unfold Tab.info at hinfo
  unfold Tab.get
  split
  · rfl
  cases hk : t.find c (getFid client uid) with
  | none =>
    rw [hk] at hinfo
    cases hk' : u.find c (getFid client uid) with
    | none => rfl
    | some k' =>
      rw [hk'] at hinfo
      cases hinfo
  | some k =>
    rw [hk] at hinfo
    cases hk' : u.find c (getFid client uid) with
    | none =>
      rw [hk'] at hinfo
      cases hinfo
    | some k' =>
      rw [hk'] at hinfo
      have hcur : (u.fm k').curSize = (t.fm k).curSize := by
        simp only [Except.ok.injEq, Answer.info.injEq, FileInfo.mk.injEq] at hinfo
        exact hinfo.1
      dsimp only
      rw [hcur]
      split
      · rfl
      · next hoff =>
        have hr := hread (min size ((t.fm k).curSize - offset)) offset
        rw [Tab.read_contents hk (by omega), Tab.read_contents hk' (by omega)] at hr
        have htake : ∀ {l : List UInt8}, l.length = (t.fm k).curSize →
            (l.drop offset).take (min size ((t.fm k).curSize - offset)) =
              (l.drop offset).take size := by
          intro l hl
          rw [← hl, ← List.length_drop, ← List.take_take, List.take_length]
        rw [htake Tab.length_contents, htake (Tab.length_contents.trans hcur)] at hr
        simp only [Except.ok.injEq, Answer.data.injEq] at hr
        rw [hr]

end Calls

section Runs

variable {P : Setup} {z : Stores} {client : UInt32} {uid : UInt64}

/-- The later runs. -/
abbrev Setup.Later (P : Setup) : Device → Device → Prop :=
  Relation.ReflTransGen fun d d' => ∃ e, P.Step d e d'

/-- A call, complete or cut, finds the later files where it replaces or deletes one. -/
def Setup.Safe (P : Setup) : Device → Event → Prop
  | .on z, .call q | .on z, .cut q =>
    q.Safe (P.cfg (P.fsOf q)) (P.buf_room _) (tableOf (P.cfg (P.fsOf q)) (z (P.fsOf q)))
  | _, _ => True

/-- The later runs in which every call does. -/
abbrev Setup.LaterSafe (P : Setup) : Device → Device → Prop :=
  Relation.ReflTransGen fun d d' => ∃ e, P.Step d e d' ∧ P.Safe d e

/-- The asset cannot be set or removed; it is there with this size and these flags. -/
structure WriteOnce (P : Setup) (z : Stores) (client : UInt32) (uid : UInt64) (n : Nat)
    (flags : UInt32) : Prop where
  set : ∀ n' fl data, (P.serve (.set client uid n' fl data) z).1 =
    .error (if fl &&& ~~~supportedFlags = 0 then .notPermitted else .notSupported)
  remove : (P.serve (.remove client uid) z).1 = .error .notPermitted
  info : (P.serve (.getInfo client uid) z).1 = .ok (.info ⟨n, n, flags.toNat⟩)

/-- The same where the power is off: the next start succeeds. -/
def Device.Protects (P : Setup) (client : UInt32) (uid : UInt64) (n : Nat) (flags : UInt32) :
    Device → Prop
  | .on z => WriteOnce P z client uid n flags
  | .off f => ∀ x : Fs → Ctx, (P.tfmItsInit fun s => (x s, f s)).1 = .ok ()

/-- What holds of the filesystem of the asset. -/
def SealedIn (P : Setup) (client : UInt32) (g : Nat) (i : FileInfo) (S : Prop) (t : Tab) (s : Fs)
    (u : Tab) : Prop :=
  s = P.getFsCtx client → Sealed (P.cfg s) g i S t u

variable {g : Nat} {i : FileInfo} {S : Prop} {t : Tab}

theorem sealed_step {d d' : Device} {e : Event} (hg : g ≠ 0)
    (hi : i.flags &&& storageFlagWriteOnce.toNat ≠ 0)
    (h : Holds P (SealedIn P client g i S t) d) (hs : P.Step d e d') (hsafe : S → P.Safe d e) :
    Holds P (SealedIn P client g i S t) d' := by
  refine h.step hs fun q u he hu hmount => ?_
  by_cases hfs : P.fsOf q = P.getFsCtx client
  · refine fsWp_mono (fsWp_sealed (P.buf_room _) P.buf_pos q hg hi (hu hfs) fun hS => ?_)
      (fun _ _ hv _ => hv) fun _ hv _ => hv
    have hS := hsafe hS
    cases d with
    | on z =>
      have htab := (hmount z rfl).table
      rcases he with rfl | rfl
      · exact htab.callSafe hS
      · exact htab.callSafe hS
    | off f => rcases he with rfl | rfl <;> cases hs
  · exact fsWp_mono (fsWp_call (P.buf_room _) P.buf_pos q) (fun _ _ _ hs => absurd hs hfs)
      fun _ _ hs => absurd hs hfs

/-- **A run keeps it**, and what is read of it while the steps are safe. -/
theorem sealed_run {d d' : Device} (hg : g ≠ 0) (hi : i.flags &&& storageFlagWriteOnce.toNat ≠ 0)
    (h : Holds P (SealedIn P client g i S t) d)
    (hrun : Relation.ReflTransGen (fun d d' => ∃ e, P.Step d e d' ∧ (S → P.Safe d e)) d d') :
    Holds P (SealedIn P client g i S t) d' := by
  induction hrun with
  | refl => exact h
  | tail _ hs ih =>
    obtain ⟨e, hs, hsafe⟩ := hs
    exact sealed_step hg hi ih hs hsafe

theorem fsWp_set_info {c : Cfg} {buf n : Nat} {flags : UInt32} {data : Nat → UInt8}
    (hb : Buffer c.toConfig buf) (hpos : 0 < buf) :
    fsWp c (tfmItsSet c buf client uid n flags data) t (fun r u => r = .ok () → uid ≠ 0 ∧
      u.info c (getFid client uid) = .ok (.info ⟨n, c.aligned n, flags.toNat⟩)) fun _ => True := by
  refine fsWp_tfmItsSet trivial (fun _ => nofun) (fun _ _ => nofun) (fun _ _ _ _ _ => nofun)
    fun hu hfl _ => ?_
  exact fsWp_setFile (f := assetFid client uid hu) (I := fun _ _ => True) hb hpos hfl trivial
    (fun _ _ _ => trivial) (fun _ _ _ => trivial) (fun _ _ _ _ _ _ _ _ _ _ => trivial)
    (fun u _ hinfo _ => ⟨hu, hinfo⟩) (fun _ _ => nofun) fun _ _ _ _ => nofun

theorem writeOnce_of_info {n m : Nat} {flags : UInt32}
    (ht : Mounted (P.cfg (P.getFsCtx client)) (z (P.getFsCtx client)) t) (hu : uid ≠ 0)
    (hw : flags &&& storageFlagWriteOnce ≠ 0)
    (hinfo : t.info (P.cfg (P.getFsCtx client)) (getFid client uid) =
      .ok (.info ⟨n, m, flags.toNat⟩)) : WriteOnce P z client uid n flags := by
  have hbit : flags.toNat &&& storageFlagWriteOnce.toNat ≠ 0 := by
    rw [← UInt32.toNat_and]
    exact fun h => hw (UInt32.toNat_inj.1 h)
  have hno : ∀ j, t.info (P.cfg (P.getFsCtx client)) (getFid client uid) = .ok (.info j) →
      j.flags = flags.toNat := by
    intro j hj
    have heq := hj.symm.trans hinfo
    simp only [Except.ok.injEq, Answer.info.injEq] at heq
    rw [heq]
  refine ⟨fun n' fl data => ?_, ?_, ?_⟩
  · refine (P.serve_wp (q := .set client uid n' fl data) (C := fun _ => True)
      (Q := fun r _ => r = .error _) ht (fsWp_map (fsWp_tfmItsSet trivial (fun h => absurd h hu)
        (fun _ hfl => ?_) (fun _ _ hfl _ _ => ?_) fun _ _ hgo => ?_))).elim fun _ hr => hr.2
    · exact ⟨by rw [if_neg hfl]; rfl, trivial⟩
    · exact ⟨by rw [if_pos hfl]; rfl, trivial⟩
    · exact absurd (hgo _ hinfo) hbit
  · refine (P.serve_wp (q := .remove client uid) (C := fun _ => True)
      (Q := fun r _ => r = .error .notPermitted) ht (fsWp_map (fsWp_tfmItsRemove trivial
        (fun h => absurd h hu) (fun _ hno => ?_) (fun _ _ _ _ => ⟨rfl, trivial⟩)
        fun j k _ hj hfl _ => ?_))).elim fun _ hr => hr.2
    · cases hno.symm.trans hinfo
    · exact absurd (hno j hj ▸ hfl) hbit
  · refine (P.serve_wp (q := .getInfo client uid) (C := fun _ => True)
      (Q := fun r _ => r = .ok (.info ⟨n, n, flags.toNat⟩)) ht
      (fsWp_map (fsWp_tfmItsGetInfo trivial ⟨?_, trivial⟩))).elim fun _ hr => hr.2
    unfold Tab.getInfo
    rw [if_neg hu, show t.info (P.cfg (P.fsOf (.getInfo client uid))) _ = _ from hinfo]
    rfl

end Runs

/-- **Write-once**: after a set with `PSA_STORAGE_FLAG_WRITE_ONCE` that succeeded, in
every run of calls of any clients, power cuts and starts, a set or removal of the asset is
refused, and its size and flags are what they were; its data is too, while the calls that
replace or delete a file find the later files of the block. -/
theorem keeps_write_once (P : Setup) (z : Stores) (h : (svcLts P).Reachable (.on z)) (client : UInt32)
    (uid : UInt64) (n : Nat) (flags : UInt32) (data : Nat → UInt8)
    (hw : flags &&& storageFlagWriteOnce ≠ 0) (z₁ : Stores)
    (hset : P.serve (.set client uid n flags data) z = (.ok .done, z₁)) :
    (∀ d, P.Later (.on z₁) d → d.Protects P client uid n flags) ∧
    ∀ z', P.LaterSafe (.on z₁) (.on z') → ∀ offset size,
      (P.serve (.get client uid offset size) z').1 =
        (P.serve (.get client uid offset size) z₁).1 := by
  obtain ⟨t, ht⟩ := svc_mounted h client
  obtain ⟨t₁, ht₁, hu, hinfo⟩ := P.serve_set ht (fsWp_set_info (P.buf_room _) P.buf_pos)
    (congrArg Prod.fst hset)
  rw [congrArg Prod.snd hset] at ht₁
  have h₁ : (svcLts P).Reachable (.on z₁) := by
    have hs := Setup.Step.call (P := P) (.set client uid n flags data) z
    rw [hset] at hs
    exact .step h hs
  have hg := getFid_ne_zero client hu
  have hi : flags.toNat &&& storageFlagWriteOnce.toNat ≠ 0 := by
    rw [← UInt32.toNat_and]
    exact fun hz => hw (UInt32.toNat_inj.1 hz)
  have hstart : ∀ S, Holds P (SealedIn P client (getFid client uid)
      ⟨n, (P.cfg (P.getFsCtx client)).aligned n, flags.toNat⟩ S t₁) (.on z₁) := by
    intro S s hs
    by_cases hfs : s = P.getFsCtx client
    · subst hfs
      exact ⟨t₁, ht₁, fun _ => ⟨hinfo, fun _ => ⟨rfl, fun _ _ => rfl⟩⟩⟩
    · obtain ⟨u, hmount, -⟩ := svc_holds h₁ s hs
      exact ⟨u, hmount, fun h => absurd h hfs⟩
  refine ⟨fun d hrun => ?_, fun z' hrun offset size => ?_⟩
  · have hd := sealed_run hg hi (hstart False)
      (Relation.ReflTransGen.mono (fun _ _ ⟨e, hs⟩ => ⟨e, hs, False.elim⟩) _ _ hrun)
    cases d with
    | on z' =>
      obtain ⟨u, hmount, hu'⟩ := hd _ (P.has_getFsCtx client)
      exact writeOnce_of_info hmount hu hw (hu' rfl).info
    | off f => exact fun x => (hd.tfmItsInit x).1
  · have hd := sealed_run hg hi (hstart True)
      (Relation.ReflTransGen.mono (fun _ _ ⟨e, hs, hsafe⟩ => ⟨e, hs, fun _ => hsafe⟩) _ _ hrun)
    obtain ⟨u, hmount, hu'⟩ := hd _ (P.has_getFsCtx client)
    rw [P.serve_get hmount, P.serve_get ht₁, ((hu' rfl).same trivial).get]

theorem keeps_write_once_small : (smallSetup.serve (.remove 5 7)
    (smallSetup.serve (.set 5 7 1 storageFlagWriteOnce fun _ => 0x2A) smallStores).2).1 =
      .error .notPermitted :=
  ((keeps_write_once smallSetup smallStores smallStores_reachable 5 7 1 storageFlagWriteOnce
    (fun _ => 0x2A) (by decide) _ (Prod.ext (by decide +kernel) rfl)).1 _ .refl).remove

/-- The flags are looked at before the asset. -/
theorem refused_otherwise : ¬ ∀ (P : Setup) (z : Stores), (svcLts P).Reachable (.on z) →
    ∀ (client : UInt32) (uid : UInt64) (n : Nat) (flags : UInt32) (data : Nat → UInt8),
      flags &&& storageFlagWriteOnce ≠ 0 →
      (P.serve (.set client uid n flags data) z).1 = .ok .done →
      ∀ z', P.Later (.on (P.serve (.set client uid n flags data) z).2) (.on z') →
      ∀ n' fl data', (P.serve (.set client uid n' fl data') z').1 = .error .notPermitted := by
  intro h
  have hset := h smallSetup smallStores smallStores_reachable 5 7 1 storageFlagWriteOnce
    (fun _ => 0x2A) (by decide) (by decide +kernel) _ .refl 1 8 (fun _ => 0)
  exact absurd hset (by decide +kernel)

end Tfm.L4.Its
