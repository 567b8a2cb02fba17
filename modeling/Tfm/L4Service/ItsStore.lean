import Tfm.Core.Simulation
import Tfm.L4Service.ItsConfig
import Tfm.L4Service.ItsOnce

/-!
# The ITS service is a store of assets

What the clients see of the service, over whole runs of calls of any clients, power cuts and
starts, is what they would see of a map from the client and the uid to an asset. A set writes the
whole asset or leaves the store alone, whatever the error; where its power is cut, the asset is
the old one, or has the data up to the end of one of the chunks. There is always room for an asset
in the place of one with the same room.

An asset of length 0 that is deleted takes data of others with it (`SetKeeps`, `DeleteSafe`); the
runs are those in which no such asset is set.

Results: `callSeen`, what one call does on a mounted filesystem; `seen_simulates`, what one step
does; `its_is_store`, what is seen of a run.
-/
namespace Tfm.L4.Its

/-! ## The store -/

/-- What a client has set, and the room that its file has. -/
structure Asset where
  data : List UInt8
  flags : Nat
  room : Nat
  deriving DecidableEq, Repr

abbrev Assets : Type := UInt32 → UInt64 → Option Asset

namespace Assets

variable (m : Assets) (client : UInt32) (uid : UInt64)

def put (a : Option Asset) : Assets := fun client' uid' =>
  if client' = client ∧ uid' = uid then a else m client' uid'

theorem put_put (a b : Option Asset) :
    (m.put client uid a).put client uid b = m.put client uid b := by
  funext client' uid'
  unfold put
  split <;> rfl

def get (offset size : Nat) : Except PsaStatus Result :=
  if uid = 0 then .error .invalidArgument
  else match m client uid with
    | none => .error .doesNotExist
    | some a =>
      if a.data.length < offset then .error .invalidArgument
      else .ok (.data (min size (a.data.length - offset)) ((a.data.drop offset).take size))

def getInfo : Except PsaStatus Result :=
  if uid = 0 then .error .invalidArgument
  else match m client uid with
    | none => .error .doesNotExist
    | some a => .ok (.info ⟨a.data.length, a.data.length, a.flags⟩)

/-- Why an asset cannot be set, apart from its size. -/
def refusesSet (flags : UInt32) : Option PsaStatus :=
  if uid = 0 then some .invalidArgument
  else if flags &&& ~~~supportedFlags ≠ 0 then some .notSupported
  else match m client uid with
    | none => none
    | some a => if a.flags &&& storageFlagWriteOnce.toNat ≠ 0 then some .notPermitted else none

/-- Why an asset cannot be removed. -/
def refusesRemove : Option PsaStatus :=
  if uid = 0 then some .invalidArgument
  else match m client uid with
    | none => some .doesNotExist
    | some a => if a.flags &&& storageFlagWriteOnce.toNat ≠ 0 then some .notPermitted else none

end Assets

/-- What is seen of a step. -/
inductive Seen
  | answer (q : Call) (r : Except PsaStatus Result)
  | cut (q : Call)
  /-- A start, that is complete or cut. -/
  | start

namespace Setup

variable (P : Setup)

/-- The room that the file of `n` bytes has. -/
def room (client : UInt32) (n : Nat) : Nat := (P.cfg (P.getFsCtx client)).aligned n

/-- Why there is no room for an asset of `n` bytes. -/
def Full (m : Assets) (client : UInt32) (uid : UInt64) (n : Nat) : PsaStatus → Prop
  | .invalidArgument => (P.cfg (P.getFsCtx client)).maxFileSize < P.room client n
  | .insufficientStorage => ∀ a, m client uid = some a → a.room ≠ P.room client n
  | .genericError => P.room client n < n
  | _ => False

/-- The asset after the first `p` of `n` bytes. -/
def assetOf (client : UInt32) (n : Nat) (flags : UInt32) (data : Nat → UInt8) (p : Nat) : Asset :=
  ⟨(List.range p).map data, flags.toNat, P.room client n⟩

/-- The steps of the store. -/
inductive StoreStep (P : Setup) (m : Assets) : Seen → Assets → Prop
  | get (client : UInt32) (uid : UInt64) (offset size : Nat) :
    P.StoreStep m (.answer (.get client uid offset size) (m.get client uid offset size)) m
  | getInfo (client : UInt32) (uid : UInt64) :
    P.StoreStep m (.answer (.getInfo client uid) (m.getInfo client uid)) m
  | setRefused {client : UInt32} {uid : UInt64} {n : Nat} {flags : UInt32} {data : Nat → UInt8}
    {e : PsaStatus} (h : m.refusesSet client uid flags = some e) :
    P.StoreStep m (.answer (.set client uid n flags data) (.error e)) m
  | setFull {client : UInt32} {uid : UInt64} {n : Nat} {flags : UInt32} {data : Nat → UInt8}
    {e : PsaStatus} (h : m.refusesSet client uid flags = none) (he : P.Full m client uid n e) :
    P.StoreStep m (.answer (.set client uid n flags data) (.error e)) m
  | set {client : UInt32} {uid : UInt64} {n : Nat} {flags : UInt32} {data : Nat → UInt8}
    (h : m.refusesSet client uid flags = none) (hn : n ≤ P.room client n)
    (hmax : P.room client n ≤ (P.cfg (P.getFsCtx client)).maxFileSize) :
    P.StoreStep m (.answer (.set client uid n flags data) (.ok .done))
      (m.put client uid (some (P.assetOf client n flags data n)))
  | removeRefused {client : UInt32} {uid : UInt64} {e : PsaStatus}
    (h : m.refusesRemove client uid = some e) :
    P.StoreStep m (.answer (.remove client uid) (.error e)) m
  | remove {client : UInt32} {uid : UInt64} (h : m.refusesRemove client uid = none) :
    P.StoreStep m (.answer (.remove client uid) (.ok .done)) (m.put client uid none)
  /-- The power is cut before anything was changed. -/
  | cutBefore (q : Call) : P.StoreStep m (.cut q) m
  /-- The power is cut behind a chunk. -/
  | cutSet {client : UInt32} {uid : UInt64} {n : Nat} {flags : UInt32} {data : Nat → UInt8} {p : Nat}
    (h : m.refusesSet client uid flags = none) (hpos : 0 < p) (hp : p = n ∨ p < n ∧ P.buf ∣ p) :
    P.StoreStep m (.cut (.set client uid n flags data))
      (m.put client uid (some (P.assetOf client n flags data p)))
  | cutRemove {client : UInt32} {uid : UInt64} (h : m.refusesRemove client uid = none) :
    P.StoreStep m (.cut (.remove client uid)) (m.put client uid none)
  | start : P.StoreStep m .start m

/-- The store, which is empty at first. -/
def storeLts : LTS Assets Seen where
  init m := m = fun _ _ => none
  step := P.StoreStep

end Setup

/-! ## The files of assets -/

section Files

variable {c : Cfg} {t u : Tab} {g k n off : Nat} {buf : Nat} {f : Fid} {data : Nat → UInt8}

def Tab.asset (c : Cfg) (t : Tab) (fid : Nat) : Option Asset :=
  (t.find c fid).map fun k => ⟨t.contents k, (t.fm k).flags &&& userFlagsMask, (t.fm k).maxSize⟩

theorem Tab.info_asset (c : Cfg) (t : Tab) (fid : Nat) : t.info c fid =
    (t.asset c fid).elim (.error .doesNotExist)
      fun a => .ok (.info ⟨a.data.length, a.room, a.flags⟩) := by
  unfold Tab.info Tab.asset
  cases t.find c fid with
  | none => rfl
  | some k => simp [Tab.length_contents]

theorem Tab.asset_of_parts {l : List UInt8} {fl m : Nat} (hk : t.find c g = some k)
    (hl : t.contents k = l) (hi : t.info c g = .ok (.info ⟨n, m, fl⟩)) :
    t.asset c g = some ⟨l, fl, m⟩ := by
  unfold Tab.info at hi
  unfold Tab.asset
  rw [hk] at hi ⊢
  simp only [Except.ok.injEq, Answer.info.injEq, FileInfo.mk.injEq] at hi
  obtain ⟨-, hm, hfl⟩ := hi
  rw [Option.map_some, hl, hm, hfl]

theorem Tab.find_of_asset {a : Asset} (h : t.asset c g = some a) : ∃ k, t.find c g = some k ∧
    t.contents k = a.data ∧ (t.fm k).flags &&& userFlagsMask = a.flags ∧
      (t.fm k).maxSize = a.room := by
  obtain ⟨k, hk, rfl⟩ := Option.map_eq_some_iff.1 h
  exact ⟨k, hk, rfl, rfl, rfl⟩

theorem Tab.Same.asset (h : t.Same c u g) : u.asset c g = t.asset c g := by
  obtain ⟨hinfo, hread⟩ := h
  rw [Tab.info_asset, Tab.info_asset] at hinfo
  cases ha : t.asset c g with
  | none =>
    cases hb : u.asset c g with
    | none => rfl
    | some b =>
      rw [ha, hb] at hinfo
      cases hinfo
  | some a =>
    cases hb : u.asset c g with
    | none =>
      rw [ha, hb] at hinfo
      cases hinfo
    | some b =>
      rw [ha, hb] at hinfo
      simp only [Option.elim_some, Except.ok.injEq, Answer.info.injEq, FileInfo.mk.injEq] at hinfo
      obtain ⟨hlen, hroom, hflags⟩ := hinfo
      obtain ⟨i, hi, hca, -, -⟩ := Tab.find_of_asset ha
      obtain ⟨j, hj, hcb, -, -⟩ := Tab.find_of_asset hb
      have hcura : (t.fm i).curSize = a.data.length := by rw [← hca, Tab.length_contents]
      have hcurb : (u.fm j).curSize = b.data.length := by rw [← hcb, Tab.length_contents]
      have hr := hread a.data.length 0
      rw [Tab.read_contents hi (by omega), Tab.read_contents hj (by omega), hca, hcb] at hr
      simp only [List.drop_zero, Except.ok.injEq, Answer.data.injEq] at hr
      rw [List.take_length, ← hlen, List.take_length] at hr
      have hab : b = a := by
        cases a
        cases b
        simp_all
      rw [hab]

/-! ### Sizes -/

/-- The program unit is a power of two, as `ITS_UTILS_ALIGN` has it. -/
def Config.Aligns (c : Config) : Prop := c.maxAlign = 1 ∨ ∃ k, c.programUnit = 2 ^ k

theorem le_aligned_of_ne_zero {c : Config} (hu : c.Aligns) (hn : n < 2 ^ 32)
    (h : c.aligned n ≠ 0) : n ≤ c.aligned n := by
  by_cases hb : Buffer c n
  · exact Config.le_aligned hb
  · unfold Config.aligned at h ⊢
    by_cases h1 : c.maxAlign = 1
    · rw [if_neg (not_not.mpr h1)]
    · obtain ⟨k, hk⟩ := hu.resolve_left h1
      have hlt := c.programUnit_lt
      unfold Buffer at hb
      rw [if_pos h1, hk] at h
      rw [hk] at hb hlt
      have hp := Nat.two_pow_pos k
      -- the sum is less than a program unit then
      have hwrap : add32 n (2 ^ k - 1) < 2 ^ k := by
        unfold add32
        omega
      unfold align at h
      rw [and_mask (Nat.lt_of_lt_of_le hwrap (by omega)), Nat.div_eq_of_lt hwrap,
        Nat.zero_mul] at h
      exact absurd rfl h

/-- A size that is no more than that of the largest file can be aligned. -/
theorem buffer_of_room {c : Config} (hn : n ≤ c.aligned n) (hmax : c.aligned n ≤ c.maxFileSize) :
    Buffer c n := by
  have h1 := c.maxFileSize_lt
  have h2 := c.programUnit_lt
  unfold Buffer
  omega

/-- A chunk fits in the file that was made for all of them. -/
theorem dataFits_chunk (hu : c.Aligns) (hb : Buffer c.toConfig buf) (hbuf : c.programUnit ∣ buf)
    {m : FileMeta} {r : Nat} (hoff : buf ∣ off) (hcur : off ≤ m.curSize)
    (hend : off + r = n) (hroom : m.maxSize = c.aligned n) (hn : n ≤ c.aligned n)
    (hmax : c.aligned n ≤ c.maxFileSize) : dataFits c m (min r buf) off = true := by
  have hbn := buffer_of_room hn hmax
  unfold dataFits checkContainedIn
  rw [hroom]
  by_cases h1 : c.maxAlign = 1
  · have hid : ∀ x, c.aligned x = x := fun x => if_neg (not_not.mpr h1)
    simp only [hid, h1, decide_true, Bool.true_or, Bool.true_and, Bool.and_eq_true,
      decide_eq_true_eq]
    omega
  · obtain ⟨k, hk⟩ := hu.resolve_left h1
    have hal : ∀ x, c.aligned x = align x (2 ^ k) := fun x => hk ▸ if_pos h1
    unfold Buffer at hb hbn
    rw [hk] at hb hbn hbuf
    have hunit : 2 ^ k ∣ off := Nat.dvd_trans hbuf hoff
    have hmod : isAligned off c.programUnit = true := by
      unfold isAligned
      rw [hk, Nat.and_two_pow_sub_one_eq_mod, Nat.mod_eq_zero_of_dvd hunit]
      rfl
    have hdvd : 2 ^ k ∣ align n (2 ^ k) := align_dvd hbn
    rw [hal] at hn
    have hle : align (min r buf) (2 ^ k) ≤ align n (2 ^ k) - off :=
      align_le (by omega) (by omega) (Nat.dvd_sub hdvd hunit)
    simp only [hal, hmod, Bool.or_true, Bool.true_and, Bool.and_eq_true, decide_eq_true_eq]
    omega

/-! ### Chunks -/

theorem Tab.reserve_error {fid flags size : Nat} {old : Option Nat} {e : PsaStatus}
    (h : t.reserve c fid flags size old none = .error e) :
    e = .invalidArgument ∧ c.maxFileSize < size ∨ e = .insufficientStorage := by
  unfold Tab.reserve at h
  dsimp only at h
  split at h
  · next hmax =>
    cases h
    exact .inl ⟨rfl, hmax⟩
  · split at h
    · cases h
    · cases h
      exact .inr rfl

theorem Tab.writeData_ok (t : Tab) (fill : Option UInt8) {m : FileMeta} (b : BlockMeta) {size : Nat}
    (data : Nat → UInt8) (h : dataFits c m size off = true) :
    ∃ m' dl, t.writeData c fill m b size off data = .ok (m', dl) := by
  unfold Tab.writeData
  by_cases h0 : size = 0
  · exact ⟨_, _, if_pos h0⟩
  · rw [if_neg h0, if_pos h]
    exact ⟨_, _, rfl⟩

theorem Tab.write_error {fill : Option UInt8} {fid fl maxSize size : Nat} {old : Option Nat}
    {reuse : Option (Nat × FileMeta)} {e : PsaStatus} (hfl : fl &&& internalFlagsMask = 0)
    (hlk : t.lookup c fid fl (c.aligned maxSize) = .ok (old, reuse))
    (hw : t.write c fill fid fl maxSize size off data = .error e) :
    t.reserve c fid fl (c.aligned maxSize) old reuse = .error e ∨
      ∃ new m b, t.reserve c fid fl (c.aligned maxSize) old reuse = .ok (new, m, b) ∧
        e = .genericError ∧ dataFits c m size off = false := by
  cases hr : t.reserve c fid fl (c.aligned maxSize) old reuse with
  | error e' =>
    unfold Tab.write Tab.firstUpdate at hw
    rw [if_neg (not_not.2 hfl), hlk] at hw
    simp only [bind, Except.bind, hr] at hw
    cases hw
    exact .inl rfl
  | ok p =>
    obtain ⟨new, m, b⟩ := p
    cases hfit : dataFits c m size off with
    | true =>
      obtain ⟨m', dl, hd⟩ := t.writeData_ok fill b data hfit
      rw [Tab.write_ok (Tab.firstUpdate_ok (not_not.2 hfl) hlk hr hd)] at hw
      cases hw
    | false =>
      refine .inr ⟨new, m, b, rfl, ?_, hfit⟩
      unfold Tab.write Tab.firstUpdate at hw
      rw [if_neg (not_not.2 hfl), hlk] at hw
      simp only [bind, Except.bind, hr] at hw
      unfold Tab.writeData at hw
      by_cases h0 : size = 0
      · rw [if_pos h0] at hw
        simp only [pure, Except.pure] at hw
        split at hw <;> cases hw
      · rw [if_neg h0, if_neg (by simp [hfit])] at hw
        cases hw
        rfl

variable {flags fl : UInt32} {n' : Nat}

theorem later_internal (h : fl.toNat &&& internalFlagsMask = 0) :
    (fl &&& ~~~createFlags).toNat &&& internalFlagsMask = 0 := by
  rw [UInt32.toNat_and, Nat.and_assoc, Nat.and_comm (~~~createFlags).toNat, ← Nat.and_assoc, h,
    Nat.zero_and]

/-- What the first chunk finds of its file. -/
theorem first_lookup (c : Cfg) (t : Tab) (f : Fid) (flags : UInt32) (size : Nat) :
    ∃ reuse, t.lookup c f.id (flags ||| createFlags).toNat size = .ok (t.find c f.id, reuse) ∧
      (reuse = none ∧ (∀ a, t.asset c f.id = some a → a.room ≠ size) ∨
        ∃ o, t.find c f.id = some o ∧ (t.fm o).maxSize = size ∧
          reuse = some (o, { t.fm o with curSize := 0, flags := (flags ||| createFlags).toNat })) := by
  unfold Tab.lookup Tab.asset
  cases hf : t.find c f.id with
  | none =>
    have hcreate : (flags ||| createFlags).toNat &&& flagCreate ≠ 0 := by
      rw [UInt32.toNat_or, Nat.and_or_distrib_right,
        show createFlags.toNat &&& flagCreate = flagCreate by decide]
      exact fun h => absurd (Nat.or_eq_zero_iff.1 h).2 (by decide)
    exact ⟨none, if_neg hcreate, .inl ⟨rfl, nofun⟩⟩
  | some o =>
    dsimp only
    rw [if_pos (first_truncates flags)]
    by_cases hsize : (t.fm o).maxSize = size
    · exact ⟨_, if_pos hsize, .inr ⟨o, rfl, hsize, rfl⟩⟩
    · refine ⟨none, if_neg hsize, .inl ⟨rfl, fun a ha => ?_⟩⟩
      cases ha
      exact hsize

/-- **The first chunk fails** for these reasons, and nothing is changed. -/
theorem first_full (hu : c.Aligns) (hb : Buffer c.toConfig buf) (hbuf : c.programUnit ∣ buf)
    (hl : Layout c t none) (hfl : flags &&& ~~~supportedFlags = 0) {e : PsaStatus}
    (hw : t.writeArgs c (some c.eraseVal) (chunk c hb f data (flags ||| createFlags) n 0) =
      .error e) :
    e = .invalidArgument ∧ c.maxFileSize < c.aligned n ∨
      e = .insufficientStorage ∧ (∀ a, t.asset c f.id = some a → a.room ≠ c.aligned n) ∨
      e = .genericError ∧ c.aligned n < n := by
  obtain ⟨reuse, hlk, hreuse⟩ := first_lookup c t f flags (c.aligned n)
  rcases Tab.write_error (first_internal hfl) hlk hw with hr | ⟨new, m, b, hr, rfl, hfit⟩
  · rcases hreuse with ⟨rfl, hroom⟩ | ⟨o, -, -, rfl⟩
    · rcases Tab.reserve_error hr with hmax | rfl
      · exact .inl hmax
      · exact .inr (.inl ⟨rfl, hroom⟩)
    · cases hr
  · refine .inr (.inr ⟨rfl, ?_⟩)
    by_contra hn
    have hm : m.maxSize = c.aligned n ∧ c.aligned n ≤ c.maxFileSize := by
      rcases hreuse with ⟨rfl, -⟩ | ⟨o, ho, hsize, rfl⟩
      · obtain ⟨-, -, -, hmax, -⟩ := Tab.reserve_new hr
        refine ⟨hmax, ?_⟩
        unfold Tab.reserve at hr
        dsimp only at hr
        split at hr
        · cases hr
        · omega
      · obtain ⟨hoc, hou, -⟩ := Tab.find_used f.valid ho
        cases hr
        exact ⟨hsize, hsize ▸ (hl.sane.inRange hoc hou).size⟩
    have hfits := dataFits_chunk hu hb hbuf (m := m) (r := n) (Nat.dvd_zero buf)
      (Nat.zero_le _) (Nat.zero_add n) hm.1 (by omega) hm.2
    rw [show dataFits c m (min n buf) 0 = false from hfit] at hfits
    cases hfits

/-- No file is empty for good. -/
def Tab.Filled (c : Cfg) (t : Tab) : Prop := ∀ g a, g ≠ 0 → t.asset c g = some a → a.room ≠ 0

/-- All files but one are what they were. -/
def Tab.Others (c : Cfg) (t u : Tab) (fid : Nat) : Prop :=
  ∀ g, g ≠ 0 → g ≠ fid → u.asset c g = t.asset c g

theorem Tab.Filled.maxSize (h : t.Filled c) (hg : g ≠ 0) (hk : t.find c g = some k) :
    (t.fm k).maxSize ≠ 0 := by
  have ha : t.asset c g = some ⟨t.contents k, (t.fm k).flags &&& userFlagsMask, (t.fm k).maxSize⟩ := by
    unfold Tab.asset
    rw [hk, Option.map_some]
  exact h g _ hg ha

/-- **The first chunk** makes the file, with its room. -/
theorem first_stored (hu : c.Aligns) (hb : Buffer c.toConfig buf) (hpos : 0 < buf)
    (hl : Layout c t none) (ht : t.Filled c) (hfl : flags &&& ~~~supportedFlags = 0) (h0 : 0 < n)
    (hn : n < 2 ^ 32)
    (hw : t.writeArgs c (some c.eraseVal) (chunk c hb f data (flags ||| createFlags) n 0) = .ok u) :
    u.asset c f.id = some ⟨(List.range (min n buf)).map data, flags.toNat, c.aligned n⟩ ∧
      t.Others c u f.id ∧ n ≤ c.aligned n ∧ c.aligned n ≤ c.maxFileSize := by
  have hargs := (chunk c hb f data (flags ||| createFlags) n 0).args
  have htr : (chunk c hb f data (flags ||| createFlags) n 0).flags &&& flagTruncate ≠ 0 :=
    first_truncates flags
  have hinfo := hl.info_created hargs hw (.inr htr)
  rw [show (chunk c hb f data (flags ||| createFlags) n 0).flags &&& userFlagsMask = flags.toNat
    from first_user hfl] at hinfo
  obtain ⟨k, hk, hc⟩ := hl.contents_created hargs (.inr htr)
    (fun o ho _ => .inl (ht.maxSize f.valid ho)) hw
  have hc' : u.contents k = (List.range (min n buf)).map data :=
    hc.trans (List.map_congr_left fun j _ => congrArg data (Nat.zero_add j))
  have hasset := Tab.asset_of_parts hk hc' hinfo
  have hothers : t.Others c u f.id := by
    intro g hg hne
    refine (hl.same_write (fun o ho _ _ => ?_) (fun o _ hno => absurd hno htr) hw hg hne).asset
    have hmax := ht.maxSize f.valid ho
    exact ⟨.inl hmax, .inl hmax⟩
  -- the file has a byte, so that its room is not 0
  obtain ⟨k', hk', hck, -, hmax⟩ := Tab.find_of_asset hasset
  replace hmax : (u.fm k').maxSize = c.aligned n := hmax
  obtain ⟨hkn, hku, -⟩ := Tab.find_used f.valid hk'
  have hrange := (hl.write hargs hw).sane.inRange hkn hku
  have hcur : (u.fm k').curSize = min n buf := by
    rw [← Tab.length_contents, hck, List.length_map, List.length_range]
  have hle := hrange.cur
  have hsize := hrange.size
  rw [hcur] at hle
  rw [hmax] at hle hsize
  exact ⟨hasset, hothers, le_aligned_of_ne_zero hu hn (by omega), hsize⟩

/-- **A later chunk** always has room. -/
theorem next_stored (hu : c.Aligns) (hb : Buffer c.toConfig buf) (hbuf : c.programUnit ∣ buf)
    (hl : Layout c t none)
    (ha : t.asset c f.id = some ⟨(List.range off).map data, flags.toNat, c.aligned n⟩)
    (hoff : buf ∣ off) (hend : off + n' = n) (hn : n ≤ c.aligned n)
    (htr : fl.toNat &&& flagTruncate = 0) (hint : fl.toNat &&& internalFlagsMask = 0) :
    ∃ u, t.writeArgs c (some c.eraseVal) (chunk c hb f data fl n' off) = .ok u ∧
      u.asset c f.id =
        some ⟨(List.range (off + min n' buf)).map data, flags.toNat, c.aligned n⟩ ∧
      t.Others c u f.id := by
  obtain ⟨k, hk, hck, -, hroom⟩ := Tab.find_of_asset ha
  replace hroom : (t.fm k).maxSize = c.aligned n := hroom
  obtain ⟨hkn, hku, -⟩ := Tab.find_used f.valid hk
  have hcur : (t.fm k).curSize = off := by
    rw [← Tab.length_contents, hck, List.length_map, List.length_range]
  have hlk : t.lookup c f.id fl.toNat (c.aligned n') = .ok (some k, some (k, t.fm k)) := by
    unfold Tab.lookup
    rw [hk]
    exact if_neg (not_not.2 htr)
  have hfit : dataFits c (t.fm k) (min n' buf) off = true :=
    dataFits_chunk hu hb hbuf hoff (by omega) hend hroom hn
      (hroom ▸ (hl.sane.inRange hkn hku).size)
  cases hw : t.writeArgs c (some c.eraseVal) (chunk c hb f data fl n' off) with
  | error e =>
    rcases Tab.write_error hint hlk hw with hr | ⟨new, m, b, hr, -, hno⟩
    · cases hr
    · cases hr
      rw [show dataFits c (t.fm k) (min n' buf) off = false from hno] at hfit
      cases hfit
  | ok u =>
    have hinfo : t.info c f.id = .ok (.info ⟨off, c.aligned n, flags.toNat⟩) := by
      rw [Tab.info_asset, ha]
      simp
    obtain ⟨hk', hck'⟩ := chunk_appended hb hl hinfo htr hw hk
    have hinfo' := hl.info_appended (chunk c hb f data fl n' off).args hw hinfo htr
    refine ⟨u, rfl, Tab.asset_of_parts hk' ?_ hinfo', fun g hg hne => ?_⟩
    · rw [hck', hck, List.range_add, List.map_append, List.map_map]
      rfl
    · refine (hl.same_write (fun o _ hyes => absurd htr hyes) (fun o ho _ => ?_) hw hg hne).asset
      cases hk.symm.trans ho
      exact hcur.symm

theorem Tab.asset_deleted (hl : Layout c t none) (hf : t.find c f.id = some k) :
    (t.deleteIdx c (some c.eraseVal) k).asset c f.id = none := by
  have hinfo : (t.deleteIdx c (some c.eraseVal) k).info c f.id = .error .doesNotExist :=
    hl.info_deleted f.valid hf
  rw [Tab.info_asset] at hinfo
  cases ha : (t.deleteIdx c (some c.eraseVal) k).asset c f.id with
  | none => rfl
  | some a =>
    rw [ha] at hinfo
    cases hinfo

end Files

/-! ## Calls -/

section Calls

variable {P : Setup} {m : Assets} {client : UInt32} {uid : UInt64} {t u : Tab}

/-- The filesystem has the assets of its clients. -/
structure Represents (P : Setup) (m : Assets) (s : Fs) (t : Tab) : Prop where
  asset : ∀ client uid, P.getFsCtx client = s → uid ≠ 0 →
    t.asset (P.cfg s) (getFid client uid) = m client uid
  filled : t.Filled (P.cfg s)

theorem Represents.put (h : Represents P m (P.getFsCtx client) t) (hu : uid ≠ 0)
    {a : Option Asset} (ha : u.asset (P.cfg (P.getFsCtx client)) (getFid client uid) = a)
    (hroom : ∀ b, a = some b → b.room ≠ 0)
    (ho : t.Others (P.cfg (P.getFsCtx client)) u (getFid client uid)) :
    Represents P (m.put client uid a) (P.getFsCtx client) u where
  asset client' uid' hs hu' := by
    unfold Assets.put
    split
    · next heq =>
      obtain ⟨rfl, rfl⟩ := heq
      exact ha
    · next hne =>
      rw [ho _ (getFid_ne_zero client' hu') fun hid => hne (getFid_inj hid)]
      exact h.asset client' uid' hs hu'
  filled g b hg hb := by
    by_cases hid : g = getFid client uid
    · subst hid
      exact hroom b (ha.symm.trans hb)
    · exact h.filled g b hg (ho g hg hid ▸ hb)

theorem Represents.away {s : Fs} (h : Represents P m s t) (hs : P.getFsCtx client ≠ s)
    (a : Option Asset) : Represents P (m.put client uid a) s t where
  asset client' uid' hs' hu' := by
    unfold Assets.put
    rw [if_neg]
    · exact h.asset client' uid' hs' hu'
    · intro hx
      obtain ⟨rfl, -⟩ := hx
      exact hs hs'
  filled := h.filled

theorem Represents.info (h : Represents P m (P.getFsCtx client) t) (hu : uid ≠ 0) :
    t.info (P.cfg (P.getFsCtx client)) (getFid client uid) =
      (m client uid).elim (.error .doesNotExist)
        fun a => .ok (.info ⟨a.data.length, a.room, a.flags⟩) := by
  rw [Tab.info_asset, h.asset client uid rfl hu]

theorem Represents.get (h : Represents P m (P.getFsCtx client) t) (offset size : Nat) :
    (t.get (P.cfg (P.getFsCtx client)) client uid offset size).map (fun r => .data r.1 r.2) =
      m.get client uid offset size := by
  unfold Assets.get
  by_cases hu : uid = 0
  · unfold Tab.get
    rw [if_pos hu, if_pos hu]
    rfl
  · rw [if_neg hu, ← h.asset client uid rfl hu]
    cases ha : t.asset (P.cfg (P.getFsCtx client)) (getFid client uid) with
    | none =>
      have hf := Option.map_eq_none_iff.1 ha
      unfold Tab.get
      rw [if_neg hu, hf]
      rfl
    | some a =>
      obtain ⟨k, hk, hc, -, -⟩ := Tab.find_of_asset ha
      rw [Tab.get_of_contents hu hk hc]
      dsimp only
      split <;> rfl

theorem Represents.getInfo (h : Represents P m (P.getFsCtx client) t) :
    (t.getInfo (P.cfg (P.getFsCtx client)) client uid).map (fun i => .info i) =
      m.getInfo client uid := by
  unfold Tab.getInfo Assets.getInfo
  by_cases hu : uid = 0
  · rw [if_pos hu, if_pos hu]
    rfl
  · rw [if_neg hu, if_neg hu, h.info hu]
    cases m client uid with
    | none => rfl
    | some a => rfl

/-- Every asset that is set has a byte, and its size is a `size_t`. -/
def Call.Fills : Call → Prop
  | .set _ _ n _ _ => 0 < n ∧ n < 2 ^ 32
  | .get .. | .getInfo .. | .remove .. => True

/-- A call is done, or its power was cut. -/
def Setup.CallSeen (P : Setup) (m : Assets) (q : Call) (s : Fs) : Prop :=
  ∀ t, Represents P m s t → fsWp (P.cfg s) (q.prog (P.cfg s) P.buf) t
    (fun r u => ∃ m', P.StoreStep m (.answer q r) m' ∧ Represents P m' s u)
    fun u => ∃ m', P.StoreStep m (.cut q) m' ∧ Represents P m' s u

theorem callSeen_get (offset size : Nat) :
    P.CallSeen m (.get client uid offset size) (P.getFsCtx client) := by
  intro t h
  refine fsWp_map (fsWp_tfmItsGet P.buf_pos ⟨m, .cutBefore _, h⟩ ⟨⟨m, ?_, h⟩, m, .cutBefore _, h⟩)
  rw [h.get]
  exact .get client uid offset size

theorem callSeen_getInfo : P.CallSeen m (.getInfo client uid) (P.getFsCtx client) := by
  intro t h
  refine fsWp_map (fsWp_tfmItsGetInfo ⟨m, .cutBefore _, h⟩ ⟨⟨m, ?_, h⟩, m, .cutBefore _, h⟩)
  rw [h.getInfo]
  exact .getInfo client uid

theorem callSeen_remove : P.CallSeen m (.remove client uid) (P.getFsCtx client) := by
  intro t h
  have hcut : ∃ m', P.StoreStep m (.cut (.remove client uid)) m' ∧
      Represents P m' (P.getFsCtx client) t := ⟨m, .cutBefore _, h⟩
  have hrefused : ∀ e, m.refusesRemove client uid = some e →
      ∃ m', P.StoreStep m (.answer (.remove client uid) (.error e)) m' ∧
        Represents P m' (P.getFsCtx client) t := fun e he => ⟨m, .removeRefused he, h⟩
  refine fsWp_map (fsWp_layout fun hl => fsWp_tfmItsRemove hcut (fun hu => ?_) (fun hu hno => ?_)
    (fun i hu hi hw => ?_) fun i k hu hi hw hk => ?_)
  · exact ⟨hrefused _ (if_pos hu), hcut⟩
  · refine ⟨hrefused _ ?_, hcut⟩
    unfold Assets.refusesRemove
    rw [if_neg hu]
    rw [h.info hu] at hno
    cases ha : m client uid with
    | none => rfl
    | some a =>
      rw [ha] at hno
      cases hno
  · refine ⟨hrefused _ ?_, hcut⟩
    unfold Assets.refusesRemove
    rw [if_neg hu]
    rw [h.info hu] at hi
    cases ha : m client uid with
    | none =>
      rw [ha] at hi
      cases hi
    | some a =>
      rw [ha] at hi
      cases hi
      exact if_pos hw
  · have hgo : m.refusesRemove client uid = none := by
      unfold Assets.refusesRemove
      rw [if_neg hu]
      rw [h.info hu] at hi
      cases ha : m client uid with
      | none =>
        rw [ha] at hi
        cases hi
      | some a =>
        rw [ha] at hi
        cases hi
        exact if_neg (not_not.2 hw)
    have hnew : Represents P (m.put client uid none) (P.getFsCtx client)
        (t.deleteIdx (P.cfg (P.getFsCtx client)) (some (P.cfg (P.getFsCtx client)).eraseVal) k) :=
      h.put hu (Tab.asset_deleted (f := assetFid client uid hu) hl hk) nofun fun g hg hne =>
        (hl.same_delete (getFid_ne_zero client hu) hk
          (.inl (h.filled.maxSize (getFid_ne_zero client hu) hk)) hg hne).asset
    exact ⟨⟨⟨_, .remove hgo, hnew⟩, _, .cutRemove hgo, hnew⟩, _, .cutRemove hgo, hnew⟩

theorem refusesSet_none {flags : UInt32} (h : Represents P m (P.getFsCtx client) t) (hu : uid ≠ 0)
    (hfl : flags &&& ~~~supportedFlags = 0)
    (hgo : ∀ i, t.info (P.cfg (P.getFsCtx client)) (getFid client uid) = .ok (.info i) →
      i.flags &&& storageFlagWriteOnce.toNat = 0) : m.refusesSet client uid flags = none := by
  unfold Assets.refusesSet
  rw [if_neg hu, if_neg (not_not.2 hfl)]
  rw [h.info hu] at hgo
  cases ha : m client uid with
  | none => rfl
  | some a =>
    rw [ha] at hgo
    exact if_neg (not_not.2 (hgo _ rfl))

theorem refusesSet_some {flags : UInt32} (h : Represents P m (P.getFsCtx client) t) (hu : uid ≠ 0)
    (hfl : flags &&& ~~~supportedFlags = 0) {i : FileInfo}
    (hi : t.info (P.cfg (P.getFsCtx client)) (getFid client uid) = .ok (.info i))
    (hw : i.flags &&& storageFlagWriteOnce.toNat ≠ 0) :
    m.refusesSet client uid flags = some .notPermitted := by
  unfold Assets.refusesSet
  rw [if_neg hu, if_neg (not_not.2 hfl)]
  rw [h.info hu] at hi
  cases ha : m client uid with
  | none =>
    rw [ha] at hi
    cases hi
  | some a =>
    rw [ha] at hi
    cases hi
    exact if_pos hw

section Set

variable {n n' off : Nat} {flags fl : UInt32} {data : Nat → UInt8} {f : Fid}

/-- The asset has the first `off` bytes of its file. -/
structure Storing (P : Setup) (m : Assets) (client : UInt32) (uid : UInt64) (n : Nat)
    (flags : UInt32) (data : Nat → UInt8) (off : Nat) (u : Tab) : Prop where
  fits : n ≤ P.room client n
  max : P.room client n ≤ (P.cfg (P.getFsCtx client)).maxFileSize
  layout : Layout (P.cfg (P.getFsCtx client)) u none
  stored : Represents P (m.put client uid (some (P.assetOf client n flags data off)))
    (P.getFsCtx client) u

/-- What is next is the chunk after `off` bytes, with these flags. -/
structure NextChunk (P : Setup) (n : Nat) (fl : UInt32) (rest off : Nat) : Prop where
  appends : fl.toNat &&& flagTruncate = 0
  plain : fl.toNat &&& internalFlagsMask = 0
  sum : off + rest = n
  chunks : P.buf ∣ off
  pos : 0 < off
  lt : off < n

theorem Storing.asset (h : Storing P m client uid n flags data off u) (hu : uid ≠ 0) :
    u.asset (P.cfg (P.getFsCtx client)) (getFid client uid) =
      some (P.assetOf client n flags data off) := by
  rw [h.stored.asset client uid rfl hu]
  exact if_pos ⟨rfl, rfl⟩

theorem storing_first (hal : ∀ s, (P.cfg s).Aligns) (hu : uid ≠ 0)
    (h : Represents P m (P.getFsCtx client) t) (hfl : flags &&& ~~~supportedFlags = 0) (h0 : 0 < n)
    (hn : n < 2 ^ 32) (hl : Layout (P.cfg (P.getFsCtx client)) t none)
    (hw : t.writeArgs (P.cfg (P.getFsCtx client)) (some (P.cfg (P.getFsCtx client)).eraseVal)
      (chunk _ (P.buf_room _) (assetFid client uid hu) data (flags ||| createFlags) n 0) = .ok u) :
    Storing P m client uid n flags data (min n P.buf) u := by
  obtain ⟨ha, ho, hle, hmax⟩ := first_stored (hal (P.getFsCtx client)) (P.buf_room _) P.buf_pos hl
    h.filled hfl h0 hn hw
  refine ⟨hle, hmax, hl.write (chunk _ (P.buf_room _) _ data _ n 0).args hw, ?_⟩
  refine h.put hu ha (fun b hb => ?_) ho
  cases hb
  exact Nat.ne_of_gt (Nat.lt_of_lt_of_le h0 hle)

/-- The chunks after it, which are always written. -/
theorem Storing.next (h : Storing P m client uid n flags data off t) (hal : ∀ s, (P.cfg s).Aligns)
    (hu : uid ≠ 0) (hc : NextChunk P n fl n' off) :
    ∃ u, t.writeArgs (P.cfg (P.getFsCtx client)) (some (P.cfg (P.getFsCtx client)).eraseVal)
        (chunk _ (P.buf_room _) (assetFid client uid hu) data fl n' off) = .ok u ∧
      Storing P m client uid n flags data (off + min n' P.buf) u := by
  obtain ⟨u, hw, ha, ho⟩ := next_stored (f := assetFid client uid hu) (hal (P.getFsCtx client))
    (P.buf_room _) (P.buf_aligned _) h.layout (h.asset hu) hc.chunks hc.sum h.fits hc.appends hc.plain
  refine ⟨u, hw, h.fits, h.max, h.layout.write (chunk _ (P.buf_room _) _ data fl n' off).args hw, ?_⟩
  have hput := h.stored.put hu ha (fun b hb => ?_) ho
  · rwa [Assets.put_put] at hput
  · cases hb
    exact Nat.ne_of_gt (Nat.lt_of_lt_of_le (Nat.lt_trans hc.pos hc.lt) h.fits)

/-- What is known before a chunk of a set that began with `t`. -/
def BeforeChunk (P : Setup) (m : Assets) (client : UInt32) (uid : UInt64) (n : Nat)
    (flags : UInt32) (data : Nat → UInt8) (t : Tab) (fl : UInt32) (rest off : Nat) (u : Tab) : Prop :=
  fl = (flags ||| createFlags) ∧ rest = n ∧ off = 0 ∧ u = t ∨
    NextChunk P n fl rest off ∧ Storing P m client uid n flags data off u

theorem BeforeChunk.write (hal : ∀ s, (P.cfg s).Aligns) (hu : uid ≠ 0)
    (h : Represents P m (P.getFsCtx client) t) (hfl : flags &&& ~~~supportedFlags = 0) (h0 : 0 < n)
    (hn : n < 2 ^ 32) {rest : Nat} {v : Tab}
    (hj : BeforeChunk P m client uid n flags data t fl rest off v)
    (hl : Layout (P.cfg (P.getFsCtx client)) v none)
    (hw : v.writeArgs (P.cfg (P.getFsCtx client)) (some (P.cfg (P.getFsCtx client)).eraseVal)
      (chunk _ (P.buf_room _) (assetFid client uid hu) data fl rest off) = .ok u) :
    Storing P m client uid n flags data (off + min rest P.buf) u ∧ off + rest = n ∧
      (0 < rest - min rest P.buf →
        NextChunk P n (fl &&& ~~~createFlags) (rest - min rest P.buf) (off + min rest P.buf)) := by
  have hpos := P.buf_pos
  rcases hj with ⟨rfl, rfl, rfl, rfl⟩ | ⟨hc, hst⟩
  · have hst := storing_first hal hu h hfl h0 hn hl hw
    refine ⟨by rwa [Nat.zero_add], Nat.zero_add _, fun hmore => ?_⟩
    have hmin : min rest P.buf = P.buf := by omega
    rw [hmin] at hmore ⊢
    exact ⟨later_appends _, later_internal (first_internal hfl), by omega,
      by rw [Nat.zero_add], by omega, by omega⟩
  · obtain ⟨u', hw', hst'⟩ := hst.next hal hu hc
    cases hw'.symm.trans hw
    refine ⟨hst', hc.sum, fun hmore => ?_⟩
    have hsum := hc.sum
    have hmin : min rest P.buf = P.buf := by omega
    rw [hmin] at hmore ⊢
    exact ⟨later_appends _, later_internal hc.plain, by omega,
      Nat.dvd_add hc.chunks (Nat.dvd_refl _), by omega, by omega⟩

/-- **A set**: where it is cut, the asset has the chunks so far. -/
theorem callSeen_set (hal : ∀ s, (P.cfg s).Aligns) (h0 : 0 < n) (hn : n < 2 ^ 32) :
    P.CallSeen m (.set client uid n flags data) (P.getFsCtx client) := by
  intro t h
  have hcut : ∃ m', P.StoreStep m (.cut (.set client uid n flags data)) m' ∧
      Represents P m' (P.getFsCtx client) t := ⟨m, .cutBefore _, h⟩
  have hrefused : ∀ e, m.refusesSet client uid flags = some e →
      ∃ m', P.StoreStep m (.answer (.set client uid n flags data) (.error e)) m' ∧
        Represents P m' (P.getFsCtx client) t := fun e he => ⟨m, .setRefused he, h⟩
  refine fsWp_map (fsWp_tfmItsSet hcut (fun hu => ⟨hrefused _ (if_pos hu), hcut⟩)
    (fun hu hfl => ?_) (fun i hu hfl hi hw => ?_) fun hu hfl hgo => fsWp_layout fun hlay => ?_)
  · refine ⟨hrefused _ ?_, hcut⟩
    unfold Assets.refusesSet
    rw [if_neg hu, if_pos hfl]
  · exact ⟨hrefused _ (refusesSet_some h hu hfl hi hw), hcut⟩
  · have hset := refusesSet_none h hu hfl hgo
    refine fsWp_setLoop (f := assetFid client uid hu) (P.buf_room _) P.buf_pos
      (J := BeforeChunk P m client uid n flags data t) (fun fl rest off u hj => ?_)
      (fun fl rest off u u' hj hl hw => ?_) (fun fl rest off u e hj hw => ?_) _
      (Nat.lt_succ_self n) (.inl ⟨rfl, rfl, rfl, rfl⟩)
    · -- the power is cut before the chunk
      rcases hj with ⟨-, -, -, rfl⟩ | ⟨hc, hst⟩
      · exact hcut
      · exact ⟨_, .cutSet hset hc.pos (.inr ⟨hc.lt, hc.chunks⟩), hst.stored⟩
    · obtain ⟨hst, hsum, hnext⟩ := hj.write hal hu h hfl h0 hn hl hw
      split
      · next hmore => exact .inr ⟨hnext hmore, hst⟩
      · have hall : off + min rest P.buf = n := by omega
        rw [hall] at hst
        exact ⟨⟨⟨_, .set hset hst.fits hst.max, hst.stored⟩, _, .cutSet hset h0 (.inl rfl),
          hst.stored⟩, _, .cutSet hset h0 (.inl rfl), hst.stored⟩
    · -- only the first one can fail
      rcases hj with ⟨rfl, rfl, rfl, rfl⟩ | ⟨hc, hst⟩
      · refine ⟨⟨m, .setFull hset ?_, h⟩, hcut⟩
        rcases first_full (hal (P.getFsCtx client)) (P.buf_room _) (P.buf_aligned _) hlay hfl hw with
          ⟨rfl, hmax⟩ | ⟨rfl, hroom⟩ | ⟨rfl, hlt⟩
        · exact hmax
        · intro a ha
          exact hroom a ((h.asset client uid rfl hu).trans ha)
        · exact hlt
      · obtain ⟨v, hv, -⟩ := hst.next hal hu hc
        cases hv.symm.trans hw

end Set

theorem callSeen (hal : ∀ s, (P.cfg s).Aligns) (q : Call) (hq : q.Fills) :
    P.CallSeen m q (P.fsOf q) := by
  cases q with
  | set client uid n flags data => exact callSeen_set hal hq.1 hq.2
  | get client uid offset size => exact callSeen_get offset size
  | getInfo client uid => exact callSeen_getInfo
  | remove client uid => exact callSeen_remove

theorem Setup.StoreStep.away {m' : Assets} {o : Seen} {q : Call} {s : Fs} (h : P.StoreStep m o m')
    (ho : (∃ r, o = .answer q r) ∨ o = .cut q) (hs : P.fsOf q ≠ s) (ht : Represents P m s t) :
    Represents P m' s t := by
  cases h with
  | get | getInfo | setRefused | setFull | removeRefused | cutBefore | start => exact ht
  | set | remove | cutSet | cutRemove =>
    rcases ho with ⟨r, ho⟩ | ho
    all_goals
      cases ho
      try exact ht.away hs _

end Calls

/-! ## Runs -/

section Runs

variable {P : Setup}

/-- What the clients see of a step. -/
def Setup.seen (P : Setup) : Device → Event → Seen
  | .on z, .call q => .answer q (P.serve q z).1
  -- there is no such step
  | .off _, .call q => .cut q
  | _, .cut q => .cut q
  | _, .cutStart => .start
  | _, .start => .start

def Event.Fills : Event → Prop
  | .call q => q.Fills
  | .cut q => q.Fills
  | .cutStart | .start => True

/-- The runs of the partition in which no asset of length 0 is set, as the clients see them. -/
def seenLts (P : Setup) : LTS Device Seen :=
  ((svcLts P).restrict fun _ e => e.Fills).watch P.seen

theorem represents_fresh (s : Fs) : Represents P (fun _ _ => none) s
    (Tab.fresh (P.cfg s) (some (P.cfg s).eraseVal)) := by
  have hnone : ∀ g, g ≠ 0 →
      (Tab.fresh (P.cfg s) (some (P.cfg s).eraseVal)).asset (P.cfg s) g = none := by
    intro g hg
    refine Option.map_eq_none_iff.2 ?_
    cases hf : (Tab.fresh (P.cfg s) (some (P.cfg s).eraseVal)).find (P.cfg s) g with
    | none => rfl
    | some k => exact absurd (Tab.find_some hf).2.symm hg
  exact ⟨fun client uid _ hu => hnone _ (getFid_ne_zero client hu),
    fun g a hg ha => nomatch (hnone g hg).symm.trans ha⟩

/-- **A step of the partition is a step of the store.** -/
theorem seen_simulates (hal : ∀ s, (P.cfg s).Aligns) :
    (seenLts P).Simulates P.storeLts fun d m => Holds P (Represents P m) d where
  init d hd := by
    obtain ⟨z, rfl, hz⟩ := hd
    refine ⟨_, rfl, fun s hs => ?_⟩
    obtain ⟨x, f, -, hzs⟩ := hz s hs
    exact ⟨_, hzs ▸ mounted_boot x f, represents_fresh s⟩
  step d o d' m hR hstep := by
    obtain ⟨e, ⟨hq, hs⟩, rfl⟩ := hstep
    cases hs with
    | call q z =>
      obtain ⟨t, ht, hrep⟩ := hR (P.fsOf q) (P.has_getFsCtx q.client)
      obtain ⟨⟨t', ht', m', hstep, hrep'⟩, -⟩ := callSeen hal q hq t hrep (z (P.fsOf q)) ht
      refine ⟨m', hstep, fun s hs => ?_⟩
      by_cases hfs : P.fsOf q = s
      · subst hfs
        refine ⟨t', ?_, hrep'⟩
        rw [show (P.serve q z).2 (P.fsOf q) = _ from Function.update_self _ _ z]
        exact ht'
      · obtain ⟨u, hu, hrepu⟩ := hR s hs
        refine ⟨u, ?_, hstep.away (.inl ⟨_, rfl⟩) hfs hrepu⟩
        rw [show (P.serve q z).2 s = z s from Function.update_of_ne (Ne.symm hfs) _ z]
        exact hu
    | @cut q z f hcut =>
      obtain ⟨t, ht, hrep⟩ := hR (P.fsOf q) (P.has_getFsCtx q.client)
      obtain ⟨g, hg, rfl⟩ := hcut
      obtain ⟨t', hrec, hlay, hk, m', hstep, hrep'⟩ :=
        (callSeen hal q hq t hrep (z (P.fsOf q)) ht).2 g hg
      refine ⟨m', hstep, fun s hs => ?_⟩
      by_cases hfs : P.fsOf q = s
      · subst hfs
        rw [Function.update_self]
        exact ⟨t', hrec, hlay, hk, hrep'⟩
      · rw [Function.update_of_ne (Ne.symm hfs)]
        obtain ⟨u, hu, hrepu⟩ := hR s hs
        exact hu.restores (hstep.away (.inr rfl) hfs hrepu)
    | @cutStart f f' x hcut => exact ⟨m, .start, (hR.tfmItsInit x).2.2 f' hcut⟩
    | @start f x hok => exact ⟨m, .start, (hR.tfmItsInit x).2.1⟩

/-- **The service is a store of assets**: what is seen of a run, whatever the clients call and
wherever the power is cut, is what is seen of a run of the store. -/
theorem its_is_store (P : Setup) (hal : ∀ s, (P.cfg s).Aligns) {d d' : Device} {os : List Seen}
    (hd : (svcLts P).init d) (hrun : (seenLts P).Run d os d') :
    ∃ m, P.storeLts.Run (fun _ _ => none) os m := by
  obtain ⟨m, m', rfl, hrun', -⟩ := (seen_simulates hal).run hd hrun
  exact ⟨m', hrun'⟩

theorem seen_call (q : Call) (hq : q.Fills) {z : Stores} {r : Except PsaStatus Result}
    (hr : (P.serve q z).1 = r) : (seenLts P).step (.on z) (.answer q r) (.on (P.serve q z).2) := by
  subst hr
  exact ⟨.call q, ⟨hq, .call q z⟩, rfl⟩

/-- Six bytes in two chunks, the last four of them, and an asset of another client. -/
theorem its_is_store_small :
    ∃ m, smallSetup.storeLts.Run (fun _ _ => none)
      [.answer (.set 5 7 6 0 fun k => UInt8.ofNat k) (.ok .done),
        .answer (.get 5 7 2 10) (.ok (.data 4 [2, 3, 4, 5])),
        .answer (.get 6 7 2 10) (.error .doesNotExist)] m := by
  refine its_is_store smallSetup (fun _ => .inl rfl)
    ⟨smallStores, rfl, fun _ _ => booted_init smallCfg⟩
    (.cons (seen_call (.set 5 7 6 0 fun k => UInt8.ofNat k) ⟨by decide, by decide⟩ ?_)
      (.cons (seen_call (.get 5 7 2 10) trivial ?_)
        (.cons (seen_call (.get 6 7 2 10) trivial ?_) (.nil _))))
  · decide +kernel
  · decide +kernel
  · decide +kernel

end Runs

end Tfm.L4.Its
