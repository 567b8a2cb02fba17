import Tfm.L4Service.FwuWrite

/-!
# Firmware update: what a query reports

A query of a staging slot hashes the start of the area, in pieces of `BOOT_TMPBUF_SZ`
bytes. How much of it comes from one of two places. Where the shim has an entry of the
image, it is the sum of the sizes of the blocks that were accepted, whatever their
offsets; otherwise it is what the image header says. An entry is found by the image
number alone, and the table starts as zeros and keeps its numbers after an abort.

`flash_area_read` is outside of the repository; whether it refuses a range that leaves
the area is left open.

Results:
* `utilImgHash_done`, `utilImgHash_length`: a hash that succeeds is the hash of the
  range, and how far any hash goes.
* `queryIpc_stage`: a query of a staging slot is the shim's.
* `queryIpc_env`: the query of `Tfm.L4Service.Fwu`, with the outcomes given.
-/
namespace Tfm.L4.Fwu.Query

variable {cfg : Cfg}

/-- What the service is built with. -/
structure Build where
  /-- `BOOT_TMPBUF_SZ` -/
  tmpBufSz : Nat
  tmpBufSz_pos : 0 < tmpBufSz
  /-- `sizeof(struct image_header)` -/
  hdrSize : Nat
  /-- `flash_area_read` refuses a range that leaves the area. -/
  readChecks : Bool

/-- What the flash and the hash service answer during a query. -/
structure Answers where
  openOk : Bool
  read : Nat → Nat → Bool
  setup : Bool
  update : Nat → Bool
  finish : Bool

def flashAreaRead (B : Build) (s : St cfg) (a : Area) (q : Answers) (off len : Nat) :
    Option (List UInt8) :=
  if B.readChecks ∧ cfg.areaSize a < off + len then none
  else if q.read off len then some ((List.range len).map fun i => s.flash a (off + i))
  else none

/-- The loop at `off`: the bytes that it gives to the hash, and whether it comes to the
end. Each round takes a byte at least, so `dataSize` rounds are enough.
mirrors tfm_mcuboot_fwu.c:370-383 -/
def hashLoop (read : Nat → Nat → Option (List UInt8)) (update : Nat → Bool)
    (tmpBufSz dataSize : Nat) : Nat → Nat → List UInt8 × Bool
  | 0, _ => ([], true)
  | fuel + 1, off =>
    if off < dataSize then
      let blkSz := min (dataSize - off) tmpBufSz
      match read off blkSz with
      | none => ([], false)
      | some buf =>
        if update off then
          let (rest, ok) := hashLoop read update tmpBufSz dataSize fuel (off + blkSz)
          (buf ++ rest, ok)
        else ([], false)
    else ([], true)

/-- mirrors tfm_mcuboot_fwu.c:351-388 -/
def utilImgHash (B : Build) (s : St cfg) (a : Area) (dataSize : Nat) (q : Answers) :
    List UInt8 × Bool :=
  if q.setup then
    let (hashed, ok) :=
      hashLoop (flashAreaRead B s a q) q.update B.tmpBufSz dataSize dataSize 0
    (hashed, ok && q.finish)
  else ([], false)

/-- The version and the size of what is hashed.
mirrors tfm_mcuboot_fwu.c:417-447 -/
def imageRange (s : St cfg) (mid : Area) : Option (Version × Nat) :=
  match getFlashImageIndex s mid with
  | some index => some (⟨0, 0, 0, 0⟩, (s.mcubootCtx index).loadedSize)
  | none => cfg.header (s.flash mid)

/-- The reply, and the bytes that were hashed for it.
mirrors tfm_mcuboot_fwu.c:390-463 -/
def getSecondaryImageInfo (B : Build) (s : St cfg) (mid : Area) (q : Answers) :
    Except PsaStatus ImageInfo × List UInt8 :=
  if !q.openOk then (.error .genericError, [])
  else if (flashAreaRead B s mid q 0 B.hdrSize).isNone then (.error .genericError, [])
  else
    match imageRange s mid with
    | none => (.error .doesNotExist, [])
    | some (version, n) =>
      let (hashed, ok) := utilImgHash B s mid n q
      (if ok then .ok ⟨version, .undefined, cfg.hash hashed⟩ else .error .genericError, hashed)

/-- mirrors tfm_mcuboot_fwu.c:465-543 -/
def bootloaderGetImageInfo (B : Build) (s : St cfg) (bl : UInt8) (active : Bool) (q : Answers) :
    Except PsaStatus ImageInfo × List UInt8 :=
  match convertIdFromBlToMcuboot cfg bl with
  | none => (.error .invalidArgument, [])
  | some mid =>
    if active then
      match cfg.bootVersion mid with
      | some v => (.ok ⟨v, .installed, List.replicate 32 0xFF⟩, [])
      | none => (.error .genericError, [])
    else getSecondaryImageInfo B s mid q

/-- mirrors tfm_fwu.c:91-109 -/
def internalQuery (B : Build) (s : St cfg) (id : ImageId) (q : Answers) :
    Except PsaStatus ImageInfo × List UInt8 :=
  if imageSlot id = slotStage then bootloaderGetImageInfo B s (imageType id) false q
  else if imageSlot id = slotActive then bootloaderGetImageInfo B s (imageType id) true q
  else (.error .invalidArgument, [])

/-- mirrors tfm_fwu_req_mngr.c:377-407 -/
def queryIpc (B : Build) (s : St cfg) (id : ImageId) (q : Answers) :
    Except PsaStatus ImageInfo × List UInt8 :=
  match internalQuery B s id q with
  | (.error r, hashed) => (.error r, hashed)
  | (.ok info, hashed) =>
    if info.state = .undefined then
      match getImageIndex s id with
      | some index => (.ok { info with state := (s.fwuCtx index).imageState }, hashed)
      | none => (.ok info, hashed)
    else (.ok info, hashed)

/-! ## The hash loop -/

section Loop

variable {read : Nat → Nat → Option (List UInt8)} {update : Nat → Bool} {tmpBufSz dataSize : Nat}

/-- A loop that comes to the end has hashed the rest of the range. -/
theorem hashLoop_done {c : Nat → UInt8} (hpos : 0 < tmpBufSz)
    (hread : ∀ off len buf, read off len = some buf →
      buf = (List.range len).map fun i => c (off + i)) (fuel : Nat) :
    ∀ off, dataSize - off ≤ fuel → (hashLoop read update tmpBufSz dataSize fuel off).2 = true →
      (hashLoop read update tmpBufSz dataSize fuel off).1 =
        (List.range (dataSize - off)).map fun i => c (off + i) := by
  induction fuel with
  | zero =>
    intro off hf _
    rw [Nat.le_zero.mp hf]
    rfl
  | succ fuel ih =>
    intro off hf h
    rw [hashLoop] at h ⊢
    by_cases hlt : off < dataSize
    case neg =>
      rw [if_neg hlt, Nat.sub_eq_zero_of_le (by omega)]
      rfl
    rw [if_pos hlt] at h ⊢
    dsimp only at h ⊢
    cases hr : read off (min (dataSize - off) tmpBufSz) with
    | none =>
      rw [hr] at h
      cases h
    | some buf =>
      rw [hr] at h
      dsimp only at h ⊢
      cases hu : update off with
      | false =>
        rw [hu] at h
        cases h
      | true =>
        rw [hu] at h
        simp only [if_true] at h ⊢
        have hblk : 0 < min (dataSize - off) tmpBufSz := by omega
        have hle : min (dataSize - off) tmpBufSz ≤ dataSize - off := Nat.min_le_left _ _
        rw [ih _ (by omega) h, hread _ _ _ hr]
        generalize min (dataSize - off) tmpBufSz = n at *
        have hsum : dataSize - off = n + (dataSize - (off + n)) := by omega
        rw [hsum, List.range_add, List.map_append, List.map_map]
        simp only [Nat.add_assoc, Function.comp_def]

theorem hashLoop_length (hread : ∀ off len buf, read off len = some buf → buf.length = len)
    (fuel : Nat) :
    ∀ off, (hashLoop read update tmpBufSz dataSize fuel off).1.length ≤ dataSize - off := by
  induction fuel with
  | zero => exact fun off => Nat.zero_le _
  | succ fuel ih =>
    intro off
    rw [hashLoop]
    split
    case isFalse => exact Nat.zero_le _
    dsimp only
    cases hr : read off (min (dataSize - off) tmpBufSz) with
    | none => exact Nat.zero_le _
    | some buf =>
      dsimp only
      split
      case isFalse => exact Nat.zero_le _
      have := ih (off + min (dataSize - off) tmpBufSz)
      simp only [List.length_append, hread _ _ _ hr]
      omega

/-- Where no read leaves the area, the loop stays in the area. -/
theorem hashLoop_inside {bound : Nat} (hread : ∀ off len buf, read off len = some buf →
      buf.length = len ∧ off + len ≤ bound) (fuel : Nat) :
    ∀ off, off ≤ bound →
      off + (hashLoop read update tmpBufSz dataSize fuel off).1.length ≤ bound := by
  induction fuel with
  | zero => exact fun off h => h
  | succ fuel ih =>
    intro off hb
    rw [hashLoop]
    split
    case isFalse => exact hb
    dsimp only
    cases hr : read off (min (dataSize - off) tmpBufSz) with
    | none => exact hb
    | some buf =>
      dsimp only
      split
      case isFalse => exact hb
      obtain ⟨hlen, hin⟩ := hread _ _ _ hr
      have := ih (off + min (dataSize - off) tmpBufSz) hin
      simp only [List.length_append, hlen]
      omega

end Loop

section Hash

variable {B : Build} {s : St cfg} {a : Area} {q : Answers}

theorem flashAreaRead_some {off len : Nat} {buf : List UInt8}
    (h : flashAreaRead B s a q off len = some buf) :
    (buf = (List.range len).map fun i => s.flash a (off + i)) ∧
      (B.readChecks = true → off + len ≤ cfg.areaSize a) := by
  rw [flashAreaRead] at h
  split at h
  · cases h
  rename_i hin
  split at h
  · refine ⟨(Option.some.inj h).symm, fun hc => ?_⟩
    by_contra hout
    exact hin ⟨hc, by omega⟩
  · cases h

theorem flashAreaRead_length {off len : Nat} {buf : List UInt8}
    (h : flashAreaRead B s a q off len = some buf) : buf.length = len := by
  rw [(flashAreaRead_some h).1, List.length_map, List.length_range]

/-- What a hash that succeeds is the hash of. -/
theorem utilImgHash_done {n : Nat} (h : (utilImgHash B s a n q).2 = true) :
    (utilImgHash B s a n q).1 = (List.range n).map (s.flash a) := by
  rw [utilImgHash] at h ⊢
  split at h
  case isFalse => cases h
  rename_i hs
  rw [if_pos hs]
  dsimp only at h ⊢
  rw [Bool.and_eq_true] at h
  have := hashLoop_done B.tmpBufSz_pos (fun off len buf hr => (flashAreaRead_some hr).1) n 0
    (by omega) h.1
  rw [this]
  simp only [Nat.sub_zero, Nat.zero_add]

/-- No more than the range is hashed, and no more than the area where reads are checked. -/
theorem utilImgHash_length {n : Nat} (h : B.readChecks = true ∨ n ≤ cfg.areaSize a) :
    (utilImgHash B s a n q).1.length ≤ cfg.areaSize a := by
  rw [utilImgHash]
  split
  case isFalse => exact Nat.zero_le _
  dsimp only
  obtain hc | hn := h
  · have hread : ∀ off len buf, flashAreaRead B s a q off len = some buf →
        buf.length = len ∧ off + len ≤ cfg.areaSize a := fun off len buf hr =>
      ⟨flashAreaRead_length hr, (flashAreaRead_some hr).2 hc⟩
    exact le_of_eq_of_le (Nat.zero_add _).symm (hashLoop_inside hread n 0 (Nat.zero_le _))
  · have hread : ∀ off len buf, flashAreaRead B s a q off len = some buf → buf.length = len :=
      fun off len buf hr => flashAreaRead_length hr
    exact Nat.le_trans (hashLoop_length hread n 0) hn

end Hash

/-! ## One query -/

section Secondary

variable {B : Build} {s : St cfg} {a : Area} {q : Answers}

theorem secondary_ok {info : ImageInfo} (h : (getSecondaryImageInfo B s a q).1 = .ok info) :
    info.state = .undefined ∧ ∃ n, imageRange s a = some (info.version, n) ∧
      info.digest = cfg.hash ((List.range n).map (s.flash a)) := by
  rw [getSecondaryImageInfo] at h
  split at h
  · cases h
  split at h
  · cases h
  split at h
  · cases h
  rename_i version n hr
  dsimp only at h
  split at h
  · rename_i hok
    cases h
    exact ⟨rfl, n, hr, congrArg cfg.hash (utilImgHash_done hok)⟩
  · cases h

theorem secondary_not_exist : (getSecondaryImageInfo B s a q).1 = .error .doesNotExist ↔
    q.openOk = true ∧ (flashAreaRead B s a q 0 B.hdrSize).isSome = true ∧
      imageRange s a = none := by
  rw [getSecondaryImageInfo]
  cases q.openOk with
  | false => simp
  | true =>
    cases flashAreaRead B s a q 0 B.hdrSize with
    | none => simp
    | some buf =>
      cases imageRange s a with
      | none => simp
      | some r =>
        obtain ⟨version, n⟩ := r
        cases hok : (utilImgHash B s a n q).2 <;> simp [hok]

theorem secondary_length (h : B.readChecks = true ∨
      ∀ v n, imageRange s a = some (v, n) → n ≤ cfg.areaSize a) :
    (getSecondaryImageInfo B s a q).2.length ≤ cfg.areaSize a := by
  rw [getSecondaryImageInfo]
  split
  · exact Nat.zero_le _
  split
  · exact Nat.zero_le _
  split
  · exact Nat.zero_le _
  rename_i version n hr
  exact utilImgHash_length (h.imp_right fun h => h version n hr)

/-- The request manager changes nothing but the state. -/
theorem queryIpc_stage {id : ImageId} (hslot : imageSlot id = slotStage)
    (ha : stagingArea cfg id = some a) :
    (queryIpc B s id q).2 = (getSecondaryImageInfo B s a q).2 ∧
    (∀ r, (queryIpc B s id q).1 = .error r ↔ (getSecondaryImageInfo B s a q).1 = .error r) ∧
    ∀ info, (queryIpc B s id q).1 = .ok info → ∃ info', info'.version = info.version ∧
      info'.digest = info.digest ∧ (getSecondaryImageInfo B s a q).1 = .ok info' := by
  have heq : internalQuery B s id q = getSecondaryImageInfo B s a q := by
    rw [internalQuery, if_pos hslot, bootloaderGetImageInfo]
    rw [stagingArea] at ha
    simp [ha]
  rw [queryIpc, heq]
  cases getSecondaryImageInfo B s a q with
  | mk reply hashed =>
    cases reply with
    | error r => exact ⟨rfl, fun r' => Iff.rfl, fun info h => by cases h⟩
    | ok info' =>
      dsimp only
      split
      · cases getImageIndex s id with
        | none => exact ⟨rfl, fun r => by simp, fun info h => ⟨info', by cases h; simp⟩⟩
        | some i => exact ⟨rfl, fun r => by simp, fun info h => ⟨info', by cases h; simp⟩⟩
      · exact ⟨rfl, fun r => by simp, fun info h => ⟨info', by cases h; simp⟩⟩

end Secondary

/-- The same query where only the outcomes of the reads and of the hash are given. -/
def Answers.env (B : Build) (s : St cfg) (id : ImageId) (q : Answers) : Env where
  openOk := q.openOk
  erase := .done
  write := .done
  magic := .done
  readOk := (flashAreaRead B s ((stagingArea cfg id).getD 0) q 0 B.hdrSize).isSome
  hashOk := match imageRange s ((stagingArea cfg id).getD 0) with
    | some (_, n) => (utilImgHash B s ((stagingArea cfg id).getD 0) n q).2
    | none => true

theorem coarse_imageRange (s : St cfg) (a : Area) (e : Env) :
    Fwu.getSecondaryImageInfo s a e =
      if !e.openOk then .error .genericError
      else if !e.readOk then .error .genericError
      else
        match imageRange s a with
        | none => .error .doesNotExist
        | some (version, n) =>
          if e.hashOk then .ok ⟨version, .undefined, cfg.hash ((List.range n).map (s.flash a))⟩
          else .error .genericError := by
  rw [Fwu.getSecondaryImageInfo, imageRange]
  cases getFlashImageIndex s a <;> rfl

theorem secondary_env {B : Build} {s : St cfg} {a : Area} {q : Answers} (id : ImageId)
    (ha : stagingArea cfg id = some a) :
    (getSecondaryImageInfo B s a q).1 = Fwu.getSecondaryImageInfo s a (q.env B s id) := by
  rw [getSecondaryImageInfo, coarse_imageRange]
  simp only [Answers.env, ha, Option.getD_some]
  cases q.openOk with
  | false => rfl
  | true =>
    cases flashAreaRead B s a q 0 B.hdrSize with
    | none => rfl
    | some buf =>
      cases imageRange s a with
      | none => rfl
      | some r =>
        obtain ⟨version, n⟩ := r
        simp only [Bool.not_true, Option.isNone_some, Option.isSome_some, Bool.false_eq_true,
          if_false]
        split
        · rename_i hok
          rw [utilImgHash_done hok]
        · rfl

/-- The query of the model of the whole service. -/
theorem queryIpc_env (B : Build) (s : St cfg) (id : ImageId) (q : Answers) :
    (queryIpc B s id q).1 = Fwu.queryIpc s id (q.env B s id) := by
  have hinner : (internalQuery B s id q).1 = Fwu.internalQuery s id (q.env B s id) := by
    rw [internalQuery, Fwu.internalQuery, bootloaderGetImageInfo, bootloaderGetImageInfo,
      Fwu.bootloaderGetImageInfo, Fwu.bootloaderGetImageInfo]
    have hsec := fun a => secondary_env (B := B) (s := s) (a := a) (q := q) id
    rw [stagingArea] at hsec
    cases ha : convertIdFromBlToMcuboot cfg (imageType id) with
    | none => split <;> [rfl; (split <;> rfl)]
    | some a =>
      dsimp only
      split
      · exact hsec a ha
      split
      · cases cfg.bootVersion a <;> rfl
      · rfl
  rw [queryIpc, Fwu.queryIpc, ← hinner]
  cases internalQuery B s id q with
  | mk reply hashed =>
    cases reply with
    | error r => rfl
    | ok info =>
      dsimp only
      split
      · cases getImageIndex s id <;> rfl
      · rfl

end Tfm.L4.Fwu.Query
