import Tfm.L4Service.ItsReach

/-!
# Writes to ITS files

What `its_flash_fs_file_write` makes of the contents of a file, in every reachable
state: a write in the place of old data, a file that is created or truncated, and
data that is appended.

A write rebuilds the room of its file from the data before the write, the new data
and what is behind the file. Old data behind the new data is not copied, although
the size of the file stays.

Results: `write_positional`, when a write in a file replaces just its bytes;
`write_round_trip`, what is read of a file after it was created, truncated or
appended to, and that the other files are what they were.
-/
namespace Tfm.L4.Its
open Tfm.BlockDev Tfm.Bytes

/-! ## Bytes -/

/-- `old` with `n` bytes from `offset` on replaced. -/
def patched (old : List UInt8) (offset n : Nat) (data : Nat → UInt8) : List UInt8 :=
  old.take offset ++ (List.range n).map data ++ old.drop (offset + n)

theorem patched_getElem? {old : List UInt8} {offset n : Nat} {data : Nat → UInt8}
    (h : offset ≤ old.length) (j : Nat) : (patched old offset n data)[j]? =
      if j < offset then old[j]? else if j < offset + n then some (data (j - offset)) else old[j]? := by
  have hlen : (old.take offset).length = offset := by
    rw [List.length_take]
    omega
  have hmid : (old.take offset ++ (List.range n).map data).length = offset + n := by
    rw [List.length_append, hlen, List.length_map, List.length_range]
  unfold patched
  by_cases h1 : j < offset
  · rw [if_pos h1, List.getElem?_append_left (by omega), List.getElem?_append_left (by omega),
      List.getElem?_take_of_lt h1]
  · rw [if_neg h1]
    by_cases h2 : j < offset + n
    · rw [if_pos h2, List.getElem?_append_left (by omega), List.getElem?_append_right (by omega), hlen]
      simp only [List.getElem?_map]
      rw [List.getElem?_range (by omega)]
      rfl
    · rw [if_neg h2, List.getElem?_append_right (by omega), hmid, List.getElem?_drop]
      congr 1
      omega

/-! ## Contents -/

section Files

variable {c : Cfg} {t t' : Tab} {y : Sys Flash}

/-- The whole file, as it is read. -/
def contents (c : Cfg) (y : Sys Flash) (f : Fid) : Option (List UInt8) :=
  match (memServe c (.info f) y).1 with
  | .ok (.info i) =>
    match (memServe c (.read f i.sizeCurrent 0) y).1 with
    | .ok (.data l) => some l
    | _ => none
  | _ => none

def Tab.contents (t : Tab) (k : Nat) : List UInt8 :=
  t.bytes (t.fm k).lblock (t.fm k).dataIdx (t.fm k).curSize

def Tab.fileInfo (t : Tab) (k : Nat) : FileInfo :=
  ⟨(t.fm k).curSize, (t.fm k).maxSize, (t.fm k).flags &&& userFlagsMask⟩

theorem Mounted.info (h : Mounted c y t) {f : Fid} {k : Nat} (hf : t.find c f.id = some k) :
    (memServe c (.info f) y).1 = .ok (.info (t.fileInfo k)) := by
  rw [(h.serve (.info f)).1]
  unfold Tab.serve Tab.info
  dsimp only
  rw [hf]
  rfl

theorem Mounted.no_info (h : Mounted c y t) {f : Fid} (hf : t.find c f.id = none) :
    (memServe c (.info f) y).1 = .error .doesNotExist := by
  rw [(h.serve (.info f)).1]
  unfold Tab.serve Tab.info
  dsimp only
  rw [hf]

theorem Mounted.contents (h : Mounted c y t) {f : Fid} {k : Nat} (hf : t.find c f.id = some k) :
    Its.contents c y f = some (t.contents k) := by
  unfold Its.contents
  rw [h.info hf]
  dsimp only [Tab.fileInfo]
  rw [(h.serve (.read f _ 0)).1]
  unfold Tab.serve Tab.read
  dsimp only
  rw [hf]
  dsimp only
  rw [if_pos (by simp [checkContainedIn])]
  rfl

theorem Tab.contents_getElem? {k j : Nat} (hj : j < (t.fm k).curSize) :
    (t.contents k)[j]? = some ((t.data (t.fm k).lblock ((t.fm k).dataIdx + j)).getD 0) := by
  unfold Tab.contents Tab.bytes
  rw [List.getElem?_map, List.getElem?_range hj]
  rfl

theorem Tab.length_contents {k : Nat} : (t.contents k).length = (t.fm k).curSize := by
  simp [Tab.contents, Tab.bytes]

theorem contents_of_kept {k : Nat} (h : Kept t t' k) : t'.contents k = t.contents k := by
  apply List.ext_getElem?
  intro j
  by_cases hj : j < (t.fm k).curSize
  · rw [Tab.contents_getElem? hj, Tab.contents_getElem? (h.cur ▸ hj), h.data j hj]
  · rw [List.getElem?_eq_none (by rw [Tab.length_contents, h.cur]; omega),
      List.getElem?_eq_none (by rw [Tab.length_contents]; omega)]

end Files

/-! ## Updates in place -/

section InPlace

variable {c : Cfg} {t t' : Tab} {fill : Option UInt8} {fid flags maxSize dataSize offset o : Nat}
  {data : Nat → UInt8} {m m' : FileMeta} {dl : Option (Nat → Option UInt8)}

theorem Tab.write_reuse (hl : t.lookup c fid flags (c.aligned maxSize) = .ok (some o, some (o, m)))
    (hw : t.write c fill fid flags maxSize dataSize offset data = .ok t') :
    ∃ m' dl, t.writeData c fill m (t.bm m.lblock) dataSize offset data = .ok (m', dl) ∧
      t' = t.update c fill m'.lblock (t.bm m.lblock) (t.table (some o) o m') dl := by
  obtain ⟨t1, del, hu, rfl⟩ := Tab.write_eq hw
  obtain ⟨_, old, reuse, new, m1, b, m', dl, hl', hr, hd, rfl, rfl⟩ := Tab.firstUpdate_eq hu
  obtain ⟨rfl, rfl⟩ : old = some o ∧ reuse = some (o, m) := by
    rw [hl] at hl'
    cases hl'
    exact ⟨rfl, rfl⟩
  cases hr
  refine ⟨m', dl, hd, ?_⟩
  have hf : (some o).filter (· ≠ o) = none := by simp
  rw [hf]
  rfl

theorem contents_own {new : Nat} {b : BlockMeta} {old : Option Nat} (h : Target c t new m b)
    (hbuf : Buffer c.toConfig dataSize)
    (hd : t.writeData c fill m b dataSize offset data = .ok (m', dl)) {j : Nat}
    (hj : j < m'.curSize) :
    ((t.update c fill m'.lblock b (t.table old new m') dl).contents new)[j]? =
      some ((if dataSize = 0 ∨ j < offset then t.data m.lblock (m.dataIdx + j)
        else if j < offset + c.aligned dataSize then some (data (j - offset)) else fill).getD 0) := by
  have hfm : (t.update c fill m'.lblock b (t.table old new m') dl).fm new = m' := Tab.table_self
  rw [Tab.contents_getElem? (hfm.symm ▸ hj), hfm, h.own_data hbuf hd hj]

theorem length_contents_own {new : Nat} {b : BlockMeta} {old : Option Nat} :
    ((t.update c fill m'.lblock b (t.table old new m') dl).contents new).length = m'.curSize := by
  rw [Tab.length_contents]
  exact congrArg FileMeta.curSize Tab.table_self

theorem contents_in_place (ev : UInt8) (old : Option Nat) {b : BlockMeta}
    (h : Target c t o (t.fm o) b) (hbuf : Buffer c.toConfig dataSize)
    (hoff : offset ≤ (t.fm o).curSize)
    (hd : t.writeData c (some ev) (t.fm o) b dataSize offset data = .ok (m', dl)) (j : Nat) :
    ((t.update c (some ev) m'.lblock b (t.table old o m') dl).contents o)[j]? =
      if j < offset ∨ dataSize = 0 then (t.contents o)[j]?
      else if j < offset + c.aligned dataSize ∧ j < m'.curSize then some (data (j - offset))
      else if j < (t.fm o).curSize then some ev else none := by
  obtain ⟨hm', _⟩ := Tab.writeData_cases hd
  have hcur : m'.curSize =
      if dataSize = 0 then (t.fm o).curSize else max (t.fm o).curSize (offset + dataSize) :=
    congrArg FileMeta.curSize hm'
  have hle := Config.le_aligned hbuf
  by_cases hj : j < m'.curSize
  · rw [contents_own h hbuf hd hj]
    by_cases h1 : j < offset ∨ dataSize = 0
    · rw [if_pos h1, if_pos h1.symm]
      rw [Tab.contents_getElem?]
      split at hcur <;> omega
    · rw [if_neg h1, if_neg fun hh => h1 hh.symm]
      by_cases h2 : j < offset + c.aligned dataSize
      · rw [if_pos h2, if_pos ⟨h2, hj⟩]
        rfl
      · rw [if_neg h2, if_neg fun hh => h2 hh.1, if_pos]
        · rfl
        · split at hcur <;> omega
  · rw [List.getElem?_eq_none (by rw [length_contents_own]; omega)]
    by_cases h1 : j < offset ∨ dataSize = 0
    · rw [if_pos h1, List.getElem?_eq_none]
      rw [Tab.length_contents]
      split at hcur <;> omega
    · rw [if_neg h1, if_neg fun hh => hj hh.2, if_neg]
      split at hcur <;> omega

end InPlace

/-! ## Writes in a file -/

section Positional

variable {c : Cfg} {t t' : Tab} {y : Sys Flash}

theorem Mounted.find_of_info (h : Mounted c y t) {f : Fid} {i : FileInfo}
    (hi : (memServe c (.info f) y).1 = .ok (.info i)) :
    ∃ o, t.find c f.id = some o ∧ i = t.fileInfo o := by
  cases hf : t.find c f.id with
  | none =>
    rw [h.no_info hf] at hi
    cases hi
  | some o =>
    rw [h.info hf] at hi
    cases hi
    exact ⟨o, rfl, rfl⟩

theorem Mounted.written (h : Mounted c y t) {a : WriteArgs c.toConfig}
    (hok : (memServe c (.write a) y).1 = .ok .done) :
    ∃ t', t.writeArgs c (some c.eraseVal) a = .ok t' ∧
      Mounted c (memServe c (.write a) y).2 t' := by
  obtain ⟨h1, h2⟩ := h.serve (.write a)
  rw [hok] at h1
  unfold Tab.serve at h1 h2
  dsimp only at h1 h2
  cases hw : t.writeArgs c (some c.eraseVal) a with
  | error e =>
    rw [hw] at h1
    cases h1
  | ok t' =>
    rw [hw] at h2
    exact ⟨t', rfl, h2⟩

theorem Layout.same_in_place (hl : Layout c t none) (hf : t.find c fid = some o)
    {b : BlockMeta} (hT : Target c t o m b)
    (hd : t.writeData c fill m b dataSize offset data = .ok (m', dl)) (hid : m'.id = fid)
    (hl' : Layout c (t.update c fill m'.lblock b (t.table (some o) o m') dl) none) {g : Nat}
    (hg : g ≠ 0) (hne : g ≠ fid) :
    t.Same c (t.update c fill m'.lblock b (t.table (some o) o m') dl) g := by
  have hother : ∀ k, k ≠ o → (t.update c fill m'.lblock b (t.table (some o) o m') dl).fm k =
      t.fm k := fun k hk =>
    (Tab.table_ne hk).trans (if_neg fun he => hk (Option.some.inj he).symm)
  refine same_of_kept hl' hg (fun k hk hkid => ?_) fun k hk hkid => ?_
  · by_cases hko : k = o
    · subst hko
      rw [show (t.update c fill m'.lblock b (t.table (some k) k m') dl).fm k = m' from
        Tab.table_self] at hkid
      exact absurd (hkid.symm.trans hid) hne
    · rwa [hother k hko] at hkid
  · have hko : k ≠ o := by
      intro h
      subst h
      exact hne (hkid.symm.trans (Tab.find_some hf).2)
    exact hT.kept hl hd hk hko (fun he => hko (Option.some.inj he).symm)
      (FileMeta.used_of_id (hkid ▸ hg))

/-- A write leaves old data behind its end as it was: there is none, or it is what
the write makes of it, the rest of the last program unit and then erased bytes. -/
def WriteKeeps (c : Cfg) (old : List UInt8) (a : WriteArgs c.toConfig) : Prop :=
  a.dataSize = 0 ∨ ∀ j v, a.offset + a.dataSize ≤ j → old[j]? = some v →
    v = if j < a.offset + c.aligned a.dataSize then a.data (j - a.offset) else c.eraseVal

/-- **A write in a file** replaces its bytes, sets the size and leaves the other files
alone, if and only if it keeps what is behind it. -/
theorem write_positional (c : Cfg) (y : Sys Flash) (hy : (memLts c).Reachable y)
    (a : WriteArgs c.toConfig) (i : FileInfo) (old : List UInt8)
    (htr : a.flags &&& flagTruncate = 0) (hi : (memServe c (.info a.fid) y).1 = .ok (.info i))
    (hold : contents c y a.fid = some old) (hoff : a.offset ≤ i.sizeCurrent)
    (hok : (memServe c (.write a) y).1 = .ok .done) :
    (contents c (memServe c (.write a) y).2 a.fid =
        some (patched old a.offset a.dataSize a.data) ∧
      (memServe c (.info a.fid) (memServe c (.write a) y).2).1 =
        .ok (.info { i with sizeCurrent := max i.sizeCurrent (a.offset + a.dataSize) }) ∧
      ∀ g : Fid, g.id ≠ a.fid.id → SameFile c y (memServe c (.write a) y).2 g) ↔
    WriteKeeps c old a := by
  obtain ⟨t, ht⟩ := reachable_mounted hy
  obtain ⟨o, hf, rfl⟩ := ht.find_of_info hi
  obtain ⟨t', hw, ht'⟩ := ht.written hok
  have hold' : t.contents o = old := Option.some.inj ((ht.contents hf).symm.trans hold)
  subst hold'
  obtain ⟨ho, hou, hoid⟩ := Tab.find_used a.fid.valid hf
  have hoff : a.offset ≤ (t.fm o).curSize := hoff
  have hl : t.lookup c a.fid.id a.flags (c.aligned a.maxSize) = .ok (some o, some (o, t.fm o)) := by
    unfold Tab.lookup
    rw [hf]
    exact if_neg (not_not.2 htr)
  obtain ⟨m', dl, hd, rfl⟩ := Tab.write_reuse hl hw
  have hT : Target c t o (t.fm o) (t.bm (t.fm o).lblock) := ht.layout.writeTarget a.fid.valid hl rfl
  obtain ⟨hm', _⟩ := Tab.writeData_cases hd
  have hmid : m'.id = a.fid.id := (congrArg FileMeta.id hm').trans hoid
  have hself : (t.update c (some c.eraseVal) m'.lblock (t.bm (t.fm o).lblock)
      (t.table (some o) o m') dl).fm o = m' := Tab.table_self
  have hfind := ht'.layout.find_eq a.fid.valid ho ((congrArg FileMeta.id hself).trans hmid)
  have hcur : m'.curSize = if a.dataSize = 0 then (t.fm o).curSize else
      max (t.fm o).curSize (a.offset + a.dataSize) := congrArg FileMeta.curSize hm'
  have hcur' : m'.curSize = max (t.fm o).curSize (a.offset + a.dataSize) := by
    split at hcur <;> omega
  have hinfo : (memServe c (.info a.fid) (memServe c (.write a) y).2).1 = .ok (.info
      { t.fileInfo o with sizeCurrent := max (t.fm o).curSize (a.offset + a.dataSize) }) := by
    rw [ht'.info hfind]
    unfold Tab.fileInfo
    rw [hself, hcur', hm']
  have hsame : ∀ g : Fid, g.id ≠ a.fid.id → SameFile c y (memServe c (.write a) y).2 g :=
    fun g hg => ht.sameFile ht'
      (ht.layout.same_in_place hf hT hd hmid ht'.layout g.valid hg)
  have hget := contents_in_place c.eraseVal (some o) hT a.buffer hoff hd
  have hpatch := @patched_getElem? (t.contents o) a.offset a.dataSize a.data
    (by rw [Tab.length_contents]; exact hoff)
  have hlen : (t.contents o).length = (t.fm o).curSize := Tab.length_contents
  have hle := Config.le_aligned a.buffer
  rw [ht'.contents hfind]
  constructor
  · intro h
    obtain ⟨hc, _⟩ := h
    have hc := Option.some.inj hc
    by_cases h0 : a.dataSize = 0
    · exact .inl h0
    · refine .inr fun j v hj hv => ?_
      have hjc : j < (t.fm o).curSize := hlen ▸ (List.getElem?_eq_some_iff.1 hv).1
      have hj' := (hget j).symm.trans ((congrArg (·[j]?) hc).trans (hpatch j))
      rw [if_neg (show ¬ (j < a.offset ∨ a.dataSize = 0) by omega), if_neg (show ¬ j < a.offset by omega),
        if_neg (show ¬ j < a.offset + a.dataSize by omega), hv] at hj'
      split at hj'
      · next h1 =>
        rw [if_pos h1.1]
        exact (Option.some.inj hj').symm
      · next h1 =>
        rw [if_neg (by omega)]
        exact (Option.some.inj hj').symm
  · intro hkeep
    refine ⟨congrArg some (List.ext_getElem? fun j => ?_), hinfo, hsame⟩
    rw [hget j, hpatch j]
    by_cases h1 : j < a.offset
    · rw [if_pos (.inl h1), if_pos h1]
    rw [if_neg h1]
    rcases hkeep with h0 | hkeep
    · rw [if_pos (.inr h0), if_neg (by omega)]
    by_cases h0 : a.dataSize = 0
    · rw [if_pos (.inr h0), if_neg (by omega)]
    rw [if_neg (by omega)]
    by_cases h2 : j < a.offset + a.dataSize
    · rw [if_pos h2, if_pos (by omega)]
    rw [if_neg h2]
    by_cases h3 : j < (t.fm o).curSize
    · have hv : (t.contents o)[j]? = some (t.contents o)[j] := List.getElem?_eq_getElem (by omega)
      have hk := hkeep j _ (by omega) hv
      rw [hv, hk]
      split
      · next h4 => rw [if_pos h4.1]
      · next h4 => rw [if_neg (by omega)]
    · rw [if_neg (by omega), if_neg h3, List.getElem?_eq_none (by omega)]

/-- A write of `l` in file `f`. -/
def patchArgs (f : Fid) (flags offset : Nat) (l : List UInt8) (hf : flags < 2 ^ 32)
    (hl : Buffer smallCfg.toConfig l.length) : WriteArgs smallCfg.toConfig where
  fid := f
  flags := flags
  maxSize := 5
  dataSize := l.length
  offset := offset
  data k := l.getD k 0
  flags_lt := hf
  buffer := hl

/-- The table with the two files, and after a write at the end of file 8 and one at its
start. -/
theorem afterTwo_table :
    let t := ((Tab.fresh smallCfg (some 0xFF)).serveAll smallCfg (some 0xFF) (twoFiles 1)).2
    let tail := t.serve smallCfg (some 0xFF)
      (.write (patchArgs fid8 0 2 [9, 9, 9] (by decide) (by decide)))
    let start := t.serve smallCfg (some 0xFF)
      (.write (patchArgs fid8 0 0 [9] (by decide) (by decide)))
    (t.serve smallCfg (some 0xFF) (.info fid8)).1 = .ok (.info ⟨5, 5, 0⟩) ∧
      t.find smallCfg fid8.id = some 2 ∧ t.contents 2 = [1, 2, 3, 4, 5] ∧
      (t.fm 2).maxSize ≠ 0 ∧ tail.1 = .ok .done ∧ start.1 = .ok .done ∧
      start.2.find smallCfg fid8.id = some 2 ∧ start.2.contents 2 ≠ [9, 2, 3, 4, 5] := by
  decide +kernel

theorem afterTwo_info :
    (memServe smallCfg (.info fid8) (afterTwo 1)).1 = .ok (.info ⟨5, 5, 0⟩) := by
  rw [((afterTwo_mounted 1).serve (.info fid8)).1]
  exact afterTwo_table.1

theorem afterTwo_contents : contents smallCfg (afterTwo 1) fid8 = some [1, 2, 3, 4, 5] := by
  obtain ⟨-, hf, hc, -⟩ := afterTwo_table
  rw [(afterTwo_mounted 1).contents hf, hc]

theorem afterTwo_reachable (n : Nat) : (memLts smallCfg).Reachable (afterTwo n) :=
  reachable_serveAll (twoFiles n) (.init (booted_init smallCfg))

/-- The end of the file is replaced. -/
theorem write_positional_tail :
    contents smallCfg (memServe smallCfg (.write (patchArgs fid8 0 2 [9, 9, 9] (by decide) (by decide)))
      (afterTwo 1)).2 fid8 = some [1, 2, 9, 9, 9] := by
  have hiff := write_positional smallCfg (afterTwo 1) (afterTwo_reachable 1)
    (patchArgs fid8 0 2 [9, 9, 9] (by decide) (by decide)) ⟨5, 5, 0⟩ [1, 2, 3, 4, 5] (by decide)
    afterTwo_info afterTwo_contents (by decide) (by
      rw [((afterTwo_mounted 1).serve _).1]
      exact afterTwo_table.2.2.2.2.1)
  refine (hiff.2 (.inr fun j v hj hv => ?_)).1
  have hlt := (List.getElem?_eq_some_iff.1 hv).1
  have hj : 5 ≤ j := hj
  exact absurd hlt (by simpa using hj)

/-- A write at the start of a file erases the rest. -/
theorem write_drops_tail : ¬ ∀ (c : Cfg) (y : Sys Flash) (a : WriteArgs c.toConfig) (i : FileInfo)
    (old : List UInt8), (memLts c).Reachable y → a.flags &&& flagTruncate = 0 →
    (memServe c (.info a.fid) y).1 = .ok (.info i) → contents c y a.fid = some old →
    a.offset ≤ i.sizeCurrent → a.offset + a.dataSize ≤ i.sizeMax →
    (memServe c (.write a) y).1 = .ok .done →
    contents c (memServe c (.write a) y).2 a.fid =
        some (patched old a.offset a.dataSize a.data) ∧
      (memServe c (.info a.fid) (memServe c (.write a) y).2).1 =
        .ok (.info { i with sizeCurrent := max i.sizeCurrent (a.offset + a.dataSize) }) ∧
      ∀ g : Fid, g.id ≠ a.fid.id → SameFile c y (memServe c (.write a) y).2 g := by
  intro h
  obtain ⟨-, -, -, -, -, hdone, hf, hstart⟩ := afterTwo_table
  have hm := (afterTwo_mounted 1).serve (.write (patchArgs fid8 0 0 [9] (by decide) (by decide)))
  have hc := (h smallCfg (afterTwo 1) (patchArgs fid8 0 0 [9] (by decide) (by decide)) ⟨5, 5, 0⟩
    [1, 2, 3, 4, 5] (afterTwo_reachable 1) (by decide) afterTwo_info afterTwo_contents (by decide)
    (by decide) (hm.1.trans hdone)).1
  exact hstart (Option.some.inj ((hm.2.contents hf).symm.trans hc))

end Positional

/-! ## Entries, wherever their data is -/

section Entries

variable {c : Cfg} {t t' : Tab} {fill : Option UInt8} {b : BlockMeta} {m : FileMeta}
  {fid flags maxSize dataSize offset g k i o new : Nat} {data : Nat → UInt8} {old : Option Nat}

theorem Tab.reserve_new (hr : t.reserve c fid flags maxSize old none = .ok (new, m, b)) :
    new < c.maxNumFiles ∧ (t.fm new).used = false ∧ m.curSize = 0 ∧ m.maxSize = maxSize ∧
      m.flags = flags ∧ m.id = fid ∧ freeBlock t.bm maxSize c.numActiveDblocks 0 = some m.lblock := by
  unfold Tab.reserve at hr
  dsimp only at hr
  split at hr
  · cases hr
  · split at hr
    · next l i hb hi =>
      cases hr
      obtain ⟨_, h1, h2, _⟩ := freeIdx_some _ hi
      exact ⟨by omega, h2, rfl, rfl, rfl, rfl, hb⟩
    · cases hr

theorem Tab.reserve_place {old : Option Nat} {new : Nat} {m : FileMeta} {b : BlockMeta}
    (hr : t.reserve c fid flags maxSize old none = .ok (new, m, b)) :
    m.dataIdx = t.dataEnd c m.lblock ∧ m.maxSize ≤ (t.bm m.lblock).freeSize ∧
      b = { t.bm m.lblock with freeSize := (t.bm m.lblock).freeSize - m.maxSize } := by
  unfold Tab.reserve at hr
  dsimp only at hr
  split at hr
  · cases hr
  · split at hr
    · next l i hb hi =>
      cases hr
      exact ⟨rfl, (freeBlock_some _ hb).2.2, rfl⟩
    · cases hr

theorem Tab.write_new (hl : t.lookup c fid flags (c.aligned maxSize) = .ok (old, none))
    (hold : ∀ o, old = some o → (t.fm o).used = true)
    (hw : t.write c fill fid flags maxSize dataSize offset data = .ok t') :
    ∃ new m b m' dl, t.reserve c fid flags (c.aligned maxSize) old none = .ok (new, m, b) ∧
      t.writeData c fill m b dataSize offset data = .ok (m', dl) ∧
      t.firstUpdate c fill fid flags maxSize dataSize offset data =
        .ok (t.update c fill m'.lblock b (t.table old new m') dl, old) ∧
      t' = old.elim (t.update c fill m'.lblock b (t.table old new m') dl)
        ((t.update c fill m'.lblock b (t.table old new m') dl).deleteIdx c fill) := by
  obtain ⟨t1, del, hu, rfl⟩ := Tab.write_eq hw
  obtain ⟨_, old', reuse, new, m, b, m', dl, hl', hr, hd, rfl, rfl⟩ := Tab.firstUpdate_eq hu
  obtain ⟨rfl, rfl⟩ : old = old' ∧ reuse = none := by
    rw [hl] at hl'
    cases hl'
    exact ⟨rfl, rfl⟩
  have hf : old.filter (· ≠ new) = old := by
    cases old with
    | none => rfl
    | some o =>
      have hne : o ≠ new := by
        intro h
        subst h
        have h1 := hold o rfl
        rw [(Tab.reserve_new hr).2.1] at h1
        cases h1
      simp [hne]
  rw [hf] at hu ⊢
  exact ⟨new, m, b, m', dl, hr, hd, hu, rfl⟩

/-- The entry `k` is what it was, but for its place. -/
structure SameEntry (t t' : Tab) (k : Nat) : Prop where
  id : (t'.fm k).id = (t.fm k).id
  cur : (t'.fm k).curSize = (t.fm k).curSize
  size : (t'.fm k).maxSize = (t.fm k).maxSize
  flags : (t'.fm k).flags = (t.fm k).flags

theorem SameEntry.of_fm (h : t'.fm k = t.fm k) : SameEntry t t' k :=
  ⟨by rw [h], by rw [h], by rw [h], by rw [h]⟩

theorem SameEntry.trans {t'' : Tab} (h : SameEntry t t' k) (h' : SameEntry t' t'' k) :
    SameEntry t t'' k :=
  ⟨h'.id.trans h.id, h'.cur.trans h.cur, h'.size.trans h.size, h'.flags.trans h.flags⟩

theorem sameEntry_deleteIdx (h : k ≠ i) : SameEntry t (t.deleteIdx c fill i) k := by
  have hfm : (t.deleteIdx c fill i).fm k =
      shifted (t.fm i).lblock (t.fm i).dataIdx (t.fm i).maxSize (t.fm k) := by
    rw [Tab.deleteIdx_fm, if_neg h]
  unfold shifted at hfm
  split at hfm
  · exact ⟨by rw [hfm], by rw [hfm], by rw [hfm], by rw [hfm]⟩
  · exact .of_fm hfm

theorem info_of_same (hl' : Layout c t' none) (hg : g ≠ 0)
    (hids : ∀ k, k < c.maxNumFiles → (t'.fm k).id = g → (t.fm k).id = g)
    (hsame : ∀ k, k < c.maxNumFiles → (t.fm k).id = g → SameEntry t t' k) :
    t'.info c g = t.info c g := by
  unfold Tab.info
  cases hf : t.find c g with
  | none =>
    have hf' : t'.find c g = none := by
      cases hf' : t'.find c g with
      | none => rfl
      | some k =>
        obtain ⟨h1, h2⟩ := Tab.find_some hf'
        exact absurd (hids k h1 h2) (Tab.find_none hf h1)
    rw [hf']
  | some k =>
    obtain ⟨h1, h2⟩ := Tab.find_some hf
    have hk := hsame k h1 h2
    rw [hl'.find_eq hg h1 (hk.id.trans h2)]
    dsimp only
    rw [hk.cur, hk.size, hk.flags]

theorem deleteIdx_id (hk : ((t.deleteIdx c fill i).fm k).id = g) (hg : g ≠ 0) :
    k ≠ i ∧ (t.fm k).id = g := by
  have hne : k ≠ i := by
    intro h
    subst h
    rw [Tab.deleteIdx_fm, if_pos rfl] at hk
    exact hg hk.symm
  exact ⟨hne, (sameEntry_deleteIdx hne).id.symm.trans hk⟩

theorem Layout.info_delete (hl : Layout c t none) (hfid : fid ≠ 0) (hf : t.find c fid = some i)
    (hg : g ≠ 0) (hne : g ≠ fid) : (t.deleteIdx c fill i).info c g = t.info c g := by
  obtain ⟨hi, hu, hid⟩ := Tab.find_used hfid hf
  refine info_of_same (hl.deleteIdx hi hu (.inl rfl)) hg (fun k _ hk => (deleteIdx_id hk hg).2)
    fun k _ hk => sameEntry_deleteIdx ?_
  intro h
  subst h
  exact hne (hk.symm.trans hid)

theorem Tab.reserve_id {old : Option Nat} {reuse : Option (Nat × FileMeta)} {new : Nat} {m : FileMeta}
    {b : BlockMeta} (hl : t.lookup c fid flags maxSize = .ok (old, reuse))
    (hr : t.reserve c fid flags maxSize old reuse = .ok (new, m, b)) :
    new < c.maxNumFiles ∧ m.id = fid ∧ ((t.fm new).id = fid ∨ (t.fm new).id = 0) := by
  cases reuse with
  | some im =>
    cases hr
    obtain ⟨_, hf, hm, _⟩ := Tab.lookup_reuse hl
    obtain ⟨h1, h2⟩ := Tab.find_some hf
    rw [hm]
    exact ⟨h1, h2, .inl h2⟩
  | none =>
    obtain ⟨h1, h2, _, _, _, h3, _⟩ := Tab.reserve_new hr
    exact ⟨h1, h3, .inr (by simpa [FileMeta.used] using h2)⟩

/-- **What is told of the files after a write.** -/
theorem Layout.write_entry {t' : Tab} (hl : Layout c t none) (ha : Args c.toConfig fid flags dataSize)
    (hw : t.write c fill fid flags maxSize dataSize offset data = .ok t') :
    (∃ old reuse new m b m' dl, t.lookup c fid flags (c.aligned maxSize) = .ok (old, reuse) ∧
      t.reserve c fid flags (c.aligned maxSize) old reuse = .ok (new, m, b) ∧
      t.writeData c fill m b dataSize offset data = .ok (m', dl) ∧
      t'.info c fid = .ok (.info ⟨m'.curSize, m'.maxSize, m'.flags &&& userFlagsMask⟩)) ∧
    ∀ g, g ≠ 0 → g ≠ fid → t'.info c g = t.info c g := by
  have hl' := hl.write ha hw
  obtain ⟨t1, del, hu, rfl⟩ := Tab.write_eq hw
  obtain ⟨_, old, reuse, new, m, b, m', dl, hlk, hr, hd, ht1, hdel⟩ := Tab.firstUpdate_eq hu
  obtain ⟨hnew, hmid, hplace⟩ := Tab.reserve_id hlk hr
  obtain ⟨hm', _⟩ := Tab.writeData_cases hd
  have hself : t1.fm new = m' := by
    rw [ht1]
    exact Tab.table_self
  have hid1 : (t1.fm new).id = fid := by
    rw [hself, hm']
    exact hmid
  have hold : ∀ o, old = some o → (t.fm o).id = fid := by
    intro o h
    subst h
    exact (Tab.find_some (Tab.lookup_some hlk).1).2
  have hfm1 : ∀ k, k ≠ new → old ≠ some k → t1.fm k = t.fm k := by
    intro k h1 h2
    rw [ht1]
    exact (Tab.table_ne h1).trans (if_neg h2)
  have hidt : ∀ k, k ≠ new → (t1.fm k).id = (t.fm k).id := by
    intro k hk
    rw [ht1]
    refine (congrArg FileMeta.id (Tab.table_ne hk)).trans ?_
    split <;> rfl
  -- the deletion of the old file comes last
  have hlast : ∀ k, del ≠ some k → SameEntry t1 (del.elim t1 (t1.deleteIdx c fill)) k := by
    intro k hk
    cases del with
    | none => exact .of_fm rfl
    | some o => exact sameEntry_deleteIdx fun he => hk (congrArg some he.symm)
  have hlast' : ∀ k g, g ≠ 0 → ((del.elim t1 (t1.deleteIdx c fill)).fm k).id = g →
      (t1.fm k).id = g := by
    intro k g hg hk
    cases del with
    | none => exact hk
    | some o => exact (deleteIdx_id hk hg).2
  have hnd : del ≠ some new := by
    rw [hdel]
    intro he
    have := (Option.filter_eq_some_iff.1 he).2
    simp at this
  refine ⟨⟨old, reuse, new, m, b, m', dl, hlk, hr, hd, ?_⟩, fun g hg hne => ?_⟩
  · have hsame := hlast new hnd
    unfold Tab.info
    rw [hl'.find_eq ha.valid hnew (hsame.id.trans hid1)]
    dsimp only
    rw [hsame.cur, hsame.size, hsame.flags, hself]
  · refine info_of_same hl' hg (fun k _ hk => ?_) fun k _ hk => ?_
    · have hk1 := hlast' k g hg hk
      by_cases hkn : k = new
      · subst hkn
        exact absurd (hk1.symm.trans hid1) hne
      · exact (hidt k hkn).symm.trans hk1
    · have hkn : k ≠ new := by
        intro h
        subst h
        rcases hplace with h0 | h0
        · exact hne (hk.symm.trans h0)
        · exact hg (hk.symm.trans h0)
      have hko : old ≠ some k := fun ho => hne (hk.symm.trans (hold k ho))
      have hkd : del ≠ some k := by
        rw [hdel]
        intro he
        exact hko (Option.filter_eq_some_iff.1 he).1
      exact (SameEntry.of_fm (hfm1 k hkn hko)).trans (hlast k hkd)

theorem Layout.info_created {t' : Tab} (hl : Layout c t none)
    (ha : Args c.toConfig fid flags dataSize)
    (hw : t.write c fill fid flags maxSize dataSize offset data = .ok t')
    (hnew : t.find c fid = none ∨ flags &&& flagTruncate ≠ 0) :
    t'.info c fid = .ok (.info ⟨dataSize, c.aligned maxSize, flags &&& userFlagsMask⟩) := by
  obtain ⟨⟨old, reuse, new, m, b, m', dl, hlk, hr, hd, hinfo⟩, _⟩ := hl.write_entry ha hw
  obtain ⟨hm', hdl⟩ := Tab.writeData_cases hd
  have hm : m.curSize = 0 ∧ m.maxSize = c.aligned maxSize ∧ m.flags = flags := by
    cases reuse with
    | none =>
      obtain ⟨_, _, h1, h2, h3, _, _⟩ := Tab.reserve_new hr
      exact ⟨h1, h2, h3⟩
    | some im =>
      cases hr
      unfold Tab.lookup at hlk
      cases hf : t.find c fid with
      | none =>
        rw [hf] at hlk
        dsimp only at hlk
        split at hlk <;> cases hlk
      | some o =>
        have htr := hnew.resolve_left (by rw [hf]; nofun)
        rw [hf] at hlk
        dsimp only at hlk
        rw [if_pos htr] at hlk
        split at hlk
        · next hsize =>
          cases hlk
          exact ⟨rfl, hsize, rfl⟩
        · cases hlk
  obtain ⟨h0, hsize, hflags⟩ := hm
  rw [hinfo, hm']
  dsimp only
  rw [hsize, hflags, h0]
  congr 3
  rcases hdl with ⟨hz, _⟩ | ⟨hz, hoff, _⟩
  · rw [if_pos hz, hz]
  · rw [if_neg hz]
    omega

theorem Layout.info_appended {t' : Tab} {n size uflags : Nat} (hl : Layout c t none)
    (ha : Args c.toConfig fid flags dataSize)
    (hw : t.write c fill fid flags maxSize dataSize n data = .ok t')
    (hinfo : t.info c fid = .ok (.info ⟨n, size, uflags⟩)) (htr : flags &&& flagTruncate = 0) :
    t'.info c fid = .ok (.info ⟨n + dataSize, size, uflags⟩) := by
  obtain ⟨⟨old, reuse, new, m, b, m', dl, hlk, hr, hd, hinfo'⟩, _⟩ := hl.write_entry ha hw
  obtain ⟨hm', _⟩ := Tab.writeData_cases hd
  unfold Tab.info at hinfo
  cases hf : t.find c fid with
  | none =>
    rw [hf] at hinfo
    cases hinfo
  | some o =>
    rw [hf] at hinfo
    obtain ⟨h1, h2, h3⟩ : (t.fm o).curSize = n ∧ (t.fm o).maxSize = size ∧
        (t.fm o).flags &&& userFlagsMask = uflags := by
      simpa using hinfo
    unfold Tab.lookup at hlk
    rw [hf] at hlk
    dsimp only at hlk
    rw [if_neg (not_not.2 htr)] at hlk
    cases hlk
    cases hr
    rw [hinfo', hm']
    dsimp only
    rw [h1, h2, h3]
    congr 3
    split <;> omega

end Entries

/-! ## Files that are created, truncated and appended to -/

section RoundTrip

variable {c : Cfg} {t t' : Tab} {fill : Option UInt8} {fid flags maxSize dataSize offset o new : Nat}
  {data : Nat → UInt8} {m m' : FileMeta} {b : BlockMeta} {dl : Option (Nat → Option UInt8)}
  {old : Option Nat}

theorem contents_fresh {ev : UInt8} (old : Option Nat) (h : Target c t new m b)
    (hbuf : Buffer c.toConfig dataSize)
    (h0 : m.curSize = 0) (hd : t.writeData c (some ev) m b dataSize offset data = .ok (m', dl)) :
    m'.curSize = dataSize ∧
      (t.update c (some ev) m'.lblock b (t.table old new m') dl).contents new =
        (List.range dataSize).map data := by
  obtain ⟨hm', hdl⟩ := Tab.writeData_cases hd
  have hcur : m'.curSize = if dataSize = 0 then m.curSize else max m.curSize (offset + dataSize) :=
    congrArg FileMeta.curSize hm'
  have hsize : m'.curSize = dataSize := by
    rcases hdl with ⟨hz, _⟩ | ⟨hz, hoff, _⟩
    · rw [hcur, if_pos hz, h0, hz]
    · rw [hcur, if_neg hz]
      omega
  have hle := Config.le_aligned hbuf
  refine ⟨hsize, List.ext_getElem? fun j => ?_⟩
  by_cases hj : j < dataSize
  · have hoff : offset = 0 := by
      rcases hdl with ⟨hz, _⟩ | ⟨_, hoff, _⟩
      · omega
      · omega
    rw [contents_own h hbuf hd (by omega), if_neg (by omega), if_pos (by omega), List.getElem?_map,
      List.getElem?_range hj, hoff]
    rfl
  · rw [List.getElem?_eq_none (by rw [length_contents_own]; omega),
      List.getElem?_eq_none (by rw [List.length_map, List.length_range]; omega)]

/-- Where a file is replaced by one of another size, the deletion of the old one finds
the later files: it takes room, or nothing has contents in its place or behind it, the
new file included. -/
def ReplacesSafely (c : Cfg) (t : Tab) (a : WriteArgs c.toConfig) : Prop :=
  ∀ o, t.find c a.fid.id = some o → a.flags &&& flagTruncate ≠ 0 →
    (t.fm o).maxSize ≠ c.aligned a.maxSize →
    DeleteSafe c t o ∧ ((t.fm o).maxSize ≠ 0 ∨ a.dataSize = 0 ∨
      freeBlock t.bm (c.aligned a.maxSize) c.numActiveDblocks 0 ≠ some (t.fm o).lblock)

theorem SameTable.replacesSafely {u : Tab} (h : SameTable c t u) {a : WriteArgs c.toConfig}
    (hs : ReplacesSafely c t a) : ReplacesSafely c u a := by
  intro o ho htr hne
  have ho' := (h.find a.fid.id).trans ho
  have hin := (Tab.find_some ho).1
  have hsafe := hs o ho' htr
  unfold DeleteSafe at hsafe ⊢
  rw [h.fm o hin, freeBlock_congr u.bm _ fun k _ hk => h.bm k (by omega)] at hsafe
  obtain ⟨h1, h2⟩ := hsafe hne
  exact ⟨h1.imp id fun hno k hk => h.fm k hk ▸ hno k hk, h2⟩

theorem Tab.lookup_old {a : WriteArgs c.toConfig} {reuse : Option (Nat × FileMeta)}
    (hl : t.lookup c a.fid.id a.flags maxSize = .ok (some o, reuse)) :
    o < c.maxNumFiles ∧ (t.fm o).used = true ∧ (t.fm o).id = a.fid.id :=
  Tab.find_used a.fid.valid (Tab.lookup_some hl).1

/-- The deletion of the old file, after the new one was written, finds the later files. -/
theorem deleteSafe_update (hu : (t.fm new).used = false) (ho : (t.fm o).used = true)
    (hd : t.writeData c fill m b dataSize offset data = .ok (m', dl)) (h0 : m.curSize = 0)
    (h1 : DeleteSafe c t o)
    (h2 : (t.fm o).maxSize ≠ 0 ∨ dataSize = 0 ∨ m.lblock ≠ (t.fm o).lblock) :
    DeleteSafe c (t.update c fill m'.lblock b (t.table (some o) new m') dl) o := by
  obtain ⟨hm', _⟩ := Tab.writeData_cases hd
  have hno : o ≠ new := by
    intro h
    subst h
    rw [hu] at ho
    cases ho
  have hmark : (t.update c fill m'.lblock b (t.table (some o) new m') dl).fm o = (t.fm o).marked :=
    (Tab.table_ne hno).trans (if_pos rfl)
  unfold DeleteSafe
  rw [hmark]
  by_cases hz : (t.fm o).maxSize = 0
  · have h1 := h1.resolve_left (not_not.2 hz)
    have h2 := h2.resolve_left (not_not.2 hz)
    refine .inr fun k hk hne hku hlb hidx => ?_
    by_cases hkn : k = new
    · subst hkn
      have hself : (t.update c fill m'.lblock b (t.table (some o) k m') dl).fm k = m' :=
        Tab.table_self
      rw [hself] at hlb ⊢
      have hlb' : m.lblock = (t.fm o).lblock := by
        rw [hm'] at hlb
        exact hlb
      rw [hm', if_pos (h2.resolve_right fun hn => hn hlb')]
      exact h0
    · have hfm : (t.update c fill m'.lblock b (t.table (some o) new m') dl).fm k = t.fm k :=
        (Tab.table_ne hkn).trans (if_neg fun he => hne (Option.some.inj he).symm)
      rw [hfm] at hku hlb hidx ⊢
      exact h1 k hk hne hku hlb hidx
  · exact .inl hz

/-- The deletion of the old file leaves the new one alone: the old file takes room, or
the new one has no data, or is in another block. -/
def KeepsNew (c : Cfg) (t : Tab) (o maxSize dataSize : Nat) : Prop :=
  (t.fm o).maxSize ≠ 0 ∨ dataSize = 0 ∨
    freeBlock t.bm maxSize c.numActiveDblocks 0 ≠ some (t.fm o).lblock

/-- The file that is created, or replaced by one of another size. -/
theorem Layout.contents_new {ev : UInt8} (hl : Layout c t none)
    (ha : Args c.toConfig fid flags dataSize)
    (hlk : t.lookup c fid flags (c.aligned maxSize) = .ok (old, none))
    (hkeep : ∀ o, old = some o → KeepsNew c t o (c.aligned maxSize) dataSize)
    (hw : t.write c (some ev) fid flags maxSize dataSize offset data = .ok t') :
    ∃ k, t'.find c fid = some k ∧ t'.contents k = (List.range dataSize).map data := by
  have holdf : ∀ o, old = some o → (t.fm o).used = true := by
    intro o h
    subst h
    exact (Tab.find_used ha.valid (Tab.lookup_some hlk).1).2.1
  have hl' := hl.write ha hw
  obtain ⟨new, m, b, m', dl, hr, hd, hu, rfl⟩ := Tab.write_new hlk holdf hw
  obtain ⟨hnew, hunused, h0, _, _, hid, hblock⟩ := Tab.reserve_new hr
  obtain ⟨_, hcont⟩ := contents_fresh old (hl.writeTarget ha.valid hlk hr) ha.buffer h0 hd
  obtain ⟨hm', _⟩ := Tab.writeData_cases hd
  have hself : (t.update c (some ev) m'.lblock b (t.table old new m') dl).fm new = m' :=
    Tab.table_self
  have hmid : m'.id = fid := (congrArg FileMeta.id hm').trans hid
  cases old with
  | none => exact ⟨new, hl'.find_eq ha.valid hnew ((congrArg FileMeta.id hself).trans hmid), hcont⟩
  | some o =>
    have hl1 := hl.firstUpdate ha hu
    obtain ⟨ho, hou⟩ := hl1.target o rfl
    have hno : new ≠ o := by
      intro h
      subst h
      exact absurd (holdf new rfl) (by simp [hunused])
    have hmark : (t.update c (some ev) m'.lblock b (t.table (some o) new m') dl).fm o =
        (t.fm o).marked := (Tab.table_ne hno.symm).trans (if_pos rfl)
    have hkept : Kept (t.update c (some ev) m'.lblock b (t.table (some o) new m') dl)
        ((t.update c (some ev) m'.lblock b (t.table (some o) new m') dl).deleteIdx c (some ev) o)
        new := by
      have hused : ((t.update c (some ev) m'.lblock b (t.table (some o) new m') dl).fm new).used =
          true := by
        rw [hself]
        exact FileMeta.used_of_id (hmid ▸ ha.valid)
      refine hl1.kept_one ho hou hnew hno hused ?_
      rw [hself, hmark]
      rcases hkeep o rfl with hz | hz | hb
      · exact .inl hz
      · refine .inr fun _ _ => ?_
        rw [hm', if_pos hz]
        exact h0
      · refine .inr fun hlb _ => absurd hblock ?_
        have hlb : m.lblock = (t.fm o).lblock := by
          rw [hm'] at hlb
          exact hlb
        rwa [hlb]
    exact ⟨new, hl'.find_eq ha.valid hnew ((hkept.id.trans (congrArg FileMeta.id hself)).trans hmid),
      (contents_of_kept hkept).trans hcont⟩

theorem Layout.same_new {g : Nat} (hl : Layout c t none) (ha : Args c.toConfig fid flags dataSize)
    (hlk : t.lookup c fid flags (c.aligned maxSize) = .ok (old, none))
    (hsafe : ∀ o, old = some o → DeleteSafe c t o ∧ KeepsNew c t o (c.aligned maxSize) dataSize)
    (hw : t.write c fill fid flags maxSize dataSize offset data = .ok t') (hg : g ≠ 0)
    (hne : g ≠ fid) : t.Same c t' g := by
  have holdf : ∀ o, old = some o → (t.fm o).used = true ∧ (t.fm o).id = fid := by
    intro o h
    subst h
    exact (Tab.find_used ha.valid (Tab.lookup_some hlk).1).2
  have hl' := hl.write ha hw
  obtain ⟨new, m, b, m', dl, hr, hd, hu, rfl⟩ := Tab.write_new hlk (fun o ho => (holdf o ho).1) hw
  obtain ⟨hnew, hunused, h0, _, _, hid, hblock⟩ := Tab.reserve_new hr
  have hT := hl.writeTarget ha.valid hlk hr
  obtain ⟨hm', _⟩ := Tab.writeData_cases hd
  have hself : (t.update c fill m'.lblock b (t.table old new m') dl).fm new = m' := Tab.table_self
  have hmid : m'.id = fid := (congrArg FileMeta.id hm').trans hid
  -- the entries that stay, in the first update
  have hfm1 : ∀ k, k ≠ new → old ≠ some k →
      (t.update c fill m'.lblock b (t.table old new m') dl).fm k = t.fm k :=
    fun k h1 h2 => (Tab.table_ne h1).trans (if_neg h2)
  have hkept1 : ∀ k, k < c.maxNumFiles → (t.fm k).id = g → old ≠ some k →
      Kept t (t.update c fill m'.lblock b (t.table old new m') dl) k := by
    intro k hk hkid ho
    have hku := FileMeta.used_of_id (hkid ▸ hg)
    refine hT.kept hl hd hk ?_ ho hku
    intro h
    subst h
    rw [hunused] at hku
    cases hku
  have hnotold : ∀ k, (t.fm k).id = g → old ≠ some k :=
    fun k hk ho => hne (hk.symm.trans (holdf k ho).2)
  cases old with
  | none =>
    refine same_of_kept hl' hg (fun k hk hkid => ?_) fun k hk hkid => hkept1 k hk hkid nofun
    by_cases hkn : k = new
    · subst hkn
      exact absurd ((hkid.symm.trans (congrArg FileMeta.id hself)).trans hmid) hne
    · exact (congrArg FileMeta.id (hfm1 k hkn nofun)).symm.trans hkid
  | some o =>
    obtain ⟨hs1, hs2⟩ := hsafe o rfl
    have hl1 := hl.firstUpdate ha hu
    obtain ⟨ho, hou⟩ := hl1.target o rfl
    have hsafe1 : DeleteSafe c (t.update c fill m'.lblock b (t.table (some o) new m') dl) o := by
      refine deleteSafe_update hunused (holdf o rfl).1 hd h0 hs1
        (hs2.imp id (Or.imp id fun hb hlb => hb ?_))
      rw [hblock, hlb]
    refine same_of_kept hl' hg (fun k hk hkid => ?_) fun k hk hkid => ?_
    · obtain ⟨hko, hid1⟩ := deleteIdx_id hkid hg
      by_cases hkn : k = new
      · subst hkn
        exact absurd ((hid1.symm.trans (congrArg FileMeta.id hself)).trans hmid) hne
      · exact (congrArg FileMeta.id (hfm1 k hkn fun he => hko (Option.some.inj he).symm)).symm.trans
          hid1
    · have hk1 := hkept1 k hk hkid (hnotold k hkid)
      have hko : k ≠ o := fun he => hnotold k hkid (congrArg some he.symm)
      exact hk1.trans (hl1.kept_deleteIdx ho hou hsafe1 hk hko
        (FileMeta.used_of_id (hk1.id.trans hkid ▸ hg)))

theorem Layout.contents_truncated {ev : UInt8} (hl : Layout c t none)
    (ha : Args c.toConfig fid flags dataSize) (hf : t.find c fid = some o)
    (htr : flags &&& flagTruncate ≠ 0) (hsize : (t.fm o).maxSize = c.aligned maxSize)
    (hw : t.write c (some ev) fid flags maxSize dataSize offset data = .ok t') :
    t'.find c fid = some o ∧ t'.contents o = (List.range dataSize).map data ∧
      ∀ g, g ≠ 0 → g ≠ fid → t.Same c t' g := by
  have hl' := hl.write ha hw
  obtain ⟨ho, hou, hoid⟩ := Tab.find_used ha.valid hf
  have hlk : t.lookup c fid flags (c.aligned maxSize) =
      .ok (some o, some (o, { t.fm o with curSize := 0, flags := flags })) := by
    unfold Tab.lookup
    rw [hf]
    dsimp only
    rw [if_pos htr, if_pos hsize]
  obtain ⟨m', dl, hd, rfl⟩ := Tab.write_reuse hlk hw
  have hT := hl.writeTarget ha.valid hlk (Eq.refl _)
  obtain ⟨_, hcont⟩ := contents_fresh (some o) hT ha.buffer rfl hd
  obtain ⟨hm', _⟩ := Tab.writeData_cases hd
  have hmid : m'.id = fid := (congrArg FileMeta.id hm').trans hoid
  have hself : (t.update c (some ev) m'.lblock (t.bm (t.fm o).lblock)
      (t.table (some o) o m') dl).fm o = m' := Tab.table_self
  exact ⟨hl'.find_eq ha.valid ho ((congrArg FileMeta.id hself).trans hmid), hcont,
    fun g hg hne => hl.same_in_place hf hT hd hmid hl' hg hne⟩

theorem Layout.contents_appended {ev : UInt8} (hl : Layout c t none)
    (ha : Args c.toConfig fid flags dataSize) (hf : t.find c fid = some o)
    (htr : flags &&& flagTruncate = 0) (hoff : offset = (t.fm o).curSize)
    (hw : t.write c (some ev) fid flags maxSize dataSize offset data = .ok t') :
    t'.find c fid = some o ∧ t'.contents o = t.contents o ++ (List.range dataSize).map data ∧
      ∀ g, g ≠ 0 → g ≠ fid → t.Same c t' g := by
  have hl' := hl.write ha hw
  obtain ⟨ho, hou, hoid⟩ := Tab.find_used ha.valid hf
  have hlk : t.lookup c fid flags (c.aligned maxSize) = .ok (some o, some (o, t.fm o)) := by
    unfold Tab.lookup
    rw [hf]
    exact if_neg (not_not.2 htr)
  obtain ⟨m', dl, hd, rfl⟩ := Tab.write_reuse hlk hw
  have hT : Target c t o (t.fm o) (t.bm (t.fm o).lblock) := hl.writeTarget ha.valid hlk rfl
  obtain ⟨hm', _⟩ := Tab.writeData_cases hd
  have hmid : m'.id = fid := (congrArg FileMeta.id hm').trans hoid
  have hself : (t.update c (some ev) m'.lblock (t.bm (t.fm o).lblock)
      (t.table (some o) o m') dl).fm o = m' := Tab.table_self
  have hcur : m'.curSize = (t.fm o).curSize + dataSize := by
    rw [hm']
    dsimp only
    split <;> omega
  have hlen : (t.contents o).length = (t.fm o).curSize := Tab.length_contents
  have hle := Config.le_aligned ha.buffer
  refine ⟨hl'.find_eq ha.valid ho ((congrArg FileMeta.id hself).trans hmid), ?_,
    fun g hg hne => hl.same_in_place hf hT hd hmid hl' hg hne⟩
  apply List.ext_getElem?
  intro j
  rw [contents_in_place ev (some o) hT ha.buffer (Nat.le_of_eq hoff) hd j]
  by_cases h1 : j < (t.fm o).curSize
  · rw [if_pos (by omega), List.getElem?_append_left (by omega)]
  · rw [List.getElem?_append_right (by omega), hlen, List.getElem?_map]
    by_cases h2 : j < (t.fm o).curSize + dataSize
    · rw [if_neg (by omega), if_pos (by omega), List.getElem?_range (by omega), hoff]
      rfl
    · have hnone : (List.range dataSize)[j - (t.fm o).curSize]? = none :=
        List.getElem?_eq_none (by rw [List.length_range]; omega)
      rw [hnone]
      by_cases h0 : dataSize = 0
      · rw [if_pos (.inr h0), List.getElem?_eq_none (by omega)]
        rfl
      · rw [if_neg (by omega), if_neg (by omega), if_neg (by omega)]
        rfl

theorem Tab.lookup_none (hf : t.find c fid = none)
    (hw : t.write c fill fid flags maxSize dataSize offset data = .ok t') :
    t.lookup c fid flags (c.aligned maxSize) = .ok (none, none) := by
  have hlk : t.lookup c fid flags (c.aligned maxSize) =
      if flags &&& flagCreate = 0 then .error .doesNotExist else .ok (none, none) := by
    unfold Tab.lookup
    rw [hf]
  rw [hlk]
  refine if_neg fun h0 => ?_
  rw [if_pos h0] at hlk
  obtain ⟨_, _, hu, _⟩ := Tab.write_eq hw
  obtain ⟨_, _, _, _, _, _, _, _, hl', _⟩ := Tab.firstUpdate_eq hu
  rw [hlk] at hl'
  cases hl'

/-- **A file that is created or truncated.** -/
theorem Layout.contents_created {ev : UInt8} (hl : Layout c t none)
    (ha : Args c.toConfig fid flags dataSize)
    (hnew : t.find c fid = none ∨ flags &&& flagTruncate ≠ 0)
    (hkeep : ∀ o, t.find c fid = some o → (t.fm o).maxSize ≠ c.aligned maxSize →
      KeepsNew c t o (c.aligned maxSize) dataSize)
    (hw : t.write c (some ev) fid flags maxSize dataSize offset data = .ok t') :
    ∃ k, t'.find c fid = some k ∧ t'.contents k = (List.range dataSize).map data := by
  cases hf : t.find c fid with
  | none => exact hl.contents_new ha (Tab.lookup_none hf hw) nofun hw
  | some o =>
    have htr := hnew.resolve_left (by rw [hf]; nofun)
    by_cases hsize : (t.fm o).maxSize = c.aligned maxSize
    · obtain ⟨h1, h2, _⟩ := hl.contents_truncated ha hf htr hsize hw
      exact ⟨o, h1, h2⟩
    · have hlk : t.lookup c fid flags (c.aligned maxSize) = .ok (some o, none) := by
        unfold Tab.lookup
        rw [hf]
        dsimp only
        rw [if_pos htr, if_neg hsize]
      refine hl.contents_new ha hlk (fun o' ho' => ?_) hw
      cases ho'
      exact hkeep o hf hsize

/-- **The other files after a write** that creates, truncates or appends to a file. -/
theorem Layout.same_write {ev : UInt8} {a : WriteArgs c.toConfig} {g : Nat} (hl : Layout c t none)
    (hsafe : ReplacesSafely c t a)
    (hoff : ∀ o, t.find c a.fid.id = some o → a.flags &&& flagTruncate = 0 →
      a.offset = (t.fm o).curSize)
    (hw : t.writeArgs c (some ev) a = .ok t') (hg : g ≠ 0) (hne : g ≠ a.fid.id) :
    t.Same c t' g := by
  cases hf : t.find c a.fid.id with
  | none => exact hl.same_new a.args (Tab.lookup_none hf hw) nofun hw hg hne
  | some o =>
    by_cases htr : a.flags &&& flagTruncate = 0
    · exact (hl.contents_appended a.args hf htr (hoff o hf htr) hw).2.2 g hg hne
    · by_cases hsize : (t.fm o).maxSize = c.aligned a.maxSize
      · exact (hl.contents_truncated a.args hf htr hsize hw).2.2 g hg hne
      · have hlk : t.lookup c a.fid.id a.flags (c.aligned a.maxSize) = .ok (some o, none) := by
          unfold Tab.lookup
          rw [hf]
          dsimp only
          rw [if_pos htr, if_neg hsize]
        refine hl.same_new a.args hlk (fun o' ho' => ?_) hw hg hne
        cases ho'
        exact hsafe o hf htr hsize

/-- **What is read of a file after a write** that creates it, truncates it or appends to
it, and that the other files are what they were. Flags are those of the write that
created or truncated the file. -/
theorem write_round_trip (c : Cfg) (y : Sys Flash) (hy : (memLts c).Reachable y)
    (a : WriteArgs c.toConfig) (hok : (memServe c (.write a) y).1 = .ok .done)
    (hsafe : ReplacesSafely c (tableOf c y) a) :
    ((memServe c (.info a.fid) y).1 = .error .doesNotExist ∨ a.flags &&& flagTruncate ≠ 0 →
      contents c (memServe c (.write a) y).2 a.fid = some ((List.range a.dataSize).map a.data) ∧
      (memServe c (.info a.fid) (memServe c (.write a) y).2).1 =
        .ok (.info ⟨a.dataSize, c.aligned a.maxSize, a.flags &&& userFlagsMask⟩) ∧
      ∀ g : Fid, g.id ≠ a.fid.id → SameFile c y (memServe c (.write a) y).2 g) ∧
    ∀ i old, a.flags &&& flagTruncate = 0 → (memServe c (.info a.fid) y).1 = .ok (.info i) →
      contents c y a.fid = some old → a.offset = i.sizeCurrent →
      contents c (memServe c (.write a) y).2 a.fid =
        some (old ++ (List.range a.dataSize).map a.data) ∧
      (memServe c (.info a.fid) (memServe c (.write a) y).2).1 =
        .ok (.info { i with sizeCurrent := i.sizeCurrent + a.dataSize }) ∧
      ∀ g : Fid, g.id ≠ a.fid.id → SameFile c y (memServe c (.write a) y).2 g := by
  obtain ⟨t, ht⟩ := reachable_mounted hy
  obtain ⟨t', hw, ht'⟩ := ht.written hok
  have hsafe := ht.table.replacesSafely hsafe
  constructor
  · intro hkind
    have hnew : t.find c a.fid.id = none ∨ a.flags &&& flagTruncate ≠ 0 := by
      refine hkind.imp (fun hno => ?_) id
      cases hf : t.find c a.fid.id with
      | none => rfl
      | some o =>
        rw [ht.info hf] at hno
        cases hno
    have hinfo := ht.layout.info_created a.args hw hnew
    obtain ⟨k, hk, hc⟩ := ht.layout.contents_created a.args hnew (fun o ho hsize =>
      (hsafe o ho (hnew.resolve_left (by rw [ho]; nofun)) hsize).2) hw
    refine ⟨(ht'.contents hk).trans (congrArg some hc), ?_, fun g hg => ht.sameFile ht'
      (ht.layout.same_write hsafe (fun o ho htr => ?_) hw g.valid hg)⟩
    · rw [(ht'.serve (.info a.fid)).1]
      exact hinfo
    · exact absurd htr (hnew.resolve_left (by rw [ho]; nofun))
  · intro i old htr hi hold hoff
    obtain ⟨o, hf, rfl⟩ := ht.find_of_info hi
    have hold' : t.contents o = old := Option.some.inj ((ht.contents hf).symm.trans hold)
    subst hold'
    obtain ⟨hk, hc, hsame⟩ := ht.layout.contents_appended a.args hf htr hoff hw
    refine ⟨(ht'.contents hk).trans (congrArg some hc), ?_, fun g hg =>
      ht.sameFile ht' (hsame g.id g.valid hg)⟩
    rw [(ht'.serve (.info a.fid)).1]
    have hi : t.info c a.fid.id = .ok (.info (t.fileInfo o)) := by
      unfold Tab.info
      rw [hf]
      rfl
    unfold Tab.writeArgs at hw
    rw [hoff] at hw
    exact ht.layout.info_appended a.args hw hi htr

/-- File 8 is truncated to another size. -/
theorem write_round_trip_small :
    contents smallCfg (memServe smallCfg (.write { patchArgs fid8 flagTruncate 0 [7, 6]
      (by decide) (by decide) with maxSize := 3 }) (afterTwo 1)).2 fid8 = some [7, 6] := by
  have hround := write_round_trip smallCfg (afterTwo 1) (afterTwo_reachable 1)
    { patchArgs fid8 flagTruncate 0 [7, 6] (by decide) (by decide) with maxSize := 3 } (by
      rw [((afterTwo_mounted 1).serve _).1]
      decide +kernel) (by
      refine (afterTwo_mounted 1).table.symm.replacesSafely fun o ho _ _ => ?_
      obtain ⟨-, hf, -, hz, -⟩ := afterTwo_table
      have ho : o = 2 := (Option.some.inj (hf.symm.trans ho)).symm
      subst ho
      exact ⟨.inl hz, .inl hz⟩)
  exact (hround.1 (.inr (by decide))).1

/-- Data is appended with other flags: the file keeps the flags it was created with. -/
theorem append_keeps_flags : ¬ ∀ (c : Cfg) (y : Sys Flash) (a : WriteArgs c.toConfig)
    (i : FileInfo), (memLts c).Reachable y → (memServe c (.info a.fid) y).1 = .ok (.info i) →
    a.flags &&& flagTruncate = 0 → a.offset = i.sizeCurrent →
    (memServe c (.write a) y).1 = .ok .done →
    ∃ size, (memServe c (.info a.fid) (memServe c (.write a) y).2).1 =
      .ok (.info ⟨i.sizeCurrent + a.dataSize, size, a.flags &&& userFlagsMask⟩) := by
  intro h
  have hm := afterTwo_mounted 3
  have hm' := hm.serve (.write (patchArgs fid7 1 0 [9] (by decide) (by decide)))
  have hi : (memServe smallCfg (.info fid7) (afterTwo 3)).1 = .ok (.info ⟨0, 3, 0⟩) := by
    rw [(hm.serve (.info fid7)).1]
    decide +kernel
  have hok : (memServe smallCfg (.write (patchArgs fid7 1 0 [9] (by decide) (by decide)))
      (afterTwo 3)).1 = .ok .done := by
    rw [hm'.1]
    decide +kernel
  obtain ⟨size, hi'⟩ := h smallCfg (afterTwo 3) (patchArgs fid7 1 0 [9] (by decide) (by decide))
    ⟨0, 3, 0⟩ (afterTwo_reachable 3) hi (by decide) (by decide) hok
  have hinfo : (((Tab.fresh smallCfg (some 0xFF)).serveAll smallCfg (some 0xFF) (twoFiles 3)).2.serve
      smallCfg (some 0xFF) (.write (patchArgs fid7 1 0 [9] (by decide) (by decide)))).2.info smallCfg
      fid7.id = .ok (.info ⟨1, 3, 0⟩) := by decide +kernel
  have hflags := ((hm'.2.serve (.info fid7)).1.trans hinfo).symm.trans hi'
  simp only [Except.ok.injEq, Answer.info.injEq, FileInfo.mk.injEq] at hflags
  exact absurd hflags.2.2 (by decide)

end RoundTrip

end Tfm.L4.Its
