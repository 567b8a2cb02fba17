import Tfm.L3Format.QcborEncode

/-!
# What calls of the encoder write (`lib/ext/qcbor`)

The head of an item comes out of a loop that takes bytes off the number until nothing is left.

`Writes` says what a sequence of calls appends to the document, wherever it is made; it is put
together like the data.

Results:
* `encodedTypeAndNumber_eq`: the loop writes the shortest head.
* `Writes.append`, `Writes.array`, `Writes.map`, `Writes.bstrWrap`, `Writes.tag`: composition.
* `writes_item`, `finish_item`: the encoding of a tree.
-/
namespace Tfm.L3.Qcbor
open Tfm.Cbor

/-! ## Heads -/

theorem takeBytes_eq (k : Nat) : ∀ n bs, takeBytes k n bs = (n / 256 ^ k, be k n ++ bs) := by
  induction k with
  | zero => intro n bs; simp [takeBytes]
  | succ k ih =>
    intro n bs
    rw [takeBytes, ih, be_succ, Nat.div_div_eq_div_mul, ← Nat.pow_succ']
    simp

theorem be_add (j k n : Nat) : be (j + k) n = be j (n / 256 ^ k) ++ be k n := by
  induction k generalizing n with
  | zero => simp
  | succ k ih =>
    rw [← Nat.add_assoc, be_succ, ih, be_succ, Nat.div_div_eq_div_mul, ← Nat.pow_succ']
    simp

theorem iterate_cons (k : Nat) (ks : List Nat) (i n minLen : Nat) (bs : List UInt8) :
    iterate (k :: ks) i n minLen bs =
      if n ≠ 0 ∨ minLen > 0 then iterate ks (i + 1) (n / 256 ^ k) (minLen - k) (be k n ++ bs)
      else (i, bs) := by
  rw [iterate, takeBytes_eq]

theorem iterate_zero (ks : List Nat) (i : Nat) (bs : List UInt8) : iterate ks i 0 0 bs = (i, bs) := by
  cases ks with
  | nil => rfl
  | cons k ks => simp [iterate_cons]

/-- The loop runs until the number is used up: after 1, 2, 4 or 8 bytes. -/
theorem iterate_eq {n : Nat} (h : n < 256 ^ 8) (h24 : ¬ n < 24) :
    iterate aIterate 0 n 0 [] = ((shortest n).info 0 - 23, be (shortest n).size n) := by
  unfold shortest aIterate
  rw [if_neg h24]
  rw [iterate_cons, if_pos (.inl (by omega))]
  by_cases h1 : n < 256
  · have hz : n / 256 ^ 1 = 0 := Nat.div_eq_of_lt (by omega)
    rw [if_pos h1, hz, iterate_zero]
    simp [Width.info, Width.size]
  · have hne1 : n / 256 ^ 1 ≠ 0 := by omega
    have hdiv2 : n / 256 ^ 1 / 256 ^ 1 = n / 256 ^ 2 := by omega
    have hdiv4 : n / 256 ^ 2 / 256 ^ 2 = n / 256 ^ 4 := by omega
    rw [if_neg h1, iterate_cons, if_pos (.inl hne1), List.append_nil, ← be_add, hdiv2]
    by_cases h2 : n < 256 ^ 2
    · have hz : n / 256 ^ 2 = 0 := Nat.div_eq_of_lt h2
      rw [if_pos h2, hz, iterate_zero]
      rfl
    · have hne2 : n / 256 ^ 2 ≠ 0 := by omega
      rw [if_neg h2, iterate_cons, if_pos (.inl hne2), ← be_add, hdiv4]
      by_cases h4 : n < 256 ^ 4
      · have hz : n / 256 ^ 4 = 0 := Nat.div_eq_of_lt h4
        rw [if_pos h4, hz, iterate_zero]
        rfl
      · have hne4 : n / 256 ^ 4 ≠ 0 := by omega
        rw [if_neg h4, iterate_cons, if_pos (.inl hne4), ← be_add]
        rfl

theorem initialByte_eq (major info : Nat) : initialByte major info = UInt8.ofNat (32 * major + info) := by
  rw [initialByte, Nat.shiftLeft_eq, Nat.mul_comm]

/-- The loop writes the shortest head. -/
theorem encodedTypeAndNumber_eq {m : MajorType} (hm : m ≠ .arrayIndefiniteLen)
    (hm' : m ≠ .mapIndefiniteLen) {n : Nat} (hn : n < 256 ^ 8) (hbreak : m = .simple → n ≠ 31) :
    encodedTypeAndNumber m 0 n = head m.code n := by
  have hno : ¬ (m = .simple ∧ n = cborSimpleBreak) := fun h => hbreak h.1 h.2
  unfold encodedTypeAndNumber
  rw [if_neg hm, if_neg hm', if_neg hno, head, headAs]
  by_cases h24 : n < 24
  · rw [if_pos ⟨h24, rfl⟩, initialByte_eq]
    simp [shortest, h24, Width.info, Width.size]
  · have hinfo : lenIsOneByte - 1 + ((shortest n).info 0 - 23) = (shortest n).info n := by
      unfold shortest
      rw [if_neg h24]
      split_ifs <;> rfl
    rw [if_neg (fun h => h24 h.1), iterate_eq hn h24]
    simp only [initialByte_eq, hinfo]

/-- With a minimal length the number gets that many bytes. -/
theorem encodedTypeAndNumber_float {w : Width} (hw : floatWidth w) {bits : Nat}
    (hb : bits < 256 ^ w.size) (hr : ¬ (24 ≤ bits ∧ bits ≤ 31)) :
    encodedTypeAndNumber .simple w.size bits = headAs w 7 bits := by
  have hsize : w.size ≠ 0 := by
    cases w <;> simp_all [floatWidth, Width.size]
  have hno : ¬ (MajorType.simple = .simple ∧ bits = cborSimpleBreak) := by
    intro h
    have hbreak : bits = 31 := h.2
    omega
  have hloop : iterate aIterate 0 bits w.size [] = (w.info 0 - 23, be w.size bits) := by
    unfold aIterate
    cases w with
    | w0 => exact absurd rfl hsize
    | w1 => exact hw.elim
    | w2 =>
      have hz : bits / 256 ^ 1 / 256 ^ 1 = 0 := by simp only [Width.size] at hb; omega
      rw [iterate_cons, if_pos (.inr (by decide)), iterate_cons, if_pos (.inr (by decide)), hz,
        List.append_nil, ← be_add]
      exact iterate_zero _ _ _
    | w4 =>
      have hz : bits / 256 ^ 1 / 256 ^ 1 / 256 ^ 2 = 0 := by simp only [Width.size] at hb; omega
      have hdiv2 : bits / 256 ^ 1 / 256 ^ 1 = bits / 256 ^ 2 := by omega
      rw [iterate_cons, if_pos (.inr (by decide)), iterate_cons, if_pos (.inr (by decide)),
        iterate_cons, if_pos (.inr (by decide)), hz, List.append_nil, ← be_add, hdiv2, ← be_add]
      exact iterate_zero _ _ _
    | w8 =>
      have hdiv2 : bits / 256 ^ 1 / 256 ^ 1 = bits / 256 ^ 2 := by omega
      have hdiv4 : bits / 256 ^ 2 / 256 ^ 2 = bits / 256 ^ 4 := by omega
      rw [iterate_cons, if_pos (.inr (by decide)), iterate_cons, if_pos (.inr (by decide)),
        iterate_cons, if_pos (.inr (by decide)), iterate_cons, if_pos (.inr (by decide)),
        List.append_nil, ← be_add, hdiv2, ← be_add, hdiv4, ← be_add]
      rfl
  have hinfo : lenIsOneByte - 1 + (w.info 0 - 23) = w.info bits := by
    cases w with
    | w0 => exact absurd rfl hsize
    | _ => rfl
  unfold encodedTypeAndNumber
  rw [if_neg (by decide), if_neg (by decide), if_neg (fun h => hsize h.2), if_neg hno, hloop]
  simp only [hinfo, initialByte_eq, headAs]
  rfl

/-! ## What calls write -/

/-- `n` items more on the current level. -/
def Doc.append (d : Doc) (n : Nat) (bs : List UInt8) : Doc :=
  { d with cur := { d.cur with count := d.cur.count + n, bytes := d.cur.bytes ++ bs } }

/-- Wherever it is allowed, the calls write `n` items, `bs`, and open `depth` levels meanwhile. -/
def Writes (depth n : Nat) (bs : List UInt8) (cs : List Call) : Prop :=
  ∀ d : Doc, d.err = .success → d.outer.length + depth ≤ qcborMaxArrayNesting →
    d.cur.count + n < qcborMaxItemsInArray → d.total + bs.length < qcborMaxArrayOffset →
    d.run cs = d.append n bs

theorem total_append (d : Doc) (n : Nat) (bs : List UInt8) :
    (d.append n bs).total = d.total + bs.length := by
  simp [Doc.total, Doc.contents, Doc.append, contentsOf, Nat.add_assoc]

theorem increment_eq {d : Doc} (h : d.cur.count + 1 < qcborMaxItemsInArray) :
    d.increment = { d with err := .success, cur := { d.cur with count := d.cur.count + 1 } } := by
  have hno : ¬ 1 ≥ qcborMaxItemsInArray - d.cur.count := by omega
  simp only [Doc.increment, nestingIncrement, if_neg hno]

/-- A level is opened where that is allowed. -/
theorem open_eq {d : Doc} (m : MajorType) (herr : d.err = .success)
    (hcount : d.cur.count + 1 < qcborMaxItemsInArray) (hoff : d.total < qcborMaxArrayOffset)
    (hdepth : d.outer.length < qcborMaxArrayNesting) :
    d.open m = (⟨d.err, { d.cur with count := d.cur.count + 1 }, d.outer⟩ : Doc).increase m := by
  have hoff' : ¬ d.increment.total ≥ qcborMaxArrayOffset := by
    rw [total_increment]
    omega
  have houter : d.increment.outer = d.outer := by rw [increment_eq hcount]
  have hdeep : ¬ d.increment.outer.length = qcborMaxArrayNesting := by
    rw [houter]
    omega
  have hsucc : d.increment.err = .success := by rw [increment_eq hcount]
  unfold Doc.open
  simp only [hsucc, if_true, if_neg hoff', if_neg hdeep]
  rw [increment_eq hcount, herr]

namespace Writes

theorem nil : Writes 0 0 [] [] := by
  intro d _ _ _ _
  simp [Doc.append]

theorem append {depth depth' n n' : Nat} {bs bs' : List UInt8} {cs cs' : List Call}
    (h : Writes depth n bs cs) (h' : Writes depth' n' bs' cs') :
    Writes (max depth depth') (n + n') (bs ++ bs') (cs ++ cs') := by
  intro d herr hdepth hcount htotal
  rw [List.length_append] at htotal
  have hone : d.run cs = d.append n bs := h d herr (by omega) (by omega) (by omega)
  have htwo : (d.append n bs).run cs' = (d.append n bs).append n' bs' := by
    apply h' (d.append n bs) herr
    · show d.outer.length + depth' ≤ _
      omega
    · show d.cur.count + n + n' < _
      omega
    · rw [total_append]
      omega
  rw [Doc.run_append, hone, htwo]
  simp [Doc.append, Nat.add_assoc]

theorem mono {depth depth' n : Nat} {bs : List UInt8} {cs : List Call} (h : Writes depth n bs cs)
    (hd : depth ≤ depth') : Writes depth' n bs cs := by
  intro d herr hdepth hcount htotal
  exact h d herr (by omega) hcount htotal

/-- One more item that is not a level. -/
theorem add {bs : List UInt8} {c : Call}
    (hstep : ∀ d : Doc, d.total + bs.length < qcborMaxArrayOffset → d.step c = d.add bs) :
    Writes 0 1 bs [c] := by
  intro d herr _ hcount htotal
  rw [Doc.run_cons, Doc.run_nil, hstep d htotal, Doc.add, if_pos herr]
  have hinc : (d.put bs).cur.count + 1 < qcborMaxItemsInArray := hcount
  rw [increment_eq hinc, ← herr]
  rfl

theorem tag {depth n t : Nat} {bs : List UInt8} {cs : List Call} (ht : t < 256 ^ 8)
    (h : Writes depth n bs cs) : Writes depth n (head 6 t ++ bs) (.addTag t :: cs) := by
  intro d herr hdepth hcount htotal
  rw [List.length_append] at htotal
  have hstep : d.step (.addTag t) = d.put (head 6 t) := by
    rw [Doc.step, encodedTypeAndNumber_eq (by decide) (by decide) ht (by intro h; cases h)]
    rfl
  rw [Doc.run_cons, hstep, h (d.put (head 6 t)) herr hdepth hcount]
  · simp [Doc.append, Doc.put]
  · rw [total_put]
    omega

/-- A level, with what is written inside. -/
theorem level {depth n : Nat} {bs : List UInt8} {cs : List Call} (m : MajorType)
    (hn : n < qcborMaxItemsInArray) (h : Writes depth n bs cs) :
    Writes (depth + 1) 1 (Level.closed ⟨m, n, bs⟩)
      (.openMapOrArray m :: (cs ++ [.closeMapOrArray m])) := by
  intro d herr hdepth hcount htotal
  have hlen : bs.length ≤ (Level.closed ⟨m, n, bs⟩).length :=
    length_le_closed ⟨m, n, bs⟩
  have hopen := open_eq m herr hcount (by omega) (by omega)
  have hbody := h ((⟨d.err, { d.cur with count := d.cur.count + 1 }, d.outer⟩ : Doc).increase m)
    rfl (by simp only [Doc.increase, List.length_cons]; omega)
    (by simp only [Doc.increase]; omega)
    (by
      rw [total_increase]
      simp only [Doc.total, Doc.contents, contentsOf] at htotal ⊢
      omega)
  rw [Doc.run_cons, Doc.step, hopen, Doc.run_append, hbody, Doc.run_cons, Doc.run_nil]
  simp [Doc.step, Doc.closeWith, Doc.append, Doc.increase, herr]

theorem addUInt64 {n : Nat} (hn : n < 256 ^ 8) : Writes 0 1 (head 0 n) [.addUInt64 n] := by
  apply add
  intro d _
  rw [Doc.step, encodedTypeAndNumber_eq (by decide) (by decide) hn (by intro h; cases h)]
  rfl

theorem addInt64_neg {n : Nat} (hn : n < 256 ^ 8) :
    Writes 0 1 (head 1 n) [.addInt64 (-1 - n)] := by
  apply add
  intro d _
  have hneg : (-1 - (n : Int)) < 0 := by omega
  have hval : (-(-1 - (n : Int)) - 1).toNat = n := by omega
  rw [Doc.step, int64Bytes, if_pos hneg, hval,
    encodedTypeAndNumber_eq (by decide) (by decide) hn (by intro h; cases h)]
  rfl

theorem addInt64_nonneg {n : Nat} (hn : n < 256 ^ 8) :
    Writes 0 1 (head 0 n) [.addInt64 n] := by
  apply add
  intro d _
  have hneg : ¬ (n : Int) < 0 := by omega
  rw [Doc.step, int64Bytes, if_neg hneg, Int.toNat_natCast,
    encodedTypeAndNumber_eq (by decide) (by decide) hn (by intro h; cases h)]
  rfl

theorem lt_of_offset {n : Nat} (h : n < qcborMaxArrayOffset) : n < 256 ^ 8 := by
  simp only [qcborMaxArrayOffset] at h
  omega

theorem addBytes {data : UsefulBufC} (hlen : data.contents.length = data.len) :
    Writes 0 1 (head 2 data.len ++ data.contents) [.addBuffer .byteString data] := by
  apply add
  intro d htotal
  rw [List.length_append, hlen] at htotal
  have hn : data.len < 256 ^ 8 := lt_of_offset (by omega)
  show d.add (encodedTypeAndNumber .byteString 0 data.len ++ data.contents) = _
  rw [encodedTypeAndNumber_eq (by decide) (by decide) hn (by intro h; cases h)]
  rfl

theorem addText {data : UsefulBufC} (hlen : data.contents.length = data.len) :
    Writes 0 1 (head 3 data.len ++ data.contents) [.addBuffer .textString data] := by
  apply add
  intro d htotal
  rw [List.length_append, hlen] at htotal
  have hn : data.len < 256 ^ 8 := lt_of_offset (by omega)
  show d.add (encodedTypeAndNumber .textString 0 data.len ++ data.contents) = _
  rw [encodedTypeAndNumber_eq (by decide) (by decide) hn (by intro h; cases h)]
  rfl

theorem addRaw (data : UsefulBufC) : Writes 0 1 data.contents [.addBuffer .raw data] := by
  apply add
  intro d _
  rfl

theorem addSimple {v : Nat} (hv : v < 256 ^ 8) (hr : ¬ (24 ≤ v ∧ v ≤ 31)) :
    Writes 0 1 (head 7 v) [.addType7 0 v] := by
  apply add
  intro d _
  have hno : ¬ (d.err = .success ∧ v ≥ cborSimplevReservedStart ∧ v ≤ cborSimplevReservedEnd) :=
    fun h => hr h.2
  have hbreak : MajorType.simple = .simple → v ≠ 31 := by
    intro _
    omega
  show d.addType7 0 v = _
  rw [Doc.addType7, if_neg hno, encodedTypeAndNumber_eq (by decide) (by decide) hv hbreak]
  rfl

theorem addFloat {w : Width} (hw : floatWidth w) {bits : Nat} (hb : bits < 256 ^ w.size)
    (hr : ¬ (24 ≤ bits ∧ bits ≤ 31)) : Writes 0 1 (headAs w 7 bits) [.addType7 w.size bits] := by
  apply add
  intro d _
  have hno : ¬ (d.err = .success ∧ bits ≥ cborSimplevReservedStart ∧
      bits ≤ cborSimplevReservedEnd) := fun h => hr h.2
  show d.addType7 w.size bits = _
  rw [Doc.addType7, if_neg hno, encodedTypeAndNumber_float hw hb hr]

theorem array {depth n : Nat} {bs : List UInt8} {cs : List Call} (hn : n < qcborMaxItemsInArray)
    (h : Writes depth n bs cs) :
    Writes (depth + 1) 1 (head 4 n ++ bs)
      (.openMapOrArray .array :: (cs ++ [.closeMapOrArray .array])) := by
  have hlt : n < 256 ^ 8 := by
    simp only [qcborMaxItemsInArray] at hn
    omega
  have hclosed : Level.closed ⟨.array, n, bs⟩ = head 4 n ++ bs := by
    show encodedTypeAndNumber .array 0 n ++ bs = _
    rw [encodedTypeAndNumber_eq (by decide) (by decide) hlt (by intro h; cases h)]
    rfl
  rw [← hclosed]
  exact h.level .array hn

theorem map {depth n : Nat} {bs : List UInt8} {cs : List Call} (hn : 2 * n < qcborMaxItemsInArray)
    (h : Writes depth (2 * n) bs cs) :
    Writes (depth + 1) 1 (head 5 n ++ bs)
      (.openMapOrArray .map :: (cs ++ [.closeMapOrArray .map])) := by
  have hlt : n < 256 ^ 8 := by
    simp only [qcborMaxItemsInArray] at hn
    omega
  have hclosed : Level.closed ⟨.map, 2 * n, bs⟩ = head 5 n ++ bs := by
    show encodedTypeAndNumber .map 0 (2 * n / 2) ++ bs = _
    rw [Nat.mul_div_cancel_left _ (by decide),
      encodedTypeAndNumber_eq (by decide) (by decide) hlt (by intro h; cases h)]
    rfl
  rw [← hclosed]
  exact h.level .map hn

/-- A byte string around what is written inside. -/
theorem bstrWrap {depth n : Nat} {bs : List UInt8} {cs : List Call}
    (hn : n < qcborMaxItemsInArray) (h : Writes depth n bs cs) :
    Writes (depth + 1) 1 (head 2 bs.length ++ bs)
      (.openMapOrArray .byteString :: (cs ++ [.closeMapOrArray .byteString])) := by
  intro d herr hdepth hcount htotal
  rw [List.length_append] at htotal
  have hlt : bs.length < 256 ^ 8 := lt_of_offset (by omega)
  have hclosed : Level.closed ⟨.byteString, n, bs⟩ = head 2 bs.length ++ bs := by
    show encodedTypeAndNumber .byteString 0 bs.length ++ bs = _
    rw [encodedTypeAndNumber_eq (by decide) (by decide) hlt (by intro h; cases h)]
    rfl
  rw [← hclosed]
  apply h.level .byteString hn d herr hdepth hcount
  rw [hclosed, List.length_append]
  omega

end Writes

/-! ## Trees -/

mutual

/-- What the encoder can take: numbers of 64 bits, 65533 members, no reserved simple value. -/
def Encodable : Item → Prop
  | .uint n => n < 256 ^ 8
  | .nint n => n < 2 ^ 63
  | .bytes _ => True
  | .text _ => True
  | .array xs => xs.length < qcborMaxItemsInArray ∧ EncodableAll xs
  | .map kvs => 2 * kvs.length < qcborMaxItemsInArray ∧ EncodablePairs kvs
  | .tag t x => t < 256 ^ 8 ∧ Encodable x
  | .simple v => v < 256 ∧ ¬ (24 ≤ v ∧ v ≤ 31)
  | .float w bits => floatWidth w ∧ bits < 256 ^ w.size ∧ ¬ (24 ≤ bits ∧ bits ≤ 31)

def EncodableAll : List Item → Prop
  | [] => True
  | x :: xs => Encodable x ∧ EncodableAll xs

def EncodablePairs : List (Item × Item) → Prop
  | [] => True
  | (k, v) :: kvs => Encodable k ∧ Encodable v ∧ EncodablePairs kvs

end

mutual

/-- The calls for a tree. -/
def callsOf : Item → List Call
  | .uint n => [.addUInt64 n]
  | .nint n => [.addInt64 (-1 - n)]
  | .bytes b => [.addBuffer .byteString (ofBytes b)]
  | .text b => [.addBuffer .textString (ofBytes b)]
  | .array xs => .openMapOrArray .array :: (callsAll xs ++ [.closeMapOrArray .array])
  | .map kvs => .openMapOrArray .map :: (callsPairs kvs ++ [.closeMapOrArray .map])
  | .tag t x => .addTag t :: callsOf x
  | .simple v => [.addType7 0 v]
  | .float w bits => [.addType7 w.size bits]

def callsAll : List Item → List Call
  | [] => []
  | x :: xs => callsOf x ++ callsAll xs

def callsPairs : List (Item × Item) → List Call
  | [] => []
  | (k, v) :: kvs => callsOf k ++ (callsOf v ++ callsPairs kvs)

end

mutual

theorem writes_item : ∀ x, Encodable x → Writes x.depth 1 (encode x) (callsOf x)
  | .uint n, h => Writes.addUInt64 h
  | .nint n, h => by
    apply Writes.addInt64_neg
    simp only [Encodable] at h
    omega
  | .bytes b, _ => by
    have hw := Writes.addBytes (congrArg List.length (contents_ofBytes b))
    rwa [contents_ofBytes] at hw
  | .text b, _ => by
    have hw := Writes.addText (congrArg List.length (contents_ofBytes b))
    rwa [contents_ofBytes] at hw
  | .array xs, h => by
    rw [Item.depth, Nat.add_comm]
    exact (writes_all xs h.2).array h.1
  | .map kvs, h => by
    rw [Item.depth, Nat.add_comm]
    exact (writes_pairs kvs h.2).map h.1
  | .tag t x, h => (writes_item x h.2).tag h.1
  | .simple v, h => by
    apply Writes.addSimple _ h.2
    have hv := h.1
    omega
  | .float w bits, h => Writes.addFloat h.1 h.2.1 h.2.2

theorem writes_all : ∀ xs, EncodableAll xs →
    Writes (depthAll xs) xs.length (encodeAll xs) (callsAll xs)
  | [], _ => Writes.nil
  | x :: xs, h => by
    rw [List.length_cons, Nat.add_comm]
    exact (writes_item x h.1).append (writes_all xs h.2)

theorem writes_pairs : ∀ kvs, EncodablePairs kvs →
    Writes (depthPairs kvs) (2 * kvs.length) (encodePairs kvs) (callsPairs kvs)
  | [], _ => Writes.nil
  | (k, v) :: kvs, h => by
    have hw := (writes_item k h.1).append
      ((writes_item v h.2.1).append (writes_pairs kvs h.2.2))
    rw [← Nat.max_assoc] at hw
    have hn : 2 * ((k, v) :: kvs).length = 1 + (1 + 2 * kvs.length) := by
      rw [List.length_cons]
      omega
    rwa [hn]

end

/-- What `QCBOREncode_Finish` returns for calls that write one item. -/
theorem Writes.finish {depth : Nat} {bs : List UInt8} {cs : List Call} (h : Writes depth 1 bs cs)
    (hdepth : depth ≤ qcborMaxArrayNesting) (hoff : bs.length < qcborMaxArrayOffset)
    (storage : Option (List UInt8)) (cap : Nat)
    (hs : ∀ mem, storage = some mem → mem.length = cap) (hc : ∀ c ∈ cs, c.Readable storage) :
    ((encodeInit storage cap).run cs).finish =
      if cap < bs.length then (.bufferTooSmall, none)
      else (.success, some (resultOf storage bs)) := by
  have hrun : Doc.init.run cs = Doc.init.append 1 bs := by
    apply h
    · rfl
    · simpa [Doc.init] using hdepth
    · decide
    · simpa [Doc.init, Doc.total, Doc.contents, contentsOf] using hoff
  have htotal : (Doc.init.append 1 bs).total = bs.length := by
    rw [total_append]
    simp [Doc.init, Doc.total, Doc.contents, contentsOf]
  rw [finish_of_sim (sim_run storage cap cs hs hc), hrun, htotal]
  split_ifs
  · rfl
  · rfl

theorem readable_append {storage : Option (List UInt8)} {cs cs' : List Call}
    (h : ∀ c ∈ cs, c.Readable storage) (h' : ∀ c ∈ cs', c.Readable storage) :
    ∀ c ∈ cs ++ cs', c.Readable storage := by
  intro c hc
  obtain hc | hc := List.mem_append.1 hc
  · exact h c hc
  · exact h' c hc

/-- The calls around a level read nothing. -/
theorem readable_level {storage : Option (List UInt8)} {cs : List Call} (m : MajorType)
    (h : ∀ c ∈ cs, c.Readable storage) :
    ∀ c ∈ Call.openMapOrArray m :: (cs ++ [.closeMapOrArray m]), c.Readable storage := by
  intro c hc
  obtain rfl | hc := List.mem_cons.1 hc
  · trivial
  · apply readable_append h _ c hc
    intro c' hc'
    rw [List.mem_singleton.1 hc']
    trivial

theorem readable_single {storage : Option (List UInt8)} {c : Call} (h : c.Readable storage) :
    ∀ c' ∈ [c], c'.Readable storage := by
  intro c' hc'
  rw [List.mem_singleton.1 hc']
  exact h

mutual

theorem readable_item (storage : Option (List UInt8)) :
    ∀ x, ∀ c ∈ callsOf x, c.Readable storage
  | .uint _ => readable_single trivial
  | .nint _ => readable_single trivial
  | .bytes b => readable_single (readable_ofBytes storage b)
  | .text b => readable_single (readable_ofBytes storage b)
  | .array xs => readable_level .array (readable_all storage xs)
  | .map kvs => readable_level .map (readable_pairs storage kvs)
  | .tag t x => readable_append (@readable_single storage (.addTag t) trivial) (readable_item storage x)
  | .simple _ => readable_single trivial
  | .float _ _ => readable_single trivial

theorem readable_all (storage : Option (List UInt8)) :
    ∀ xs, ∀ c ∈ callsAll xs, c.Readable storage
  | [] => by intro c hc; cases hc
  | x :: xs => readable_append (readable_item storage x) (readable_all storage xs)

theorem readable_pairs (storage : Option (List UInt8)) :
    ∀ kvs, ∀ c ∈ callsPairs kvs, c.Readable storage
  | [] => by intro c hc; cases hc
  | (k, v) :: kvs =>
    readable_append (readable_item storage k)
      (readable_append (readable_item storage v) (readable_pairs storage kvs))

end

/-- The encoder turns the calls for a tree into its shortest encoding, or says that the buffer is
too small. -/
theorem finish_item (x : Item) (h : Encodable x) (hdepth : x.depth ≤ qcborMaxArrayNesting)
    (hoff : (encode x).length < qcborMaxArrayOffset) (storage : Option (List UInt8)) (cap : Nat)
    (hs : ∀ mem, storage = some mem → mem.length = cap) :
    ((encodeInit storage cap).run (callsOf x)).finish =
      if cap < (encode x).length then (.bufferTooSmall, none)
      else (.success, some (resultOf storage (encode x))) :=
  (writes_item x h).finish hdepth hoff storage cap hs (readable_item storage x)

/-- A map of one text, where only the length is asked for. -/
theorem finish_item_map :
    ((encodeInit none 100).run (callsOf (.map [(.uint 1, .text [0x61, 0x62])]))).finish =
      (.success, some ⟨none, 5⟩) := by
  rw [finish_item (.map [(.uint 1, .text [0x61, 0x62])])
    (by simp [Encodable, EncodablePairs, qcborMaxItemsInArray]) (by decide) (by decide) none 100
    (by intro mem h; cases h)]
  decide

end Tfm.L3.Qcbor
