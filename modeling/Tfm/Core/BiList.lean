import Mathlib.Data.List.Nodup
import Mathlib.Logic.Function.Basic
import Mathlib.Tactic.Tauto

/-!
# Intrusive circular doubly linked lists

Lists whose nodes live inside other structures and whose head is a node of its
own. `Links` holds the two pointers of every node, and the operations are
pointer writes in the order of the usual C macros, so that inserting a node
twice or removing it twice does to the pointers what it does in memory.

`IsList m h l` says that the nodes reachable from the head `h` are exactly
`l`, in this order, each once, with both pointers consistent.

Results:
* `IsList.insertBefore`, `IsList.removeNode`: the two operations on a list, for
  a node that is not on it, respectively is.
* `IsList.insertBefore_frame`, `IsList.removeNode_frame`, `IsList.congr`: a list
  disjoint from the nodes written stays.
* `Family.insertBefore`, `Family.removeNode`: the same for several disjoint
  lists at once.
* `Path`: a walk along `next`, as a loop over a list does it.
* `IsList.prev_next`, `IsList.next_mem`: what a list looks like from one node,
  to refute `IsList` of a damaged one.
-/
namespace Tfm.BiList

universe u v

structure Links (α : Type u) where
  next : α → α
  prev : α → α

section Ops

variable {α : Type u} [DecidableEq α]

def Links.setNext (m : Links α) (a b : α) : Links α := { m with next := Function.update m.next a b }
def Links.setPrev (m : Links α) (a b : α) : Links α := { m with prev := Function.update m.prev a b }

@[simp] theorem setNext_next (m : Links α) (a b x : α) :
    (m.setNext a b).next x = if x = a then b else m.next x := Function.update_apply ..
@[simp] theorem setNext_prev (m : Links α) (a b : α) : (m.setNext a b).prev = m.prev := rfl
@[simp] theorem setPrev_prev (m : Links α) (a b x : α) :
    (m.setPrev a b).prev x = if x = a then b else m.prev x := Function.update_apply ..
@[simp] theorem setPrev_next (m : Links α) (a b : α) : (m.setPrev a b).next = m.next := rfl

/-- Insert `node` before `curr`, at the tail when `curr` is the head. -/
def insertBefore (m : Links α) (curr node : α) : Links α :=
  let m₁ := m.setNext (m.prev curr) node
  let m₂ := m₁.setPrev node (m₁.prev curr)
  let m₃ := m₂.setPrev curr node
  m₃.setNext node curr

/-- Unlink `node`, which keeps its own pointers. -/
def removeNode (m : Links α) (node : α) : Links α :=
  let m₁ := m.setNext (m.prev node) (m.next node)
  m₁.setPrev (m₁.next node) (m₁.prev node)

def isEmpty (m : Links α) (head : α) : Bool := m.next head == head

end Ops

section Segments

variable {α : Type u}

/-- The nodes strictly between `a` and `b` are `l`, both pointers agreeing. -/
def Seg (m : Links α) : α → List α → α → Prop
  | a, [], b => m.next a = b ∧ m.prev b = a
  | a, x :: l, b => m.next a = x ∧ m.prev x = a ∧ Seg m x l b

structure IsList (m : Links α) (h : α) (l : List α) : Prop where
  seg : Seg m h l h
  nodup : (h :: l).Nodup

/-! ## Segments -/

theorem seg_append {m : Links α} {x b : α} {l₂ : List α} :
    ∀ {l : List α} {a : α}, Seg m a (l ++ x :: l₂) b ↔ Seg m a l x ∧ Seg m x l₂ b
  | [], a => by simp only [List.nil_append, Seg, and_assoc]
  | y :: l, a => by
    simp only [List.cons_append, Seg, seg_append (l := l), and_assoc]

theorem seg_congr {m m' : Links α} {b : α} :
    ∀ {l : List α} {a : α}, (∀ y ∈ a :: l, m'.next y = m.next y) →
      (∀ y, y ∈ l ∨ y = b → m'.prev y = m.prev y) → Seg m a l b → Seg m' a l b
  | [], a, hn, hp, h => by
    refine ⟨(hn a List.mem_cons_self).trans h.1, (hp b (.inr rfl)).trans h.2⟩
  | x :: l, a, hn, hp, h => by
    refine ⟨(hn a List.mem_cons_self).trans h.1,
      (hp x (.inl List.mem_cons_self)).trans h.2.1, seg_congr ?_ ?_ h.2.2⟩
    · intro y hy
      exact hn y (List.mem_cons_of_mem _ hy)
    · intro y hx
      obtain hy | rfl := hx
      · exact hp y (.inl (List.mem_cons_of_mem _ hy))
      · exact hp y (.inr rfl)

/-- The node before the end of a segment. -/
theorem seg_prev {m : Links α} {b : α} :
    ∀ {l : List α} {a : α}, Seg m a l b →
      (l = [] ∧ m.prev b = a) ∨ ∃ l₀, l = l₀ ++ [m.prev b]
  | [], a, h => .inl ⟨rfl, h.2⟩
  | x :: l, a, h => by
    right
    rcases seg_prev h.2.2 with ⟨rfl, hp⟩ | ⟨l₀, hl⟩
    · exact ⟨[], by rw [hp]; rfl⟩
    · exact ⟨x :: l₀, by rw [List.cons_append, ← hl]⟩

theorem seg_next {m : Links α} {a b : α} {l : List α} (h : Seg m a l b) :
    (l = [] ∧ m.next a = b) ∨ ∃ l₀, l = m.next a :: l₀ := by
  cases l with
  | nil => exact .inl ⟨rfl, h.1⟩
  | cons x l => exact .inr ⟨l, by rw [h.1]⟩

end Segments

/-! ## Walks -/

section Paths

variable {α : Type u}

/-- Walking from node `n` by `next`, the nodes met before `b` are `l`. -/
def Path (m : Links α) : α → List α → α → Prop
  | n, [], b => n = b
  | n, x :: l, b => n = x ∧ Path m (m.next x) l b

theorem seg_path {m : Links α} {b : α} :
    ∀ {l : List α} {a : α}, Seg m a l b → Path m (m.next a) l b
  | [], _, h => h.1
  | _ :: _, _, h => ⟨h.1, seg_path h.2.2⟩

theorem path_congr {m m' : Links α} {b : α} :
    ∀ {l : List α} {n : α}, (∀ y ∈ l, m'.next y = m.next y) → Path m n l b → Path m' n l b
  | [], _, _, h => h
  | x :: l, n, hn, h => by
    refine ⟨h.1, ?_⟩
    rw [hn x List.mem_cons_self]
    exact path_congr (fun y hy => hn y (List.mem_cons_of_mem _ hy)) h.2

end Paths

/-! ## Lists -/

namespace IsList

section Pointers

variable {α : Type u} {m : Links α} {h x : α} {l : List α}

theorem prev_mem (hl : IsList m h l) : m.prev h ∈ h :: l := by
  rcases seg_prev hl.seg with ⟨rfl, hp⟩ | ⟨l₀, hl₀⟩
  · simp [hp]
  · rw [hl₀]
    simp

/-- Lists only depend on the pointers of their own nodes. -/
theorem congr {m' : Links α} (hl : IsList m h l) (hn : ∀ y ∈ h :: l, m'.next y = m.next y)
    (hp : ∀ y ∈ h :: l, m'.prev y = m.prev y) : IsList m' h l := by
  refine ⟨seg_congr hn ?_ hl.seg, hl.nodup⟩
  intro y hx
  obtain hy | rfl := hx
  · exact hp y (List.mem_cons_of_mem _ hy)
  · exact hp y List.mem_cons_self

/-- Following `next` and then `prev` leads back to a node of a segment. -/
theorem seg_prev_next {b : α} :
    ∀ {l : List α} {a : α}, Seg m a l b → ∀ y ∈ a :: l, m.prev (m.next y) = y
  | [], a, hs, y, hy => by
    rw [List.mem_singleton.1 hy, hs.1, hs.2]
  | x :: l, a, hs, y, hy => by
    rcases List.mem_cons.1 hy with rfl | hy
    · rw [hs.1, hs.2.1]
    · exact seg_prev_next hs.2.2 y hy

theorem prev_next (hl : IsList m h l) {y : α} (hy : y ∈ h :: l) : m.prev (m.next y) = y :=
  seg_prev_next hl.seg y hy

theorem seg_next_mem {b : α} :
    ∀ {l : List α} {a : α}, Seg m a l b → ∀ y ∈ a :: l, m.next y ∈ l ∨ m.next y = b
  | [], a, hs, y, hy => by
    rw [List.mem_singleton.1 hy]
    exact .inr hs.1
  | x :: l, a, hs, y, hy => by
    rcases List.mem_cons.1 hy with rfl | hy
    · exact .inl (by rw [hs.1]; exact List.mem_cons_self)
    · rcases seg_next_mem hs.2.2 y hy with hn | hn
      · exact .inl (List.mem_cons_of_mem _ hn)
      · exact .inr hn

theorem next_mem (hl : IsList m h l) {y : α} (hy : y ∈ h :: l) : m.next y ∈ h :: l := by
  rcases seg_next_mem hl.seg y hy with hn | hn
  · exact List.mem_cons_of_mem _ hn
  · rw [hn]
    exact List.mem_cons_self

/-- The node before `x` and the node after it, on a list. -/
theorem around {l₁ l₂ : List α} (hl : IsList m h (l₁ ++ x :: l₂)) :
    Seg m h l₁ x ∧ Seg m x l₂ h ∧ x ≠ h ∧ x ∉ l₁ ∧ x ∉ l₂ := by
  have hnd := hl.nodup
  simp only [List.nodup_cons, List.mem_append, List.mem_cons, not_or, List.nodup_append] at hnd
  obtain ⟨⟨-, hxh, -⟩, -, ⟨hxl₂, -⟩, hdis⟩ := hnd
  refine ⟨(seg_append.1 hl.seg).1, (seg_append.1 hl.seg).2, Ne.symm hxh, fun hx => ?_, hxl₂⟩
  exact hdis x hx x (.inl rfl) rfl

end Pointers

section Ops

variable {α : Type u} [DecidableEq α] {m : Links α} {h x : α} {l : List α}

theorem isEmpty_iff (hl : IsList m h l) : isEmpty m h = true ↔ l = [] := by
  unfold isEmpty
  rw [beq_iff_eq]
  constructor
  · intro hn
    cases l with
    | nil => rfl
    | cons y l =>
      have hy : y = h := hl.seg.1.symm.trans hn
      exact absurd hl.nodup (by simp [hy])
  · intro hx
    subst hx
    exact hl.seg.1

/-- A node that is on no list may be inserted at the tail. -/
theorem insertBefore (hl : IsList m h l) (hx : x ∉ h :: l) :
    IsList (BiList.insertBefore m h x) h (l ++ [x]) := by
  simp only [List.mem_cons, not_or] at hx
  obtain ⟨hxh, hxl⟩ := hx
  refine ⟨?_, ?_⟩
  · rcases seg_prev hl.seg with ⟨rfl, hp⟩ | ⟨l₀, hl₀⟩
    · simp [Seg, BiList.insertBefore, hp, Ne.symm hxh]
    · generalize hpe : m.prev h = p at hl₀
      subst hl₀
      have hnd := hl.nodup
      simp only [List.nodup_cons, List.mem_append, List.mem_singleton, not_or,
        List.nodup_append, List.nodup_nil, List.not_mem_nil, not_false_eq_true, and_true] at hnd
      have hxp : x ≠ p := fun he => hxl (by simp [he])
      have hxl₀ : x ∉ l₀ := fun he => hxl (by simp [he])
      rw [List.append_assoc, List.singleton_append, seg_append]
      have hseg := seg_append.1 hl.seg
      refine ⟨seg_congr ?_ ?_ hseg.1, ?_⟩
      · intro y hy
        have hyx : y ≠ x := by
          intro hr
          subst hr
          rcases List.mem_cons.1 hy with rfl | hy
          · exact hxh rfl
          · exact hxl₀ hy
        have hyp : y ≠ p := by
          intro hr
          subst hr
          rcases List.mem_cons.1 hy with rfl | hy
          · exact hnd.1.2 rfl
          · exact hnd.2.2.2 _ hy _ rfl rfl
        simp [BiList.insertBefore, hyx, hyp, hpe]
      · intro y hy
        have hyx : y ≠ x := by
          intro hr
          subst hr
          rcases hy with hy | rfl
          · exact hxl₀ hy
          · exact hxp rfl
        have hyh : y ≠ h := by
          intro hr
          subst hr
          rcases hy with hy | rfl
          · exact hnd.1.1 hy
          · exact hnd.1.2 rfl
        simp [BiList.insertBefore, hyx, hyh]
      · simp [Seg, BiList.insertBefore, hpe, hxh, Ne.symm hxp]
  · have hnd := hl.nodup
    simp only [List.nodup_cons, List.mem_append, List.mem_singleton, List.nodup_append,
      List.nodup_nil, List.not_mem_nil, not_false_eq_true, and_true] at hnd ⊢
    refine ⟨fun he => ?_, hnd.2, trivial, ?_⟩
    · rcases he with he | rfl
      · exact hnd.1 he
      · exact hxh rfl
    · intro a ha b hr hv
      subst hr
      obtain rfl := hv
      exact hxl ha

/-- A list filled node by node. -/
theorem foldl_insertBefore (xs : List α) :
    ∀ {m : Links α} {l : List α}, IsList m h l → xs.Nodup → (∀ x ∈ xs, x ∉ h :: l) →
      IsList (xs.foldl (fun m x => BiList.insertBefore m h x) m) h (l ++ xs) := by
  induction xs with
  | nil =>
    intro m l hl _ _
    rwa [List.append_nil]
  | cons x xs ih =>
    intro m l hl hnd hx
    rw [List.nodup_cons] at hnd
    have hl' := ih (hl.insertBefore (hx x List.mem_cons_self)) hnd.2 ?_
    · rwa [List.append_assoc, List.singleton_append] at hl'
    · intro y hy hm
      have hyl := hx y (List.mem_cons_of_mem _ hy)
      simp only [List.mem_cons, List.mem_append, List.not_mem_nil, or_false, not_or] at hm hyl
      rcases hm with hm | hm | hm
      · exact hyl.1 hm
      · exact hyl.2 hm
      · exact hnd.1 (hm ▸ hy)

theorem insertBefore_frame {h' : α} {l' : List α} (hl : IsList m h l) (hl' : IsList m h' l')
    (hd : ∀ y ∈ h' :: l', y ∉ h :: l ∧ y ≠ x) : IsList (BiList.insertBefore m h x) h' l' := by
  have hp := hl.prev_mem
  refine hl'.congr ?_ ?_
  · intro y hy
    obtain ⟨hyl, hyx⟩ := hd y hy
    have hyp : y ≠ m.prev h := fun he => hyl (he ▸ hp)
    simp [BiList.insertBefore, hyx, hyp]
  · intro y hy
    obtain ⟨hyl, hyx⟩ := hd y hy
    have hyh : y ≠ h := fun he => hyl (by simp [he])
    simp [BiList.insertBefore, hyx, hyh]

theorem removeNode {l₁ l₂ : List α} (hl : IsList m h (l₁ ++ x :: l₂)) :
    IsList (BiList.removeNode m x) h (l₁ ++ l₂) := by
  obtain ⟨hs₁, hs₂, hxh, hx₁, hx₂⟩ := around hl
  have hnd' : (h :: (l₁ ++ l₂)).Nodup := by
    refine hl.nodup.sublist (List.Sublist.cons_cons _ ?_)
    exact (List.sublist_cons_self x l₂).append_left l₁
  refine ⟨?_, hnd'⟩
  have hnd := hl.nodup
  -- split both sides once more, at the neighbours that are written
  rcases seg_prev hs₁ with ⟨rfl, hp⟩ | ⟨l₀, hl₀⟩
  · rcases seg_next hs₂ with ⟨rfl, hn⟩ | ⟨l₃, hl₃⟩
    · simp [Seg, BiList.removeNode, hp, hn, hxh]
    · generalize hne : m.next x = y at hl₃
      subst hl₃
      obtain ⟨-, -, hrest⟩ := hs₂
      simp only [List.nil_append, List.nodup_cons, List.mem_cons, not_or] at hnd
      refine ⟨by simp [BiList.removeNode, hp, hne], by simp [BiList.removeNode, hp, hne, hxh], ?_⟩
      refine seg_congr ?_ ?_ hrest
      · intro z hz
        have hzh : z ≠ h := by
          intro hx
          subst hx
          rcases List.mem_cons.1 hz with rfl | hz
          · exact hnd.1.2.1 rfl
          · exact hnd.1.2.2 hz
        simp [BiList.removeNode, hp, hne, hzh]
      · intro z hz
        have hzy : z ≠ y := by
          intro hx
          subst hx
          rcases hz with hz | rfl
          · exact hnd.2.2.1 hz
          · exact hnd.1.2.1 rfl
        simp [BiList.removeNode, hp, hne, hzy, hxh]
  · generalize hpe : m.prev x = p at hl₀
    subst hl₀
    obtain ⟨hs₀, hpx⟩ := seg_append.1 hs₁
    have hxp : x ≠ p := fun he => hx₁ (by simp [he])
    rw [List.append_assoc, List.singleton_append] at hnd' ⊢
    rw [seg_append]
    simp only [List.nodup_cons, List.mem_append, List.mem_cons, not_or, List.nodup_append]
      at hnd'
    obtain ⟨⟨hh₀, hhp, hh₂⟩, -, ⟨hp₂, hnd₂⟩, hdis⟩ := hnd'
    rcases seg_next hs₂ with ⟨rfl, hn⟩ | ⟨l₃, hl₃⟩
    · refine ⟨seg_congr ?_ ?_ hs₀, by simp [Seg, BiList.removeNode, hpe, hn, hxp]⟩
      · intro z hz
        have hzp : z ≠ p := by
          intro hx
          subst hx
          rcases List.mem_cons.1 hz with rfl | hz
          · exact hhp rfl
          · exact hdis _ hz _ (.inl rfl) rfl
        simp [BiList.removeNode, hpe, hzp]
      · intro z hz
        have hzh : z ≠ h := by
          intro hx
          subst hx
          rcases hz with hz | rfl
          · exact hh₀ hz
          · exact hhp rfl
        simp [BiList.removeNode, hpe, hn, hxp, hzh]
    · generalize hne : m.next x = y at hl₃
      subst hl₃
      obtain ⟨-, -, hrest⟩ := hs₂
      simp only [List.mem_cons, not_or, List.nodup_cons] at hp₂ hnd₂ hh₂
      refine ⟨seg_congr ?_ ?_ hs₀, by simp [BiList.removeNode, hpe, hne],
        by simp [BiList.removeNode, hpe, hne, hxp], seg_congr ?_ ?_ hrest⟩
      · intro z hz
        have hzp : z ≠ p := by
          intro hx
          subst hx
          rcases List.mem_cons.1 hz with rfl | hz
          · exact hhp rfl
          · exact hdis _ hz _ (.inl rfl) rfl
        simp [BiList.removeNode, hpe, hzp]
      · intro z hz
        have hzy : z ≠ y := by
          intro hx
          subst hx
          rcases hz with hz | rfl
          · exact hdis _ hz _ (.inr List.mem_cons_self) rfl
          · exact hp₂.1 rfl
        simp [BiList.removeNode, hpe, hne, hxp, hzy]
      · intro z hz
        have hzp : z ≠ p := by
          intro hx
          subst hx
          rcases List.mem_cons.1 hz with rfl | hz
          · exact hp₂.1 rfl
          · exact hp₂.2 hz
        simp [BiList.removeNode, hpe, hzp]
      · intro z hz
        have hzy : z ≠ y := by
          intro hx
          subst hx
          rcases hz with hz | rfl
          · exact hnd₂.1 hz
          · exact hh₂.1 rfl
        simp [BiList.removeNode, hpe, hne, hxp, hzy]

theorem removeNode_frame {h' : α} {l' l₁ l₂ : List α} (hl : IsList m h (l₁ ++ x :: l₂))
    (hl' : IsList m h' l') (hd : ∀ y ∈ h' :: l', y ∉ h :: (l₁ ++ x :: l₂)) :
    IsList (BiList.removeNode m x) h' l' := by
  obtain ⟨hs₁, hs₂, hxh, hx₁, hx₂⟩ := around hl
  have hp : m.prev x ∈ h :: (l₁ ++ x :: l₂) ∧ m.prev x ≠ x := by
    rcases seg_prev hs₁ with ⟨rfl, hp⟩ | ⟨l₀, hl₀⟩
    · rw [hp]
      exact ⟨List.mem_cons_self, Ne.symm hxh⟩
    · have hm : m.prev x ∈ l₁ := by rw [hl₀]; simp
      exact ⟨by simp [hm], fun he => hx₁ (he ▸ hm)⟩
  have hn : m.next x ∈ h :: (l₁ ++ x :: l₂) := by
    rcases seg_next hs₂ with ⟨rfl, hn⟩ | ⟨l₀, hl₀⟩
    · rw [hn]
      exact List.mem_cons_self
    · have hm : m.next x ∈ l₂ := by rw [hl₀]; exact List.mem_cons_self
      simp [hm]
  refine hl'.congr ?_ ?_
  · intro y hy
    have hyp : y ≠ m.prev x := fun he => hd y hy (he ▸ hp.1)
    simp [BiList.removeNode, hyp]
  · intro y hy
    have hyn : y ≠ m.next x := fun he => hd y hy (he ▸ hn)
    simp [BiList.removeNode, Ne.symm hp.2, hyn]

/-- An unlinked node still points into the list: the walk goes on from it. -/
theorem removeNode_next {l₁ l₂ : List α} (hl : IsList m h (l₁ ++ x :: l₂)) {y : α}
    (hy : y ∈ x :: l₂) : (BiList.removeNode m x).next y = m.next y := by
  obtain ⟨hs₁, -, hxh, hx₁, -⟩ := around hl
  have hnd := hl.nodup
  simp only [List.nodup_cons, List.mem_append, not_or, List.nodup_append] at hnd
  have hyp : y ≠ m.prev x := by
    intro hx
    subst hx
    rcases seg_prev hs₁ with ⟨rfl, hp⟩ | ⟨l₀, hl₀⟩
    · exact hnd.1.2 (hp ▸ hy)
    · have hm : m.prev x ∈ l₁ := by
        rw [hl₀]
        simp
      exact hnd.2.2.2 _ hm _ hy rfl
  simp [BiList.removeNode, hyp]

end Ops

end IsList

/-! ## Families of lists over one set of nodes -/

section Families

variable {α : Type u} {ι : Type v}

/-- Lists with the heads `head i`, no two of which share a node. -/
structure Family (m : Links α) (head : ι → α) (L : ι → List α) : Prop where
  isList : ∀ i, IsList m (head i) (L i)
  disj : ∀ i j, i ≠ j → ∀ y ∈ head i :: L i, y ∉ head j :: L j

variable [DecidableEq α] [DecidableEq ι] {m : Links α} {head : ι → α} {L : ι → List α} {x : α}

theorem Family.insertBefore (h : Family m head L) (i : ι) (hx : ∀ j, x ∉ head j :: L j) :
    Family (insertBefore m (head i) x) head (Function.update L i (L i ++ [x])) := by
  refine ⟨fun j => ?_, fun j j' hj y hy hy' => ?_⟩
  · by_cases hji : j = i
    · subst hji
      rw [Function.update_self]
      exact (h.isList j).insertBefore (hx j)
    · rw [Function.update_of_ne hji]
      refine (h.isList i).insertBefore_frame (h.isList j) fun y hy => ?_
      exact ⟨h.disj j i hji y hy, fun he => hx j (he ▸ hy)⟩
  · have hmem : ∀ j₀, y ∈ head j₀ :: Function.update L i (L i ++ [x]) j₀ →
        y ∈ head j₀ :: L j₀ ∨ (j₀ = i ∧ y = x) := by
      intro j₀ hy₀
      by_cases hji : j₀ = i
      · subst hji
        rw [Function.update_self] at hy₀
        simp only [List.mem_cons, List.mem_append, List.not_mem_nil, or_false] at hy₀ ⊢
        tauto
      · rw [Function.update_of_ne hji] at hy₀
        exact .inl hy₀
    rcases hmem j hy with hm | ⟨rfl, rfl⟩
    · rcases hmem j' hy' with hm' | ⟨rfl, rfl⟩
      · exact h.disj j j' hj y hm hm'
      · exact hx j hm
    · rcases hmem j' hy' with hm' | ⟨rfl, -⟩
      · exact hx j' hm'
      · exact hj rfl

theorem Family.removeNode (h : Family m head L) {i : ι} {l₁ l₂ : List α}
    (hi : L i = l₁ ++ x :: l₂) :
    Family (removeNode m x) head (Function.update L i (l₁ ++ l₂)) := by
  have hli := h.isList i
  rw [hi] at hli
  refine ⟨fun j => ?_, fun j j' hj y hy hy' => ?_⟩
  · by_cases hji : j = i
    · subst hji
      rw [Function.update_self]
      exact hli.removeNode
    · rw [Function.update_of_ne hji]
      refine hli.removeNode_frame (h.isList j) fun y hy => ?_
      rw [← hi]
      exact h.disj j i hji y hy
  · have hmem : ∀ j₀, y ∈ head j₀ :: Function.update L i (l₁ ++ l₂) j₀ →
        y ∈ head j₀ :: L j₀ := by
      intro j₀ hy₀
      by_cases hji : j₀ = i
      · subst hji
        rw [Function.update_self] at hy₀
        rw [hi]
        simp only [List.mem_cons, List.mem_append] at hy₀ ⊢
        tauto
      · rwa [Function.update_of_ne hji] at hy₀
    exact h.disj j j' hj y (hmem j hy) (hmem j' hy')

omit [DecidableEq α] [DecidableEq ι] in
theorem Family.congr {m' : Links α} (h : Family m head L)
    (hn : ∀ i, ∀ y ∈ head i :: L i, m'.next y = m.next y)
    (hp : ∀ i, ∀ y ∈ head i :: L i, m'.prev y = m.prev y) : Family m' head L :=
  ⟨fun i => (h.isList i).congr (hn i) (hp i), h.disj⟩

end Families

end Tfm.BiList
