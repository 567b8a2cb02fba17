import Mathlib.Data.List.TakeWhile
import Mathlib.Logic.Function.Basic

/-!
# Singly linked lists

Lists whose nodes live inside other structures and point to the next one. `next` holds
these pointers, `none` is the null pointer.

`Path next p l q` says that a walk from the pointer `p` passes the nodes `l`, in this
order, and then has the pointer `q`; with `q = none` it is the whole list.

Loops over such a list are run with fuel, and `none` is a loop that has not ended:
`findFrom` searches for a node, `lastWhile` for the last node before one that fails a test.

Results:
* `path_append`: walks compose.
* `path_insertAfter`: a node is inserted with two writes.
* `findFrom_path`, `lastWhile_path`: the loops end, with what they should find.
-/
namespace Tfm.Chain

universe u

variable {α : Type u} {next : α → Option α} {p q : Option α} {l l₁ l₂ : List α} {a x : α}

def Path (next : α → Option α) : Option α → List α → Option α → Prop
  | p, [], q => p = q
  | p, a :: l, q => p = some a ∧ Path next (next a) l q

theorem path_append :
    ∀ {l₁ : List α} {p : Option α},
      Path next p (l₁ ++ l₂) q ↔ ∃ r, Path next p l₁ r ∧ Path next r l₂ q
  | [], p => by simp [Path]
  | a :: l₁, p => by
    have ih : ∀ p, Path next p (l₁ ++ l₂) q ↔ ∃ r, Path next p l₁ r ∧ Path next r l₂ q :=
      fun p => path_append
    simp only [List.cons_append, Path, ih]
    constructor
    · intro h
      obtain ⟨rfl, r, h₁, h₂⟩ := h
      exact ⟨r, ⟨rfl, h₁⟩, h₂⟩
    · intro h
      obtain ⟨r, ⟨rfl, h₁⟩, h₂⟩ := h
      exact ⟨rfl, r, h₁, h₂⟩

/-- A walk depends on the pointers of its nodes only. -/
theorem path_congr {next' : α → Option α} :
    ∀ {l : List α} {p : Option α}, (∀ y ∈ l, next' y = next y) → Path next p l q →
      Path next' p l q
  | [], _, _, h => h
  | a :: l, _, hn, ⟨hp, h⟩ => by
    refine ⟨hp, ?_⟩
    rw [hn a List.mem_cons_self]
    exact path_congr (fun y hy => hn y (List.mem_cons_of_mem _ hy)) h

theorem path_head (h : Path next p (a :: l) q) : p = some a := h.1

section Insert

variable [DecidableEq α]

/-- `x->next = a->next; a->next = x`. -/
def insertAfter (next : α → Option α) (a x : α) : α → Option α :=
  Function.update (Function.update next x (next a)) a (some x)

theorem path_insertFirst (hx : x ∉ l) (h : Path next p l q) :
    Path (Function.update next x p) (some x) (x :: l) q := by
  refine ⟨rfl, ?_⟩
  rw [Function.update_self]
  refine path_congr (fun y hy => ?_) h
  have hyx : y ≠ x := by
    intro he
    subst he
    exact hx hy
  exact Function.update_of_ne hyx _ _

theorem path_insertAfter (hnd : (l₁ ++ a :: l₂).Nodup) (hx : x ∉ l₁ ++ a :: l₂)
    (h : Path next p (l₁ ++ a :: l₂) q) :
    Path (insertAfter next a x) p (l₁ ++ a :: x :: l₂) q := by
  obtain ⟨r, h₁, hr, h₂⟩ := path_append.1 h
  have hxa : x ≠ a := fun he => hx (by simp [he])
  have hoff : ∀ y, y ∈ l₁ ∨ y ∈ l₂ → insertAfter next a x y = next y := by
    intro y hy
    have hya : y ≠ a := by
      intro hv
      subst hv
      rw [List.nodup_append] at hnd
      rcases hy with hy | hy
      · exact hnd.2.2 y hy y List.mem_cons_self rfl
      · exact (List.nodup_cons.1 hnd.2.1).1 hy
    have hyx : y ≠ x := by
      intro hv
      subst hv
      rcases hy with hy | hy
      · exact hx (List.mem_append_left _ hy)
      · exact hx (List.mem_append_right _ (List.mem_cons_of_mem _ hy))
    simp [insertAfter, hya, hyx]
  refine path_append.2 ⟨r, path_congr (fun y hy => hoff y (.inl hy)) h₁, hr, ?_, ?_⟩
  · simp [insertAfter]
  · have hself : insertAfter next a x x = next a := by simp [insertAfter, hxa]
    rw [hself]
    exact path_congr (fun y hy => hoff y (.inr hy)) h₂

end Insert

/-! ## Loops -/

/-- The first node from `p` on that passes the test, if there is one. -/
def findFrom (next : α → Option α) (stop : α → Bool) : Nat → Option α → Option (Option α)
  | 0, _ => none
  | _ + 1, none => some none
  | fuel + 1, some a => if stop a then some (some a) else findFrom next stop fuel (next a)

theorem findFrom_path (stop : α → Bool) :
    ∀ {l : List α} {p : Option α} {fuel : Nat}, Path next p l none → l.length < fuel →
      findFrom next stop fuel p = some (l.find? stop)
  | [], p, fuel + 1, h, _ => by
    have hp : p = none := h
    rw [hp]
    rfl
  | a :: l, p, fuel + 1, ⟨hp, h⟩, hf => by
    have hf : l.length < fuel := by simpa using hf
    subst hp
    by_cases ha : stop a = true
    · simp [findFrom, ha]
    · simp [findFrom, ha, findFrom_path stop h hf]

/-- The last node, from `a` on, before the first that fails the test. -/
def lastWhile (next : α → Option α) (test : α → Bool) : Nat → α → Option α
  | 0, _ => none
  | fuel + 1, a =>
    match next a with
    | none => some a
    | some b => if test b then lastWhile next test fuel b else some a

theorem lastWhile_path (test : α → Bool) :
    ∀ {l : List α} {a : α} {fuel : Nat}, Path next (next a) l none → l.length < fuel →
      lastWhile next test fuel a = some ((l.takeWhile test).getLastD a)
  | [], a, fuel + 1, h, _ => by
    have hn : next a = none := h
    simp [lastWhile, hn]
  | b :: l, a, fuel + 1, ⟨hn, h⟩, hf => by
    have hf : l.length < fuel := by simpa using hf
    by_cases hb : test b = true
    · simp only [lastWhile, hn, hb, if_true, lastWhile_path test h hf, List.takeWhile_cons_of_pos,
        List.getLastD_cons]
    · simp [lastWhile, hn, hb]

/-- A node inserted where `lastWhile` ends. -/
theorem path_insertWhile [DecidableEq α] (test : α → Bool) (hnd : (a :: l).Nodup)
    (hx : x ∉ a :: l) (h : Path next p (a :: l) none) :
    Path (insertAfter next ((l.takeWhile test).getLastD a) x) p
      (a :: (l.takeWhile test ++ x :: l.dropWhile test)) none := by
  have hlast := List.dropLast_concat_getLast (List.cons_ne_nil a (l.takeWhile test))
  rw [List.getLast_eq_getLastD] at hlast
  have hl : (a :: l.takeWhile test).dropLast ++
      (l.takeWhile test).getLastD a :: l.dropWhile test = a :: l := by
    rw [List.append_cons, hlast, List.cons_append, List.takeWhile_append_dropWhile]
  rw [← hl] at hnd hx h
  have hins := path_insertAfter hnd hx h
  rw [List.append_cons, hlast] at hins
  exact hins

end Tfm.Chain
