import Mathlib.Data.List.Nodup
import Mathlib.Data.List.Perm.Subperm

/-!
# Free places in order

Of the numbers below `n` some are free; they are gone through in order, and the things of a
list are given to them one after the other. The rank of a number is how many free ones are
below it.

* `getElem?_free`: the free number of rank `k`.
* `mem_zip_free`: what a free number is given.
* `le_length_free`: how many free ones there are at least.
-/
namespace Tfm.Rank

variable {α : Type} {p : Nat → Bool}

def free (p : Nat → Bool) (n : Nat) : List Nat := (List.range n).filter p

def rank (p : Nat → Bool) (i : Nat) : Nat := (free p i).length

theorem rank_succ (p : Nat → Bool) (i : Nat) :
    rank p (i + 1) = rank p i + if p i then 1 else 0 := by
  simp only [rank, free, List.range_succ, List.filter_append, List.length_append]
  cases hp : p i <;> simp [hp]

theorem rank_mono {i j : Nat} (h : i ≤ j) : rank p i ≤ rank p j := by
  induction h with
  | refl => exact Nat.le_refl _
  | step _ ih =>
    rw [rank_succ]
    exact Nat.le_trans ih (Nat.le_add_right _ _)

theorem rank_lt {i j : Nat} (h : i < j) (hp : p i = true) : rank p i < rank p j := by
  have hs := rank_succ p i
  rw [hp, if_pos rfl] at hs
  have hm : rank p (i + 1) ≤ rank p j := rank_mono h
  omega

theorem getElem?_free (p : Nat → Bool) (n k f : Nat) :
    (free p n)[k]? = some f ↔ f < n ∧ p f = true ∧ rank p f = k := by
  induction n with
  | zero => simp [free]
  | succ n ih =>
    have hsplit : free p (n + 1) = free p n ++ if p n then [n] else [] := by
      simp only [free, List.range_succ, List.filter_append]
      cases hp : p n <;> simp [hp]
    rw [hsplit]
    by_cases hk : k < (free p n).length
    · rw [List.getElem?_append_left hk, ih]
      constructor
      · intro ⟨hf, hp, hr⟩
        exact ⟨Nat.lt_succ_of_lt hf, hp, hr⟩
      · intro ⟨hf, hp, hr⟩
        refine ⟨?_, hp, hr⟩
        have hfn : f ≠ n := by
          intro he
          rw [← hr, he] at hk
          exact Nat.lt_irrefl _ hk
        omega
    · rw [List.getElem?_append_right (Nat.not_lt.1 hk)]
      constructor
      · intro h
        cases hp : p n with
        | false => simp [hp] at h
        | true =>
          rw [hp, if_pos rfl, List.getElem?_singleton] at h
          split at h
          · rename_i h0
            cases h
            refine ⟨Nat.lt_succ_self _, hp, ?_⟩
            unfold rank
            omega
          · cases h
      · intro ⟨hf, hp, hr⟩
        have hfn : f = n := by
          by_contra hne
          have hlt := rank_lt (show f < n by omega) hp
          unfold rank at hlt hr
          omega
        subst hfn
        have h0 : k - (free p f).length = 0 := by
          unfold rank at hr
          omega
        rw [hp, if_pos rfl, h0]
        rfl

/-- The `k`-th thing of a list is given to the `k`-th free number. -/
theorem mem_zip_free {l : List α} {n f : Nat} {x : α} :
    (x, f) ∈ l.zip (free p n) ↔ f < n ∧ p f = true ∧ l[rank p f]? = some x := by
  rw [List.mem_iff_getElem?]
  simp only [List.getElem?_zip_eq_some, getElem?_free]
  constructor
  · intro ⟨k, hx, hf, hp, hr⟩
    exact ⟨hf, hp, by rw [hr]; exact hx⟩
  · intro ⟨hf, hp, hx⟩
    exact ⟨rank p f, hx, hf, hp, rfl⟩

/-- Every thing is given to a number if there are enough free ones. -/
theorem exists_mem_zip {l : List α} {n : Nat} (h : l.length ≤ (free p n).length) {x : α}
    (hx : x ∈ l) : ∃ f, (x, f) ∈ l.zip (free p n) := by
  obtain ⟨k, hk, rfl⟩ := List.mem_iff_getElem.1 hx
  obtain ⟨f, hf⟩ : ∃ f, (free p n)[k]? = some f :=
    ⟨_, List.getElem?_eq_getElem (Nat.lt_of_lt_of_le hk h)⟩
  exact ⟨f, List.mem_iff_getElem?.2
    ⟨k, List.getElem?_zip_eq_some.2 ⟨List.getElem?_eq_getElem hk, hf⟩⟩⟩

theorem le_length_free (taken : List Nat) (n : Nat) :
    n ≤ (free (fun j => decide (j ∉ taken)) n).length + taken.length := by
  have hpart := List.length_eq_length_filter_add (l := List.range n) fun j => decide (j ∉ taken)
  have hsub : ((List.range n).filter fun j => !decide (j ∉ taken)).length ≤ taken.length := by
    refine (List.Nodup.subperm (List.nodup_range.filter _) fun j hj => ?_).length_le
    have hmem := (List.mem_filter.1 hj).2
    simpa using hmem
  rw [List.length_range] at hpart
  unfold free
  omega

end Tfm.Rank
