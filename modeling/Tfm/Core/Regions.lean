import Mathlib.Data.List.Basic
import Mathlib.Order.Basic

/-!
# Tables of regions

A memory map is a list of regions with an attribute each. A range of addresses gets the
attribute of the first region that contains it. `firstMatch_sub`: a smaller range gets an
attribute that is at least as good, if no region takes anything away from a later one that
it meets.
-/
namespace Tfm.Regions

/-- The addresses from `start` to `limit`, both included. -/
structure Region where
  start : Nat
  limit : Nat
  deriving DecidableEq, Repr

def Region.Has (r : Region) (a : Nat) : Prop := r.start ≤ a ∧ a ≤ r.limit

instance (r : Region) (a : Nat) : Decidable (r.Has a) := inferInstanceAs (Decidable (_ ∧ _))

/-- No address is in both. -/
def Apart (r r' : Region) : Prop := ∀ a, r.Has a → ¬ r'.Has a

/-- Every address of `r` is in `r'`. -/
def Inside (r r' : Region) : Prop := ∀ a, r.Has a → r'.Has a

section FirstMatch

variable {R Q A : Type*} (covers : R → Q → Bool)

/-- The attribute of the first entry that covers `q`. -/
def firstMatch : List (R × A) → Q → Option A
  | [], _ => none
  | (r, a) :: t, q => if covers r q then some a else firstMatch t q

variable {covers} {t : List (R × A)} {q q' : Q} {a : A}

theorem firstMatch_mem (h : firstMatch covers t q = some a) :
    ∃ r, (r, a) ∈ t ∧ covers r q = true := by
  induction t with
  | nil => cases h
  | cons e t ih =>
    obtain ⟨r, b⟩ := e
    unfold firstMatch at h
    split at h
    · next hc =>
      cases h
      exact ⟨r, List.mem_cons_self .., hc⟩
    · obtain ⟨r', hm, hc⟩ := ih h
      exact ⟨r', List.mem_cons_of_mem _ hm, hc⟩

/-- **A smaller query** finds an attribute that is at least as good. -/
theorem firstMatch_sub {better : A → A → Prop} (hrefl : ∀ a, better a a)
    (hsub : ∀ r, covers r q = true → covers r q' = true)
    (hmono : t.Pairwise fun e e' => covers e.1 q' = true → covers e'.1 q = true →
      better e.2 e'.2)
    (h : firstMatch covers t q = some a) :
    ∃ a', firstMatch covers t q' = some a' ∧ better a' a := by
  induction t with
  | nil => cases h
  | cons e t ih =>
    obtain ⟨r, b⟩ := e
    obtain ⟨hhead, htail⟩ := List.pairwise_cons.1 hmono
    unfold firstMatch at h ⊢
    by_cases hc : covers r q = true
    · rw [if_pos hc] at h
      cases h
      exact ⟨a, if_pos (hsub r hc), hrefl a⟩
    · rw [if_neg hc] at h
      by_cases hc' : covers r q' = true
      · -- the smaller query stops earlier
        obtain ⟨r', hm, hr'⟩ := firstMatch_mem h
        exact ⟨b, if_pos hc', hhead (r', a) hm hc' hr'⟩
      · rw [if_neg hc']
        exact ih htail h

end FirstMatch

end Tfm.Regions
