import Mathlib.Algebra.GroupWithZero.Nat

/-!
# Indices of small tables

The tables of the firmware are declared with a fixed number of entries, and a program
names an entry by a literal of `Fin n`. The sizes that occur are instances of their own,
so that the literal is the same term in every module.
-/
namespace Tfm.Index

instance neZero_one : NeZero 1 := ⟨Nat.one_ne_zero⟩

instance (priority := 2000) neZero_two : NeZero (1 + 1) := ⟨Nat.succ_ne_zero 1⟩

instance neZero_three : NeZero 3 := ⟨Nat.succ_ne_zero 2⟩

instance neZero_thirtyTwo : NeZero 32 := ⟨Nat.succ_ne_zero 31⟩

theorem two_cases (a : Fin 2) : a = 0 ∨ a = 1 := by omega

end Tfm.Index
