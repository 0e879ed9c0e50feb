import Mathlib.Logic.Function.Basic
import Mathlib.Tactic.Common

/-!
# Tables of numbered slots, handed out lowest number first

The descriptor table of a process is such a table: a slot is empty or holds an entry, only
finitely many are used (`free`, so the lowest empty slot exists), and `alloc` always takes the
lowest empty one.
-/

structure Slots (α : Type*) where
  get : Nat → Option α
  bound : Nat
  free : ∀ n, bound ≤ n → get n = none

namespace Slots

variable {α : Type*}

/-- the first empty slot among `k, k+1, …`, looking at no more than `n` of them -/
def firstFree (f : Nat → Option α) : Nat → Nat → Nat
  | 0, k => k
  | n+1, k => if (f k).isNone then k else firstFree f n (k+1)

theorem firstFree_none (f : Nat → Option α) (n k : Nat) (h : f (k+n) = none) :
    f (firstFree f n k) = none := by
  induction n generalizing k with
  | zero => exact h
  | succ n ih =>
    unfold firstFree
    split
    · rename_i hk
      exact Option.isNone_iff_eq_none.mp hk
    · exact ih (k+1) (by rw [← h]; congr 1; omega)

theorem firstFree_least (f : Nat → Option α) (n k j : Nat) (hj : k ≤ j)
    (hlt : j < firstFree f n k) : f j ≠ none := by
  induction n generalizing k with
  | zero => exact absurd hlt (by simp only [firstFree]; omega)
  | succ n ih =>
    unfold firstFree at hlt
    split at hlt
    · omega
    · rename_i hk
      rcases Nat.eq_or_lt_of_le hj with rfl | hj'
      · intro h0; exact hk (by rw [h0]; rfl)
      · exact ih (k+1) hj' hlt

/-- the lowest empty slot -/
def lowest (t : Slots α) : Nat := firstFree t.get t.bound 0

theorem lowest_none (t : Slots α) : t.get t.lowest = none :=
  firstFree_none t.get t.bound 0 (t.free _ (by omega))

theorem le_lowest (t : Slots α) {n : Nat} (h : t.get n = none) : t.lowest ≤ n :=
  Nat.le_of_not_lt fun hlt => firstFree_least t.get t.bound 0 n (Nat.zero_le n) hlt h

/-- put an entry into the lowest empty slot -/
def alloc (t : Slots α) (a : α) : Slots α where
  get := Function.update t.get t.lowest (some a)
  bound := max t.bound (t.lowest + 1)
  free := by
    intro n hn
    have h1 : t.bound ≤ n := Nat.le_trans (Nat.le_max_left _ _) hn
    have h2 : t.lowest + 1 ≤ n := Nat.le_trans (Nat.le_max_right _ _) hn
    rw [Function.update_of_ne (by omega)]
    exact t.free n h1

/-- empty a slot -/
def release (t : Slots α) (k : Nat) : Slots α where
  get := Function.update t.get k none
  bound := t.bound
  free := by
    intro n hn
    by_cases h : n = k
    · rw [h, Function.update_self]
    · rw [Function.update_of_ne h]; exact t.free n hn

@[simp] theorem alloc_get (t : Slots α) (a : α) (n : Nat) :
    (t.alloc a).get n = if n = t.lowest then some a else t.get n :=
  Function.update_apply ..

@[simp] theorem release_get (t : Slots α) (k n : Nat) :
    (t.release k).get n = if n = k then none else t.get n :=
  Function.update_apply ..

/-- a slot that is handed out is not the lowest empty one any more -/
theorem lowest_alloc (t : Slots α) (a : α) : t.lowest < (t.alloc a).lowest := by
  by_contra h
  have hn := (t.alloc a).lowest_none
  rw [alloc_get] at hn
  split at hn
  · cases hn
  · rename_i hne
    have := t.le_lowest hn
    omega

end Slots
