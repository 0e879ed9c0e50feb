import Myftpd.Lib.Runs
import Mathlib.Data.Nat.Notation

/-!
# Ranks

A rank says how many of the counted steps are left.  It is a relation between states and numbers, so that it can
speak of what a state represents.

* `Trail.ranked`  a counted step lowers the rank, unless it is one that is granted, and no step raises it: a run has no
                  more counted steps than the rank of its first state says and are granted.
-/

namespace Runs

section
variable {σ ℓ : Type*} {T : System σ ℓ} {C : σ → ℓ → Prop} {R : σ → ℕ → Prop} {p q : ℓ → Bool}

theorem Trail.ranked (hs : ∀ s l s' n, R s n → C s l → T.step l s s' →
    ∃ m, R s' m ∧ m ≤ n ∧ (p l = true → q l = false → m < n)) {s t : σ} {ls : List ℓ} (h : Trail T C s ls t) {n : ℕ}
    (hr : R s n) : ∃ m, R t m ∧ m + ls.countP p ≤ n + ls.countP q := by
  induction h generalizing n with
  | nil => exact ⟨n, hr, Nat.le_refl n⟩
  | @cons s s' t l ls hc ht _ ih =>
    obtain ⟨k, hk, hle, hlt⟩ := hs s l s' n hr hc ht
    obtain ⟨m, hm, hcount⟩ := ih hk
    refine ⟨m, hm, ?_⟩
    rw [List.countP_cons, List.countP_cons]
    cases hp : p l with
    | true =>
      cases hq : q l with
      | true =>
        simp only [if_true]
        omega
      | false =>
        have hless := hlt hp hq
        simp only [if_true, Bool.false_eq_true, if_false]
        omega
    | false =>
      simp only [Bool.false_eq_true, if_false]
      split <;> omega

end

end Runs
