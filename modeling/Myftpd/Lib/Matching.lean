import Mathlib.Logic.Function.Basic
import Mathlib.Tactic.Common

/-!
# Matchings

A table `f` says what is kept under a key, a table `g` under which key a thing is kept, and `Inverse f g`
says that they agree.  New pairs and dropped pairs keep them in agreement.

* `Inverse.insert`  a new pair;
* `Inverse.drop`    a pair is taken out, if there is one;
* `Inverse.shut`    a key is taken out that may be out of date.
-/

namespace Matching

variable {α β γ : Type*}

/-- `f a` is `b` exactly when `g b` is `a` -/
def Inverse (f : α → Option β) (g : β → Option α) : Prop := ∀ a b, f a = some b ↔ g b = some a

section
variable [DecidableEq α]

/-- `f` without the key `o`, if there is one -/
def shut (o : Option α) (f : α → Option β) (a : α) : Option β := if o = some a then none else f a

variable {f : α → Option β} {a : α} {b : β} {o : Option α}

theorem shut_none : shut none f = f := by
  funext a
  exact if_neg nofun

theorem shut_some : shut (some a) f = Function.update f a none := by
  funext c
  unfold shut
  rw [Function.update_apply]
  simp only [Option.some.injEq, eq_comm]

theorem shut_free (h : ∀ a, o = some a → f a = none) : shut o f = f := by
  funext a
  unfold shut
  split
  · rename_i e
    exact (h a e).symm
  · rfl

theorem shut_bind (k : β → Option γ) :
    (fun a => (shut o f a).bind k) = shut o fun a => (f a).bind k := by
  funext a
  unfold shut
  split <;> rfl

theorem update_bind (k : β → Option γ) :
    (fun c => (Function.update f a (some b) c).bind k) = Function.update (fun c => (f c).bind k) a (k b) := by
  funext c
  rw [Function.update_apply, Function.update_apply]
  split <;> rfl

theorem shut_update (h : o ≠ some a) {v : Option β} :
    shut o (Function.update f a v) = Function.update (shut o f) a v := by
  funext c
  unfold shut
  rw [Function.update_apply, Function.update_apply]
  by_cases hc : c = a
  · rw [if_pos hc, if_pos hc, if_neg (by rw [hc]; exact h)]
  · rw [if_neg hc, if_neg hc]

end

namespace Inverse

variable [DecidableEq α] [DecidableEq β] {f : α → Option β} {g : β → Option α} {a : α} {b : β}
  {o : Option α}

theorem insert (h : Inverse f g) (ha : f a = none) (hb : g b = none) :
    Inverse (Function.update f a (some b)) (Function.update g b (some a)) := by
  intro c d
  rw [Function.update_apply, Function.update_apply]
  by_cases hc : c = a <;> by_cases hd : d = b
  · rw [if_pos hc, if_pos hd, hc, hd]
    exact ⟨fun _ => rfl, fun _ => rfl⟩
  · rw [if_pos hc, if_neg hd, hc, ← h, ha]
    exact ⟨fun e => absurd (Option.some.inj e).symm hd, nofun⟩
  · rw [if_neg hc, if_pos hd, hd, h, hb]
    exact ⟨nofun, fun e => absurd (Option.some.inj e).symm hc⟩
  · rw [if_neg hc, if_neg hd]
    exact h c d

theorem drop (h : Inverse f g) (b : β) : Inverse (Matching.shut (g b) f) (Function.update g b none) := by
  intro c d
  unfold Matching.shut
  rw [Function.update_apply]
  by_cases hd : d = b
  · rw [if_pos hd, hd]
    split
    · exact ⟨nofun, nofun⟩
    · rename_i hc
      exact ⟨fun e => absurd ((h c b).mp e) hc, nofun⟩
  · rw [if_neg hd]
    split
    · rename_i hc
      have hb : f c = some b := (h c b).mpr hc
      refine ⟨nofun, fun e => ?_⟩
      rw [← h, hb] at e
      exact absurd (Option.some.inj e).symm hd
    · exact h c d

/-- The key `o` was that of `b`, or is no longer: it is not there, or still that of `b`. -/
theorem shut (h : Inverse f g) (hg : g b = none ∨ g b = o)
    (ho : ∀ a, o = some a → f a = none ∨ f a = some b) :
    Inverse (Matching.shut o f) (Function.update g b none) := by
  rcases hg with hg | hg
  · rw [shut_free, ← hg, Function.update_eq_self]
    · exact h
    · intro a e
      rcases ho a e with h0 | h1
      · exact h0
      · rw [h, hg] at h1
        cases h1
  · rw [← hg]
    exact h.drop b

end Inverse

end Matching
