import Myftpd.Epoll
import Myftpd.Lib.History

/-!
# Runs that are given step by step, with their history

* `noted_of_play`  the state and the history at the end of such a run;
* `trail_of_play`  the run itself.
-/

namespace Myftpd
open Server

section
variable {γ : Type} {c : Conf} {g₀ : γ} {upd : γ → Server → Label → Server → γ}
  {D : Server × γ → Label → Prop}

instance (p : Server × γ) (l : Label) : Decidable (Runs.Any p l) := inferInstanceAs (Decidable True)

/-- carry out the steps one after the other and record them, as long as each can happen and meets `D` -/
def playNoted (c : Conf) (upd : γ → Server → Label → Server → γ) (D : Server × γ → Label → Prop)
    [∀ p l, Decidable (D p l)] (p : Server × γ) : List Label → Option (Server × γ)
  | [] => some p
  | l :: ls =>
    if enabled p.1 l ∧ D p l then
      match exec c p.1 l with
      | .ok s' => playNoted c upd D (s', upd p.2 p.1 l s') ls
      | .error _ => none
    else none

variable [∀ p l, Decidable (D p l)]

theorem playNoted_reach {p q : Server × γ} {ls : List Label} (h : playNoted c upd D p ls = some q)
    (hr : Runs.Reach ((sys c).recording g₀ upd) D p) :
    Runs.Reach ((sys c).recording g₀ upd) D q := by
  induction ls generalizing p with
  | nil => cases h; exact hr
  | cons l ls ih =>
    unfold playNoted at h
    split at h
    · rename_i hl
      split at h
      · rename_i s' hs'
        exact ih h (Runs.Reach.step hr hl.2 ⟨⟨hl.1, hs'⟩, rfl⟩)
      · cases h
    · cases h

theorem noted_of_play {p : Server × γ} {ls : List Label} {t : Server × γ → Bool}
    (hr : Runs.Reach ((sys c).recording g₀ upd) D p)
    (h : (playNoted c upd D p ls).any t = true) :
    ∃ q, Runs.Reach ((sys c).recording g₀ upd) D q ∧ t q = true := by
  cases hq : playNoted c upd D p ls with
  | none => rw [hq] at h; cases h
  | some q =>
    rw [hq] at h
    exact ⟨q, playNoted_reach hq hr, h⟩

theorem trail_of_play {p : Server × γ} {ls : List Label} {t : Server × γ → Bool}
    (h : (playNoted c upd D p ls).any t = true) :
    ∃ q, Runs.Trail ((sys c).recording g₀ upd) D p ls q ∧ t q = true := by
  induction ls generalizing p with
  | nil => exact ⟨p, .nil, h⟩
  | cons l ls ih =>
    unfold playNoted at h
    split at h
    · rename_i hl
      split at h
      · rename_i s' hs'
        obtain ⟨q, tr, hq⟩ := ih h
        exact ⟨q, .cons hl.2 ⟨⟨hl.1, hs'⟩, rfl⟩ tr, hq⟩
      · cases h
    · cases h

end

theorem sampleNoted {γ : Type} (g₀ : γ) (upd : γ → Server → Label → Server → γ)
    (D : Server × γ → Label → Prop) :
    Runs.Reach ((sys sampleConf).recording g₀ upd) D (sampleBoot, g₀) :=
  Runs.Reach.init ⟨⟨sampleFds, sampleBoots, rfl⟩, rfl⟩

end Myftpd
