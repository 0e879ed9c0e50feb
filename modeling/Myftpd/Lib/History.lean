import Myftpd.Lib.Runs

/-!
# History variables

A history variable records what has happened in a run: it has a value at the start, every step gives
it a new one, and no step depends on it.  `T.recording g₀ upd` is the system `T` with such a variable.

* `Reach.forget`  a run with its history is a run;
* `Reach.record`  every run has a history, and so has `Path.record`, one from a given state;
* `recorded`      the history of what the steps put out to each of several readers;
* `Reach.noted`   an invariant of the runs holds along a run with its history.
-/

namespace Runs

section
variable {σ ℓ γ : Type*}

/-- `T` with a variable that starts as `g₀`; a step from `s` by `l` to `s'` turns `g` into
`upd g s l s'` -/
def System.recording (T : System σ ℓ) (g₀ : γ) (upd : γ → σ → ℓ → σ → γ) : System (σ × γ) ℓ where
  init := fun p => T.init p.1 ∧ p.2 = g₀
  step := fun l p q => T.step l p.1 q.1 ∧ q.2 = upd p.2 p.1 l q.1

variable {T : System σ ℓ} {g₀ : γ} {upd : γ → σ → ℓ → σ → γ} {C : σ → ℓ → Prop}
  {D : σ × γ → ℓ → Prop} {p : σ × γ} {s : σ}

theorem Reach.forget (hCD : ∀ p l, D p l → C p.1 l) (h : Reach (T.recording g₀ upd) D p) :
    Reach T C p.1 := by
  induction h with
  | init hi => exact Reach.init hi.1
  | step _ hc ht ih => exact Reach.step ih (hCD _ _ hc) ht.1

/-- **Every run has a history.** -/
theorem Reach.record (g₀ : γ) (upd : γ → σ → ℓ → σ → γ) (h : Reach T C s) :
    ∃ g, Reach (T.recording g₀ upd) (fun p l => C p.1 l) (s, g) := by
  induction h with
  | init hi => exact ⟨g₀, Reach.init ⟨hi, rfl⟩⟩
  | @step s s' l _ hc ht ih =>
    obtain ⟨g, hg⟩ := ih
    exact ⟨upd g s l s', Reach.step hg hc ⟨ht, rfl⟩⟩

theorem Path.record {t : σ} (g₀ : γ) (upd : γ → σ → ℓ → σ → γ) (g : γ) (h : Path T C s t) :
    ∃ g', Path (T.recording g₀ upd) (fun p l => C p.1 l) (s, g) (t, g') := by
  induction h with
  | refl => exact ⟨g, Path.refl⟩
  | @step t t' l _ hc ht ih =>
    obtain ⟨g', hg⟩ := ih
    exact ⟨upd g' t l t', Path.step hg hc ⟨ht, rfl⟩⟩

/-- an invariant of a run with its history, where the step may use what holds of every run -/
theorem Reach.noted {J : σ → Prop} {I : σ × γ → Prop} (hJ : ∀ s, Reach T Any s → J s)
    (h0 : ∀ s, T.init s → I (s, g₀))
    (hs : ∀ s g l s', J s → I (s, g) → D (s, g) l → T.step l s s' → I (s', upd g s l s'))
    (h : Reach (T.recording g₀ upd) D p) : I p := by
  refine Reach.inv_with (J := fun p => J p.1) (fun p hp => hJ _ (hp.forget fun _ _ _ => trivial))
    ?_ ?_ h
  · rintro ⟨s, g⟩ ⟨hi, rfl⟩
    exact h0 s hi
  · intro p l q hj hi hd ht
    have hq : q = (q.1, upd p.2 p.1 l q.1) := Prod.ext rfl ht.2
    rw [hq]
    exact hs p.1 p.2 l q.1 hj hi hd ht.1

/-- `T`, and what its steps have put out to each reader -/
abbrev System.recorded {ι α : Type*} (T : System σ ℓ) (out : σ → ℓ → σ → ι → List α) :
    System (σ × (ι → List α)) ℓ := T.recording (fun _ => []) fun w s l s' i => w i ++ out s l s' i

end

end Runs
