import Mathlib.Logic.Basic

/-!
# Labelled transition systems: runs under a condition, and invariants

A system has initial states and labelled steps.  `Reach T C s`: some run of `T` ends in `s` and
every step of it, taken in state `t` with label `l`, meets the condition `C t l`.  `Path T C s t`
is the same for a run that starts in `s`.

* `Reach.inv`       an invariant: true initially, kept by every step that meets `C`;
* `Reach.inv_with`  the same, where the step may use a second invariant that is already known;
* `Reach.weaken`    a weaker condition has more runs;
* `Path.inv`        the same rule for a run that starts in a given state;
* `Trail T C s ls t`  a run from `s` to `t` by the labels `ls`;
* `Each T P s ls`     what holds of every step of such a run, and `Trail.each_iff` when that is a condition on steps.
-/

namespace Runs

/-- initial states and labelled steps -/
structure System (σ ℓ : Type*) where
  init : σ → Prop
  step : ℓ → σ → σ → Prop

section
variable {σ ℓ : Type*}

/-- reached by a run from an initial state, every step of which meets `C` -/
inductive Reach (T : System σ ℓ) (C : σ → ℓ → Prop) : σ → Prop where
  | init {s : σ} : T.init s → Reach T C s
  | step {s s' : σ} {l : ℓ} : Reach T C s → C s l → T.step l s s' → Reach T C s'

/-- reached from `s` by a run every step of which meets `C` -/
inductive Path (T : System σ ℓ) (C : σ → ℓ → Prop) (s : σ) : σ → Prop where
  | refl : Path T C s s
  | step {t t' : σ} {l : ℓ} : Path T C s t → C t l → T.step l t t' → Path T C s t'

/-- a run from the first state to the second by the given labels, every step of which meets `C` -/
inductive Trail (T : System σ ℓ) (C : σ → ℓ → Prop) : σ → List ℓ → σ → Prop where
  | nil {s : σ} : Trail T C s [] s
  | cons {s s' t : σ} {l : ℓ} {ls : List ℓ} : C s l → T.step l s s' → Trail T C s' ls t →
      Trail T C s (l :: ls) t

/-- no condition on the steps -/
def Any : σ → ℓ → Prop := fun _ _ => True

variable {T : System σ ℓ} {C D : σ → ℓ → Prop} {I J : σ → Prop}

theorem Reach.inv (h0 : ∀ s, T.init s → I s)
    (hs : ∀ s l s', I s → C s l → T.step l s s' → I s') {s : σ} (h : Reach T C s) : I s := by
  induction h with
  | init hi => exact h0 _ hi
  | step _ hc ht ih => exact hs _ _ _ ih hc ht

theorem Reach.inv_with (hJ : ∀ s, Reach T C s → J s) (h0 : ∀ s, T.init s → I s)
    (hs : ∀ s l s', J s → I s → C s l → T.step l s s' → I s') {s : σ} (h : Reach T C s) : I s := by
  induction h with
  | init hi => exact h0 _ hi
  | step hr hc ht ih => exact hs _ _ _ (hJ _ hr) ih hc ht

theorem Reach.weaken (hCD : ∀ s l, C s l → D s l) {s : σ} (h : Reach T C s) : Reach T D s := by
  induction h with
  | init hi => exact Reach.init hi
  | step _ hc ht ih => exact Reach.step ih (hCD _ _ hc) ht

theorem Path.inv (hs : ∀ s l s', I s → C s l → T.step l s s' → I s') {s t : σ}
    (h : Path T C s t) (h0 : I s) : I t := by
  induction h with
  | refl => exact h0
  | step _ hc ht ih => exact hs _ _ _ ih hc ht

theorem Path.weaken (hCD : ∀ s l, C s l → D s l) {s t : σ} (h : Path T C s t) : Path T D s t := by
  induction h with
  | refl => exact Path.refl
  | step _ hc ht ih => exact Path.step ih (hCD _ _ hc) ht

theorem Reach.path {s t : σ} (hr : Reach T C s) (h : Path T C s t) : Reach T C t := by
  induction h with
  | refl => exact hr
  | step _ hc ht ih => exact Reach.step ih hc ht

theorem Trail.reach (hCD : ∀ s l, C s l → D s l) {s t : σ} {ls : List ℓ} (h : Trail T C s ls t)
    (hr : Reach T D s) : Reach T D t := by
  induction h with
  | nil => exact hr
  | cons hc ht _ ih => exact ih (Reach.step hr (hCD _ _ hc) ht)

theorem Trail.weaken (hCD : ∀ s l, C s l → D s l) {s t : σ} {ls : List ℓ} (h : Trail T C s ls t) : Trail T D s ls t := by
  induction h with
  | nil => exact .nil
  | cons hc ht _ ih => exact .cons (hCD _ _ hc) ht ih

theorem Trail.append {s t u : σ} {ls ms : List ℓ} (h : Trail T C s ls t) (h' : Trail T C t ms u) :
    Trail T C s (ls ++ ms) u := by
  induction h with
  | nil => exact h'
  | cons hc ht _ ih => exact .cons hc ht (ih h')

/-- `P` holds of every step of the run from `s` by `ls`: of the state, the label, the next state, and the labels that
are left. -/
def Each (T : System σ ℓ) (P : σ → ℓ → σ → List ℓ → Prop) (s : σ) (ls : List ℓ) : Prop :=
  ∀ a l b m r, ls = a ++ l :: b → Trail T Any s a m → T.step l m r → P m l r b

theorem Each.cons_iff (hdet : ∀ l s u v, T.step l s u → T.step l s v → u = v) {P : σ → ℓ → σ → List ℓ → Prop}
    {s s' : σ} {l : ℓ} {ls : List ℓ} (hs : T.step l s s') :
    Each T P s (l :: ls) ↔ P s l s' ls ∧ Each T P s' ls := by
  constructor
  · intro h
    refine ⟨h [] l ls s s' rfl .nil hs, fun a k b m r e htr hk => ?_⟩
    exact h (l :: a) k b m r (by rw [e]; rfl) (.cons trivial hs htr) hk
  · rintro ⟨h1, h2⟩ a k b m r e htr hk
    cases htr with
    | nil =>
      cases e
      rw [hdet _ _ _ _ hk hs]
      exact h1
    | cons _ hu htr =>
      cases e
      rw [hdet _ _ _ _ hu hs] at htr
      exact h2 _ k b m r rfl htr hk

/-- **From steps to runs**: where `P` of a step says no more and no less than `C` before it, `P` of every step of a run
says that the run meets `C`. -/
theorem Trail.each_iff (hdet : ∀ l s u v, T.step l s u → T.step l s v → u = v) {P : σ → ℓ → σ → List ℓ → Prop}
    (hI : ∀ s l s', I s → T.step l s s' → I s')
    (hP : ∀ s l s' ls t, I s → T.step l s s' → Trail T Any s' ls t → (P s l s' ls ↔ C s l)) {s t : σ} {ls : List ℓ}
    (hi : I s) (h : Trail T Any s ls t) : Each T P s ls ↔ Trail T C s ls t := by
  induction h with
  | nil =>
    have hnone : ∀ (a b : List ℓ) (l : ℓ), [] ≠ a ++ l :: b := fun a b l =>
      (List.append_ne_nil_of_right_ne_nil a (List.cons_ne_nil l b)).symm
    exact iff_of_true (fun a l b m r e => absurd e (hnone a b l)) .nil
  | cons _ hs htr ih =>
    rw [Each.cons_iff hdet hs, hP _ _ _ _ _ hi hs htr, ih (hI _ _ _ hi hs)]
    constructor
    · rintro ⟨h1, h2⟩
      exact .cons h1 hs h2
    · rintro (_ | ⟨h1, hu, h2⟩)
      rw [hdet _ _ _ _ hu hs] at h2
      exact ⟨h1, h2⟩

theorem Path.head {s s' t : σ} {l : ℓ} (hc : C s l) (hs : T.step l s s') (h : Path T C s' t) : Path T C s t := by
  induction h with
  | refl => exact Path.step Path.refl hc hs
  | step _ hc' ht ih => exact Path.step ih hc' ht

theorem Trail.path {s t : σ} {ls : List ℓ} (h : Trail T C s ls t) : Path T C s t := by
  induction h with
  | nil => exact Path.refl
  | cons hc ht _ ih => exact Path.head hc ht ih

end

end Runs
