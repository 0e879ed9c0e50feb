import Mathlib.Data.List.Nodup

/-!
# The last assignment wins

A sequence of steps is applied to a state, and one observation of the state is followed: a step sets it to a value
of its own, or leaves it alone.  In the end the observation is the last value that was set, or what it was at
the start.

* `Follows`         each step sets the observation or leaves it alone;
* `Follows.foldl`   what it is in the end;
* `filterMap_of_mem`  a key that occurs once has one value;
* `lookup_iff`      a table in which neither a key nor a value occurs twice pairs them off.
-/

namespace LastWins

section
variable {σ α β : Type*}

/-- a step `a` sets the observation `get` to `sets a`, or leaves it alone -/
def Follows (step : σ → α → σ) (get : σ → β) (sets : α → Option β) : Prop :=
  ∀ s a, get (step s a) = (sets a).getD (get s)

variable {step : σ → α → σ} {get : σ → β} {sets : α → Option β}

/-- **The last value that is set** is the one in the end. -/
theorem Follows.foldl (h : Follows step get sets) (s : σ) (as : List α) :
    get (as.foldl step s) = ((as.filterMap sets).getLast?).getD (get s) := by
  induction as generalizing s with
  | nil => rfl
  | cons a as ih =>
    rw [List.foldl_cons, ih, h]
    cases ha : sets a with
    | none => rw [List.filterMap_cons_none ha, Option.getD_none]
    | some b =>
      rw [List.filterMap_cons_some ha, List.getLast?_cons, Option.getD_some, Option.getD_some]

end

/-! ## tables -/

section
variable {α β : Type*} [BEq α] [LawfulBEq α] {l : List (α × β)} {k k' : α} {b : β}

theorem mem_of_lookup (h : l.lookup k = some b) : (k, b) ∈ l := by
  obtain ⟨l₁, l₂, rfl, -⟩ := List.lookup_eq_some_iff.mp h
  exact List.mem_append_right _ List.mem_cons_self

theorem lookup_of_mem (hk : (l.map Prod.fst).Nodup) (h : (k, b) ∈ l) : l.lookup k = some b := by
  cases he : l.lookup k with
  | none =>
    have hne := List.lookup_eq_none_iff.mp he (k, b) h
    simp at hne
  | some b' =>
    have heq : (k, b') = (k, b) := List.inj_on_of_nodup_map hk (mem_of_lookup he) h rfl
    rw [(Prod.mk.inj heq).2]

theorem lookup_iff (hk : (l.map Prod.fst).Nodup) (hb : (l.map Prod.snd).Nodup) (h : (k, b) ∈ l) :
    l.lookup k' = some b ↔ k' = k := by
  constructor
  · intro he
    have heq : (k', b) = (k, b) := List.inj_on_of_nodup_map hb (mem_of_lookup he) h rfl
    exact (Prod.mk.inj heq).1
  · intro he
    rw [he]
    exact lookup_of_mem hk h

end

theorem filterMap_of_mem {α β : Type*} [DecidableEq α] {l : List (α × β)} {k : α} {b : β} (hk : (l.map Prod.fst).Nodup)
    (h : (k, b) ∈ l) : (l.filterMap fun a => if a.1 = k then some a.2 else none) = [b] := by
  induction l with
  | nil => exact absurd h List.not_mem_nil
  | cons a l ih =>
    rw [List.map_cons, List.nodup_cons] at hk
    rw [List.filterMap_cons]
    rcases List.mem_cons.mp h with rfl | h
    · have hnone : (l.filterMap fun a => if a.1 = k then some a.2 else none) = [] := by
        rw [List.filterMap_eq_nil_iff]
        intro a ha
        have hin : a.1 ∈ l.map Prod.fst := List.mem_map_of_mem ha
        exact if_neg fun e => hk.1 (by rwa [e] at hin)
      simp [hnone]
    · have hin : k ∈ l.map Prod.fst := List.mem_map_of_mem h
      have hne : a.1 ≠ k := fun e => hk.1 (by rwa [e])
      simp [hne, ih hk.2 h]

end LastWins
