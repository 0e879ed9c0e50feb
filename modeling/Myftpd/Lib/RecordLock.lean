import Mathlib.Logic.Function.Basic

/-!
# Record locks

A lock table keeps the lock that each owner has on each file.  A request is granted unless it conflicts
with a lock of another owner; a new lock of an owner replaces the old one; an owner who closes a
descriptor of the file loses its lock.  Two locks conflict if one of them is for writing.

* `Exclusive`            no two owners have conflicting locks on one file;
* `Exclusive.acquire`    locks that are granted keep the table exclusive;
* `grants_of_one_owner`  a table with one owner grants everything.
-/

set_option linter.unusedSectionVars false

namespace RecordLock

inductive Mode where
  | read | write
  deriving DecidableEq, Repr

/-- one of the two locks is for writing -/
def Mode.conflicts : Mode → Mode → Bool
  | .read, .read => false
  | _, _ => true

/-- the lock of each owner on each file -/
def Table (F O : Type*) := F → O → Option Mode

namespace Table

variable {F O : Type*} [DecidableEq F] [DecidableEq O]

def empty : Table F O := fun _ _ => none

/-- no other owner has a lock on `f` that conflicts with `m` -/
def Grants (t : Table F O) (f : F) (o : O) (m : Mode) : Prop :=
  ∀ u, u ≠ o → ∀ n ∈ t f u, m.conflicts n = false

def acquire (t : Table F O) (f : F) (o : O) (m : Mode) : Table F O :=
  fun g u => if g = f ∧ u = o then some m else t g u

/-- the owner closes a descriptor of the file -/
def drop (t : Table F O) (f : F) (o : O) : Table F O :=
  fun g u => if g = f ∧ u = o then none else t g u

/-- no two owners have conflicting locks on one file -/
def Exclusive (t : Table F O) : Prop := ∀ f o m, t f o = some m → t.Grants f o m

variable {t : Table F O} {f g : F} {o u : O} {m n : Mode}

theorem conflicts_comm (m n : Mode) : m.conflicts n = n.conflicts m := by cases m <;> cases n <;> rfl

theorem conflicts_write (n : Mode) : Mode.conflicts .write n = true := rfl

theorem acquire_apply : t.acquire f o m g u = if g = f ∧ u = o then some m else t g u := rfl

theorem drop_apply : t.drop f o g u = if g = f ∧ u = o then none else t g u := rfl

theorem Exclusive.empty : (empty : Table F O).Exclusive := by
  rintro f o m ⟨⟩

/-- **A lock that is granted** conflicts with none. -/
theorem Exclusive.acquire (h : t.Exclusive) (hg : t.Grants f o m) : (t.acquire f o m).Exclusive := by
  intro g u n hn v hv k hk
  rw [acquire_apply] at hn
  rw [Option.mem_def, acquire_apply] at hk
  split at hn
  · rename_i hu
    obtain ⟨rfl, rfl⟩ := hu
    cases hn
    rw [if_neg fun e => hv e.2] at hk
    exact hg v hv k hk
  · split at hk
    · rename_i hu hv'
      obtain ⟨rfl, rfl⟩ := hv'
      cases hk
      rw [conflicts_comm]
      exact hg u (Ne.symm hv) n hn
    · exact h g u n hn v hv k hk

theorem Exclusive.drop (h : t.Exclusive) : (t.drop f o).Exclusive := by
  intro g u n hn v hv k hk
  rw [drop_apply] at hn
  rw [Option.mem_def, drop_apply] at hk
  split at hn
  · cases hn
  · split at hk
    · cases hk
    · exact h g u n hn v hv k hk

theorem Exclusive.alone (h : t.Exclusive) (ho : t f o = some .write) (hu : u ≠ o) : t f u = none := by
  cases hn : t f u with
  | none => rfl
  | some n => exact absurd (h f o .write ho u hu n hn) (by rw [conflicts_write]; decide)

/-- **A table with one owner grants everything.** -/
theorem grants_of_one_owner [Subsingleton O] : t.Grants f o m :=
  fun u hu => absurd (Subsingleton.elim u o) hu

end Table

end RecordLock
