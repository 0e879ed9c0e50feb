import Mathlib.Logic.Function.Basic
import Mathlib.Data.List.Nodup
import Mathlib.Data.List.Induction
import Mathlib.Tactic.Common

/-!
# Doubly linked lists with two end pointers

A node is a pointer `p : P` with a `left` and a `right` field; `head` and `last` point to the
ends of the list.  `linkHead` and `unlink` are the usual pointer programs.

* `d.Is l`         the pointers of `d` spell the list `l`, from `head` by `right` and from `last`
                   by `left`, every node once;
* `Is.visits_right`, `Is.visits_left`  walking from an end by one of the two fields;
* `is_linkHead`    linking a new node at the head puts it in front;
* `is_unlink`      unlinking a node of the list deletes it and keeps the order of the others.
-/

set_option linter.unusedSectionVars false

structure DList (P : Type*) where
  left : P → Option P
  right : P → Option P
  head : Option P
  last : Option P

namespace DList

variable {P : Type*} [DecidableEq P]

def empty : DList P := ⟨fun _ => none, fun _ => none, none, none⟩

/-- `right n = head; left n = 0; if head then left head = n; head = n; if !last then last = n` -/
def linkHead (d : DList P) (n : P) : DList P where
  left := match d.head with
    | some h => Function.update (Function.update d.left n none) h (some n)
    | none => Function.update d.left n none
  right := Function.update d.right n d.head
  head := some n
  last := match d.last with
    | some z => some z
    | none => some n

/-- the neighbour on the left (or `head`) now points past `n` -/
def skipRight (d : DList P) (n : P) : DList P :=
  match d.left n with
  | some a => { d with right := Function.update d.right a (d.right n) }
  | none => { d with head := d.right n }

/-- the neighbour on the right (or `last`) now points past `n` -/
def skipLeft (d : DList P) (n : P) : DList P :=
  match d.right n with
  | some b => { d with left := Function.update d.left b (d.left n) }
  | none => { d with last := d.left n }

def clear (d : DList P) (n : P) : DList P :=
  { d with left := Function.update d.left n none, right := Function.update d.right n none }

def unlink (d : DList P) (n : P) : DList P := ((d.skipRight n).skipLeft n).clear n

/-- the pointers of `d` spell `l` -/
structure Is (d : DList P) (l : List P) : Prop where
  nodup : l.Nodup
  head : d.head = l.head?
  last : d.last = l.getLast?
  right : ∀ a x b, l = a ++ x :: b → d.right x = b.head?
  left : ∀ a x b, l = a ++ x :: b → d.left x = a.getLast?

theorem is_empty : (empty : DList P).Is [] where
  nodup := List.nodup_nil
  head := rfl
  last := rfl
  right := fun a x b h => absurd h.symm (by simp)
  left := fun a x b h => absurd h.symm (by simp)

theorem Is.last_mem {d : DList P} {l : List P} (h : d.Is l) {x : P} (hx : d.last = some x) :
    x ∈ l := by
  rw [h.last] at hx
  exact List.mem_of_getLast? hx

/-! ## walking along the list -/

/-- following `next` from `o` meets the nodes of the list one after the other, and ends in NULL -/
inductive Visits (next : P → Option P) : Option P → List P → Prop where
  | nil : Visits next none []
  | cons {p : P} {l : List P} : Visits next (next p) l → Visits next (some p) (p :: l)

theorem Visits.unique {next : P → Option P} {o : Option P} {l l' : List P} (h : Visits next o l)
    (h' : Visits next o l') : l = l' := by
  induction h generalizing l' with
  | nil => cases h'; rfl
  | cons _ ih =>
    cases h' with
    | cons h' => rw [ih h']

theorem Is.visits_right {d : DList P} {l : List P} (h : d.Is l) : Visits d.right d.head l := by
  have hsuf : ∀ a b, l = a ++ b → Visits d.right b.head? b := by
    intro a b
    induction b generalizing a with
    | nil => exact fun _ => .nil
    | cons x b ih =>
      intro e
      refine .cons ?_
      rw [h.right a x b e]
      exact ih (a ++ [x]) (by rw [e, List.append_assoc, List.singleton_append])
  rw [h.head]
  exact hsuf [] l rfl

theorem Is.visits_left {d : DList P} {l : List P} (h : d.Is l) :
    Visits d.left d.last l.reverse := by
  have hpre : ∀ a b, l = a ++ b → Visits d.left a.getLast? a.reverse := by
    intro a
    induction a using List.reverseRecOn with
    | nil => exact fun _ _ => .nil
    | append_singleton a x ih =>
      intro b e
      rw [List.getLast?_concat, List.reverse_concat]
      rw [List.append_assoc, List.singleton_append] at e
      refine .cons ?_
      rw [h.left a x b e]
      exact ih (x :: b) e
  rw [h.last]
  exact hpre l [] (List.append_nil l).symm

/-! ## linking at the head -/

theorem Is.head_mem {d : DList P} {l : List P} (h : d.Is l) {n : P} (hn : d.head = some n) : n ∈ l := by
  rw [h.head] at hn
  exact List.mem_of_mem_head? hn

theorem linkHead_left_self {d : DList P} {n : P} (h : d.head ≠ some n) : (d.linkHead n).left n = none := by
  unfold linkHead
  cases hd : d.head with
  | none => exact Function.update_self ..
  | some y =>
    have hy : n ≠ y := fun e => h (by rw [hd, e])
    dsimp only
    rw [Function.update_of_ne hy, Function.update_self]

theorem linkHead_left {d : DList P} {n x : P} (hx : x ≠ n) :
    (d.linkHead n).left x = if d.head = some x then some n else d.left x := by
  unfold linkHead
  cases hd : d.head with
  | none =>
    dsimp only
    rw [Function.update_of_ne hx, if_neg nofun]
  | some y =>
    dsimp only
    rw [Function.update_apply, Function.update_of_ne hx]
    simp only [Option.some.injEq, eq_comm]

theorem is_linkHead {d : DList P} {l : List P} (h : d.Is l) {n : P} (hn : n ∉ l) :
    (d.linkHead n).Is (n :: l) where
  nodup := List.nodup_cons.mpr ⟨hn, h.nodup⟩
  head := rfl
  last := by
    show (match d.last with | some z => some z | none => some n) = _
    rw [h.last, List.getLast?_cons]
    cases l.getLast? <;> rfl
  right := by
    intro a x b hl
    show Function.update d.right n d.head x = _
    cases a with
    | nil =>
      obtain ⟨rfl, rfl⟩ := List.cons_eq_cons.mp hl
      rw [Function.update_self, h.head]
    | cons y a =>
      obtain ⟨rfl, hl'⟩ := List.cons_eq_cons.mp hl
      have hx : x ≠ n := fun e => hn (by rw [hl', e]; simp)
      rw [Function.update_of_ne hx]
      exact h.right a x b hl'
  left := by
    intro a x b hl
    cases a with
    | nil =>
      obtain ⟨rfl, -⟩ := List.cons_eq_cons.mp hl
      exact linkHead_left_self fun e => hn (h.head_mem e)
    | cons y a =>
      obtain ⟨rfl, hl'⟩ := List.cons_eq_cons.mp hl
      have hx : x ≠ n := fun e => hn (by rw [hl', e]; simp)
      rw [linkHead_left hx, h.head, hl']
      cases a with
      | nil => exact if_pos rfl
      | cons z a =>
        have hz : z ≠ x := by
          have hnd := h.nodup
          rw [hl'] at hnd
          rintro rfl
          simp at hnd
        have hne : ((z :: a).append (x :: b)).head? ≠ some x := fun e => hz (Option.some.inj e)
        rw [if_neg hne, h.left (z :: a) x b hl']
        simp [List.getLast?_cons]

/-! ## unlinking -/

theorem skipRight_right (d : DList P) (n x : P) :
    (d.skipRight n).right x = if d.left n = some x then d.right n else d.right x := by
  unfold skipRight
  split
  · rename_i a ha
    rw [ha]
    show Function.update d.right a (d.right n) x = _
    rw [Function.update_apply]
    by_cases e : x = a
    · rw [if_pos e, e, if_pos rfl]
    · rw [if_neg e, if_neg (fun h => e (Option.some.inj h).symm)]
  · rename_i ha
    rw [ha, if_neg (by simp)]

theorem skipRight_left (d : DList P) (n : P) : (d.skipRight n).left = d.left := by
  unfold skipRight; split <;> rfl

theorem skipRight_last (d : DList P) (n : P) : (d.skipRight n).last = d.last := by
  unfold skipRight; split <;> rfl

theorem skipRight_head (d : DList P) (n : P) :
    (d.skipRight n).head = if d.left n = none then d.right n else d.head := by
  unfold skipRight
  split
  · rename_i a ha; rw [ha, if_neg (by simp)]
  · rename_i ha; rw [ha, if_pos rfl]

theorem skipLeft_left (d : DList P) (n x : P) :
    (d.skipLeft n).left x = if d.right n = some x then d.left n else d.left x := by
  unfold skipLeft
  split
  · rename_i a ha
    rw [ha]
    show Function.update d.left a (d.left n) x = _
    rw [Function.update_apply]
    by_cases e : x = a
    · rw [if_pos e, e, if_pos rfl]
    · rw [if_neg e, if_neg (fun h => e (Option.some.inj h).symm)]
  · rename_i ha
    rw [ha, if_neg (by simp)]

theorem skipLeft_right (d : DList P) (n : P) : (d.skipLeft n).right = d.right := by
  unfold skipLeft; split <;> rfl

theorem skipLeft_head (d : DList P) (n : P) : (d.skipLeft n).head = d.head := by
  unfold skipLeft; split <;> rfl

theorem skipLeft_last (d : DList P) (n : P) :
    (d.skipLeft n).last = if d.right n = none then d.left n else d.last := by
  unfold skipLeft
  split
  · rename_i a ha; rw [ha, if_neg (by simp)]
  · rename_i ha; rw [ha, if_pos rfl]

section
variable {d : DList P} {a b : List P} {n : P}

theorem Is.right_split (h : d.Is (a ++ n :: b)) : d.right n = b.head? := h.right a n b rfl
theorem Is.left_split (h : d.Is (a ++ n :: b)) : d.left n = a.getLast? := h.left a n b rfl

theorem Is.not_mem_split (h : d.Is (a ++ n :: b)) : n ∉ a ∧ n ∉ b := by
  have hnd := List.nodup_append.mp h.nodup
  exact ⟨fun hx => hnd.2.2 n hx n (by simp) rfl, (List.nodup_cons.mp hnd.2.1).1⟩

/-- the node is its own neighbour neither on the left nor on the right -/
theorem Is.not_self (h : d.Is (a ++ n :: b)) : d.left n ≠ some n ∧ d.right n ≠ some n := by
  obtain ⟨ha, hb⟩ := h.not_mem_split
  rw [h.left_split, h.right_split]
  exact ⟨fun e => ha (List.mem_of_getLast? e), fun e => hb (List.mem_of_mem_head? e)⟩

theorem Is.unlink_right (h : d.Is (a ++ n :: b)) (x : P) (hx : x ≠ n) :
    (d.unlink n).right x = if a.getLast? = some x then b.head? else d.right x := by
  show Function.update ((d.skipRight n).skipLeft n).right n none x = _
  rw [Function.update_of_ne hx, skipLeft_right, skipRight_right, h.left_split, h.right_split]

theorem Is.unlink_left (h : d.Is (a ++ n :: b)) (x : P) (hx : x ≠ n) :
    (d.unlink n).left x = if b.head? = some x then a.getLast? else d.left x := by
  show Function.update ((d.skipRight n).skipLeft n).left n none x = _
  rw [Function.update_of_ne hx, skipLeft_left, skipRight_left, skipRight_right,
    if_neg h.not_self.1, h.left_split, h.right_split]

/-- **Unlinking a node of the list** deletes it and keeps the order of the others. -/
theorem is_unlink (h : d.Is (a ++ n :: b)) : (d.unlink n).Is (a ++ b) := by
  obtain ⟨hna, hnb⟩ := h.not_mem_split
  have hnd : (a ++ b).Nodup := h.nodup.sublist (by simp)
  have hdisj := (List.nodup_append.mp hnd).2.2
  have hne : ∀ x, x ∈ a ++ b → x ≠ n := by
    rintro x hx rfl
    rcases List.mem_append.mp hx with hx | hx
    · exact hna hx
    · exact hnb hx
  refine ⟨hnd, ?_, ?_, ?_, ?_⟩
  · show ((d.skipRight n).skipLeft n).head = _
    rw [skipLeft_head, skipRight_head, h.left_split, h.right_split, h.head]
    cases a <;> simp
  · show ((d.skipRight n).skipLeft n).last = _
    rw [skipLeft_last, skipRight_right, skipRight_left, skipRight_last, if_neg h.not_self.1,
      h.left_split, h.right_split, h.last]
    cases b <;> simp
  · -- `right`: only the last node before `n` has a new neighbour
    intro a' x b' hl
    rw [h.unlink_right x (hne x (by rw [hl]; simp))]
    rcases List.append_eq_append_iff.mp hl with ⟨c, rfl, rfl⟩ | ⟨c, rfl, hc⟩
    · -- `x` stands in `b`
      have hx : a.getLast? ≠ some x := fun e => hdisj x (List.mem_of_getLast? e) x (by simp) rfl
      rw [if_neg hx]
      exact h.right (a ++ n :: c) x b' (by simp)
    · cases c with
      | nil =>
        have hx : (a' ++ []).getLast? ≠ some x := fun e =>
          hdisj x (List.mem_of_getLast? e) x (by simp at hc; rw [← hc]; simp) rfl
        rw [if_neg hx]
        simp only [List.nil_append] at hc
        exact h.right (a' ++ [n]) x b' (by rw [← hc]; simp)
      | cons y c =>
        obtain ⟨rfl, rfl⟩ := List.cons_eq_cons.mp hc
        cases c with
        | nil => simp
        | cons z c =>
          have hx : (a' ++ x :: z :: c).getLast? ≠ some x := by
            intro e
            have hm : x ∈ z :: c := by
              have e' : (z :: c).getLast? = some x := by simpa using e
              exact List.mem_of_getLast? e'
            have hnd' := (List.nodup_append.mp hnd).1
            rw [List.nodup_append] at hnd'
            exact (List.nodup_cons.mp hnd'.2.1).1 hm
          rw [if_neg hx, h.right a' x ((z :: c) ++ n :: b) (by simp)]
          simp
  · -- `left`: only the first node after `n` has a new neighbour
    intro a' x b' hl
    rw [h.unlink_left x (hne x (by rw [hl]; simp))]
    rcases List.append_eq_append_iff.mp hl with ⟨c, rfl, rfl⟩ | ⟨c, rfl, hc⟩
    · cases c with
      | nil => simp
      | cons z c =>
        have hx : (z :: c ++ x :: b').head? ≠ some x := by
          intro e
          have hz : z = x := by simpa using e
          subst hz
          have hnd' := (List.nodup_append.mp hnd).2.1
          simp at hnd'
        rw [if_neg hx, h.left (a ++ n :: z :: c) x b' (by simp)]
        simp [List.getLast?_append, List.getLast?_cons]
    · cases c with
      | nil =>
        simp only [List.nil_append] at hc
        rw [← hc]
        simp
      | cons y c =>
        obtain ⟨rfl, rfl⟩ := List.cons_eq_cons.mp hc
        have hx : b.head? ≠ some x := fun e =>
          hdisj x (by simp) x (List.mem_of_mem_head? e) rfl
        rw [if_neg hx]
        exact h.left a' x (c ++ n :: b) (by simp)

end

theorem Is.unlink_erase {d : DList P} {l : List P} {n : P} (h : d.Is l) (hn : n ∈ l) :
    (d.unlink n).Is (l.erase n) := by
  obtain ⟨a, b, rfl⟩ := List.append_of_mem hn
  rw [List.erase_append_right _ h.not_mem_split.1, List.erase_cons_head]
  exact is_unlink h

end DList
