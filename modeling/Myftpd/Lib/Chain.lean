import Myftpd.Lib.DList

/-!
# Doubly linked chains with a head pointer

A chain is a doubly linked list that is known by its first node only, as a bucket of a hash table knows its
nodes.  The links are functions `prev` and `next`, so that many chains can share them.

* `Chain prev next head l`      the links spell the list `l` from `head` on;
* `Chain.link`, `Chain.unlink`  the links after a node has come in at the head, or has gone;
* `Chain.congr`                 links that differ elsewhere only.
-/

set_option linter.unusedSectionVars false

namespace DList

variable {P : Type*} [DecidableEq P]

theorem Is.congr {d e : DList P} {l : List P} (h : d.Is l) (h1 : e.head = d.head) (h2 : e.last = d.last)
    (hr : ∀ x ∈ l, e.right x = d.right x) (hl : ∀ x ∈ l, e.left x = d.left x) : e.Is l where
  nodup := h.nodup
  head := h1.trans h.head
  last := h2.trans h.last
  right := by
    rintro a x b rfl
    rw [hr x (by simp), h.right a x b rfl]
  left := by
    rintro a x b rfl
    rw [hl x (by simp), h.left a x b rfl]

/-- the chain with the first node `head` consists of the nodes `l` -/
def Chain (prev next : P → Option P) (head : Option P) (l : List P) : Prop :=
  (⟨prev, next, head, l.getLast?⟩ : DList P).Is l

section
variable {prev next prev' next' : P → Option P} {head : Option P} {l : List P} {n : P}

theorem chain_nil (prev next : P → Option P) : Chain prev next none [] where
  nodup := List.nodup_nil
  head := rfl
  last := rfl
  right := fun a x b h => absurd h.symm (by simp)
  left := fun a x b h => absurd h.symm (by simp)

theorem Chain.head_mem (h : Chain prev next head l) (hn : head = some n) : n ∈ l :=
  Is.head_mem h hn

theorem Chain.prev_mem (h : Chain prev next head l) (hn : n ∈ l) {x : P} (hx : prev n = some x) : x ∈ l := by
  obtain ⟨a, b, rfl⟩ := List.append_of_mem hn
  have e : prev n = a.getLast? := Is.left_split h
  exact List.mem_append_left _ (List.mem_of_getLast? (e.symm.trans hx))

theorem Chain.next_mem (h : Chain prev next head l) (hn : n ∈ l) {x : P} (hx : next n = some x) : x ∈ l := by
  obtain ⟨a, b, rfl⟩ := List.append_of_mem hn
  have e : next n = b.head? := Is.right_split h
  exact List.mem_append_right _ (List.mem_cons_of_mem _ (List.mem_of_mem_head? (e.symm.trans hx)))

theorem Chain.congr (h : Chain prev next head l) (hn : ∀ x ∈ l, next' x = next x)
    (hp : ∀ x ∈ l, prev' x = prev x) : Chain prev' next' head l := Is.congr h rfl rfl hn hp

/-- **A node at the head.** -/
theorem Chain.link (h : Chain prev next head l) (hn : n ∉ l) (h1 : next' n = head) (h2 : prev' n = none)
    (h3 : ∀ x ∈ l, next' x = next x) (h4 : ∀ x ∈ l, prev' x = if head = some x then some n else prev x) :
    Chain prev' next' (some n) (n :: l) := by
  have hlink := is_linkHead h hn
  have hne : ∀ x ∈ l, x ≠ n := fun x hx e => hn (e ▸ hx)
  refine hlink.congr rfl hlink.last.symm (fun x hx => ?_) fun x hx => ?_
  · show next' x = Function.update next n head x
    rcases List.mem_cons.mp hx with rfl | hx
    · rw [Function.update_self, h1]
    · rw [Function.update_of_ne (hne x hx), h3 x hx]
  · rcases List.mem_cons.mp hx with rfl | hx
    · exact h2.trans (linkHead_left_self fun e => hn (h.head_mem e)).symm
    · rw [linkHead_left (hne x hx)]
      exact h4 x hx

/-- **A node of the chain goes**: its neighbours, or the head, now point past it. -/
theorem Chain.unlink (h : Chain prev next head l) (hn : n ∈ l)
    (h1 : ∀ x ∈ l, x ≠ n → next' x = if prev n = some x then next n else next x)
    (h2 : ∀ x ∈ l, x ≠ n → prev' x = if next n = some x then prev n else prev x) :
    Chain prev' next' (if prev n = none then next n else head) (l.erase n) := by
  have hu := Is.unlink_erase h hn
  have hin : ∀ x ∈ l.erase n, x ≠ n ∧ x ∈ l := fun x hx => (Is.nodup h).mem_erase_iff.mp hx
  obtain ⟨a, b, rfl⟩ := List.append_of_mem hn
  have hleft : prev n = a.getLast? := Is.left_split h
  have hright : next n = b.head? := Is.right_split h
  refine hu.congr ?_ hu.last.symm (fun x hx => ?_) fun x hx => ?_
  · show (if prev n = none then next n else head) =
      (((⟨prev, next, head, _⟩ : DList P).skipRight n).skipLeft n).head
    rw [skipLeft_head, skipRight_head]
  · obtain ⟨hne, hx⟩ := hin x hx
    rw [Is.unlink_right h x hne, ← hleft, ← hright]
    exact h1 x hx hne
  · obtain ⟨hne, hx⟩ := hin x hx
    rw [Is.unlink_left h x hne, ← hleft, ← hright]
    exact h2 x hx hne

theorem Chain.visits (h : Chain prev next head l) : Visits next head l := Is.visits_right h

end

end DList
