import Mathlib.Data.List.Infix
import Mathlib.Data.List.Count

/-!
# Quoted texts, and texts that end in a mark

A quoted text goes up to its closing quote; a quote in the text is doubled.  A text in lines ends its line with
a mark `e`, and is one line if the mark is nowhere else.

* `unquote q t`                  the text in front of the closing quote `q` of `t`;
* `unquote_plain`, `unquote_iff` texts that were not quoted by doubling;
* `infix_append_left`, `infix_append_right`  a mark is not in the parts that have none of its letters.
-/

set_option linter.unusedSectionVars false

namespace Quoted

section
variable {α : Type*} [DecidableEq α]

/-- `some p`: the quote that closes the text is found, and it says `p` -/
def unquote (q : α) : List α → Option (List α)
  | [] => none
  | [c] => if c = q then some [] else none
  | c :: d :: t =>
    if c = q then
      if d = q then (unquote q t).map (q :: ·) else some []
    else (unquote q (d :: t)).map (c :: ·)

variable {q c : α} {t p e a l : List α}

theorem unquote_cons (hc : c ≠ q) (t : List α) : unquote q (c :: t) = (unquote q t).map (c :: ·) := by
  cases t with
  | nil =>
    unfold unquote
    rw [if_neg hc]
    rfl
  | cons d t =>
    conv_lhs => unfold unquote
    rw [if_neg hc]

theorem unquote_plain {r : List α} (hp : q ∉ p) (hr : q ∉ r) : unquote q (p ++ q :: r) = some p := by
  induction p with
  | nil =>
    cases r with
    | nil => exact if_pos rfl
    | cons d r =>
      have hd : d ≠ q := fun e => hr (e ▸ List.mem_cons_self)
      rw [List.nil_append]
      unfold unquote
      rw [if_pos rfl, if_neg hd]
  | cons c p ih =>
    have hc : c ≠ q := fun e => hp (e ▸ List.mem_cons_self)
    rw [List.cons_append, unquote_cons hc, ih fun h => hp (List.mem_cons_of_mem _ h)]
    rfl

/-- every quote of the text is there twice, and the closing one is there too -/
theorem unquote_count (h : unquote q t = some p) : 2 * p.count q + 1 ≤ t.count q := by
  induction t using unquote.induct q generalizing p with
  | case1 => exact nomatch h
  | case2 =>
    unfold unquote at h
    rw [if_pos rfl] at h
    cases h
    simp
  | case3 c hc =>
    unfold unquote at h
    rw [if_neg hc] at h
    exact nomatch h
  | case4 t ih =>
    unfold unquote at h
    rw [if_pos rfl, if_pos rfl] at h
    obtain ⟨r, hr, rfl⟩ := Option.map_eq_some_iff.mp h
    have hle := ih hr
    simp only [List.count_cons_self]
    omega
  | case5 d t hd =>
    unfold unquote at h
    rw [if_pos rfl, if_neg hd] at h
    cases h
    simp
  | case6 c d t hc ih =>
    rw [unquote_cons hc] at h
    obtain ⟨r, hr, rfl⟩ := Option.map_eq_some_iff.mp h
    rw [List.count_cons_of_ne hc, List.count_cons_of_ne hc]
    exact ih hr

/-- **Without doubling**, a text is read back where it has no quote, and only there. -/
theorem unquote_iff {r : List α} (hr : q ∉ r) : unquote q (p ++ q :: r) = some p ↔ q ∉ p := by
  refine ⟨fun h => ?_, fun hp => unquote_plain hp hr⟩
  have hle := unquote_count h
  rw [List.count_append, List.count_cons_self, List.count_eq_zero.mpr hr] at hle
  exact List.count_eq_zero.mp (by omega)

/-! ## marks -/

theorem infix_append_left (he : e ≠ []) (ha : ∀ x ∈ e, x ∉ a) : e <:+: a ++ l ↔ e <:+: l := by
  induction a with
  | nil => exact Iff.rfl
  | cons c a ih =>
    rw [List.cons_append, List.infix_cons_iff, ih fun x hx h => ha x hx (List.mem_cons_of_mem _ h)]
    apply or_iff_right
    intro hpre
    cases e with
    | nil => exact he rfl
    | cons x e => exact ha x List.mem_cons_self (by rw [(List.cons_prefix_cons.mp hpre).1]; exact List.mem_cons_self)

theorem infix_append_right (he : e ≠ []) (ha : ∀ x ∈ e, x ∉ a) : e <:+: l ++ a ↔ e <:+: l := by
  rw [← List.reverse_infix, List.reverse_append, infix_append_left (by simpa using he) (by simpa using ha),
    List.reverse_infix]

end

end Quoted
