import Mathlib.Data.List.Basic

/-!
# Texts in columns

A column is a text without blanks.  When columns are set side by side with any number of blanks between them, each of
them can be read back.

* `readColumn`       the first column, and what follows it;
* `readColumn_eq`    reading a column gives the column;
* `column_inj`       equal lines have equal columns.
-/

namespace Column

variable {α : Type} [DecidableEq α]

/-- `b` belongs to a column -/
def isText (blank b : α) : Bool := decide (b ≠ blank)

def readColumn (blank : α) (l : List α) : List α × List α :=
  let t := l.dropWhile fun b => !isText blank b
  (t.takeWhile (isText blank), t.dropWhile (isText blank))

theorem isText_column {blank : α} {a : List α} (ha : blank ∉ a) : ∀ b ∈ a, isText blank b = true := by
  intro b hb
  apply decide_eq_true
  rintro rfl
  exact ha hb

theorem isText_blank (blank : α) : ¬ isText blank blank = true := fun h => of_decide_eq_true h rfl

/-- **A column is read back.** -/
theorem readColumn_eq {blank : α} (k : Nat) {a r : List α} (ha : blank ∉ a) (hne : a ≠ []) :
    readColumn blank (List.replicate k blank ++ (a ++ blank :: r)) = (a, blank :: r) := by
  have hskip : (List.replicate k blank ++ (a ++ blank :: r)).dropWhile (fun b => !isText blank b) =
      a ++ blank :: r := by
    rw [List.dropWhile_append_of_pos]
    · cases a with
      | nil => exact absurd rfl hne
      | cons b a =>
        have hb := isText_column ha b List.mem_cons_self
        exact List.dropWhile_cons_of_neg (by rw [hb]; exact Bool.false_ne_true)
    · intro b hb
      rw [List.eq_of_mem_replicate hb, Bool.eq_false_iff.mpr (isText_blank blank)]
      rfl
  unfold readColumn
  dsimp only
  rw [hskip, List.takeWhile_append_of_pos (isText_column ha), List.takeWhile_cons_of_neg (isText_blank blank),
    List.append_nil, List.dropWhile_append_of_pos (isText_column ha), List.dropWhile_cons_of_neg (isText_blank blank)]

theorem column_inj {blank : α} {i j : Nat} {a b r t : List α} (ha : blank ∉ a) (hne : a ≠ []) (hb : blank ∉ b)
    (hnb : b ≠ []) (h : List.replicate i blank ++ (a ++ blank :: r) = List.replicate j blank ++ (b ++ blank :: t)) :
    a = b ∧ r = t := by
  have hread := congrArg (readColumn blank) h
  rw [readColumn_eq i ha hne, readColumn_eq j hb hnb] at hread
  obtain ⟨h1, h2⟩ := Prod.mk.inj hread
  exact ⟨h1, (List.cons.inj h2).2⟩

end Column
