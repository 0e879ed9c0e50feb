import Mathlib.Data.List.Basic

/-!
# Open files

The content of a file and the position of a descriptor on it, over any type of items; `z` is the item that
fills a gap.  Reading takes the items behind the position, writing replaces them, and a write behind the end
fills the gap first.

* `overlay`         what a write leaves;
* `overlay_start`   a write at the start of the file;
* `overlay_append`, `store_append`  writing twice is writing once.
-/

/-- the content, and the position of the descriptor -/
structure ByteFile (α : Type*) where
  bytes : List α
  pos : Nat

namespace ByteFile

section
variable {α : Type*} (z : α)

/-- `bs` from `pos` on over the old content, which is filled up to `pos` before -/
def overlay (old : List α) (pos : Nat) (bs : List α) : List α :=
  if bs = [] then old
  else (old ++ List.replicate (pos - old.length) z).take pos ++ bs ++ old.drop (pos + bs.length)

/-- the next `n` items, fewer at the end -/
def slice (f : ByteFile α) (n : Nat) : List α := (f.bytes.drop f.pos).take n

def skip (f : ByteFile α) (n : Nat) : ByteFile α := { f with pos := f.pos + n }

def seek (f : ByteFile α) (k : Nat) : ByteFile α := { f with pos := k }

/-- the file is cut to nothing; the position stays -/
def truncate (f : ByteFile α) : ByteFile α := { f with bytes := [] }

/-- `bs` is written -/
def store (f : ByteFile α) (bs : List α) : ByteFile α := ⟨overlay z f.bytes f.pos bs, f.pos + bs.length⟩

variable {z} {f : ByteFile α} {old as bs : List α} {pos n : Nat}

/-! ## reading -/

theorem slice_length (h : f.pos + n ≤ f.bytes.length) : (f.slice n).length = n := by
  unfold slice
  rw [List.length_take, List.length_drop]
  omega

/-! ## writing -/

theorem overlay_nil : overlay z old pos [] = old := if_pos rfl

theorem overlay_of_ne (h : bs ≠ []) : overlay z old pos bs =
    (old ++ List.replicate (pos - old.length) z).take pos ++ bs ++ old.drop (pos + bs.length) := if_neg h

theorem overlay_start : overlay z old 0 bs = bs ++ old.drop bs.length := by
  by_cases h : bs = []
  · subst h
    exact overlay_nil
  · rw [overlay_of_ne h, List.take_zero, List.nil_append, Nat.zero_add]

theorem filled_length : ((old ++ List.replicate (pos - old.length) z).take pos).length = pos := by
  rw [List.length_take, List.length_append, List.length_replicate]
  omega

theorem overlay_length (h : bs ≠ []) : (overlay z old pos bs).length = max old.length (pos + bs.length) := by
  rw [overlay_of_ne h, List.length_append, List.length_append, filled_length, List.length_drop]
  omega

/-- **A write behind a write.** -/
theorem overlay_append : overlay z (overlay z old pos as) (pos + as.length) bs = overlay z old pos (as ++ bs) := by
  by_cases ha : as = []
  · subst ha
    rw [overlay_nil, List.length_nil, Nat.add_zero, List.nil_append]
  by_cases hb : bs = []
  · subst hb
    rw [overlay_nil, List.append_nil]
  have hab : as ++ bs ≠ [] := fun h => ha (List.append_eq_nil_iff.mp h).1
  have hlen : (overlay z old pos as).length = max old.length (pos + as.length) := overlay_length ha
  have hsub : pos + as.length - (overlay z old pos as).length = 0 := by omega
  rw [overlay_of_ne hb, hsub, List.replicate_zero, List.append_nil, overlay_of_ne hab, overlay_of_ne ha]
  have hfill : ((old ++ List.replicate (pos - old.length) z).take pos ++ as).length = pos + as.length := by
    rw [List.length_append, filled_length]
  have htake : ((old ++ List.replicate (pos - old.length) z).take pos ++ as ++
      old.drop (pos + as.length)).take (pos + as.length) =
      (old ++ List.replicate (pos - old.length) z).take pos ++ as := by
    rw [← hfill, List.take_left]
  have hdrop : ((old ++ List.replicate (pos - old.length) z).take pos ++ as ++
      old.drop (pos + as.length)).drop (pos + as.length + bs.length) = old.drop (pos + (as ++ bs).length) := by
    rw [← List.drop_drop]
    conv_lhs => rw [← hfill, List.drop_left]
    rw [hfill, List.drop_drop, List.length_append, Nat.add_assoc]
  rw [htake, hdrop, List.append_assoc _ as bs]

theorem store_nil : f.store z [] = f := by
  unfold store
  rw [overlay_nil, List.length_nil, Nat.add_zero]

theorem store_append : (f.store z as).store z bs = f.store z (as ++ bs) := by
  unfold store
  rw [overlay_append, List.length_append, Nat.add_assoc]

end

end ByteFile
