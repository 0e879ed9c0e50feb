import Mathlib.Data.List.GetD
import Mathlib.Data.List.TakeWhile
import Mathlib.Tactic.Common

/-!
# C strings in a flat memory

A memory is a list of bytes, a pointer an index into it.  `cstrAt m p` is the C string at `p` (the
bytes before the first NUL), `poke m p bs` writes `bs` at `p`.  `strcpy` and `strncpy` are undefined
(`none`) when source and destination overlap or the copy leaves the memory, as in C.

All reasoning goes through the byte view `m.getD i 0`:

* `getD_poke`      the bytes after a write;
* `cstrAt_eq_iff`  a C string is the bytes up to the first zero byte;
* `cstrAt_strcpy`  after a `strcpy` that is defined, the destination holds the source's string.
-/

namespace CMem

abbrev Mem := List UInt8

def ascii (s : String) : List UInt8 := s.toList.map fun c => c.toNat.toUInt8

def cstr (bs : List UInt8) : List UInt8 := bs.takeWhile (· != 0)

def cstrAt (m : Mem) (p : Nat) : List UInt8 := cstr (m.drop p)

def strlen (m : Mem) (p : Nat) : Nat := (cstrAt m p).length

/-- write `bs` at `p` -/
def poke (m : Mem) (p : Nat) (bs : List UInt8) : Mem := m.take p ++ bs ++ m.drop (p + bs.length)

/-- the first `c` in the C string at `p` -/
def strchr (m : Mem) (p : Nat) (c : UInt8) : Option Nat :=
  ((cstrAt m p).idxOf? c).map (p + ·)

/-- two areas of `n` bytes at `p` and `q` do not overlap -/
def Apart (p q n : Nat) : Prop := p + n ≤ q ∨ q + n ≤ p

instance (p q n : Nat) : Decidable (Apart p q n) := inferInstanceAs (Decidable (_ ∨ _))

def strcpy (m : Mem) (dst src : Nat) : Option Mem :=
  let s := cstrAt m src ++ [0]
  if src + s.length ≤ m.length ∧ dst + s.length ≤ m.length ∧ Apart dst src s.length then
    some (poke m dst s)
  else none

/-- copies `n` bytes, fewer if the string ends before, and pads with NULs -/
def strncpy (m : Mem) (dst src n : Nat) : Option Mem :=
  let s := (cstrAt m src).take n
  if src + n ≤ m.length ∧ dst + n ≤ m.length ∧ Apart dst src n then
    some (poke m dst (s ++ List.replicate (n - s.length) 0))
  else none

/-! ## C strings -/

theorem cstr_ne_zero {bs : List UInt8} {c : UInt8} (h : c ∈ cstr bs) : c ≠ 0 := by
  have := List.mem_takeWhile_imp h
  simpa using this

theorem cstr_isPrefix (bs : List UInt8) : cstr bs <+: bs := List.takeWhile_prefix _

theorem cstr_length_le (bs : List UInt8) : (cstr bs).length ≤ bs.length :=
  (cstr_isPrefix bs).length_le

theorem cstr_getD {bs : List UInt8} {i : Nat} (h : i < (cstr bs).length) :
    bs.getD i 0 = (cstr bs)[i] := by
  have hlen := cstr_length_le bs
  have hp := (cstr_isPrefix bs).getElem h
  rw [List.getD_eq_getElem _ _ (by omega), hp]

theorem cstr_getD_length (bs : List UInt8) : bs.getD (cstr bs).length 0 = 0 := by
  by_cases h : (cstr bs).length < bs.length
  · rw [List.getD_eq_getElem _ _ h]
    have hd : bs.dropWhile (· != 0) ≠ [] := by
      intro e
      have := congrArg List.length (List.takeWhile_append_dropWhile (p := (· != 0)) (l := bs))
      rw [e, List.append_nil] at this
      change (cstr bs).length = _ at this
      omega
    have h0 := List.head_dropWhile_not (· != 0) hd
    have hb : bs = cstr bs ++ bs.dropWhile (· != 0) := (List.takeWhile_append_dropWhile ..).symm
    have hg : bs[(cstr bs).length] = (bs.dropWhile (· != 0)).head hd := by
      rw [← List.getElem_zero (h := List.length_pos_iff.mpr hd)]
      conv_lhs => rw [List.getElem_of_eq hb]
      rw [List.getElem_append_right (le_refl _)]
      simp
    rw [hg]
    simpa using h0
  · rw [List.getD_eq_default _ _ (by omega)]

/-- **The C string is the bytes up to the first zero byte.** -/
theorem cstr_eq_iff (bs s : List UInt8) :
    cstr bs = s ↔ (∀ i, (h : i < s.length) → bs.getD i 0 = s[i]) ∧ (∀ c ∈ s, c ≠ 0) ∧
      bs.getD s.length 0 = 0 := by
  constructor
  · rintro rfl
    exact ⟨fun i h => cstr_getD h, fun c hc => cstr_ne_zero hc, cstr_getD_length bs⟩
  · rintro ⟨h1, h2, h3⟩
    have hlen : (cstr bs).length = s.length := by
      rcases Nat.lt_trichotomy (cstr bs).length s.length with h | h | h
      · have e := h1 _ h
        rw [cstr_getD_length] at e
        exact absurd e.symm (h2 _ (List.getElem_mem h))
      · exact h
      · have e := cstr_getD h
        rw [h3] at e
        exact absurd e.symm (cstr_ne_zero (List.getElem_mem h))
    apply List.ext_getElem hlen
    intro i hi hi'
    rw [← cstr_getD hi, h1 i hi']

theorem getD_drop (m : Mem) (p i : Nat) : (m.drop p).getD i 0 = m.getD (p + i) 0 := by
  simp [List.getD_eq_getElem?_getD, List.getElem?_drop]

theorem cstrAt_eq_iff (m : Mem) (p : Nat) (s : List UInt8) :
    cstrAt m p = s ↔ (∀ i, (h : i < s.length) → m.getD (p + i) 0 = s[i]) ∧ (∀ c ∈ s, c ≠ 0) ∧
      m.getD (p + s.length) 0 = 0 := by
  unfold cstrAt
  rw [cstr_eq_iff]
  simp only [getD_drop]

theorem cstrAt_length_le (m : Mem) (p : Nat) : (cstrAt m p).length ≤ m.length - p := by
  have := cstr_length_le (m.drop p)
  rwa [List.length_drop] at this

theorem cstrAt_ne_zero {m : Mem} {p : Nat} {c : UInt8} (h : c ∈ cstrAt m p) : c ≠ 0 :=
  cstr_ne_zero h

theorem getD_cstrAt {m : Mem} {p i : Nat} (h : i < (cstrAt m p).length) :
    m.getD (p + i) 0 = (cstrAt m p)[i] := by
  rw [← getD_drop]; exact cstr_getD h

theorem getD_cstrAt_end (m : Mem) (p : Nat) : m.getD (p + (cstrAt m p).length) 0 = 0 := by
  rw [← getD_drop]; exact cstr_getD_length _

/-- a position before which, and at which, there is no NUL lies in the string -/
theorem lt_strlen {m : Mem} {p i : Nat} (h : ∀ j, j ≤ i → m.getD (p + j) 0 ≠ 0) :
    i < strlen m p := by
  by_contra hlt
  exact h _ (Nat.not_lt.mp hlt) (getD_cstrAt_end m p)

theorem getD_ne_zero_of_lt_strlen {m : Mem} {p i : Nat} (h : i < strlen m p) :
    m.getD (p + i) 0 ≠ 0 := by
  rw [getD_cstrAt h]
  exact cstrAt_ne_zero (List.getElem_mem h)

/-! ## writes -/

theorem poke_length {m : Mem} {p : Nat} {bs : List UInt8} (h : p + bs.length ≤ m.length) :
    (poke m p bs).length = m.length := by
  unfold poke
  simp only [List.length_append, List.length_take, List.length_drop]
  omega

theorem getD_poke {m : Mem} {p : Nat} {bs : List UInt8} (h : p + bs.length ≤ m.length) (i : Nat) :
    (poke m p bs).getD i 0 = if p ≤ i ∧ i < p + bs.length then bs.getD (i - p) 0 else m.getD i 0 := by
  unfold poke
  simp only [List.getD_eq_getElem?_getD]
  have hl : (m.take p).length = p := by rw [List.length_take]; omega
  rcases Nat.lt_or_ge i p with h1 | h1
  · rw [if_neg (by omega), List.append_assoc, List.getElem?_append_left (by omega),
      List.getElem?_take_of_lt h1]
  · rcases Nat.lt_or_ge i (p + bs.length) with h2 | h2
    · rw [if_pos ⟨h1, h2⟩, List.append_assoc, List.getElem?_append_right (by omega), hl,
        List.getElem?_append_left (by omega)]
    · rw [if_neg (by omega), List.getElem?_append_right (by simp; omega), List.getElem?_drop]
      simp only [List.length_append, hl]
      congr 2
      omega

/-- a write before the end of the memory leaves the bytes outside it alone -/
theorem getD_poke_out {m : Mem} {p : Nat} {bs : List UInt8} (h : p + bs.length ≤ m.length) {i : Nat}
    (hi : i < p ∨ p + bs.length ≤ i) : (poke m p bs).getD i 0 = m.getD i 0 := by
  rw [getD_poke h, if_neg (by omega)]

theorem getD_poke_in {m : Mem} {p : Nat} {bs : List UInt8} (h : p + bs.length ≤ m.length) {i : Nat}
    (h1 : p ≤ i) (h2 : i < p + bs.length) : (poke m p bs).getD i 0 = bs.getD (i - p) 0 := by
  rw [getD_poke h, if_pos ⟨h1, h2⟩]

theorem getD_replicate_zero (n i : Nat) : (List.replicate n (0 : UInt8)).getD i 0 = 0 := by
  rw [List.getD_eq_getElem?_getD, List.getElem?_replicate]
  split <;> rfl

theorem poke_zero_replicate (bs : List UInt8) (n : Nat) :
    poke (List.replicate n 0) 0 bs = bs ++ List.replicate (n - bs.length) 0 := by
  unfold poke
  simp

theorem poke_nil (m : Mem) (p : Nat) : poke m p [] = m := by
  unfold poke
  rw [List.append_nil, List.length_nil, Nat.add_zero, List.take_append_drop]

theorem poke_append {m : Mem} {p : Nat} {s t : List UInt8} (h : p ≤ m.length) :
    poke (poke m p s) (p + s.length) t = poke m p (s ++ t) := by
  have hl : (m.take p ++ s).length = p + s.length := by
    rw [List.length_append, List.length_take, Nat.min_eq_left h]
  unfold poke
  rw [List.length_append, List.take_append_of_le_length (by omega), List.take_of_length_le (by omega),
    List.drop_append, List.drop_eq_nil_of_le (by omega), List.nil_append, List.drop_drop, hl,
    List.append_assoc (m.take p) s t]
  congr 2
  omega

theorem poke_again {m : Mem} {p : Nat} {s t : List UInt8} (h : p ≤ m.length) :
    poke (poke m p (s ++ t)) p s = poke m p (s ++ t) := by
  have hl : (m.take p).length = p := by
    rw [List.length_take, Nat.min_eq_left h]
  have hl2 : (m.take p ++ s).length = p + s.length := by
    rw [List.length_append, hl]
  unfold poke
  generalize m.drop (p + (s ++ t).length) = rest
  have hcut : m.take p ++ (s ++ t) ++ rest = m.take p ++ s ++ (t ++ rest) := by
    simp only [List.append_assoc]
  rw [hcut, List.drop_left' hl2, List.append_assoc (m.take p) s (t ++ rest), List.take_left' hl,
    List.append_assoc]

/-! ## pieces of the memory -/

/-- the `n` bytes at `p` -/
def area (m : Mem) (p n : Nat) : List UInt8 := (m.drop p).take n

theorem area_length {m : Mem} {p n : Nat} (h : p + n ≤ m.length) : (area m p n).length = n := by
  unfold area
  rw [List.length_take, List.length_drop]
  omega

theorem area_add (m : Mem) (p n j : Nat) : area m p (n + j) = area m p n ++ area m (p + n) j := by
  unfold area
  rw [List.take_add, List.drop_drop]

theorem area_split {m : Mem} {p r : Nat} (n : Nat) (h : p + r ≤ m.length) :
    (area m p r).take n = area m p (min n r) ∧ (area m p r).drop n = area m (p + min n r) (r - min n r) := by
  constructor
  · unfold area
    rw [List.take_take]
  · rcases Nat.le_total n r with hn | hn
    · unfold area
      rw [Nat.min_eq_left hn, List.drop_take, List.drop_drop]
    · have hl := area_length h
      rw [Nat.min_eq_right hn, Nat.sub_self, List.drop_eq_nil_of_le (by omega)]
      rfl

theorem area_poke {m : Mem} {p n : Nat} {bs : List UInt8} (h : p ≤ m.length) (hn : n ≤ bs.length) :
    area (poke m p bs) p n = bs.take n := by
  have hl : (m.take p).length = p := by
    rw [List.length_take, Nat.min_eq_left h]
  unfold area poke
  rw [List.append_assoc, List.drop_left' hl, List.take_append_of_le_length hn]

theorem area_poke_before {m : Mem} {p q n : Nat} {bs : List UInt8} (h : q + n ≤ p) (hp : p ≤ m.length) :
    area (poke m p bs) q n = area m q n := by
  unfold area poke
  rw [List.append_assoc, List.drop_append_of_le_length (by rw [List.length_take]; omega),
    List.take_append_of_le_length (by rw [List.length_drop, List.length_take]; omega), List.drop_take,
    List.take_take, Nat.min_eq_left (by omega)]

/-- the string begins with the bytes that stand there, when none of them is a NUL -/
theorem cstrAt_begins {m : Mem} {p : Nat} {s : List UInt8} (h0 : ∀ c ∈ s, c ≠ 0) (h : area m p s.length = s) :
    ∃ t, cstrAt m p = s ++ t := by
  unfold area at h
  refine ⟨cstr ((m.drop p).drop s.length), ?_⟩
  unfold cstrAt
  conv_lhs => rw [← List.take_append_drop s.length (m.drop p), h]
  unfold cstr
  rw [List.takeWhile_append_of_pos]
  intro c hc
  exact bne_iff_ne.mpr (h0 c hc)

theorem cstr_append_zero (s t : List UInt8) : cstr (s ++ 0 :: t) = cstr s := by
  unfold cstr
  rw [List.takeWhile_append]
  split
  · rename_i hl
    have hs : s.takeWhile (· != 0) = s := (List.takeWhile_prefix _).eq_of_length hl
    rw [List.takeWhile_cons_of_neg (by decide), List.append_nil, hs]
  · rfl

theorem cstrAt_congr {m m' : Mem} {p : Nat} (h : ∀ i, p ≤ i → m.getD i 0 = m'.getD i 0) :
    cstrAt m p = cstrAt m' p := by
  rw [cstrAt_eq_iff]
  refine ⟨fun i hi => ?_, fun c hc => cstrAt_ne_zero hc, ?_⟩
  · rw [h _ (by omega), getD_cstrAt hi]
  · rw [h _ (by omega), getD_cstrAt_end]

/-! ## strcpy -/

theorem strcpy_of {m : Mem} {dst src : Nat} (h1 : src + (strlen m src + 1) ≤ m.length)
    (h2 : dst + (strlen m src + 1) ≤ m.length) (h3 : Apart dst src (strlen m src + 1)) :
    strcpy m dst src = some (poke m dst (cstrAt m src ++ [0])) := by
  have hl : (cstrAt m src ++ [0]).length = strlen m src + 1 := List.length_append ..
  unfold strcpy
  simp only [hl]
  rw [if_pos ⟨h1, h2, h3⟩]

section
variable {m m' : Mem} {dst src : Nat} (h : strcpy m dst src = some m')
include h

theorem strcpy_eq : m' = poke m dst (cstrAt m src ++ [0]) ∧ dst + (strlen m src + 1) ≤ m.length := by
  have hl : (cstrAt m src ++ [0]).length = strlen m src + 1 := List.length_append ..
  unfold strcpy at h
  simp only [hl] at h
  split at h
  · rename_i hb
    exact ⟨(Option.some.inj h).symm, hb.2.1⟩
  · cases h

theorem strcpy_length : m'.length = m.length := by
  obtain ⟨rfl, hb⟩ := strcpy_eq h
  exact poke_length (by rw [List.length_append]; exact hb)

theorem getD_strcpy_out {i : Nat} (hi : i < dst) : m'.getD i 0 = m.getD i 0 := by
  obtain ⟨rfl, hb⟩ := strcpy_eq h
  exact getD_poke_out (by rw [List.length_append]; exact hb) (Or.inl hi)

theorem cstrAt_strcpy : cstrAt m' dst = cstrAt m src := by
  obtain ⟨rfl, hb⟩ := strcpy_eq h
  have hl : (cstrAt m src ++ [0]).length = strlen m src + 1 := List.length_append ..
  rw [← hl] at hb
  rw [cstrAt_eq_iff]
  refine ⟨fun i hi => ?_, fun c hc => cstrAt_ne_zero hc, ?_⟩
  · rw [getD_poke_in hb (by omega) (by rw [hl]; unfold strlen; omega), Nat.add_sub_cancel_left,
      List.getD_append _ _ _ _ hi, List.getD_eq_getElem _ _ hi]
  · rw [getD_poke_in hb (by omega) (by rw [hl]; unfold strlen; omega), Nat.add_sub_cancel_left,
      List.getD_append_right _ _ _ _ (le_refl _), Nat.sub_self]
    rfl

end

/-! ## searching -/

theorem strchr_eq_none {m : Mem} {p : Nat} {c : UInt8} : strchr m p c = none ↔ c ∉ cstrAt m p := by
  unfold strchr
  rw [Option.map_eq_none_iff, List.idxOf?_eq_none_iff]

theorem strchr_eq_some {m : Mem} {p : Nat} {c : UInt8} {s t : List UInt8}
    (h : cstrAt m p = s ++ c :: t) (hs : c ∉ s) : strchr m p c = some (p + s.length) := by
  unfold strchr
  have hi : (cstrAt m p).idxOf? c = some s.length := by
    rw [h, List.idxOf?, List.findIdx?_append]
    have h1 : s.findIdx? (· == c) = none := by
      rw [List.findIdx?_eq_none_iff]
      intro x hx
      simpa using fun e : x = c => hs (e ▸ hx)
    rw [h1]
    simp [List.findIdx?_cons]
  rw [hi]
  rfl

theorem strchr_of_mem {m : Mem} {p : Nat} {c : UInt8} (h : c ∈ cstrAt m p) :
    strchr m p c = some (p + (cstrAt m p).idxOf c) := by
  obtain ⟨s, t, hst, hs⟩ := List.eq_append_cons_of_mem h
  rw [strchr_eq_some hst hs, hst, List.idxOf_append, if_neg hs, List.idxOf_cons_self,
    Nat.zero_add]

end CMem
