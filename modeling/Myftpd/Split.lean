import Myftpd.Str

/-!
# str_split: the two parts of a string

`str_split` copies the part before the separator without a terminator and puts the NUL one byte too far,
at `a[p-str+1]`.  So a byte that stood in the destination right behind that part stays there.

* `splitFst`, `splitSnd`   the part before the first separator, and the part behind it;
* `strSplit_eq`            the call, as the copy of the first part followed by one `strcpy`;
* `Room.strSplit_some`     the strings in the destinations afterwards;
* `strSplit_iff`           they are the two parts when that byte was a NUL, and not otherwise.
-/

namespace Myftpd
open CMem

/-! ## the two parts of a string -/

/-- the part before the first `c`, and the part behind it -/
def splitFst (str : List UInt8) (c : UInt8) : List UInt8 := str.takeWhile (· != c)
def splitSnd (str : List UInt8) (c : UInt8) : List UInt8 := (str.dropWhile (· != c)).tail

section
variable {str : List UInt8} {c : UInt8}

theorem split_parts (h : c ∈ str) : str = splitFst str c ++ c :: splitSnd str c := by
  unfold splitFst splitSnd
  have hd : str.dropWhile (· != c) ≠ [] := by
    intro e
    have hall := List.dropWhile_eq_nil_iff.mp e c h
    simp at hall
  obtain ⟨d, t, ht⟩ := List.exists_cons_of_ne_nil hd
  have hhead := List.head_dropWhile_not (· != c) hd
  have hdc : d = c := by
    simp only [ht, List.head_cons] at hhead
    simpa using hhead
  conv_lhs => rw [← List.takeWhile_append_dropWhile (p := (· != c)) (l := str), ht, hdc]
  rw [ht]
  rfl

theorem split_none (h : c ∉ str) : splitFst str c = str ∧ splitSnd str c = [] := by
  have hne : ∀ d ∈ str, (d != c) = true := fun d hd => bne_iff_ne.mpr fun e => h (e ▸ hd)
  unfold splitFst splitSnd
  rw [List.dropWhile_eq_nil_iff.mpr hne]
  exact ⟨List.takeWhile_eq_self_iff.mpr hne, rfl⟩

theorem splitFst_not_mem : c ∉ splitFst str c := by
  intro h
  have := List.mem_takeWhile_imp h
  simp at this

theorem split_length (h : c ∈ str) : (splitFst str c).length + (splitSnd str c).length + 1 = str.length := by
  conv_rhs => rw [split_parts h]
  rw [List.length_append, List.length_cons]
  omega

theorem split_unique {s t : List UInt8} (hs : c ∉ s) (h : str = s ++ c :: t) :
    s = splitFst str c ∧ t = splitSnd str c := by
  have hne : ∀ d ∈ s, (d != c) = true := fun d hd => bne_iff_ne.mpr fun e => hs (e ▸ hd)
  have hstop : (c != c) = false := bne_self_eq_false c
  subst h
  constructor
  · show s = (s ++ c :: t).takeWhile (· != c)
    simp [List.takeWhile_append_of_pos hne]
  · show t = ((s ++ c :: t).dropWhile (· != c)).tail
    simp [List.dropWhile_append_of_pos hne]

end

/-! ## the memory -/

/-- the string behind a delimiter, when the memory under it has not been written -/
theorem cstrAt_behind {m m' : Mem} {p : Nat} {d : UInt8} {s t : List UInt8} (h : cstrAt m p = s ++ d :: t)
    (hm : ∀ i, p ≤ i → i ≤ p + (s ++ d :: t).length → m'.getD i 0 = m.getD i 0) :
    cstrAt m' (p + s.length + 1) = t := by
  have hlen : (s ++ d :: t).length = s.length + 1 + t.length := by
    rw [List.length_append, List.length_cons]
    omega
  rw [hlen] at hm
  rw [cstrAt_eq_iff]
  refine ⟨fun i hi => ?_, fun e he => ?_, ?_⟩
  · have hlt : s.length + 1 + i < (cstrAt m p).length := by rw [h, hlen]; omega
    have hbyte : (cstrAt m p)[s.length + 1 + i]? = some t[i] := by
      rw [h, List.getElem?_append_right (by omega), show s.length + 1 + i - s.length = i + 1 by omega,
        List.getElem?_cons_succ, List.getElem?_eq_getElem hi]
    rw [hm _ (by omega) (by omega), show p + s.length + 1 + i = p + (s.length + 1 + i) by omega,
      getD_cstrAt hlt]
    exact Option.some.inj ((List.getElem?_eq_getElem hlt).symm.trans hbyte)
  · apply cstrAt_ne_zero (m := m) (p := p)
    rw [h]
    exact List.mem_append_right _ (List.mem_cons_of_mem _ he)
  · have hend := getD_cstrAt_end m p
    rw [h, hlen] at hend
    rw [hm _ (by omega) (by omega), show p + s.length + 1 + t.length = p + (s.length + 1 + t.length) by omega]
    exact hend

/-- the memory after `strncpy(a, str, p-str)` and `a[p-str+1] = 0`, for a first part `s` -/
def headSplit (m : Mem) (a : Nat) (s : List UInt8) : Mem := poke (poke m a s) (a + s.length + 1) [0]

section
variable {m : Mem} {str a b : Nat} {c : UInt8} {s t : List UInt8}

theorem headSplit_length (h : a + s.length + 2 ≤ m.length) : (headSplit m a s).length = m.length := by
  have h1 : (poke m a s).length = m.length := poke_length (by omega)
  unfold headSplit
  rw [poke_length, h1]
  rw [h1, List.length_singleton]
  omega

theorem getD_headSplit (h : a + s.length + 2 ≤ m.length) (i : Nat) : (headSplit m a s).getD i 0 =
    if i = a + s.length + 1 then 0
    else if a ≤ i ∧ i < a + s.length then s.getD (i - a) 0 else m.getD i 0 := by
  have h1 : (poke m a s).length = m.length := poke_length (by omega)
  unfold headSplit
  by_cases hi : i = a + s.length + 1
  · rw [if_pos hi, getD_poke_in (by rw [h1, List.length_singleton]; omega) (by omega)
      (by rw [List.length_singleton]; omega), hi, Nat.sub_self]
    rfl
  · rw [if_neg hi, getD_poke_out (by rw [h1, List.length_singleton]; omega)
      (by rw [List.length_singleton]; omega), getD_poke (by omega)]

/-- the second part is not written as long as the first destination stays away from the string -/
theorem cstrAt_headSplit_behind (h : cstrAt m str = s ++ c :: t) (hin : a + s.length + 2 ≤ m.length)
    (hap : a + s.length + 2 ≤ str ∨ str + strlen m str + 1 ≤ a) :
    cstrAt (headSplit m a s) (str + s.length + 1) = t := by
  have hlen : strlen m str = (s ++ c :: t).length := congrArg List.length h
  apply cstrAt_behind h
  intro i h1 h2
  rw [getD_headSplit hin, if_neg (by omega), if_neg (by omega)]

theorem cstr_singleton (d : UInt8) : cstr [d] = if d = 0 then [] else [d] := by
  unfold cstr
  by_cases h : d = 0
  · simp [h]
  · simp [h]

/-- The string in the first destination, in any memory `m'` that keeps these bytes: the byte behind the first
part is the old one, and the NUL stands behind it. -/
theorem cstrAt_headSplit {m' : Mem} (hne : ∀ d ∈ s, d ≠ 0) (hin : a + s.length + 2 ≤ m.length)
    (hm' : ∀ i, a ≤ i → i < a + s.length + 2 → m'.getD i 0 = (headSplit m a s).getD i 0) :
    cstrAt m' a = s ++ cstr [m.getD (a + s.length) 0] := by
  have hpart : ∀ i, (hi : i < s.length) → m'.getD (a + i) 0 = s[i] := by
    intro i hi
    rw [hm' _ (by omega) (by omega), getD_headSplit hin, if_neg (by omega), if_pos (by omega),
      Nat.add_sub_cancel_left, List.getD_eq_getElem _ _ hi]
  have hold : m'.getD (a + s.length) 0 = m.getD (a + s.length) 0 := by
    rw [hm' _ (by omega) (by omega), getD_headSplit hin, if_neg (by omega), if_neg (by omega)]
  have hend : m'.getD (a + s.length + 1) 0 = 0 := by
    rw [hm' _ (by omega) (by omega), getD_headSplit hin, if_pos rfl]
  rw [cstr_singleton]
  split
  · rename_i h0
    rw [List.append_nil, cstrAt_eq_iff]
    exact ⟨hpart, hne, hold.trans h0⟩
  · rename_i h0
    rw [cstrAt_eq_iff]
    refine ⟨?_, ?_, ?_⟩
    · intro i hi
      rw [List.length_append, List.length_singleton] at hi
      rcases Nat.lt_or_ge i s.length with hlt | hge
      · rw [hpart i hlt, List.getElem_append_left hlt]
      · obtain rfl : i = s.length := by omega
        rw [hold, List.getElem_append_right (le_refl _)]
        simp
    · intro d hd
      rcases List.mem_append.mp hd with h1 | h1
      · exact hne d h1
      · rw [List.mem_singleton.mp h1]
        exact h0
    · rw [List.length_append, List.length_singleton]
      exact hend

/-- **The whole call**, when there is a separator: the second part is copied by `strcpy`. -/
theorem strSplit_eq (h : cstrAt m str = s ++ c :: t) (hs : c ∉ s) (h1 : str + s.length ≤ m.length)
    (h2 : a + s.length ≤ m.length) (h3 : Apart a str s.length) :
    strSplit m str a b c = strcpy (headSplit m a s) b (str + s.length + 1) := by
  have hcpy : strncpy m a str s.length = some (poke m a s) := by
    unfold strncpy
    rw [h, List.take_left, if_pos ⟨h1, h2, h3⟩, Nat.sub_self, List.replicate_zero, List.append_nil]
  unfold strSplit
  rw [strchr_eq_some h hs]
  show (strncpy m a str (str + s.length - str) >>= fun m =>
    strcpy (poke m (a + (str + s.length - str) + 1) [0]) b (str + s.length + 1)) = _
  rw [Nat.add_sub_cancel_left, hcpy, Option.bind_eq_bind, Option.bind_some]
  rfl

end

/-! ## the strings in the destinations -/

/-- What the destinations should hold: the two parts of `s`, or all of it. -/
def Splits (s : List UInt8) (c : UInt8) (ra rb : List UInt8) : Prop :=
  if c ∈ s then s = ra ++ c :: rb ∧ c ∉ ra else ra = s ∧ rb = []

instance (s : List UInt8) (c : UInt8) (ra rb : List UInt8) : Decidable (Splits s c ra rb) :=
  by
  unfold Splits
  infer_instance

theorem splits_iff {s ra rb : List UInt8} {c : UInt8} :
    Splits s c ra rb ↔ ra = splitFst s c ∧ rb = splitSnd s c := by
  unfold Splits
  split
  · rename_i hm
    constructor
    · intro h
      exact split_unique h.2 h.1
    · intro h
      rw [h.1, h.2]
      exact ⟨split_parts hm, splitFst_not_mem⟩
  · rename_i hm
    rw [(split_none hm).1, (split_none hm).2]

/-- Two destinations that are large enough: an array of `na` bytes at `a` and one of `nb` bytes at `b`,
beside the string and beside each other. -/
structure Room (m : Mem) (str a na b nb : Nat) (c : UInt8) : Prop where
  sep : c ≠ 0
  string : str + strlen m str + 1 ≤ m.length
  first : a + na ≤ m.length
  second : b + nb ≤ m.length
  apartA : a + na ≤ str ∨ str + strlen m str + 1 ≤ a
  apartB : b + nb ≤ str ∨ str + strlen m str + 1 ≤ b
  apartAB : a + na ≤ b ∨ b + nb ≤ a
  large : if c ∈ cstrAt m str then
      (splitFst (cstrAt m str) c).length + 2 ≤ na ∧ (splitSnd (cstrAt m str) c).length + 1 ≤ nb
    else strlen m str + 1 ≤ na ∧ 1 ≤ nb

/-- the byte of the destination right behind the first part -/
def oldByte (m : Mem) (str a : Nat) (c : UInt8) : UInt8 := m.getD (a + (splitFst (cstrAt m str) c).length) 0

section
variable {m : Mem} {str a na b nb : Nat} {c : UInt8} (h : Room m str a na b nb c)
include h

theorem Room.strSplit_none (hm : c ∉ cstrAt m str) (hb : m.getD b 0 = 0) :
    ∃ m', strSplit m str a b c = some m' ∧ cstrAt m' a = cstrAt m str ∧ cstrAt m' b = [] := by
  have hs := h.string
  have hlen : strlen m str + 1 ≤ na ∧ 1 ≤ nb := by
    have hl := h.large
    rwa [if_neg hm] at hl
  have hA := h.first
  have hapart := h.apartA
  have hAB := h.apartAB
  have hcpy : strcpy m a str = some (poke m a (cstrAt m str ++ [0])) := by
    apply strcpy_of
    · omega
    · omega
    · unfold Apart
      omega
  have hl : (cstrAt m str ++ [0]).length = strlen m str + 1 := List.length_append ..
  refine ⟨_, ?_, cstrAt_strcpy hcpy, ?_⟩
  · unfold strSplit
    rw [strchr_eq_none.mpr hm]
    exact hcpy
  · rw [cstrAt_eq_iff]
    refine ⟨fun i hi => absurd hi (Nat.not_lt_zero i), fun d hd => absurd hd List.not_mem_nil, ?_⟩
    rw [List.length_nil, Nat.add_zero, getD_poke_out (by omega) (by omega)]
    exact hb

/-- **A string with the separator**: the second part comes out right, and the old byte of the first
destination stays behind the first part. -/
theorem Room.strSplit_some (hm : c ∈ cstrAt m str) : ∃ m', strSplit m str a b c = some m' ∧
    cstrAt m' a = splitFst (cstrAt m str) c ++ cstr [oldByte m str a c] ∧
      cstrAt m' b = splitSnd (cstrAt m str) c := by
  have hparts := split_parts hm
  have hsum := split_length hm
  have hnot : c ∉ splitFst (cstrAt m str) c := splitFst_not_mem
  have hlen : strlen m str = (cstrAt m str).length := rfl
  have hstr := h.string
  have hA := h.first
  have hB := h.second
  have hapA := h.apartA
  have hapB := h.apartB
  have hAB := h.apartAB
  have hl := h.large
  rw [if_pos hm] at hl
  have hne : ∀ d ∈ splitFst (cstrAt m str) c, d ≠ 0 := by
    intro d hd
    apply cstrAt_ne_zero (m := m) (p := str)
    rw [hparts]
    exact List.mem_append_left _ hd
  unfold oldByte
  generalize splitFst (cstrAt m str) c = s at *
  generalize splitSnd (cstrAt m str) c = t at *
  have hin : a + s.length + 2 ≤ m.length := by omega
  have hbehind : cstrAt (headSplit m a s) (str + s.length + 1) = t :=
    cstrAt_headSplit_behind hparts hin (by omega)
  have hsl : strlen (headSplit m a s) (str + s.length + 1) = t.length := congrArg List.length hbehind
  have hhl := headSplit_length hin
  have hcpy : strcpy (headSplit m a s) b (str + s.length + 1) = some (poke (headSplit m a s) b (t ++ [0])) := by
    rw [strcpy_of (by omega) (by omega) (by unfold Apart; omega), hbehind]
  have ht : (t ++ [(0 : UInt8)]).length = t.length + 1 := List.length_append ..
  refine ⟨_, (strSplit_eq hparts hnot (by omega) (by omega) (by unfold Apart; omega)).trans hcpy, ?_, ?_⟩
  · apply cstrAt_headSplit hne hin
    intro i h1 h2
    exact getD_poke_out (by omega) (by omega)
  · rw [cstrAt_strcpy hcpy, hbehind]

end

/-! ## two zeroed arrays -/

/-- a string in an array of `n` bytes, and two zeroed arrays of `k` bytes behind it -/
def beside (str : List UInt8) (n k : Nat) : Mem :=
  str ++ List.replicate (n - str.length) 0 ++ List.replicate (2 * k) 0

section
variable {str : List UInt8} {n k : Nat} {c : UInt8}

theorem beside_length (hl : str.length < n) : (beside str n k).length = n + 2 * k := by
  unfold beside
  simp only [List.length_append, List.length_replicate]
  omega

theorem getD_beside {i : Nat} (hi : str.length ≤ i) : (beside str n k).getD i 0 = 0 := by
  unfold beside
  rw [List.append_assoc, List.getD_append_right _ _ _ _ hi, List.replicate_append_replicate,
    getD_replicate_zero]

theorem cstrAt_beside (h0 : 0 ∉ str) : cstrAt (beside str n k) 0 = str := by
  rw [cstrAt_eq_iff]
  refine ⟨fun i hi => ?_, fun d hd e => h0 (e ▸ hd), ?_⟩
  · unfold beside
    rw [Nat.zero_add, List.append_assoc, List.getD_append _ _ _ _ hi, List.getD_eq_getElem _ _ hi]
  · rw [Nat.zero_add]
    exact getD_beside (Nat.le_refl _)

/-- **Zeroed arrays hold the two parts**, when these fit. -/
theorem split_beside (hc : c ≠ 0) (h0 : 0 ∉ str) (hl : str.length < n)
    (hfit : if c ∈ str then (splitFst str c).length + 2 ≤ k ∧ (splitSnd str c).length + 1 ≤ k
      else str.length + 1 ≤ k) : ∃ m', strSplit (beside str n k) 0 n (n + k) c = some m' ∧
    cstrAt m' n = splitFst str c ∧ cstrAt m' (n + k) = splitSnd str c := by
  have hlen : (beside str n k).length = n + 2 * k := beside_length hl
  have hstr : cstrAt (beside str n k) 0 = str := cstrAt_beside h0
  have hsl : strlen (beside str n k) 0 = str.length := congrArg List.length hstr
  have hroom : Room (beside str n k) 0 n k (n + k) k c := by
    refine ⟨hc, by omega, by omega, by omega, by omega, by omega, by omega, ?_⟩
    rw [hstr, hsl]
    split
    · rename_i hm
      rwa [if_pos hm] at hfit
    · rename_i hm
      rw [if_neg hm] at hfit
      omega
  by_cases hm : c ∈ str
  · rw [← hstr] at hm
    obtain ⟨m', he, ha, hb⟩ := hroom.strSplit_some hm
    have hold : oldByte (beside str n k) 0 n c = 0 := by
      unfold oldByte
      exact getD_beside (by omega)
    rw [hold, cstr_singleton, if_pos rfl, List.append_nil] at ha
    rw [hstr] at ha hb
    exact ⟨m', he, ha, hb⟩
  · obtain ⟨h1, h2⟩ := split_none hm
    rw [← hstr] at hm
    obtain ⟨m', he, ha, hb⟩ := hroom.strSplit_none hm (getD_beside (by omega))
    rw [hstr] at ha
    exact ⟨m', he, ha.trans h1.symm, hb.trans h2.symm⟩

end

/-! ## any old content -/

/-- **`str_split` takes the string apart** when the byte of the first destination right behind the first
part was a NUL before, and not otherwise. -/
theorem split_right_iff {m : Mem} {str a na b nb : Nat} {c : UInt8} (h : Room m str a na b nb c)
    (hb : m.getD b 0 = 0) : ∃ m', strSplit m str a b c = some m' ∧
      (Splits (cstrAt m str) c (cstrAt m' a) (cstrAt m' b) ↔
        (c ∈ cstrAt m str → oldByte m str a c = 0)) := by
  by_cases hm : c ∈ cstrAt m str
  · obtain ⟨m', he, ha, hb⟩ := h.strSplit_some hm
    refine ⟨m', he, ?_⟩
    rw [splits_iff, ha, hb, imp_iff_right hm]
    have hcstr : cstr [oldByte m str a c] = [] ↔ oldByte m str a c = 0 := by
      rw [cstr_singleton]
      simp
    rw [← hcstr]
    simp
  · obtain ⟨m', he, ha, hb'⟩ := h.strSplit_none hm hb
    refine ⟨m', he, ?_⟩
    rw [splits_iff, ha, hb', (split_none hm).1, (split_none hm).2]
    simp [hm]

/-- a string `A B` at 0, an array of three bytes at 4 that holds `XYZ`, and an empty array behind it -/
def usedArray : Mem := ascii "A B" ++ [0] ++ ascii "XYZ" ++ [0, 0]

theorem usedArray_room : Room usedArray 0 4 3 7 2 SP := by
  constructor <;> decide

/-- the same array after `bzero` -/
theorem split_right_zeroed : ∃ m', strSplit (ascii "A B" ++ List.replicate 6 0) 0 4 7 SP = some m' ∧
    (Splits (ascii "A B") SP (cstrAt m' 4) (cstrAt m' 7) ↔ (SP ∈ ascii "A B" → (0 : UInt8) = 0)) :=
  @split_right_iff (ascii "A B" ++ List.replicate 6 0) 0 4 3 7 2 SP (by constructor <;> decide) (by decide)

/-- `A` comes out as `AY` -/
theorem split_right_used : ¬ ∀ m str a na b nb c, Room m str a na b nb c → m.getD b 0 = 0 →
    ∃ m', strSplit m str a b c = some m' ∧ Splits (cstrAt m str) c (cstrAt m' a) (cstrAt m' b) := by
  intro h
  obtain ⟨m', he, hs⟩ := h usedArray 0 4 3 7 2 SP usedArray_room (by decide)
  have hm : strSplit usedArray 0 4 7 SP = some (ascii "A B" ++ [0] ++ ascii "AY" ++ [0] ++ ascii "B" ++ [0]) := by
    decide
  rw [hm] at he
  cases he
  revert hs
  decide

end Myftpd
