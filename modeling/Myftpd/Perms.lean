import Myftpd.Basic
import Mathlib.Data.List.Induction

/-!
# sysutil.cpp: statbuf_get_perms

The text is built in a static buffer, which starts as ten hyphens.  A call writes the type letter, and at every
other position only what the mode has; what it has not is left as the calls before left it.

* `statbufGetPerms`   one call on the buffer;
* `lsPerms`           the text of `ls -l`;
* `perms_eq`          a call, position by position;
* `permsAfter_eq`     the buffer after any calls;
* `perms_are_ls_iff`  when the text is that of `ls -l`.
-/

namespace Myftpd

def S_IFMT : Nat := 0o170000
def S_IFSOCK : Nat := 0o140000
def S_IFLNK : Nat := 0o120000
def S_IFREG : Nat := 0o100000
def S_IFBLK : Nat := 0o060000
def S_IFDIR : Nat := 0o040000
def S_IFCHR : Nat := 0o020000
def S_IFIFO : Nat := 0o010000
def S_ISUID : Nat := 0o4000
def S_ISGID : Nat := 0o2000
def S_ISVTX : Nat := 0o1000
def S_IRUSR : Nat := 0o400
def S_IWUSR : Nat := 0o200
def S_IXUSR : Nat := 0o100
def S_IRGRP : Nat := 0o040
def S_IWGRP : Nat := 0o020
def S_IXGRP : Nat := 0o010
def S_IROTH : Nat := 0o004
def S_IWOTH : Nat := 0o002
def S_IXOTH : Nat := 0o001

/-- a letter of the text -/
def letter (c : Char) : UInt8 := c.toNat.toUInt8

/-- `perms[0]` after the `switch` -/
def typeLetter (mode : Nat) : UInt8 :=
  if mode &&& S_IFMT = S_IFREG then letter '-'
  else if mode &&& S_IFMT = S_IFDIR then letter 'd'
  else if mode &&& S_IFMT = S_IFLNK then letter 'l'
  else if mode &&& S_IFMT = S_IFIFO then letter 'p'
  else if mode &&& S_IFMT = S_IFSOCK then letter 's'
  else if mode &&& S_IFMT = S_IFCHR then letter 'c'
  else if mode &&& S_IFMT = S_IFBLK then letter 'b'
  else letter '?'

/-- `mode & bit` -/
def Has (mode bit : Nat) : Prop := mode &&& bit ≠ 0

instance (mode bit : Nat) : Decidable (Has mode bit) := inferInstanceAs (Decidable (_ ≠ _))

/-- `if (mode & bit) perms[i] = c` -/
def setPerm (mode bit i : Nat) (c : UInt8) (perms : List UInt8) : List UInt8 :=
  if Has mode bit then perms.set i c else perms

/-- `if (mode & bit) perms[i] = (perms[i] == 'x') ? c : d` -/
def setSpecial (mode bit i : Nat) (c d : UInt8) (perms : List UInt8) : List UInt8 :=
  if Has mode bit then perms.set i (if perms[i]? = some (letter 'x') then c else d) else perms

/-- `statbuf_get_perms(sbuf)` on the buffer `perms`; the text it gives is the new buffer -/
def statbufGetPerms (perms : List UInt8) (mode : Nat) : List UInt8 :=
  let perms := perms.set 0 (typeLetter mode)
  let perms := setPerm mode S_IRUSR 1 (letter 'r') perms
  let perms := setPerm mode S_IWUSR 2 (letter 'w') perms
  let perms := setPerm mode S_IXUSR 3 (letter 'x') perms
  let perms := setPerm mode S_IRGRP 4 (letter 'r') perms
  let perms := setPerm mode S_IWGRP 5 (letter 'w') perms
  let perms := setPerm mode S_IXGRP 6 (letter 'x') perms
  let perms := setPerm mode S_IROTH 7 (letter 'r') perms
  let perms := setPerm mode S_IWOTH 8 (letter 'w') perms
  let perms := setPerm mode S_IXOTH 9 (letter 'x') perms
  let perms := setSpecial mode S_ISUID 3 (letter 's') (letter 'S') perms
  let perms := setSpecial mode S_ISGID 6 (letter 's') (letter 'S') perms
  setSpecial mode S_ISVTX 9 (letter 't') (letter 'T') perms

/-- the buffer after calls with these modes -/
def permsAfter (modes : List Nat) : List UInt8 := modes.foldl statbufGetPerms (List.replicate 10 (letter '-'))

/-! ## ls -/

/-- a letter where the bit is set, and `-` where it is not -/
def plainLetter (mode bit : Nat) (c : UInt8) : UInt8 := if Has mode bit then c else letter '-'

/-- the third letter of a class: `c` with both bits, `d` with the special one only -/
def execLetter (mode bit special : Nat) (c d : UInt8) : UInt8 :=
  if Has mode special then (if Has mode bit then c else d) else plainLetter mode bit (letter 'x')

/-- the mode as `ls -l` shows it -/
def lsPerms (mode : Nat) : List UInt8 :=
  [typeLetter mode, plainLetter mode S_IRUSR (letter 'r'), plainLetter mode S_IWUSR (letter 'w'),
    execLetter mode S_IXUSR S_ISUID (letter 's') (letter 'S'), plainLetter mode S_IRGRP (letter 'r'),
    plainLetter mode S_IWGRP (letter 'w'), execLetter mode S_IXGRP S_ISGID (letter 's') (letter 'S'),
    plainLetter mode S_IROTH (letter 'r'), plainLetter mode S_IWOTH (letter 'w'),
    execLetter mode S_IXOTH S_ISVTX (letter 't') (letter 'T')]

/-! ## position by position -/

/-- what a call makes of a letter for reading or writing -/
def plainStep (bit : Nat) (c : UInt8) (p : UInt8) (mode : Nat) : UInt8 := if Has mode bit then c else p

/-- what a call makes of the third letter of a class -/
def execStep (bit special : Nat) (c d : UInt8) (p : UInt8) (mode : Nat) : UInt8 :=
  let q := plainStep bit (letter 'x') p mode
  if Has mode special then (if q = letter 'x' then c else d) else q

theorem setPerm_eq {mode bit i : Nat} {c p : UInt8} {l : List UInt8} (hp : l[i]? = some p) :
    setPerm mode bit i c l = l.set i (plainStep bit c p mode) := by
  obtain ⟨hi, hp⟩ := List.getElem?_eq_some_iff.mp hp
  unfold setPerm plainStep
  split
  · rfl
  · rw [← hp, List.set_getElem_self]

theorem setSpecial_eq {mode bit i : Nat} {c d p : UInt8} {l : List UInt8} (hp : l[i]? = some p) :
    setSpecial mode bit i c d l = l.set i (if Has mode bit then (if p = letter 'x' then c else d) else p) := by
  obtain ⟨hi, hp'⟩ := List.getElem?_eq_some_iff.mp hp
  unfold setSpecial
  split
  · simp only [hp, Option.some.injEq]
  · rw [← hp', List.set_getElem_self]

/-- **One call**, position by position. -/
theorem perms_eq (p0 p1 p2 p3 p4 p5 p6 p7 p8 p9 : UInt8) (mode : Nat) :
    statbufGetPerms [p0, p1, p2, p3, p4, p5, p6, p7, p8, p9] mode =
      [typeLetter mode, plainStep S_IRUSR (letter 'r') p1 mode, plainStep S_IWUSR (letter 'w') p2 mode,
        execStep S_IXUSR S_ISUID (letter 's') (letter 'S') p3 mode, plainStep S_IRGRP (letter 'r') p4 mode,
        plainStep S_IWGRP (letter 'w') p5 mode, execStep S_IXGRP S_ISGID (letter 's') (letter 'S') p6 mode,
        plainStep S_IROTH (letter 'r') p7 mode, plainStep S_IWOTH (letter 'w') p8 mode,
        execStep S_IXOTH S_ISVTX (letter 't') (letter 'T') p9 mode] := by
  unfold statbufGetPerms
  simp only [List.set_cons_zero]
  rw [setPerm_eq (i := 1) (p := p1) rfl, setPerm_eq (i := 2) (p := p2) rfl, setPerm_eq (i := 3) (p := p3) rfl,
    setPerm_eq (i := 4) (p := p4) rfl, setPerm_eq (i := 5) (p := p5) rfl, setPerm_eq (i := 6) (p := p6) rfl,
    setPerm_eq (i := 7) (p := p7) rfl, setPerm_eq (i := 8) (p := p8) rfl, setPerm_eq (i := 9) (p := p9) rfl,
    setSpecial_eq (i := 3) (p := plainStep S_IXUSR (letter 'x') p3 mode) rfl,
    setSpecial_eq (i := 6) (p := plainStep S_IXGRP (letter 'x') p6 mode) rfl,
    setSpecial_eq (i := 9) (p := plainStep S_IXOTH (letter 'x') p9 mode) rfl]
  rfl

/-- **Any calls**, position by position. -/
theorem permsAfter_eq (modes : List Nat) : ∃ p0, permsAfter modes =
    [p0, modes.foldl (plainStep S_IRUSR (letter 'r')) (letter '-'),
      modes.foldl (plainStep S_IWUSR (letter 'w')) (letter '-'),
      modes.foldl (execStep S_IXUSR S_ISUID (letter 's') (letter 'S')) (letter '-'),
      modes.foldl (plainStep S_IRGRP (letter 'r')) (letter '-'),
      modes.foldl (plainStep S_IWGRP (letter 'w')) (letter '-'),
      modes.foldl (execStep S_IXGRP S_ISGID (letter 's') (letter 'S')) (letter '-'),
      modes.foldl (plainStep S_IROTH (letter 'r')) (letter '-'),
      modes.foldl (plainStep S_IWOTH (letter 'w')) (letter '-'),
      modes.foldl (execStep S_IXOTH S_ISVTX (letter 't') (letter 'T')) (letter '-')] := by
  unfold permsAfter
  induction modes using List.reverseRecOn with
  | nil => exact ⟨letter '-', rfl⟩
  | append_singleton modes mode ih =>
    obtain ⟨p0, ih⟩ := ih
    simp only [List.foldl_append, List.foldl_cons, List.foldl_nil]
    rw [ih, perms_eq]
    exact ⟨_, rfl⟩

/-! ## what the calls before leave -/

/-- The mode has the bit, or no mode before it had. -/
def PlainClean (bit : Nat) (modes : List Nat) (mode : Nat) : Prop :=
  Has mode bit ∨ ∀ m ∈ modes, ¬ Has m bit

/-- The mode has the bit for execution.  Or it has neither that nor the special bit, and no mode before had one of
them.  Or it has the special one only, and the last mode before with one of them did not have the bit for
execution only. -/
def ExecClean (bit special : Nat) (modes : List Nat) (mode : Nat) : Prop :=
  Has mode bit ∨ (¬ Has mode special ∧ ∀ m ∈ modes, ¬ Has m bit ∧ ¬ Has m special) ∨
    (Has mode special ∧ ∀ m, (modes.filter fun m => Has m bit ∨ Has m special).getLast? = some m → Has m special)

/-- at every position -/
structure PermsClean (modes : List Nat) (mode : Nat) : Prop where
  rusr : PlainClean S_IRUSR modes mode
  wusr : PlainClean S_IWUSR modes mode
  xusr : ExecClean S_IXUSR S_ISUID modes mode
  rgrp : PlainClean S_IRGRP modes mode
  wgrp : PlainClean S_IWGRP modes mode
  xgrp : ExecClean S_IXGRP S_ISGID modes mode
  roth : PlainClean S_IROTH modes mode
  woth : PlainClean S_IWOTH modes mode
  xoth : ExecClean S_IXOTH S_ISVTX modes mode

section
variable {bit special mode : Nat} {c d : UInt8} {modes : List Nat}

theorem plain_foldl (bit : Nat) (c : UInt8) (modes : List Nat) :
    modes.foldl (plainStep bit c) (letter '-') = if ∃ m ∈ modes, Has m bit then c else letter '-' := by
  induction modes using List.reverseRecOn with
  | nil => simp
  | append_singleton modes mode ih =>
    rw [List.foldl_append, List.foldl_cons, List.foldl_nil, ih]
    unfold plainStep
    by_cases h : Has mode bit
    · rw [if_pos h, if_pos ⟨mode, by simp, h⟩]
    · rw [if_neg h]
      congr 1
      simp only [List.mem_append, List.mem_singleton, eq_iff_iff]
      constructor
      · rintro ⟨m, hm, hb⟩
        exact ⟨m, Or.inl hm, hb⟩
      · rintro ⟨m, hm | rfl, hb⟩
        · exact ⟨m, hm, hb⟩
        · exact absurd hb h

theorem plain_iff (hc : c ≠ letter '-') :
    plainStep bit c (modes.foldl (plainStep bit c) (letter '-')) mode = plainLetter mode bit c ↔
      PlainClean bit modes mode := by
  rw [plain_foldl]
  unfold plainStep plainLetter PlainClean
  by_cases h : Has mode bit
  · rw [if_pos h, if_pos h]
    exact iff_of_true rfl (Or.inl h)
  · rw [if_neg h, if_neg h]
    by_cases he : ∃ m ∈ modes, Has m bit
    · obtain ⟨m, hm, hb⟩ := he
      rw [if_pos ⟨m, hm, hb⟩]
      exact iff_of_false hc (by rintro (h' | h'); exacts [h h', h' m hm hb])
    · rw [if_neg he]
      exact iff_of_true rfl (Or.inr fun m hm hb => he ⟨m, hm, hb⟩)

theorem ite_ne {P : Prop} [Decidable P] {a : UInt8} (hc : c ≠ a) (hd : d ≠ a) : (if P then c else d) ≠ a := by
  split
  · exact hc
  · exact hd

/-- the third letter of a class is an `x` where the last mode with one of the bits had that for execution only -/
theorem exec_foldl_x (bit special : Nat) (hc : c ≠ letter 'x') (hd : d ≠ letter 'x') (modes : List Nat) :
    modes.foldl (execStep bit special c d) (letter '-') = letter 'x' ↔
      ∃ m, (modes.filter fun m => Has m bit ∨ Has m special).getLast? = some m ∧ ¬ Has m special := by
  induction modes using List.reverseRecOn with
  | nil => simp [letter]
  | append_singleton modes mode ih =>
    rw [List.foldl_append, List.foldl_cons, List.foldl_nil, List.filter_append, List.getLast?_append]
    generalize modes.foldl (execStep bit special c d) (letter '-') = p at ih ⊢
    unfold execStep plainStep
    dsimp only
    by_cases hs : Has mode special
    · have hlast : ([mode].filter fun m => Has m bit ∨ Has m special) = [mode] :=
        List.filter_cons_of_pos (decide_eq_true (Or.inr hs))
      rw [if_pos hs, hlast]
      apply iff_of_false (ite_ne hc hd)
      rintro ⟨m, hm, hns⟩
      cases hm
      exact hns hs
    · rw [if_neg hs]
      by_cases hb : Has mode bit
      · have hlast : ([mode].filter fun m => Has m bit ∨ Has m special) = [mode] :=
          List.filter_cons_of_pos (decide_eq_true (Or.inl hb))
        rw [if_pos hb, hlast]
        exact iff_of_true rfl ⟨mode, rfl, hs⟩
      · have hlast : ([mode].filter fun m => Has m bit ∨ Has m special) = [] :=
          List.filter_cons_of_neg (by simp [hb, hs])
        rw [if_neg hb, hlast]
        exact ih

/-- the third letter of a class is a hyphen where no mode had one of the bits -/
theorem exec_foldl_hyphen (bit special : Nat) (hc : c ≠ letter '-') (hd : d ≠ letter '-') (modes : List Nat) :
    modes.foldl (execStep bit special c d) (letter '-') = letter '-' ↔
      ∀ m ∈ modes, ¬ Has m bit ∧ ¬ Has m special := by
  induction modes using List.reverseRecOn with
  | nil => simp
  | append_singleton modes mode ih =>
    rw [List.foldl_append, List.foldl_cons, List.foldl_nil]
    generalize modes.foldl (execStep bit special c d) (letter '-') = p at ih ⊢
    unfold execStep plainStep
    dsimp only
    by_cases hs : Has mode special
    · rw [if_pos hs]
      exact iff_of_false (ite_ne hc hd) fun h => (h mode (by simp)).2 hs
    · rw [if_neg hs]
      by_cases hb : Has mode bit
      · rw [if_pos hb]
        exact iff_of_false (by decide) fun h => (h mode (by simp)).1 hb
      · rw [if_neg hb, ih]
        simp only [List.mem_append, List.mem_singleton]
        constructor
        · rintro h m (hm | rfl)
          · exact h m hm
          · exact ⟨hb, hs⟩
        · exact fun h m hm => h m (Or.inl hm)

theorem exec_iff (hcx : c ≠ letter 'x') (hdx : d ≠ letter 'x') (hch : c ≠ letter '-') (hdh : d ≠ letter '-')
    (hcd : c ≠ d) : execStep bit special c d (modes.foldl (execStep bit special c d) (letter '-')) mode =
      execLetter mode bit special c d ↔ ExecClean bit special modes mode := by
  have hx := exec_foldl_x bit special hcx hdx modes
  have hh := exec_foldl_hyphen bit special hch hdh modes
  generalize modes.foldl (execStep bit special c d) (letter '-') = p at hx hh
  unfold execStep plainStep execLetter plainLetter ExecClean
  dsimp only
  by_cases hb : Has mode bit
  · simp only [if_pos hb]
    exact iff_of_true (by split <;> rfl) (Or.inl hb)
  · simp only [if_neg hb]
    by_cases hs : Has mode special
    · rw [if_pos hs, if_pos hs]
      constructor
      · intro e
        have hne : p ≠ letter 'x' := by
          intro hp
          rw [if_pos hp] at e
          exact hcd e
        exact Or.inr (Or.inr ⟨hs, fun m hm => by_contra fun hns => hne (hx.mpr ⟨m, hm, hns⟩)⟩)
      · rintro (h | ⟨h, -⟩ | ⟨-, h⟩)
        · exact absurd h hb
        · exact absurd hs h
        · apply if_neg
          intro hp
          obtain ⟨m, hm, hns⟩ := hx.mp hp
          exact hns (h m hm)
    · rw [if_neg hs, if_neg hs, hh]
      constructor
      · exact fun h => Or.inr (Or.inl ⟨hs, h⟩)
      · rintro (h | ⟨-, h⟩ | ⟨h, -⟩)
        · exact absurd h hb
        · exact h
        · exact absurd h hs

end

/-- **The text of `statbuf_get_perms`** after any calls is that of `ls -l` where the calls before have left
nothing at the positions that this one does not write, and only there. -/
theorem perms_are_ls_iff (modes : List Nat) (mode : Nat) :
    statbufGetPerms (permsAfter modes) mode = lsPerms mode ↔ PermsClean modes mode := by
  obtain ⟨p0, hbuf⟩ := permsAfter_eq modes
  rw [hbuf, perms_eq]
  unfold lsPerms
  simp only [List.cons.injEq, and_true, true_and]
  rw [plain_iff (by decide), plain_iff (by decide), exec_iff (by decide) (by decide) (by decide) (by decide) (by decide),
    plain_iff (by decide), plain_iff (by decide), exec_iff (by decide) (by decide) (by decide) (by decide) (by decide),
    plain_iff (by decide), plain_iff (by decide), exec_iff (by decide) (by decide) (by decide) (by decide) (by decide)]
  constructor
  · rintro ⟨h1, h2, h3, h4, h5, h6, h7, h8, h9⟩
    exact ⟨h1, h2, h3, h4, h5, h6, h7, h8, h9⟩
  · rintro ⟨h1, h2, h3, h4, h5, h6, h7, h8, h9⟩
    exact ⟨h1, h2, h3, h4, h5, h6, h7, h8, h9⟩

/-- a private file listed after a public program -/
theorem perms_stained : statbufGetPerms (permsAfter [0o100755]) 0o100600 ≠ lsPerms 0o100600 := by decide

end Myftpd
