import Myftpd.Basic

/-!
# str.cpp: trimming, splitting, case and numbers

The routines that work in place (`strTrimCrlf`, `strSplit`, `strUpper`) act on a flat memory and
pointers into it; the ones that only read a string take the C string itself.
-/

namespace Myftpd
open CMem

/-- one round of the trimming loop: position `str + i` -/
def trimAt (m : Mem) (q : Nat) : Mem :=
  if m.getD q 0 = CR ∨ m.getD q 0 = LF then m.set q 0 else m

/-- `for (i = n-1; i >= 0; i--) if (str[i]=='\r' || str[i]=='\n') str[i] = 0` -/
def trimLoop (m : Mem) (str : Nat) : Nat → Mem
  | 0 => m
  | i+1 => trimLoop (trimAt m (str + i)) str i

def strTrimCrlf (m : Mem) (str : Nat) : Mem := trimLoop m str (strlen m str)

/-- The prefix is copied without a NUL; the NUL is written one byte behind its end, at
`a[p-str+1]`. -/
def strSplit (m : Mem) (str a b : Nat) (c : UInt8) : Option Mem :=
  match strchr m str c with
  | none => strcpy m a str
  | some p => do
    let m ← strncpy m a str (p - str)
    strcpy (poke m (a + (p - str) + 1) [0]) b (p + 1)

def strAllSpace (s : List UInt8) : Bool := s.all (· == SP)

def isLower (c : UInt8) : Bool := 97 ≤ c && c ≤ 122
def isDigit (c : UInt8) : Bool := 48 ≤ c && c ≤ 57
def isOctal (c : UInt8) : Bool := 48 ≤ c && c ≤ 55

def toUpper (c : UInt8) : UInt8 := if isLower c then c - 32 else c

def strUpper (m : Mem) (str : Nat) : Mem := poke m str ((cstrAt m str).map toUpper)

def longlongLoop (ret : Int) : List UInt8 → Int
  | [] => ret
  | c :: s => if isDigit c then longlongLoop (wrapS 64 (ret * 10 + (c.toNat - 48))) s else 0

def strToLonglong (s : List UInt8) : Int := longlongLoop 0 s

def octalLoop (ret : Nat) : List UInt8 → Nat
  | [] => ret
  | c :: s => if isOctal c then octalLoop ((ret * 8 + (c.toNat - 48)) % 2^32) s else ret

def strOctalToUint (s : List UInt8) : Nat := octalLoop 0 s

/-! ## `%d`, `%u`, `%lld` and `%o` -/

def fmtDec (z : Int) : List UInt8 := ascii (toString z)
def fmtOct (n : Nat) : List UInt8 := (Nat.toDigits 8 n).map fun c => c.toNat.toUInt8

/-! ## trimming -/

theorem trimAt_length (m : Mem) (q : Nat) : (trimAt m q).length = m.length := by
  unfold trimAt; split <;> simp

theorem trimLoop_length (m : Mem) (str n : Nat) : (trimLoop m str n).length = m.length := by
  induction n generalizing m with
  | zero => rfl
  | succ n ih =>
    show (trimLoop (trimAt m (str + n)) str n).length = _
    rw [ih, trimAt_length]

theorem strTrimCrlf_length (m : Mem) (str : Nat) : (strTrimCrlf m str).length = m.length :=
  trimLoop_length m str _

/-- what trimming makes of a byte of the string -/
def cut (c : UInt8) : UInt8 := if c = CR ∨ c = LF then 0 else c

theorem getD_trimAt (m : Mem) (q j : Nat) :
    (trimAt m q).getD j 0 = if j = q then cut (m.getD j 0) else m.getD j 0 := by
  unfold trimAt cut
  by_cases h : m.getD q 0 = CR ∨ m.getD q 0 = LF
  · rw [if_pos h]
    by_cases hj : j = q
    · subst hj
      rw [if_pos rfl, if_pos h, List.getD_eq_getElem?_getD, List.getElem?_set_self']
      cases m[j]? <;> rfl
    · rw [if_neg hj, List.getD_eq_getElem?_getD, List.getElem?_set_ne (Ne.symm hj),
        List.getD_eq_getElem?_getD]
  · rw [if_neg h]
    by_cases hj : j = q
    · subst hj; rw [if_pos rfl, if_neg h]
    · rw [if_neg hj]

theorem getD_trimLoop (m : Mem) (str n j : Nat) :
    (trimLoop m str n).getD j 0 =
      if str ≤ j ∧ j < str + n then cut (m.getD j 0) else m.getD j 0 := by
  induction n generalizing m with
  | zero => rw [if_neg (by omega)]; rfl
  | succ n ih =>
    show (trimLoop (trimAt m (str + n)) str n).getD j 0 = _
    rw [ih, getD_trimAt]
    by_cases hj : j = str + n
    · rw [if_pos hj, if_neg (by omega), if_pos (by omega)]
    · have e : (str ≤ j ∧ j < str + n) ↔ (str ≤ j ∧ j < str + (n+1)) := by omega
      simp only [if_neg hj, e]

theorem getD_strTrimCrlf (m : Mem) (str j : Nat) :
    (strTrimCrlf m str).getD j 0 =
      if str ≤ j ∧ j < str + strlen m str then cut (m.getD j 0) else m.getD j 0 :=
  getD_trimLoop m str _ j

theorem toUpper_eq_zero {c : UInt8} : toUpper c = 0 ↔ c = 0 := by
  unfold toUpper isLower
  split
  · rename_i h
    simp only [Bool.and_eq_true, decide_eq_true_eq] at h
    constructor
    · intro e
      have h1 : (97 : UInt8).toNat ≤ c.toNat := h.1
      have h2 : (c - 32).toNat = 0 := by rw [e]; rfl
      rw [UInt8.toNat_sub_of_le] at h2
      · have h3 : (32 : UInt8).toNat = 32 := rfl
        have h4 : (97 : UInt8).toNat = 97 := rfl
        omega
      · exact UInt8.le_trans (show (32 : UInt8) ≤ 97 by decide) h.1
    · rintro rfl
      exact absurd h.1 (by decide)
  · rfl

/-! ## upper case -/

theorem strUpper_room (m : Mem) (str : Nat) (h : str ≤ m.length) :
    str + ((cstrAt m str).map toUpper).length ≤ m.length := by
  have := cstrAt_length_le m str
  rw [List.length_map]
  omega

theorem cstrAt_strUpper {m : Mem} {str : Nat} (h : str ≤ m.length) :
    cstrAt (strUpper m str) str = (cstrAt m str).map toUpper := by
  have hb := strUpper_room m str h
  unfold strUpper
  rw [cstrAt_eq_iff]
  refine ⟨fun i hi => ?_, fun c hc => ?_, ?_⟩
  · rw [getD_poke_in hb (by omega) (by omega), Nat.add_sub_cancel_left, List.getD_eq_getElem _ _ hi]
  · obtain ⟨b, hb', rfl⟩ := List.mem_map.mp hc
    exact fun e => cstrAt_ne_zero hb' (toUpper_eq_zero.mp e)
  · rw [getD_poke_out hb (Or.inr (le_refl _)), List.length_map, getD_cstrAt_end]

theorem cstrAt_strUpper_behind {m : Mem} {str p : Nat} (h : str ≤ m.length)
    (hp : str + strlen m str ≤ p) : cstrAt (strUpper m str) p = cstrAt m p := by
  have hl : ((cstrAt m str).map toUpper).length = strlen m str := List.length_map ..
  apply cstrAt_congr
  intro i hi
  unfold strUpper
  rw [getD_poke_out (strUpper_room m str h) (Or.inr (by omega))]

end Myftpd
