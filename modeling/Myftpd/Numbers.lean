import Myftpd.Str
import Mathlib.Tactic.IntervalCases

/-!
# Numbers in texts

`str_octal_to_uint` shifts an unsigned of 32 bits by three for every octal digit and stops at the first byte
that is none.  `atoi` is the one of the C library, `(int)strtol(s, NULL, 10)`.

* `octalNum`        the number that a text of octal digits stands for;
* `octalLoop_mod`   the loop computes it modulo 2^32;
* `octalNum_fmtOct`  `%o` prints octal digits, and they stand for the number printed.
-/

namespace Myftpd
open CMem

/-- the number that a text of octal digits stands for -/
def octalNum (w : List UInt8) : Nat := w.foldl (fun n c => 8 * n + (c.toNat - 48)) 0

theorem octalNum_append (w : List UInt8) (c : UInt8) : octalNum (w ++ [c]) = 8 * octalNum w + (c.toNat - 48) := by
  unfold octalNum
  rw [List.foldl_append, List.foldl_cons, List.foldl_nil]

theorem octalNum_zero (w : List UInt8) : octalNum (48 :: w) = octalNum w := rfl

/-- the number that a text of decimal digits stands for -/
def decNum (w : List UInt8) : Nat := w.foldl (fun n c => 10 * n + (c.toNat - 48)) 0

/-- the space characters of the C locale -/
def isSpace (c : UInt8) : Bool := c == SP || 9 ≤ c && c ≤ 13

/-- `strtol(s, NULL, 10)`: spaces, a sign, and as many digits as follow; a `long` has 64 bits, and a number
outside it gives the nearest one -/
def strtol (s : List UInt8) : Int :=
  match s.dropWhile isSpace with
  | 45 :: t => max (-(decNum (t.takeWhile isDigit) : Int)) (-2^63)
  | 43 :: t => min (decNum (t.takeWhile isDigit)) (2^63 - 1)
  | t => min (decNum (t.takeWhile isDigit)) (2^63 - 1)

def atoi (s : List UInt8) : Int := wrapS 32 (strtol s)

/-! ## reading -/

/-- the loop on a number `r` that has been read already, which it holds modulo 2^32 -/
theorem octalLoop_mod (s : List UInt8) (r : Nat) : octalLoop (r % 2^32) s =
    (s.takeWhile isOctal).foldl (fun n c => 8 * n + (c.toNat - 48)) r % 2^32 := by
  induction s generalizing r with
  | nil => rfl
  | cons c s ih =>
    unfold octalLoop
    by_cases hc : isOctal c
    · rw [if_pos hc, List.takeWhile_cons_of_pos hc, List.foldl_cons, ← ih]
      congr 1
      omega
    · rw [if_neg hc, List.takeWhile_cons_of_neg hc]
      rfl

theorem strOctal_mod (s : List UInt8) : strOctalToUint s = octalNum (s.takeWhile isOctal) % 2^32 :=
  octalLoop_mod s 0

theorem strOctal_of_lt {w : List UInt8} (ho : ∀ c ∈ w, isOctal c = true) (h : octalNum w < 2^32) :
    strOctalToUint w = octalNum w := by
  rw [strOctal_mod, List.takeWhile_eq_self_iff.mpr ho, Nat.mod_eq_of_lt h]

theorem isDigit_le {c : UInt8} (h : isDigit c = true) : 48 ≤ c.toNat := by
  unfold isDigit at h
  rw [Bool.and_eq_true, decide_eq_true_eq] at h
  exact h.1

theorem isSpace_le {c : UInt8} (h : isSpace c = true) : c.toNat ≤ 32 := by
  unfold isSpace at h
  rw [Bool.or_eq_true, Bool.and_eq_true, beq_iff_eq, decide_eq_true_eq, decide_eq_true_eq] at h
  rcases h with h | h
  · rw [h]
    decide
  · exact Nat.le_trans h.2 (by decide)

theorem strtol_digits {s : List UInt8} (h : ∀ c ∈ s, isDigit c = true) :
    strtol s = min (decNum s : Int) (2^63 - 1) := by
  have htake : s.takeWhile isDigit = s := List.takeWhile_eq_self_iff.mpr h
  have hdrop : s.dropWhile isSpace = s := by
    cases s with
    | nil => rfl
    | cons c s =>
      apply List.dropWhile_cons_of_neg
      intro hsp
      have h1 := isDigit_le (h c List.mem_cons_self)
      have h2 := isSpace_le hsp
      omega
  unfold strtol
  rw [hdrop]
  split
  · exact absurd (h 45 List.mem_cons_self) (by decide)
  · exact absurd (h 43 List.mem_cons_self) (by decide)
  · rw [htake]

/-! ## printing -/

/-- an octal digit as it is printed -/
def octalDigit (d : Nat) : UInt8 := (Nat.digitChar d).toNat.toUInt8

theorem octalDigit_spec {d : Nat} (h : d < 8) : isOctal (octalDigit d) = true ∧ (octalDigit d).toNat - 48 = d := by
  interval_cases d <;> decide

theorem fmtOct_single {n : Nat} (h : n < 8) : fmtOct n = [octalDigit n] := by
  unfold fmtOct
  rw [Nat.toDigits_of_lt_base h]
  rfl

theorem fmtOct_digit {n d : Nat} (hn : 0 < n) (hd : d < 8) : fmtOct (8 * n + d) = fmtOct n ++ [octalDigit d] := by
  unfold fmtOct
  rw [← Nat.toDigits_append_toDigits (by decide) hn hd, Nat.toDigits_of_lt_base hd, List.map_append]
  rfl

/-- **What `%o` prints**: octal digits, and they stand for the number. -/
theorem octalNum_fmtOct (n : Nat) : (∀ c ∈ fmtOct n, isOctal c = true) ∧ octalNum (fmtOct n) = n := by
  induction n using Nat.base_induction 8 (by decide) with
  | single n hn =>
    obtain ⟨ho, hd⟩ := octalDigit_spec hn
    rw [fmtOct_single hn]
    refine ⟨List.forall_mem_singleton.mpr ho, ?_⟩
    show 8 * 0 + ((octalDigit n).toNat - 48) = n
    rw [hd, Nat.mul_zero, Nat.zero_add]
  | digit n d hd hn ih =>
    obtain ⟨ho, hv⟩ := octalDigit_spec hd
    rw [fmtOct_digit hn hd]
    constructor
    · rw [List.forall_mem_append]
      exact ⟨ih.1, List.forall_mem_singleton.mpr ho⟩
    · rw [octalNum_append, ih.2, hv]

/-! ## the two together -/

/-- **Octal parsing inverts octal printing** for every unsigned number, in the form with a zero in front; and any
text is read as its longest prefix of octal digits, modulo 2^32. -/
theorem octal_inverts : (∀ n : UInt32, strOctalToUint (ascii "0" ++ fmtOct n.toNat) = n.toNat) ∧
    ∀ s, strOctalToUint s = octalNum (s.takeWhile isOctal) % 2^32 := by
  refine ⟨?_, strOctal_mod⟩
  intro n
  obtain ⟨ho, hn⟩ := octalNum_fmtOct n.toNat
  have hlt : octalNum (48 :: fmtOct n.toNat) < 2^32 := by
    rw [octalNum_zero, hn]
    exact n.toNat_lt
  show strOctalToUint (48 :: fmtOct n.toNat) = n.toNat
  rw [strOctal_of_lt (List.forall_mem_cons.mpr ⟨by decide, ho⟩) hlt, octalNum_zero, hn]

end Myftpd
