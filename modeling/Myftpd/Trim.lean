import Myftpd.Parse
import Myftpd.Buffers
import Mathlib.Data.List.DropRight

/-!
# str_trim_crlf: the end of a line

The loop of `str_trim_crlf` runs over the whole string and cuts at every CR and LF, not only at those of the
line end, so the string ends at the first of them.

* `crlfTail`, `stripEnd`   the CRs and LFs at the end of a string, and the string without them;
* `trimCrlf_iff`          when the two agree;
* `FileLine`, `parsed_cr`  a command line whose argument may hold CRs, and what comes out of one that does;
* `trim_right_iff`        the strings that are trimmed right, and the arguments that reach their handler.
-/

namespace Myftpd
open CMem

def isEol (c : UInt8) : Bool := c == CR || c == LF

/-- the longest suffix made of CR and LF, and what stands before it -/
def crlfTail (s : List UInt8) : List UInt8 := s.rtakeWhile isEol
def stripEnd (s : List UInt8) : List UInt8 := s.rdropWhile isEol

theorem strip_parts (s : List UInt8) : stripEnd s ++ crlfTail s = s := List.rdropWhile_append_rtakeWhile ..

theorem isEol_eq_false {c : UInt8} : isEol c = false ↔ c ≠ CR ∧ c ≠ LF := by
  simp [isEol]

theorem trimCrlf_eq (s : List UInt8) : trimCrlf s = s.takeWhile fun c => !isEol c := by
  unfold trimCrlf
  congr 1
  funext c
  simp [isEol, bne]

theorem trimCrlf_plain {s : List UInt8} {c : UInt8} (h : c ∈ trimCrlf s) : c ≠ CR ∧ c ≠ LF := by
  rw [trimCrlf_eq] at h
  have hc := List.mem_takeWhile_imp h
  exact isEol_eq_false.mp (by simpa using hc)

/-- **The cut is at the line end** when no CR or LF stands before it. -/
theorem trimCrlf_iff (s : List UInt8) : trimCrlf s = stripEnd s ↔ ∀ c ∈ stripEnd s, c ≠ CR ∧ c ≠ LF := by
  constructor
  · intro h c hc
    rw [← h] at hc
    exact trimCrlf_plain hc
  · intro h
    have hfst : ∀ c ∈ stripEnd s, (!isEol c) = true := by
      intro c hc
      rw [isEol_eq_false.mpr (h c hc)]
      rfl
    have hsnd : (crlfTail s).takeWhile (fun c => !isEol c) = [] := by
      rw [List.takeWhile_eq_nil_iff]
      intro hpos
      have hend : isEol (crlfTail s)[0] = true := List.mem_rtakeWhile_imp (List.getElem_mem hpos)
      simp [hend]
    rw [trimCrlf_eq]
    conv_lhs => rw [← strip_parts s]
    rw [List.takeWhile_append_of_pos hfst, hsnd, List.append_nil]

/-! ## a CR in an argument -/

/-- A control line whose argument is a file name: any bytes but LF and NUL, the last one not a CR. -/
structure FileLine (cmd arg : List UInt8) : Prop where
  pos : 0 < cmd.length
  short : cmd.length ≤ 31
  noSp : SP ∉ cmd
  plain : Plain cmd
  name : ∀ c ∈ arg, c ≠ LF ∧ c ≠ 0
  last : arg.getLast? ≠ some CR
  len : cmd.length + 1 + arg.length + 2 ≤ 1023

section
variable {cmd arg : List UInt8} (h : FileLine cmd arg)
include h

theorem FileLine.isLine (hcr : CR ∉ arg) : IsLine cmd arg := by
  refine ⟨h.pos, h.short, h.noSp, ?_, h.len⟩
  intro c hc
  obtain ⟨hlf, h0⟩ := h.name c hc
  refine ⟨?_, hlf, h0⟩
  intro e
  exact hcr (e ▸ hc)

theorem FileLine.lt_strlen (rest : List UInt8) {i : Nat} (hi : i < cmd.length + 1 + arg.length) :
    i < strlen (peeked (wire cmd arg rest)) 0 := by
  have hlen := h.len
  apply lt_strlen_peeked (by omega)
  intro j hj
  rcases Nat.lt_trichotomy j cmd.length with h1 | h1 | h1
  · rw [wire_cmd h1]
    exact (h.plain _ (List.getElem_mem h1)).2.2
  · rw [h1, wire_sp]
    decide
  · obtain ⟨k, rfl⟩ : ∃ k, j = cmd.length + 1 + k := ⟨j - (cmd.length + 1), by omega⟩
    have hk : k < arg.length := by omega
    rw [wire_arg hk]
    exact (h.name _ (List.getElem_mem hk)).2

theorem FileLine.cstrAt_trimmed (rest : List UInt8) :
    ∃ t, cstrAt (strTrimCrlf (peeked (wire cmd arg rest)) 0) 0 = cmd ++ SP :: t := by
  have hlen := h.len
  have hlt : cmd.length < strlen (peeked (wire cmd arg rest)) 0 := h.lt_strlen rest (by omega)
  have hpre : (cstrAt (peeked (wire cmd arg rest)) 0).take (cmd.length + 1) = cmd ++ [SP] := by
    apply List.ext_getElem
    · rw [List.length_take, List.length_append, List.length_singleton]
      unfold strlen at hlt
      omega
    · intro i h1 h2
      rw [List.length_take] at h1
      have hg := getD_cstrAt (m := peeked (wire cmd arg rest)) (p := 0) (i := i) (by omega)
      rw [Nat.zero_add, getD_peeked _ (by omega)] at hg
      rw [List.getElem_take, ← hg]
      rcases Nat.lt_or_ge i cmd.length with hi | hi
      · rw [wire_cmd hi, List.getElem_append_left hi]
      · obtain rfl : i = cmd.length := by omega
        rw [wire_sp]
        simp
  have hkeep : ∀ c ∈ cmd ++ [SP], (c != CR && c != LF) = true := by
    rw [List.forall_mem_append, List.forall_mem_singleton]
    refine ⟨?_, by decide⟩
    intro c hc
    obtain ⟨h1, h2, -⟩ := h.plain c hc
    rw [bne_iff_ne.mpr h1, bne_iff_ne.mpr h2]
    rfl
  refine ⟨trimCrlf ((cstrAt (peeked (wire cmd arg rest)) 0).drop (cmd.length + 1)), ?_⟩
  rw [cstrAt_strTrimCrlf]
  conv_lhs => rw [← List.take_append_drop (cmd.length + 1) (cstrAt (peeked (wire cmd arg rest)) 0), hpre]
  unfold trimCrlf
  rw [List.takeWhile_append_of_pos hkeep, List.append_assoc]
  rfl

/-- **An argument with a CR does not reach its handler**: the CR has been cut before the line is split. -/
theorem FileLine.parsed_cr (hcr : CR ∈ arg) (rest : List UInt8) (fin : Bool) :
    parsed ⟨wire cmd arg rest, fin, []⟩ ≠ some (cmd.map toUpper, arg) := by
  intro e
  obtain ⟨-, he⟩ := parsed_peeked e
  have hlen := h.len
  have hs := h.short
  obtain ⟨t, ht⟩ := h.cstrAt_trimmed rest
  have hT : (strTrimCrlf (peeked (wire cmd arg rest)) 0).length = 1088 := trimmed_length _
  obtain ⟨-, harg⟩ := parseCmdline_parts hT ht hs h.noSp he
  obtain ⟨k, hk, hck⟩ := List.mem_iff_getElem.mp hcr
  -- the byte that was the CR, in the memory the argument is copied from
  have hbyte : (halfSplit cmd (strTrimCrlf (peeked (wire cmd arg rest)) 0)).getD (cmd.length + 1 + k) 0 = CR := by
    have hlt : k < (cstrAt (halfSplit cmd (strTrimCrlf (peeked (wire cmd arg rest)) 0)) (cmd.length + 1)).length := by
      rw [← harg]
      exact hk
    have hget := getD_cstrAt hlt
    simp only [← harg, hck] at hget
    exact hget
  rw [getD_split hT hs] at hbyte
  split at hbyte
  · exact absurd hbyte (by decide)
  · split at hbyte
    · rename_i hi
      have hin : cmd.length + 1 + k - 32 < cmd.length := by omega
      rw [List.getD_eq_getElem _ _ hin] at hbyte
      exact (h.plain _ (List.getElem_mem hin)).1 hbyte
    · have htrim : (trimmed (wire cmd arg rest)).getD (cmd.length + 1 + k) 0 = cut CR := by
        rw [getD_trimmed _ (by omega), if_pos (h.lt_strlen rest (by omega)), wire_arg hk, hck]
      rw [show (strTrimCrlf (peeked (wire cmd arg rest)) 0).getD (cmd.length + 1 + k) 0 = cut CR from htrim]
        at hbyte
      exact absurd hbyte (by decide)

theorem FileLine.reaches_iff (rest : List UInt8) (fin : Bool) :
    parsed ⟨wire cmd arg rest, fin, []⟩ = some (cmd.map toUpper, arg) ↔
      CR ∉ arg ∧ SplitsRight cmd arg rest := by
  constructor
  · intro e
    have hcr : CR ∉ arg := fun hcr => h.parsed_cr hcr rest fin e
    exact ⟨hcr, splitsRight_of_parsed (h.isLine hcr) e⟩
  · intro hr
    exact parsed_of_splitsRight (h.isLine hr.1) hr.2

end

/-! ## the strings that are trimmed right -/

/-- **What is trimmed right**: the strings in which no CR or LF stands before their line end, and for the
handler of a command, the arguments without a CR on a line that survives `str_split`. -/
theorem trim_right_iff (m : Mem) (p : Nat) {cmd arg : List UInt8} (h : FileLine cmd arg) (rest : List UInt8)
    (fin : Bool) : (cstrAt (strTrimCrlf m p) p = stripEnd (cstrAt m p) ↔
      ∀ c ∈ stripEnd (cstrAt m p), c ≠ CR ∧ c ≠ LF) ∧
    (parsed ⟨wire cmd arg rest, fin, []⟩ = some (cmd.map toUpper, arg) ↔ CR ∉ arg ∧ SplitsRight cmd arg rest) := by
  constructor
  · rw [cstrAt_strTrimCrlf]
    exact trimCrlf_iff _
  · exact h.reaches_iff rest fin

/-- `DELE` of a file named `a b` -/
theorem trim_right_dele : parsed ⟨wire (ascii "DELE") (ascii "a b") [], false, []⟩ =
      some ((ascii "DELE").map toUpper, ascii "a b") ↔
    CR ∉ ascii "a b" ∧ SplitsRight (ascii "DELE") (ascii "a b") [] :=
  (trim_right_iff [97, CR, LF, 0] 0 (by constructor <;> decide +kernel) [] false).2

/-- `DELE` of a file named `a`, CR, `b` -/
theorem trim_cr_name : FileLine (ascii "DELE") [97, CR, 98] ∧
    parsed ⟨wire (ascii "DELE") [97, CR, 98] [], false, []⟩ = some (ascii "DELE", ascii "a") ∧
    ¬ ∀ m p, cstrAt (strTrimCrlf m p) p = stripEnd (cstrAt m p) := by
  refine ⟨?_, ?_, ?_⟩
  · constructor <;> decide +kernel
  · decide +kernel
  · intro h
    exact absurd (h [97, CR, 98, CR, LF, 0] 0) (by decide)

end Myftpd
