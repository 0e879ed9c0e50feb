import Myftpd.Sysutil
import Myftpd.Split

/-!
# Parsing a control line

`parsed k` is what `processCtrlRead` makes of the control socket `k` up to `str_upper`: the C strings
in `sess->cmd` and `sess->arg`.  The line is `CMD SP ARG CRLF`, with anything behind it (`wire`).

`cmdline`, `cmd` and `arg` lie one after the other at 0, 32 and 64, and `cmdline` takes up to 1024
bytes.  So a line of 32 bytes or more lies under the place where `str_split` copies the command, and
the argument is then read back from there; and since `str_split` puts the NUL one byte too far, a byte
that was peeked behind a short line can stand right behind the command.

* `getD_split`      the bytes after the first half of `str_split`;
* `cstrAt_split`    the C string from which the argument is copied;
* `parsed_iff`      the lines that are parsed right.
-/

namespace Myftpd
open CMem

/-- what the peer sends: a line, and `rest` behind it -/
def wire (cmd arg rest : List UInt8) : List UInt8 := cmd ++ SP :: (arg ++ CR :: LF :: rest)

/-- the strings in `sess->cmd` and `sess->arg` after `str_upper` -/
def parsed (k : Sock) : Option (List UInt8 × List UInt8) :=
  match ctrlRead k with
  | .ok (some (m, _)) => parseCmdline m
  | _ => none

/-- no CR, LF or NUL -/
def Plain (s : List UInt8) : Prop := ∀ c ∈ s, c ≠ CR ∧ c ≠ LF ∧ c ≠ 0

instance (s : List UInt8) : Decidable (Plain s) := List.decidableBAll _ _

/-- the control lines: at most 1023 bytes, a command of 1 to 31 bytes without a space, an argument
without CR, LF and NUL -/
structure IsLine (cmd arg : List UInt8) : Prop where
  pos : 0 < cmd.length
  short : cmd.length ≤ 31
  noSp : SP ∉ cmd
  plainArg : Plain arg
  len : cmd.length + 1 + arg.length + 2 ≤ 1023

/-- Behind a short line, the byte that comes to stand right behind the command is a NUL, or is made
one by the trimming. -/
def NoResidue (arg rest : List UInt8) : Prop :=
  rest.getD (29 - arg.length) 0 = 0 ∨
    (rest.getD (29 - arg.length) 0 = CR ∨ rest.getD (29 - arg.length) 0 = LF) ∧
      0 ∉ rest.take (29 - arg.length)

instance (arg rest : List UInt8) : Decidable (NoResidue arg rest) :=
  inferInstanceAs (Decidable (_ ∨ _))

/-- the lines that survive `str_split` -/
def SplitsRight (cmd arg rest : List UInt8) : Prop :=
  Plain cmd ∧ (cmd.length + 1 + arg.length ≤ 31 ∧ NoResidue arg rest ∨
    arg.length = 31 ∧ cmd <:+ arg)

instance (cmd arg rest : List UInt8) : Decidable (SplitsRight cmd arg rest) :=
  inferInstanceAs (Decidable (_ ∧ _))

/-! ## bytes on the wire and in the buffer -/

section
variable {cmd arg rest : List UInt8}

theorem wire_cmd {i : Nat} (hi : i < cmd.length) : (wire cmd arg rest).getD i 0 = cmd[i] := by
  unfold wire
  rw [List.getD_append _ _ _ _ hi, List.getD_eq_getElem _ _ hi]

theorem wire_sp : (wire cmd arg rest).getD cmd.length 0 = SP := by
  unfold wire
  rw [List.getD_append_right _ _ _ _ (le_refl _), Nat.sub_self]
  rfl

theorem wire_behind {i : Nat} :
    (wire cmd arg rest).getD (cmd.length + 1 + i) 0 = (arg ++ CR :: LF :: rest).getD i 0 := by
  unfold wire
  rw [List.getD_append_right _ _ _ _ (by omega), show cmd.length + 1 + i - cmd.length = i + 1 by omega,
    List.getD_cons_succ]

theorem wire_arg {i : Nat} (hi : i < arg.length) :
    (wire cmd arg rest).getD (cmd.length + 1 + i) 0 = arg[i] := by
  rw [wire_behind, List.getD_append _ _ _ _ hi, List.getD_eq_getElem _ _ hi]

theorem wire_cr : (wire cmd arg rest).getD (cmd.length + 1 + arg.length) 0 = CR := by
  rw [wire_behind, List.getD_append_right _ _ _ _ (le_refl _), Nat.sub_self]
  rfl

theorem wire_lf : (wire cmd arg rest).getD (cmd.length + 1 + arg.length + 1) 0 = LF := by
  rw [show cmd.length + 1 + arg.length + 1 = cmd.length + 1 + (arg.length + 1) by omega, wire_behind,
    List.getD_append_right _ _ _ _ (by omega), Nat.add_sub_cancel_left]
  rfl

theorem wire_rest {i : Nat} :
    (wire cmd arg rest).getD (cmd.length + 1 + arg.length + 2 + i) 0 = rest.getD i 0 := by
  rw [show cmd.length + 1 + arg.length + 2 + i = cmd.length + 1 + (arg.length + (2 + i)) by omega,
    wire_behind, List.getD_append_right _ _ _ _ (by omega), Nat.add_sub_cancel_left,
    show 2 + i = i + 1 + 1 by omega, List.getD_cons_succ, List.getD_cons_succ]

end

theorem getD_peeked (q : List UInt8) {i : Nat} (hi : i < 1024) :
    (peeked q).getD i 0 = q.getD i 0 := by
  have hmax : MAX_COMMAND_LINE = 1024 := rfl
  rw [peeked_eq]
  rcases Nat.lt_or_ge i q.length with h | h
  · have hl : i < (q.take MAX_COMMAND_LINE).length := by rw [List.length_take]; omega
    rw [List.getD_append _ _ _ _ hl, List.getD_eq_getElem _ _ hl, List.getElem_take,
      List.getD_eq_getElem _ _ h]
  · have hl : (q.take MAX_COMMAND_LINE).length ≤ i := by rw [List.length_take]; omega
    rw [List.getD_append_right _ _ _ _ hl, getD_replicate_zero, List.getD_eq_default _ _ h]

/-- the buffers after `str_trim_crlf` -/
def trimmed (q : List UInt8) : Mem := strTrimCrlf (peeked q) 0

theorem trimmed_length (q : List UInt8) : (trimmed q).length = 1088 := by
  unfold trimmed
  rw [strTrimCrlf_length, peeked_length]

theorem getD_trimmed (q : List UInt8) {i : Nat} (hi : i < 1024) :
    (trimmed q).getD i 0 = if i < strlen (peeked q) 0 then cut (q.getD i 0) else q.getD i 0 := by
  unfold trimmed
  rw [getD_strTrimCrlf, getD_peeked q hi, Nat.zero_add]
  simp only [Nat.zero_le, true_and]

theorem cut_of_ne {c : UInt8} (h1 : c ≠ CR) (h2 : c ≠ LF) : cut c = c := by
  unfold cut
  rw [if_neg (by rintro (h | h); exacts [h1 h, h2 h])]

/-- `i` is inside the peeked string when no byte up to it is a NUL -/
theorem lt_strlen_peeked {q : List UInt8} {i : Nat} (hi : i < 1024)
    (h : ∀ j, j ≤ i → q.getD j 0 ≠ 0) : i < strlen (peeked q) 0 := by
  apply lt_strlen
  intro j hj
  rw [Nat.zero_add, getD_peeked q (by omega)]
  exact h j hj

/-! ## a plain command -/

section
variable {cmd arg rest : List UInt8} (h : IsLine cmd arg) (hp : Plain cmd)
include h hp

theorem wire_ne_zero {i : Nat} (hi : i < cmd.length + 1 + arg.length + 2) :
    (wire cmd arg rest).getD i 0 ≠ 0 := by
  rcases Nat.lt_trichotomy i cmd.length with h1 | h1 | h1
  · rw [wire_cmd h1]
    exact (hp _ (List.getElem_mem h1)).2.2
  · rw [h1, wire_sp]
    decide
  · obtain ⟨j, rfl⟩ : ∃ j, i = cmd.length + 1 + j := ⟨i - (cmd.length + 1), by omega⟩
    rcases Nat.lt_trichotomy j arg.length with h2 | h2 | h2
    · rw [wire_arg h2]
      exact (h.plainArg _ (List.getElem_mem h2)).2.2
    · rw [h2, wire_cr]
      decide
    · rw [show cmd.length + 1 + j = cmd.length + 1 + arg.length + 1 by omega, wire_lf]
      decide

theorem line_lt_strlen {i : Nat} (hi : i < cmd.length + 1 + arg.length + 2) :
    i < strlen (peeked (wire cmd arg rest)) 0 := by
  have hlen := h.len
  exact lt_strlen_peeked (by omega) fun j hj => wire_ne_zero h hp (by omega)

theorem hasLine_wire : HasLine (wire cmd arg rest) := by
  have hl : cmd.length + 1 + arg.length + 1 < strlen (peeked (wire cmd arg rest)) 0 :=
    line_lt_strlen h hp (by omega)
  have hlen := h.len
  unfold HasLine
  rw [← cstrAt_peeked]
  have hg := getD_cstrAt hl
  rw [Nat.zero_add, getD_peeked _ (by omega), wire_lf] at hg
  rw [hg]
  exact List.getElem_mem hl

theorem cstrAt_trimmed : cstrAt (trimmed (wire cmd arg rest)) 0 = cmd ++ SP :: arg := by
  have hlen := h.len
  rw [cstrAt_eq_iff]
  refine ⟨?_, ?_, ?_⟩
  · intro i hi
    simp only [List.length_append, List.length_cons] at hi
    rw [Nat.zero_add, getD_trimmed _ (by omega), if_pos (line_lt_strlen h hp (by omega))]
    rcases Nat.lt_trichotomy i cmd.length with h1 | h1 | h1
    · have hc := hp _ (List.getElem_mem h1)
      rw [wire_cmd h1, cut_of_ne hc.1 hc.2.1, List.getElem_append_left h1]
    · subst h1
      rw [wire_sp, List.getElem_append_right (le_refl _)]
      simp only [Nat.sub_self, List.getElem_cons_zero]
      decide
    · obtain ⟨j, rfl⟩ : ∃ j, i = cmd.length + 1 + j := ⟨i - (cmd.length + 1), by omega⟩
      have hj : j < arg.length := by omega
      have hc := h.plainArg _ (List.getElem_mem hj)
      rw [wire_arg hj, cut_of_ne hc.1 hc.2.1, List.getElem_append_right (by omega)]
      simp only [show cmd.length + 1 + j - cmd.length = j + 1 by omega, List.getElem_cons_succ]
  · intro c hc
    rcases List.mem_append.mp hc with h1 | h1
    · exact (hp c h1).2.2
    · rcases List.mem_cons.mp h1 with h2 | h2
      · rw [h2]; decide
      · exact (h.plainArg c h2).2.2
  · rw [List.length_append, List.length_cons, Nat.zero_add,
      show cmd.length + (arg.length + 1) = cmd.length + 1 + arg.length by omega,
      getD_trimmed _ (by omega), if_pos (line_lt_strlen h hp (by omega)), wire_cr]
    decide

end

/-! ## the first half of the split -/

/-- after `strncpy(a, str, p-str)` and `a[p-str+1] = 0` -/
def halfSplit (cmd : List UInt8) (m : Mem) : Mem := poke (poke m CMD cmd) (CMD + cmd.length + 1) [0]

theorem halfSplit_length {cmd : List UInt8} {m : Mem} (hm : m.length = 1088)
    (hc : cmd.length ≤ 31) : (halfSplit cmd m).length = 1088 := by
  have hC : CMD = 32 := rfl
  have h := headSplit_length (m := m) (a := CMD) (s := cmd) (by omega)
  exact h.trans hm

theorem getD_split {cmd : List UInt8} {m : Mem} (hm : m.length = 1088) (hc : cmd.length ≤ 31)
    (i : Nat) : (halfSplit cmd m).getD i 0 =
      if i = 33 + cmd.length then 0
      else if 32 ≤ i ∧ i < 32 + cmd.length then cmd.getD (i - 32) 0 else m.getD i 0 := by
  have hC : CMD = 32 := rfl
  have h : (halfSplit cmd m).getD i 0 = _ := getD_headSplit (m := m) (a := CMD) (s := cmd) (by omega) i
  rw [h, hC, show 32 + cmd.length + 1 = 33 + cmd.length by omega]

section
variable {cmd arg rest : List UInt8} (h : IsLine cmd arg) (hp : Plain cmd)
include h hp

/-- the whole of `str_split`: the argument is copied from the C string behind the space -/
theorem strSplit_trimmed : strSplit (trimmed (wire cmd arg rest)) 0 CMD ARG SP
    = strcpy (halfSplit cmd (trimmed (wire cmd arg rest))) ARG (cmd.length + 1) := by
  have hs := h.short
  have hl := trimmed_length (wire cmd arg rest)
  have hC : CMD = 32 := rfl
  have htrim : cstrAt (trimmed (wire cmd arg rest)) 0 = cmd ++ SP :: arg := cstrAt_trimmed h hp
  have he := strSplit_eq (a := CMD) (b := ARG) htrim h.noSp (by omega) (by omega)
    (Or.inr (by omega))
  rw [Nat.zero_add] at he
  exact he

end

/-! ## the argument -/

/-- the argument that is read back: bytes from 32 on are the copied command -/
def readBack (cmd arg : List UInt8) : List UInt8 :=
  if cmd.length + 1 + arg.length ≤ 31 then arg else arg.take (31 - cmd.length) ++ cmd

theorem readBack_length_le {cmd arg : List UInt8} (hc : cmd.length ≤ 31) :
    (readBack cmd arg).length ≤ 31 := by
  unfold readBack
  split
  · omega
  · rw [List.length_append, List.length_take]
    omega

theorem readBack_eq_iff {cmd arg : List UInt8} (hc : cmd.length ≤ 31) :
    readBack cmd arg = arg ↔
      cmd.length + 1 + arg.length ≤ 31 ∨ arg.length = 31 ∧ cmd <:+ arg := by
  unfold readBack
  split
  · rename_i hn
    exact ⟨fun _ => Or.inl hn, fun _ => rfl⟩
  · rename_i hn
    constructor
    · intro e
      have hl := congrArg List.length e
      rw [List.length_append, List.length_take] at hl
      exact Or.inr ⟨by omega, ⟨_, e⟩⟩
    · rintro (h1 | ⟨h1, t, ht⟩)
      · exact absurd h1 hn
      · have hl := congrArg List.length ht
        rw [List.length_append] at hl
        rw [← ht, List.take_left' (by omega)]

section
variable {cmd arg rest : List UInt8} (h : IsLine cmd arg) (hp : Plain cmd)
include h hp

/-- when the byte behind the copied command is a NUL, the argument is copied from `readBack` -/
theorem cstrAt_split (hz : (trimmed (wire cmd arg rest)).getD (32 + cmd.length) 0 = 0) :
    cstrAt (halfSplit cmd (trimmed (wire cmd arg rest))) (cmd.length + 1) = readBack cmd arg := by
  have hs := h.short
  have hlen := h.len
  have hget := fun i => getD_split (trimmed_length (wire cmd arg rest)) hs i
  -- the bytes of the argument, in the line itself
  have hline : ∀ i, (hi : i < arg.length) →
      (trimmed (wire cmd arg rest)).getD (cmd.length + 1 + i) 0 = arg[i] := by
    intro i hi
    have hc := h.plainArg _ (List.getElem_mem hi)
    rw [getD_trimmed _ (by omega), if_pos (line_lt_strlen h hp (by omega)), wire_arg hi,
      cut_of_ne hc.1 hc.2.1]
  have hend : (trimmed (wire cmd arg rest)).getD (cmd.length + 1 + arg.length) 0 = 0 := by
    rw [getD_trimmed _ (by omega), if_pos (line_lt_strlen h hp (by omega)), wire_cr]
    decide
  rw [cstrAt_eq_iff]
  unfold readBack
  by_cases hn : cmd.length + 1 + arg.length ≤ 31
  · simp only [if_pos hn]
    refine ⟨fun i hi => ?_, fun c hc => (h.plainArg c hc).2.2, ?_⟩
    · rw [hget, if_neg (by omega), if_neg (by omega), hline i hi]
    · rw [hget, if_neg (by omega), if_neg (by omega), hend]
  · simp only [if_neg hn]
    have ht : (arg.take (31 - cmd.length)).length = 31 - cmd.length := by
      rw [List.length_take]; omega
    refine ⟨fun i hi => ?_, fun c hc => ?_, ?_⟩
    · rw [List.length_append, ht] at hi
      rcases Nat.lt_or_ge i (31 - cmd.length) with h1 | h1
      · rw [hget, if_neg (by omega), if_neg (by omega), hline i (by omega),
          List.getElem_append_left (by omega), List.getElem_take]
      · have h2 : cmd.length + 1 + i - 32 < cmd.length := by omega
        rw [hget, if_neg (by omega), if_pos (by omega), List.getD_eq_getElem _ _ h2,
          List.getElem_append_right (by omega)]
        congr 1
        omega
    · rcases List.mem_append.mp hc with h1 | h1
      · exact (h.plainArg c (List.mem_of_mem_take h1)).2.2
      · exact (hp c h1).2.2
    · rw [List.length_append, ht, hget, if_neg (by omega), if_neg (by omega),
        show cmd.length + 1 + (31 - cmd.length + cmd.length) = 32 + cmd.length by omega, hz]

end

/-- the byte behind the copied command, when the line is short -/
theorem residue_iff {cmd arg rest : List UInt8} (h : IsLine cmd arg) (hp : Plain cmd)
    (hn : cmd.length + 1 + arg.length ≤ 31) :
    (trimmed (wire cmd arg rest)).getD (32 + cmd.length) 0 = 0 ↔ NoResidue arg rest := by
  have hs := h.short
  have hpos := h.pos
  have e : 32 + cmd.length = cmd.length + 1 + arg.length + 2 + (29 - arg.length) := by omega
  rw [getD_trimmed _ (by omega)]
  -- the residue is inside the peeked string when no NUL stands before it
  have hin : rest.getD (29 - arg.length) 0 ≠ 0 →
      (32 + cmd.length < strlen (peeked (wire cmd arg rest)) 0 ↔ 0 ∉ rest.take (29 - arg.length)) := by
    intro hb
    constructor
    · intro hl hm
      obtain ⟨j, hj, hj0⟩ := List.getElem_of_mem hm
      rw [List.length_take] at hj
      have hlt : cmd.length + 1 + arg.length + 2 + j < strlen (peeked (wire cmd arg rest)) 0 := by
        omega
      have hne := getD_ne_zero_of_lt_strlen hlt
      rw [Nat.zero_add, getD_peeked _ (by omega), wire_rest,
        List.getD_eq_getElem _ _ (by omega)] at hne
      rw [List.getElem_take] at hj0
      exact hne hj0
    · intro hm
      apply lt_strlen_peeked (by omega)
      intro j hj
      rcases Nat.lt_or_ge j (cmd.length + 1 + arg.length + 2) with h1 | h1
      · exact wire_ne_zero h hp h1
      · obtain ⟨i, rfl⟩ : ∃ i, j = cmd.length + 1 + arg.length + 2 + i :=
          ⟨j - (cmd.length + 1 + arg.length + 2), by omega⟩
        rw [wire_rest]
        rcases Nat.lt_or_ge i (29 - arg.length) with h2 | h2
        · intro h0
          rcases Nat.lt_or_ge i rest.length with h3 | h3
          · rw [List.getD_eq_getElem _ _ h3] at h0
            exact hm (List.mem_take_iff_getElem.mpr ⟨i, by omega, h0⟩)
          · rw [List.getD_eq_default _ _ (by omega)] at hb
            exact hb rfl
        · rwa [show i = 29 - arg.length by omega]
  rw [e] at hin ⊢
  rw [wire_rest]
  unfold NoResidue
  by_cases hb : rest.getD (29 - arg.length) 0 = 0
  · rw [hb]
    exact iff_of_true (by split <;> decide) (Or.inl rfl)
  · by_cases hl : cmd.length + 1 + arg.length + 2 + (29 - arg.length)
        < strlen (peeked (wire cmd arg rest)) 0
    · rw [if_pos hl]
      have hm := (hin hb).mp hl
      unfold cut
      split
      · rename_i hcr
        exact iff_of_true rfl (Or.inr ⟨hcr, hm⟩)
      · rename_i hcr
        apply iff_of_false hb
        rintro (h1 | h1)
        exacts [hb h1, hcr h1.1]
    · rw [if_neg hl]
      apply iff_of_false hb
      rintro (h1 | h1)
      exacts [hb h1, hl ((hin hb).mpr h1.2)]

/-! ## the second half -/

theorem parseCmdline_iff {m : Mem} {r : List UInt8 × List UInt8} :
    parseCmdline m = some r ↔ ∃ v, strSplit (strTrimCrlf m 0) 0 CMD ARG SP = some v ∧
      r = (cstrAt (strUpper v CMD) CMD, cstrAt (strUpper v CMD) ARG) := by
  unfold parseCmdline
  rw [Option.bind_eq_bind, Option.bind_eq_some_iff]
  refine exists_congr fun v => and_congr_right fun _ => ?_
  exact ⟨fun e => (Option.some.inj e).symm, fun e => congrArg some e.symm⟩

/-- A command that comes out unchanged: the byte behind it is a NUL, and the argument is what stands behind
the space once the first half of the split is done. -/
theorem parseCmdline_parts {m : Mem} {cmd t a : List UInt8} (hm : (strTrimCrlf m 0).length = 1088)
    (ht : cstrAt (strTrimCrlf m 0) 0 = cmd ++ SP :: t) (hs : cmd.length ≤ 31) (hsp : SP ∉ cmd)
    (e : parseCmdline m = some (cmd.map toUpper, a)) : (strTrimCrlf m 0).getD (32 + cmd.length) 0 = 0 ∧
      a = cstrAt (halfSplit cmd (strTrimCrlf m 0)) (cmd.length + 1) := by
  have hC : CMD = 32 := rfl
  have hA : ARG = 64 := rfl
  have hU := halfSplit_length hm hs
  obtain ⟨v, hv, hr⟩ := parseCmdline_iff.mp e
  obtain ⟨hcmd, harg⟩ := Prod.mk.inj hr
  have hcpy : strcpy (halfSplit cmd (strTrimCrlf m 0)) ARG (cmd.length + 1) = some v := by
    rw [strSplit_eq ht hsp (by omega) (by omega) (Or.inr (by omega)), Nat.zero_add] at hv
    exact hv
  have hV := strcpy_length hcpy
  rw [cstrAt_strUpper (by omega)] at hcmd
  have hlen : strlen v CMD = cmd.length := by
    have := congrArg List.length hcmd
    rw [List.length_map, List.length_map] at this
    exact this.symm
  constructor
  · have h0 := getD_cstrAt_end v CMD
    change v.getD (CMD + strlen v CMD) 0 = 0 at h0
    rw [hlen, getD_strcpy_out hcpy (by omega), getD_split hm hs, if_neg (by omega),
      if_neg (by omega)] at h0
    exact h0
  · rw [cstrAt_strUpper_behind (by omega) (by omega), cstrAt_strcpy hcpy] at harg
    exact harg

section
variable {cmd arg rest : List UInt8} (h : IsLine cmd arg) (hp : Plain cmd)
include h hp

/-- the two strings come out right when the byte behind the copied command is a NUL and the argument
is read back unchanged -/
theorem parseCmdline_of (hz : (trimmed (wire cmd arg rest)).getD (32 + cmd.length) 0 = 0)
    (hr : readBack cmd arg = arg) :
    parseCmdline (peeked (wire cmd arg rest)) = some (cmd.map toUpper, arg) := by
  have hs := h.short
  have hC : CMD = 32 := rfl
  have hA : ARG = 64 := rfl
  have hU := halfSplit_length (trimmed_length (wire cmd arg rest)) hs
  have hsrc := cstrAt_split h hp hz
  have hlen : strlen (halfSplit cmd (trimmed (wire cmd arg rest))) (cmd.length + 1) ≤ 31 := by
    unfold strlen
    rw [hsrc]
    exact readBack_length_le hs
  have hcpy : strcpy (halfSplit cmd (trimmed (wire cmd arg rest))) ARG (cmd.length + 1) = some _ :=
    strcpy_of (by omega) (by omega) (Or.inr (by omega))
  rw [parseCmdline_iff]
  refine ⟨_, (strSplit_trimmed h hp).trans hcpy, ?_⟩
  have hV := strcpy_length hcpy
  have hcmd : cstrAt (poke (halfSplit cmd (trimmed (wire cmd arg rest))) ARG
      (cstrAt (halfSplit cmd (trimmed (wire cmd arg rest))) (cmd.length + 1) ++ [0])) CMD = cmd := by
    rw [cstrAt_eq_iff]
    refine ⟨fun i hi => ?_, fun c hc => (hp c hc).2.2, ?_⟩
    · rw [getD_strcpy_out hcpy (by omega), getD_split (trimmed_length _) hs, if_neg (by omega),
        if_pos (by omega), show CMD + i - 32 = i by omega, List.getD_eq_getElem _ _ hi]
    · rw [getD_strcpy_out hcpy (by omega), getD_split (trimmed_length _) hs, if_neg (by omega),
        if_neg (by omega), hC, hz]
  rw [cstrAt_strUpper (by omega), cstrAt_strUpper_behind (by omega), hcmd, cstrAt_strcpy hcpy, hsrc,
    hr]
  unfold strlen
  rw [hcmd]
  omega

theorem of_parseCmdline
    (e : parseCmdline (peeked (wire cmd arg rest)) = some (cmd.map toUpper, arg)) :
    (trimmed (wire cmd arg rest)).getD (32 + cmd.length) 0 = 0 ∧ readBack cmd arg = arg := by
  obtain ⟨hz, harg⟩ := parseCmdline_parts (trimmed_length (wire cmd arg rest)) (cstrAt_trimmed h hp) h.short
    h.noSp e
  exact ⟨hz, (harg.trans (cstrAt_split h hp hz)).symm⟩

end

/-! ## a command with a CR, LF or NUL in it -/

theorem parsed_eq_some {k : Sock} {r : List UInt8 × List UInt8} (e : parsed k = some r) :
    ∃ m k', ctrlRead k = .ok (some (m, k')) ∧ parseCmdline m = some r := by
  unfold parsed at e
  split at e
  · rename_i m k' hk
    exact ⟨m, k', hk, e⟩
  · cases e

theorem parsed_peeked {q : List UInt8} {fin : Bool} {r : List UInt8 × List UInt8}
    (e : parsed ⟨q, fin, []⟩ = some r) : HasLine q ∧ parseCmdline (peeked q) = some r := by
  obtain ⟨m, k', hk, hm⟩ := parsed_eq_some e
  by_cases h : HasLine q
  · rw [ctrlRead_found h] at hk
    cases hk
    exact ⟨h, hm⟩
  · by_cases hd : q.drop MAX_COMMAND_LINE = [] ∧ fin = false
    · obtain ⟨hd, rfl⟩ := hd
      rw [ctrlRead_exit h hd] at hk
      cases hk
    · rw [ctrlRead_close fin h hd] at hk
      cases hk

theorem parseCmdline_ne_zero {m : Mem} {cmd arg : List UInt8}
    (e : parseCmdline m = some (cmd, arg)) {c : UInt8} (hc : c ∈ cmd) : c ≠ 0 := by
  obtain ⟨v, -, hr⟩ := parseCmdline_iff.mp e
  obtain ⟨rfl, -⟩ := Prod.mk.inj hr
  exact cstrAt_ne_zero hc

/-- with a CR or LF in it, the command is cut there and is too short -/
theorem parseCmdline_cut {cmd arg rest a : List UInt8} (h : IsLine cmd arg) (h0 : ∀ c ∈ cmd, c ≠ 0)
    (hcut : ∃ c ∈ cmd, c = CR ∨ c = LF) :
    parseCmdline (peeked (wire cmd arg rest)) ≠ some (cmd.map toUpper, a) := by
  intro e
  have hs := h.short
  have hC : CMD = 32 := rfl
  have hA : ARG = 64 := rfl
  obtain ⟨j, hj, hcj, hbefore⟩ : ∃ j, ∃ hj : j < cmd.length, (cmd[j] = CR ∨ cmd[j] = LF) ∧
      ∀ i, (hi : i < j) → cmd[i] ≠ CR ∧ cmd[i] ≠ LF := by
    have hlt : cmd.findIdx (fun c => c == CR || c == LF) < cmd.length :=
      List.findIdx_lt_length_of_exists (by simpa using hcut)
    refine ⟨_, hlt, by simpa using List.findIdx_getElem (w := hlt), fun i hi => ?_⟩
    simpa using List.not_of_lt_findIdx hi
  have hin : ∀ i, i ≤ j → i < strlen (peeked (wire cmd arg rest)) 0 := by
    intro i hi
    apply lt_strlen_peeked (by omega)
    intro l hl
    rw [wire_cmd (by omega)]
    exact h0 _ (List.getElem_mem _)
  have hpre : cstrAt (trimmed (wire cmd arg rest)) 0 = cmd.take j := by
    rw [cstrAt_eq_iff]
    refine ⟨fun i hi => ?_, fun c hc => h0 c (List.mem_of_mem_take hc), ?_⟩
    · rw [List.length_take] at hi
      have hb := hbefore i (by omega)
      rw [Nat.zero_add, getD_trimmed _ (by omega), if_pos (hin i (by omega)), wire_cmd (by omega),
        cut_of_ne hb.1 hb.2, List.getElem_take]
    · rw [List.length_take, Nat.min_eq_left (by omega), Nat.zero_add, getD_trimmed _ (by omega),
        if_pos (hin j (le_refl _)), wire_cmd hj]
      unfold cut
      rw [if_pos hcj]
  have hsp : SP ∉ cstrAt (trimmed (wire cmd arg rest)) 0 := by
    rw [hpre]
    exact fun hm => h.noSp (List.mem_of_mem_take hm)
  obtain ⟨v, hv, hr⟩ := parseCmdline_iff.mp e
  obtain ⟨hcmd, -⟩ := Prod.mk.inj hr
  have hcpy : strcpy (trimmed (wire cmd arg rest)) CMD 0 = some v := by
    unfold strSplit at hv
    rw [show strchr (strTrimCrlf (peeked (wire cmd arg rest)) 0) 0 SP = none from
      strchr_eq_none.mpr hsp] at hv
    exact hv
  rw [cstrAt_strUpper (by rw [strcpy_length hcpy, trimmed_length]; omega), cstrAt_strcpy hcpy,
    hpre] at hcmd
  have hl := congrArg List.length hcmd
  rw [List.length_map, List.length_map, List.length_take] at hl
  omega

theorem plain_of_parsed {cmd arg rest a : List UInt8} (h : IsLine cmd arg)
    (e : parseCmdline (peeked (wire cmd arg rest)) = some (cmd.map toUpper, a)) : Plain cmd := by
  have h0 : ∀ c ∈ cmd, c ≠ 0 := fun c hc hz =>
    parseCmdline_ne_zero e (List.mem_map_of_mem hc) (toUpper_eq_zero.mpr hz)
  intro c hc
  by_contra hn
  refine parseCmdline_cut h h0 ⟨c, hc, ?_⟩ e
  by_contra hcr
  exact hn ⟨fun h1 => hcr (Or.inl h1), fun h1 => hcr (Or.inr h1), h0 c hc⟩

/-! ## the lines that are parsed right -/

section
variable {cmd arg rest : List UInt8} {fin : Bool} (h : IsLine cmd arg)
include h

theorem splitsRight_of_parsed (e : parsed ⟨wire cmd arg rest, fin, []⟩ = some (cmd.map toUpper, arg)) :
    SplitsRight cmd arg rest := by
  obtain ⟨-, he⟩ := parsed_peeked e
  have hp := plain_of_parsed h he
  obtain ⟨hz, hr⟩ := of_parseCmdline h hp he
  refine ⟨hp, ?_⟩
  by_cases hn : cmd.length + 1 + arg.length ≤ 31
  · exact Or.inl ⟨hn, (residue_iff h hp hn).mp hz⟩
  · exact Or.inr (((readBack_eq_iff h.short).mp hr).resolve_left hn)

theorem parsed_of_splitsRight (hs : SplitsRight cmd arg rest) :
    parsed ⟨wire cmd arg rest, fin, []⟩ = some (cmd.map toUpper, arg) := by
  obtain ⟨hp, hc⟩ := hs
  have hz : (trimmed (wire cmd arg rest)).getD (32 + cmd.length) 0 = 0 := by
    rcases hc with ⟨hn, hres⟩ | ⟨hl, -⟩
    · exact (residue_iff h hp hn).mpr hres
    · have hlen := h.len
      have e : 32 + cmd.length = cmd.length + 1 + arg.length := by omega
      rw [e, getD_trimmed _ (by omega), if_pos (line_lt_strlen h hp (by omega)), wire_cr]
      decide
  have hr : readBack cmd arg = arg :=
    (readBack_eq_iff h.short).mpr (hc.imp And.left id)
  unfold parsed
  rw [ctrlRead_found (hasLine_wire h hp)]
  exact parseCmdline_of h hp hz hr

end

/-- **Parsing.**  A control line comes out as its command in upper case and its argument exactly when
it survives `str_split`. -/
theorem parsed_iff {cmd arg : List UInt8} (rest : List UInt8) (fin : Bool) (h : IsLine cmd arg) :
    parsed ⟨wire cmd arg rest, fin, []⟩ = some (cmd.map toUpper, arg) ↔
      SplitsRight cmd arg rest := by
  constructor
  · intro e
    exact splitsRight_of_parsed h e
  · intro hs
    exact parsed_of_splitsRight h hs

/-- `USER anonymous`, alone on the socket -/
theorem parsed_user : parsed ⟨wire (ascii "USER") (ascii "anonymous") [], false, []⟩
    = some ((ascii "USER").map toUpper, ascii "anonymous") :=
  (parsed_iff [] false ⟨by decide, by decide, by decide, by decide, by decide⟩).mpr (by decide)

/-- A name of forty bytes: the command comes back with a byte too many, the name cut and with the
command in it. -/
theorem parsed_long_name : ¬ ∀ cmd arg, IsLine cmd arg → ∀ rest fin,
    parsed ⟨wire cmd arg rest, fin, []⟩ = some (cmd.map toUpper, arg) := by
  intro hall
  have h : IsLine (ascii "RETR") (List.replicate 40 65) :=
    ⟨by decide, by decide, by decide, by decide, by decide⟩
  have he : parsed ⟨wire (ascii "RETR") (List.replicate 40 65) [], false, []⟩
      = some (ascii "RETRA", List.replicate 27 65 ++ ascii "RETRA") := by decide +kernel
  have hc := he.symm.trans (hall _ _ h [] false)
  exact absurd hc (by decide)

end Myftpd
