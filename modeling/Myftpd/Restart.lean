import Myftpd.Fields

/-!
# REST

`str_to_longlong` adds digit after digit to a `long long` and has no check for its range.

* `decimal`    the value of a string of digits;
* `restValue`  the position that an argument stands for;
* `rest_iff`   the arguments for which REST stores that position.
-/

namespace Myftpd
open CMem Server

/-- the value of a string of digits, the first digit being the most significant one -/
def decimal (s : List UInt8) : Nat := s.foldl (fun n d => 10 * n + (d.toNat - 48)) 0

def AllDigits (arg : List UInt8) : Prop := ∀ d ∈ arg, isDigit d = true

instance (arg : List UInt8) : Decidable (AllDigits arg) := List.decidableBAll _ _

/-- the position that the argument of REST stands for -/
def restValue (arg : List UInt8) : Int :=
  if AllDigits arg ∧ decimal arg < 2^63 then decimal arg else 0

/-- not all digits, or a value that a `long long` can hold, or a multiple of `2^64` -/
def RestFits (arg : List UInt8) : Prop :=
  AllDigits arg → decimal arg < 2^63 ∨ decimal arg % 2^64 = 0

instance (arg : List UInt8) : Decidable (RestFits arg) := inferInstanceAs (Decidable (_ → _))

section
variable {c : Conf} {env : Env} {s s' : Server} {sid : Sid} {x : Session} {arg : List UInt8} {ret : Int}

/-! ## the loop over the digits -/

theorem longlongLoop_cons {d : UInt8} (h : isDigit d = true) :
    longlongLoop ret (d :: arg) = longlongLoop (wrapS 64 (ret * 10 + (d.toNat - 48))) arg := by
  conv_lhs => unfold longlongLoop
  exact if_pos h

theorem digit_le {d : UInt8} (h : isDigit d = true) : 48 ≤ d.toNat := by
  unfold isDigit at h
  rw [Bool.and_eq_true] at h
  exact UInt8.le_iff_toNat_le.mp (of_decide_eq_true h.1)

/-- one digit: what has been wrapped before is wrapped again -/
theorem wrapS_digit (n m : Nat) : wrapS 64 (wrapS 64 n * 10 + m) = wrapS 64 ((10 * n + m : Nat) : Int) := by
  unfold wrapS
  omega

theorem longlongLoop_digits (h : AllDigits arg) (n : Nat) : longlongLoop (wrapS 64 n) arg =
    wrapS 64 ((arg.foldl (fun n d => 10 * n + (d.toNat - 48)) n : Nat) : Int) := by
  induction arg generalizing n with
  | nil => rfl
  | cons d arg ih =>
    have hd : isDigit d = true := h d List.mem_cons_self
    have hcast : ((d.toNat : Int) - 48) = ((d.toNat - 48 : Nat) : Int) := by
      have := digit_le hd
      omega
    rw [longlongLoop_cons hd, hcast, wrapS_digit, List.foldl_cons]
    exact ih (fun e he => h e (List.mem_cons_of_mem d he)) _

theorem longlongLoop_other (h : ∃ d ∈ arg, ¬ isDigit d = true) : longlongLoop ret arg = 0 := by
  induction arg generalizing ret with
  | nil =>
    obtain ⟨d, hd, -⟩ := h
    cases hd
  | cons d arg ih =>
    by_cases hd : isDigit d = true
    · rw [longlongLoop_cons hd]
      obtain ⟨e, he, hne⟩ := h
      rcases List.mem_cons.mp he with rfl | he
      · exact absurd hd hne
      · exact ih ⟨e, he, hne⟩
    · conv_lhs => unfold longlongLoop
      exact if_neg hd

theorem strToLonglong_digits (h : AllDigits arg) :
    strToLonglong arg = wrapS 64 (decimal arg) := longlongLoop_digits h 0

theorem strToLonglong_other (h : ¬ AllDigits arg) : strToLonglong arg = 0 := by
  simp only [AllDigits, not_forall] at h
  obtain ⟨d, hd, hne⟩ := h
  exact longlongLoop_other ⟨d, hd, hne⟩

theorem strToLonglong_iff : strToLonglong arg = restValue arg ↔ RestFits arg := by
  unfold restValue RestFits
  by_cases hd : AllDigits arg
  · rw [strToLonglong_digits hd, imp_iff_right hd]
    by_cases hv : decimal arg < 2^63
    · rw [if_pos ⟨hd, hv⟩]
      refine iff_of_true (wrapS_of_lt (by decide) (by omega) ?_) (Or.inl hv)
      exact_mod_cast hv
    · rw [if_neg fun h => hv h.2, or_iff_right hv]
      unfold wrapS
      omega
  · rw [strToLonglong_other hd, if_neg fun h => hd h.1]
    exact iff_of_true rfl fun h => absurd h hd

/-! ## the command -/

/-- **REST stores the number it was given** exactly when it is not digits only, or below `2^63`, or a multiple
of `2^64`; and REST goes through, unless its reply meets a closed connection. -/
theorem rest_iff (hh : handles s (.command env) = some (sid, x, .rest)) :
    (env.sigpipe = false → ∃ s', exec c s (.command env) = .ok s') ∧
      ∀ s', exec c s (.command env) = .ok s' → ∃ y, s'.heap sid = some y ∧
        (y.restartPos = restValue x.arg ↔ RestFits x.arg) := by
  constructor
  · intro hp
    obtain ⟨evs, -, -, hrun⟩ := exec_handles (c := c) hh
    rw [piped_quiet hp] at hrun
    exact ⟨_, hrun⟩
  · intro s' he
    obtain ⟨evs, -, -, hrun⟩ := exec_handles_ok hh he
    cases hrun
    exact ⟨{ x with restartPos := strToLonglong x.arg }, put_self _, strToLonglong_iff⟩

end

theorem rest_iff_short : ∃ s x, Reach sampleConf Runs.Any s ∧
    handles s (.command sampleEnv) = some (0, x, .rest) ∧
      (sampleEnv.sigpipe = false → ∃ s', exec sampleConf s (.command sampleEnv) = .ok s') ∧
      ∀ s', exec sampleConf s (.command sampleEnv) = .ok s' → ∃ y, s'.heap 0 = some y ∧
        (y.restartPos = restValue x.arg ↔ RestFits x.arg) := by
  obtain ⟨s, hs, hp⟩ := reach_of_play
    (p := fun s => (handles s (.command sampleEnv)).any fun r : Sid × Session × Cmd =>
      decide (r.1 = 0 ∧ r.2.2 = .rest))
    (sampleReach Runs.Any)
    (by decide +kernel : (play sampleConf Runs.Any sampleBoot (connects ++
      [.arrive 5 (ascii "REST 1024" ++ [CR, LF]), .wait [input 5], .dispatch 0 sampleEnv])).any _ = true)
  obtain ⟨⟨sid, x, h⟩, hh, hp⟩ := (Option.any_eq_true _ _).mp hp
  obtain ⟨rfl, rfl⟩ : sid = 0 ∧ h = .rest := of_decide_eq_true hp
  exact ⟨s, x, hs, hh, rest_iff hh⟩

/-- **`2^63`** is stored as `-2^63`. -/
theorem rest_negative : ¬ ∀ c s env sid x s' y, Reach c Runs.Any s → handles s (.command env) = some (sid, x, .rest) →
    exec c s (.command env) = .ok s' → s'.heap sid = some y → y.restartPos = restValue x.arg := by
  intro h
  obtain ⟨s, hs, hp⟩ := reach_of_play
    (p := fun s => (handles s (.command sampleEnv)).any fun r : Sid × Session × Cmd =>
      decide (r.2.2 = .rest ∧ strToLonglong r.2.1.arg = -2^63 ∧ restValue r.2.1.arg = 0))
    (sampleReach Runs.Any)
    (by decide +kernel : (play sampleConf Runs.Any sampleBoot (connects ++
      [.arrive 5 (ascii "REST 9223372036854775808" ++ [CR, LF]), .wait [input 5], .dispatch 0 sampleEnv])).any _ = true)
  obtain ⟨⟨sid, x, k⟩, hh, hp⟩ := (Option.any_eq_true _ _).mp hp
  obtain ⟨rfl, hstored, hvalue⟩ : k = .rest ∧ strToLonglong x.arg = -2^63 ∧ restValue x.arg = 0 :=
    of_decide_eq_true hp
  obtain ⟨evs, -, -, hrun⟩ := exec_handles (c := sampleConf) hh
  rw [piped_quiet rfl] at hrun
  have hpos := h sampleConf s sampleEnv sid x _ { x with restartPos := strToLonglong x.arg } hs hh hrun (put_self _)
  rw [hvalue, show ({ x with restartPos := strToLonglong x.arg } : Session).restartPos = _ from hstored] at hpos
  exact absurd hpos (by decide)

end Myftpd
