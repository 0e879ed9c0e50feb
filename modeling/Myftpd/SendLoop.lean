import Myftpd.Download

/-!
# The number of `sendfile` calls

The loop of `threadRetr` counts down from the size that `fstat` has given.  When another writer shortens the file
meanwhile, `sendfile` returns 0 at its end, and the count stays.

* `slowest`       how far a transfer comes that sends one byte with a call, or none at the end of the file;
* `slowest_iff`   the lengths with which it comes to its end in time;
* `calls_iff`     the lengths with which every transfer does.
-/

namespace Myftpd
open CMem Server

/-- Before each of the calls the file has a length; `sendfile` returns -1, or a positive count within the file, or 0
when the position is not before its end. -/
def Follows (len : Nat → Nat) (tid : Tid) : Server × Tape → Label → Prop :=
  During tid fun env th x g => th.pc = .loop → ∀ n ∈ (th.sends env x).toList,
    if n = 0 then len g.calls ≤ g.file.pos else g.file.pos + n ≤ len g.calls

/-- The thread `tid` is about to open the download of a file of `size` bytes at the offset `k`; there is a data
connection, and no ABOR has come. -/
structure Opens (tid : Tid) (k size : Nat) (s : Server) : Prop where
  thread : ∃ th x, s.threads tid = some th ∧ (th.kind = .retr ∧ th.pc = .opening ∧ th.offset = k ∧ th.size = size) ∧
    s.heap th.sess = some x ∧ x.dataFd ≠ none
  numbered : s.ledger.Numbered
  abor : NoAbor s

def Tape.openedAt (k : Nat) : Tape := ⟨⟨[], k⟩, [], [], [], 0⟩

/-- With the exception of one call `j` at most, the file is longer at call number `i` than what `i` bytes, or the `i`
calls but `j`, have brought. -/
def LongEnough (len : Nat → Nat) (k left : Nat) : Prop :=
  ∃ j, ∀ i < left, k + i < len (if i < j then i else i + 1)

/-- the bytes that `n` calls have sent when each sends one, or none at the end of the file -/
def slowest (len : Nat → Nat) (k : Nat) : Nat → Nat
  | 0 => 0
  | n + 1 => slowest len k n + if k + slowest len k n < len n then 1 else 0

section
variable {len : Nat → Nat} {k left n : Nat}

/-! ## the slowest transfer -/

theorem slowest_le : slowest len k n ≤ n := by
  induction n with
  | zero => exact Nat.le_refl 0
  | succ n ih =>
    unfold slowest
    split <;> omega

/-- the calls that have brought a byte, when at most one has not -/
theorem slowest_steps (h : n ≤ slowest len k n + 1) :
    (slowest len k n = n ∧ ∀ i < n, k + i < len i) ∨
      (slowest len k n + 1 = n ∧ ∃ j < n, (∀ i < j, k + i < len i) ∧
        ∀ i, j ≤ i → i + 1 < n → k + i < len (i + 1)) := by
  induction n with
  | zero => exact Or.inl ⟨rfl, nofun⟩
  | succ n ih =>
    have hle : slowest len k n ≤ n := slowest_le
    unfold slowest at h ⊢
    split at h
    · rename_i hsent
      rw [if_pos hsent]
      rcases ih (by omega) with ⟨e, hall⟩ | ⟨e, j, hj, h1, h2⟩
      · refine Or.inl ⟨by omega, fun i hi => ?_⟩
        rcases Nat.lt_succ_iff_lt_or_eq.mp hi with hi | rfl
        · exact hall i hi
        · rw [e] at hsent
          exact hsent
      · refine Or.inr ⟨by omega, j, by omega, h1, fun i hji hi => ?_⟩
        by_cases hn : i + 1 < n
        · exact h2 i hji hn
        · have hin : i + 1 = n := by omega
          have hslow : slowest len k n = i := by omega
          rw [hslow] at hsent
          rw [hin]
          exact hsent
    · rename_i hzero
      rw [if_neg hzero]
      rcases ih (by omega) with ⟨e, hall⟩ | ⟨e, -⟩
      · exact Or.inr ⟨by omega, n, Nat.lt_succ_self n, hall, fun i h1 h2 => by omega⟩
      · omega

/-- **The slowest transfer comes to its end** with one call more than there are bytes exactly when the file is long
enough. -/
theorem slowest_iff : left ≤ slowest len k (left + 1) ↔ LongEnough len k left := by
  constructor
  · intro h
    rcases slowest_steps (by omega : left + 1 ≤ slowest len k (left + 1) + 1) with ⟨-, hall⟩ | ⟨-, j, -, h1, h2⟩
    · refine ⟨left, fun i hi => ?_⟩
      rw [if_pos hi]
      exact hall i (by omega)
    · refine ⟨j, fun i hi => ?_⟩
      split
      · rename_i hij
        exact h1 i hij
      · rename_i hij
        exact h2 i (by omega) (by omega)
  · rintro ⟨j, hj⟩
    -- of `m` calls one at most has brought nothing
    have hmany : ∀ m, min left (if m ≤ j then m else m - 1) ≤ slowest len k m := by
      intro m
      induction m with
      | zero => simp
      | succ m ih =>
        have hle : slowest len k m ≤ m := slowest_le
        have hmono : slowest len k m ≤ slowest len k (m + 1) := Nat.le_add_right _ _
        by_cases hfull : left ≤ slowest len k m
        · omega
        replace ih : (if m ≤ j then m else m - 1) ≤ slowest len k m := by
          by_contra hlt
          omega
        refine (Nat.min_le_right _ _).trans ?_
        rcases Nat.lt_trichotomy m j with hmj | rfl | hmj
        · rw [if_pos (by omega)] at ih ⊢
          have hm : slowest len k m = m := by omega
          have hlen := hj m (by omega)
          rw [if_pos hmj] at hlen
          unfold slowest
          rw [hm, if_pos hlen]
        · rw [if_pos (Nat.le_refl _)] at ih
          rw [if_neg (by omega)]
          omega
        · rw [if_neg (by omega)] at ih ⊢
          by_cases hm : slowest len k m = m
          · omega
          · have hm' : slowest len k m = m - 1 := by omega
            have hlen := hj (m - 1) (by omega)
            rw [if_neg (by omega), Nat.sub_add_cancel (by omega)] at hlen
            unfold slowest
            rw [hm', if_pos hlen]
            omega
    have hlast := hmany (left + 1)
    split at hlast <;> omega

end

section
variable {c : Conf} {peer : Nat → UInt8} {env : TEnv} {tid : Tid} {th : Thread} {s : Server} {x : Session} {fd : Fd}
  {g : Tape} {q : Server × Tape} {len : Nat → Nat} {k size n : Nat}

/-! ## every transfer is ahead of the slowest -/

/-- the download in its loop: `left` is what remains to be sent -/
structure Racing (len : Nat → Nat) (k size : Nat) (left : Int) (g : Tape) : Prop where
  ahead : k + slowest len k g.calls ≤ g.file.pos
  pos : k ≤ g.file.pos
  eq : left = ((k + (size - k) : Nat) : Int) - g.file.pos
  nonneg : 0 ≤ left
  calls : g.calls ≤ size - k + 1

/-- the download from 150 on -/
def Ahead (len : Nat → Nat) (k size : Nat) (o : Option Thread) (g : Tape) : Prop :=
  match o with
  | none => g.calls ≤ size - k + 1
  | some th => th.kind = .retr ∧ match th.pc with
    | .opening => g.calls = 0 ∧ g.file.pos = k ∧ th.offset = k ∧ th.size = size
    | .loop => Racing len k size th.left g
    | .rmData => g.calls ≤ size - k + 1
    | .rmPasv => g.calls ≤ size - k + 1
    | .setPasv => g.calls ≤ size - k + 1
    | .setData => g.calls ≤ size - k + 1
    | .closeFile => g.calls ≤ size - k + 1
    | .final => g.calls ≤ size - k + 1
    | .checkAbor => g.calls ≤ size - k + 1
    | _ => False

theorem turn_no_calls (h : th.calls env x = []) : (g.turn peer (th.deeds env x)).calls = g.calls := by
  rw [turn_calls, deeds_calls, h]
  rfl

/-- as long as something is left, the slowest transfer has not come to its end either -/
theorem racing_few {left : Int} (h : Racing len k size left g) (hz : left ≠ 0)
    (hlong : size - k ≤ slowest len k (size - k + 1)) : g.calls ≤ size - k := by
  have h1 := h.ahead
  have h2 := h.eq
  have h3 := h.nonneg
  have h4 := h.calls
  by_contra hmany
  have hc : g.calls = size - k + 1 := by omega
  rw [hc] at h1
  omega

theorem racing_sent {left : Int} (h : Racing len k size left g) (hfew : g.calls ≤ size - k) (hle : (n : Int) ≤ left)
    (hn : if n = 0 then len g.calls ≤ g.file.pos else g.file.pos + n ≤ len g.calls) :
    Racing len k size (left - n) (g.turn peer [.sent n]) := by
  have h1 := h.ahead
  have h2 := h.pos
  have h3 := h.eq
  have hcalls : (g.turn peer [.sent n]).calls = g.calls + 1 := turn_calls _
  have hpos : (g.turn peer [.sent n]).file.pos = g.file.pos + n := rfl
  refine ⟨?_, by omega, by omega, by omega, by omega⟩
  rw [hcalls, hpos]
  show k + (slowest len k g.calls + if k + slowest len k g.calls < len g.calls then 1 else 0) ≤ _
  split at hn
  · -- nothing has come: then the slowest transfer is still behind, or it gets nothing either
    split <;> omega
  · split <;> omega

theorem ahead_loop (h : Ahead len k size (some th) g) (hpc : th.pc = .loop) (ha : x.aborReceived = false)
    (hlong : size - k ≤ slowest len k (size - k + 1))
    (hf : ∀ n ∈ (th.sends env x).toList,
      if n = 0 then len g.calls ≤ g.file.pos else g.file.pos + n ≤ len g.calls) :
    Ahead len k size (some (th.goes env x fd)) (g.turn peer (th.deeds env x)) := by
  obtain ⟨hk, hst⟩ := h
  simp only [hpc] at hst
  have hdeeds : th.deeds env x = th.calls env x :=
    deeds_silent (by rw [hpc]; rfl) (refused_other (by rw [hpc]; rfl))
  rw [hdeeds]
  unfold Thread.goes Thread.calls
  simp only [hpc, hk]
  by_cases hz : th.left = 0
  · rw [if_pos hz, if_pos hz]
    refine ⟨rfl, ?_⟩
    show (g.turn peer []).calls ≤ _
    rw [turn_calls]
    exact hst.calls
  rw [if_neg hz, if_neg hz]
  have hfew : g.calls ≤ size - k := racing_few hst hz hlong
  cases hs : th.sends env x with
  | none =>
    refine ⟨rfl, ?_⟩
    show (g.turn peer [.sendFailed]).calls ≤ _
    rw [turn_calls]
    exact Nat.succ_le_succ hfew
  | some n =>
    simp only [ha, Bool.false_eq_true, if_false]
    have hnonneg := hst.nonneg
    have hle : (n : Int) ≤ th.left := by
      have h1 := sends_le hs
      have h2 : (th.num : Int) ≤ max th.left 0 := num_le
      omega
    have hsent : Racing len k size (th.left - n) (g.turn peer [.sent n]) :=
      racing_sent hst hfew hle (hf n (by rw [hs]; exact List.mem_singleton_self _))
    exact ⟨rfl, hsent⟩

theorem ahead_cleans {r : Pc} (h : Ahead len k size (some th) g) (hc : th.pc.cleans = some r) :
    Ahead len k size (th.after env x fd) (g.turn peer (th.deeds env x)) := by
  obtain ⟨hk, hst⟩ := h
  obtain ⟨hr, hgoes, hdeeds⟩ : th.refused env x = false ∧ th.goes env x fd = { th with pc := r } ∧ _ := cleans_step hc
  have hne : th.pc ≠ .checkAbor := by
    intro e
    rw [e] at hc
    cases hc
  rw [after_on hne hr, hgoes, hdeeds]
  cases hpc : th.pc <;> rw [hpc] at hc <;> cases hc
  all_goals
    simp only [hpc] at hst
    exact ⟨hk, turn_quiet.2.1.trans_le hst⟩

theorem ahead_step (h : Ahead len k size (some th) g) (ha : x.aborReceived = false)
    (hlong : size - k ≤ slowest len k (size - k + 1))
    (hf : th.pc = .loop → ∀ n ∈ (th.sends env x).toList,
      if n = 0 then len g.calls ≤ g.file.pos else g.file.pos + n ≤ len g.calls) :
    Ahead len k size (th.after env x fd) (g.turn peer (th.deeds env x)) := by
  have hr : th.refused env x = false := by
    obtain ⟨-, hst⟩ := h
    apply refused_other
    cases hpc : th.pc <;> simp only [hpc] at hst <;> rfl
  cases hpc : th.pc with
  | loop =>
    rw [after_on (by rw [hpc]; nofun) hr]
    exact ahead_loop h hpc ha hlong (hf hpc)
  | opening =>
    obtain ⟨hk, hst⟩ := h
    simp only [hpc] at hst
    obtain ⟨hcalls, hpos, hoff, hsize⟩ := hst
    have hcalls' : (g.turn peer [.reply FTP_DATACONN]).calls = 0 := (turn_calls _).trans hcalls
    have hpos' : (g.turn peer [.reply FTP_DATACONN]).file.pos = k := hpos
    have hleft : (if th.offset > th.size then 0 else th.size - th.offset) = ((size - k : Nat) : Int) := by
      rw [hoff, hsize]
      split <;> omega
    rw [after_on (by rw [hpc]; nofun) hr, goes_opening hpc, deeds_opening hpc, hleft]
    refine ⟨hk, ?_, ?_, ?_, ?_, ?_⟩
    · rw [hcalls', hpos']
      exact Nat.le_refl k
    · rw [hpos']
    · rw [hpos']
      show ((size - k : Nat) : Int) = _
      omega
    · exact Int.natCast_nonneg _
    · rw [hcalls']
      exact Nat.zero_le _
  | checkAbor =>
    obtain ⟨hk, hst⟩ := h
    simp only [hpc] at hst
    rw [after_done hpc, deeds_done hpc]
    exact turn_quiet.2.1.trans_le hst
  | final =>
    obtain ⟨hk, hst⟩ := h
    simp only [hpc] at hst
    rw [after_on (by rw [hpc]; nofun) hr, goes_final hpc]
    refine ⟨hk, ?_⟩
    show (g.turn peer (th.deeds env x)).calls ≤ _
    rw [turn_no_calls (by unfold Thread.calls; simp only [hpc])]
    exact hst
  | rmData => exact ahead_cleans h (r := .rmPasv) (by rw [hpc]; rfl)
  | rmPasv => exact ahead_cleans h (r := .setPasv) (by rw [hpc]; rfl)
  | setPasv => exact ahead_cleans h (r := .setData) (by rw [hpc]; rfl)
  | setData => exact ahead_cleans h (r := .closeFile) (by rw [hpc]; rfl)
  | closeFile => exact ahead_cleans h (r := .final) (by rw [hpc]; rfl)
  | _ =>
    obtain ⟨-, hst⟩ := h
    simp only [hpc] at hst

/-! ## the slowest transfer itself -/

/-- what the system answers to it -/
def slowEnv (len : Nat → Nat) (k n : Nat) : TEnv :=
  { sampleTEnv with sendfile := some (if k + slowest len k n < len n then 1 else 0) }

/-- the slowest transfer after `n` calls -/
structure Slow (len : Nat → Nat) (tid : Tid) (k size n : Nat) (p : Server × Tape) : Prop where
  thread : ∃ th x, p.1.threads tid = some th ∧ p.1.heap th.sess = some x ∧ x.dataFd ≠ none ∧
    th.kind = .retr ∧ th.pc = .loop ∧ th.left = ((size - k : Nat) : Int) - slowest len k n
  numbered : p.1.ledger.Numbered
  abor : NoAbor p.1
  calls : p.2.calls = n
  pos : p.2.file.pos = k + slowest len k n

theorem sends_small {m : Nat} (hd : x.dataFd ≠ none) (hl : 0 < th.left) (hm : m ≤ 1)
    (he : env.sendfile = some m) : th.sends env x = some m := by
  obtain ⟨fd, hfd⟩ := Option.ne_none_iff_exists'.mp hd
  have hnum : 1 ≤ th.num := by
    unfold Thread.num
    split <;> omega
  unfold Thread.sends
  rw [hfd, he]
  show some (min m th.num) = some m
  rw [Nat.min_eq_left (by omega)]

theorem slow_first (ho : Opens tid k size s) : ∃ p,
    Runs.Path (taped c peer tid) (Follows len tid) (s, Tape.openedAt k) p ∧ Slow len tid k size 0 p := by
  obtain ⟨th, x, hth, ⟨hk, hpc, hoff, hsize⟩, hx, hd⟩ := ho.thread
  obtain ⟨q, hstep, hthread, htape, hheap, hn, ha⟩ :=
    solo_step c peer (s, Tape.openedAt k) sampleTEnv ho.numbered ho.abor hth hx
  rw [deeds_opening hpc] at htape
  have hfollows : Follows len tid (s, Tape.openedAt k) (.thread tid sampleTEnv) := by
    intro _ u hu hloop
    cases hth.symm.trans (Option.mem_toList.mp hu)
    rw [hpc] at hloop
    cases hloop
  refine ⟨q, Runs.Path.step Runs.Path.refl hfollows hstep,
    ⟨{ th with flag := 0, left := if th.offset > th.size then 0 else th.size - th.offset, pc := .loop }, x,
      ?_, ?_, hd, hk, rfl, ?_⟩, hn, ha, ?_, ?_⟩
  · rw [hthread]
    exact (after_on (by rw [hpc]; nofun) (refused_other (by rw [hpc]; rfl))).trans (congrArg some (goes_opening hpc))
  · rw [hpc] at hheap
    exact hheap
  · show (if th.offset > th.size then 0 else th.size - th.offset) = _
    rw [hoff, hsize]
    simp only [slowest]
    split <;> omega
  · rw [htape]
    rfl
  · rw [htape]
    rfl

theorem slow_next (c : Conf) (peer : Nat → UInt8) {p : Server × Tape} (h : Slow len tid k size n p)
    (hleft : slowest len k n < size - k) : ∃ q,
    (taped c peer tid).step (.thread tid (slowEnv len k n)) p q ∧ Follows len tid p (.thread tid (slowEnv len k n)) ∧
      Slow len tid k size (n + 1) q := by
  obtain ⟨th, x, hth, hx, hd, hk, hpc, hl⟩ := h.thread
  obtain ⟨q, hstep, hthread, htape, hheap, hn, ha⟩ :=
    solo_step c peer p (slowEnv len k n) h.numbered h.abor hth hx
  obtain ⟨m, hm⟩ : ∃ m, (if k + slowest len k n < len n then 1 else 0) = m := ⟨_, rfl⟩
  have hm1 : m ≤ 1 := by
    rw [← hm]
    split <;> omega
  have hsend : th.sends (slowEnv len k n) x = some m :=
    sends_small hd (by omega) hm1 (by rw [← hm]; rfl)
  have hnext : slowest len k (n + 1) = slowest len k n + m := by
    rw [← hm]
    rfl
  have hr : th.refused (slowEnv len k n) x = false := refused_other (by rw [hpc]; rfl)
  have hdeeds : th.deeds (slowEnv len k n) x = [.sent m] := by
    rw [deeds_silent (by rw [hpc]; rfl) hr]
    unfold Thread.calls
    simp only [hpc, hk, hsend]
    exact if_neg (by omega)
  have hgoes : th.goes (slowEnv len k n) x p.1.fds.lowest = { th with left := th.left - m } := by
    unfold Thread.goes
    simp only [hpc, hk, hsend, h.abor _ x hx, Bool.false_eq_true, if_false]
    exact if_neg (by omega)
  have hcalls := h.calls
  have hpos := h.pos
  refine ⟨q, hstep, ?_, ⟨{ th with left := th.left - m }, x, ?_, ?_, hd, hk, hpc, ?_⟩, hn, ha, ?_, ?_⟩
  · intro _ u hu _ i hi
    cases hth.symm.trans (Option.mem_toList.mp hu)
    rw [seen_of hx, hsend, Option.mem_toList] at hi
    cases hi
    rw [hcalls, hpos]
    split at hm <;> subst hm
    · rw [if_neg (by omega)]
      omega
    · rw [if_pos rfl]
      omega
  · rw [hthread]
    rw [after_on (by rw [hpc]; nofun) hr, hgoes]
  · rw [hpc] at hheap
    exact hheap
  · show th.left - m = _
    rw [hnext]
    omega
  · rw [htape, hdeeds, turn_calls, hcalls]
    rfl
  · rw [htape, hdeeds]
    show p.2.file.pos + m = _
    rw [hpos, hnext, Nat.add_assoc]

theorem slow_run (c : Conf) (peer : Nat → UInt8) (len : Nat → Nat) (ho : Opens tid k size s)
    (n : Nat) (h : ∀ i < n, slowest len k i < size - k) : ∃ p,
    Runs.Path (taped c peer tid) (Follows len tid) (s, Tape.openedAt k) p ∧ Slow len tid k size n p := by
  induction n with
  | zero => exact slow_first ho
  | succ n ih =>
    obtain ⟨p, hp, hslow⟩ := ih fun i hi => h i (Nat.lt_succ_of_lt hi)
    obtain ⟨q, hq, hf, hslow'⟩ := slow_next c peer hslow (h n (Nat.lt_succ_self n))
    exact ⟨q, Runs.Path.step hp hf hq, hslow'⟩

theorem slowest_mono {i j : Nat} (h : i ≤ j) : slowest len k i ≤ slowest len k j := by
  induction h with
  | refl => exact Nat.le_refl _
  | step _ ih => exact ih.trans (Nat.le_add_right _ _)

/-! ## all transfers -/

/-- **The calls of `sendfile`** are never more than one above the bytes to send exactly when the file stays long
enough: whatever the calls return, and whatever else the server does. -/
theorem calls_iff (ho : Opens tid k size s) :
    (∀ q, Runs.Path (taped c peer tid) (Follows len tid) (s, Tape.openedAt k) q → q.2.calls ≤ size - k + 1) ↔
      LongEnough len k (size - k) := by
  rw [← slowest_iff]
  constructor
  · intro hall
    by_contra hshort
    obtain ⟨q, hq, hslow⟩ := slow_run c peer len ho (size - k + 2) fun i hi =>
      Nat.lt_of_le_of_lt (slowest_mono (by omega : i ≤ size - k + 1)) (Nat.not_le.mp hshort)
    have hle := hall q hq
    rw [hslow.calls] at hle
    omega
  · intro hlong q hq
    obtain ⟨th, x, hth, ⟨hk, hpc, hoff, hsize⟩, -, -⟩ := ho.thread
    have hahead : Ahead len k size (q.1.threads tid) q.2 := by
      refine taped_inv (I := Ahead len k size) hq ho.numbered ho.abor
        (ho.numbered.worker tid _ (ledger_worker hth)) ?_ fun s g env th ha hd hth hi => ?_
      · show Ahead len k size (s.threads tid) (Tape.openedAt k)
        rw [hth]
        refine ⟨hk, ?_⟩
        rw [hpc]
        exact ⟨rfl, rfl, hoff, hsize⟩
      · exact ahead_step hi (seen_abor ha _) hlong (hd rfl th (Option.mem_toList.mpr hth))
    unfold Ahead at hahead
    split at hahead
    · exact hahead
    · obtain ⟨-, hst⟩ := hahead
      split at hst
      · omega
      · exact hst.calls
      all_goals first | exact hst | exact hst.elim

theorem sample_opens : ∃ s, Opens 0 0 3 s := by
  obtain ⟨s, hs, hp⟩ := reach_of_play (sampleReach Runs.Any)
    (show (play sampleConf Runs.Any sampleBoot (retrRun ++ List.replicate 5 (.thread 0 sampleTEnv))).any (fun s =>
      (s.threads 0).any (fun th =>
        decide (th.kind = .retr ∧ th.pc = .opening ∧ th.offset = ((0 : Nat) : Int) ∧ th.size = ((3 : Nat) : Int)) &&
          (s.heap th.sess).any fun x => x.dataFd.isSome)) = true by decide +kernel)
  obtain ⟨th, hth, ht⟩ := (Option.any_eq_true _ _).mp hp
  rw [Bool.and_eq_true, decide_eq_true_eq] at ht
  obtain ⟨x, hx, hd⟩ := (Option.any_eq_true _ _).mp ht.2
  exact ⟨s, ⟨th, x, hth, ht.1, hx, Option.isSome_iff_ne_none.mp hd⟩, numbered_reach hs, noAbor_reach hs⟩

/-- the file keeps its three bytes -/
theorem calls_iff_kept : ∃ s, Opens 0 0 3 s ∧ ∀ q,
    Runs.Path (taped sampleConf (fun _ => 0) 0) (Follows (fun _ => 3) 0) (s, Tape.openedAt 0) q → q.2.calls ≤ 4 := by
  obtain ⟨s, ho⟩ := sample_opens
  refine ⟨s, ho, (calls_iff ho).mpr ⟨0, fun i hi => ?_⟩⟩
  show 0 + i < 3
  omega

/-- **A file of three bytes that is emptied** meanwhile: the calls have no bound at all. -/
theorem calls_unbounded : ¬ ∀ c peer tid k size s len, Opens tid k size s → ∃ most, ∀ q,
    Runs.Path (taped c peer tid) (Follows len tid) (s, Tape.openedAt k) q → q.2.calls ≤ most := by
  intro h
  obtain ⟨s, ho⟩ := sample_opens
  obtain ⟨most, hmost⟩ := h sampleConf (fun _ => 0) 0 0 3 s (fun _ => 0) ho
  have hzero : ∀ n, slowest (fun _ => 0) 0 n = 0 := by
    intro n
    induction n with
    | zero => rfl
    | succ n ih =>
      unfold slowest
      rw [ih]
      rfl
  obtain ⟨q, hq, hslow⟩ := slow_run sampleConf (fun _ => 0) (fun _ => 0) ho (most + 1) fun i _ => by
    rw [hzero i]
    omega
  have hle := hmost q hq
  rw [hslow.calls] at hle
  omega

end

end Myftpd
