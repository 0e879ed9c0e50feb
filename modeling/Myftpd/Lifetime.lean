import Myftpd.Refine

/-!
# Sessions and the transfer threads that use them

Nothing in the server records that a transfer thread is running, so QUIT, end of file, `EPOLLHUP` and
the idle limit free the session under it.  As long as none of them meets a session with a running
thread, the session of every thread is live.

* `Ledger.Numbered`   sessions and threads have numbers below the next ones;
* `Ledger.Backed`     the session of every thread is live;
* `threads_backed`    the runs in which no session is freed under its threads.
-/

namespace Myftpd
open CMem Server

namespace Ledger

variable {L L' : Ledger} {op : Op}

/-- sessions and threads have been given numbers below the next ones -/
structure Numbered (L : Ledger) : Prop where
  sess : ∀ sid x, L.sess sid = some x → sid < L.nextSid
  worker : ∀ tid w, L.workers tid = some w → tid < L.nextTid

theorem Step.numbered (h : L.Step op L') (hn : L.Numbered) : L'.Numbered where
  sess := by
    intro sid y hy
    rcases (h.born hy).2 with ⟨x, hx, -⟩ | ⟨fd, rfl, rfl, -⟩
    · exact lt_of_lt_of_le (hn.sess sid x hx) h.nextSid_le
    · cases h
      exact Nat.lt_succ_self _
  worker := by
    intro tid w hw
    rcases h.worker hw with ⟨u, hu, -⟩ | ⟨rfl, rfl, -⟩
    · exact lt_of_lt_of_le (hn.worker tid u hu) h.nextTid_le
    · cases h
      exact Nat.lt_succ_self _

/-- the session of every thread is live -/
def Backed (L : Ledger) : Prop := ∀ tid w, L.workers tid = some w → ∃ x, L.sess w.sess = some x

theorem Step.backed (h : L.Step op L') (hn : L.Numbered) (hb : L.Backed)
    (hc : ∀ sid, op.ends = some sid → ∀ tid w, L.workers tid = some w → w.sess ≠ sid) :
    L'.Backed := by
  intro tid w hw
  rcases h.worker hw with ⟨u, hu, hs⟩ | ⟨-, rfl, x, hx⟩
  · obtain ⟨x, hx⟩ := hb tid u hu
    rw [hs] at hx
    obtain ⟨y, hy, -⟩ := h.alive hx (hn.sess _ _ hx) fun e => hc _ e tid u hu hs
    exact ⟨y, hy⟩
  · obtain ⟨y, hy, -⟩ := h.alive hx (hn.sess _ _ hx) nofun
    exact ⟨y, hy⟩

end Ledger

/-! ## runs -/

variable {c : Conf} {s s' : Server} {l : Label}

theorem numbered_reach {C : Server → Label → Prop} (h : Reach c C s) : s.ledger.Numbered := by
  refine Runs.Reach.inv (I := fun s => s.ledger.Numbered) ?_ ?_ h
  · rintro s ⟨fds, -, rfl⟩
    exact ⟨nofun, nofun⟩
  · rintro s l s' hn - ⟨hen, he⟩
    obtain ⟨op, ho⟩ := exec_step hen he
    exact ho.step.numbered hn

/-- a transfer thread of the session has not yet returned -/
def busy (s : Server) (sid : Sid) : Bool :=
  (List.range s.nextTid).any fun tid => (s.threads tid).any fun th => th.sess == sid

/-- no step ends a session that has a transfer running -/
def Spared (c : Conf) (s : Server) (l : Label) : Prop :=
  ∀ sid ∈ (ends c s l).toList, busy s sid = false

instance (c : Conf) (s : Server) (l : Label) : Decidable (Spared c s l) :=
  inferInstanceAs (Decidable (∀ sid ∈ _, _))

/-- the session of every transfer thread that has not returned is live -/
def NoneFreed (s : Server) : Prop :=
  ∀ tid th, s.threads tid = some th → ∃ x, s.heap th.sess = some x

theorem noneFreed_iff : NoneFreed s ↔ s.ledger.Backed := by
  constructor
  · intro h tid w hw
    obtain ⟨th, hth, rfl⟩ := Option.map_eq_some_iff.mp hw
    obtain ⟨x, hx⟩ := h tid th hth
    exact ⟨x.core, ledger_sess hx⟩
  · intro h tid th hth
    obtain ⟨y, hy⟩ := h tid th.worker (ledger_worker hth)
    obtain ⟨x, hx, -⟩ := Option.map_eq_some_iff.mp hy
    exact ⟨x, hx⟩

theorem busy_iff (hn : s.ledger.Numbered) {sid : Sid} :
    busy s sid = true ↔ ∃ tid th, s.threads tid = some th ∧ th.sess = sid := by
  unfold busy
  rw [List.any_eq_true]
  constructor
  · rintro ⟨tid, -, h⟩
    obtain ⟨th, hth, hs⟩ := (Option.any_eq_true _ _).mp h
    exact ⟨tid, th, hth, eq_of_beq hs⟩
  · rintro ⟨tid, th, hth, hs⟩
    refine ⟨tid, List.mem_range.mpr (hn.worker tid _ (ledger_worker hth)), ?_⟩
    rw [hth]
    simpa using hs

theorem spared_iff (hn : s.ledger.Numbered) : Spared c s l ↔
    ∀ sid, ends c s l = some sid → ∀ tid w, s.ledger.workers tid = some w → w.sess ≠ sid := by
  unfold Spared
  simp only [Option.mem_toList]
  refine forall_congr' fun sid => imp_congr_right fun _ => ?_
  rw [Bool.eq_false_iff, ne_eq, busy_iff hn]
  constructor
  · intro h tid w hw hs
    obtain ⟨th, hth, rfl⟩ := Option.map_eq_some_iff.mp hw
    exact h ⟨tid, th, hth, hs⟩
  · rintro h ⟨tid, th, hth, hs⟩
    exact h tid _ (ledger_worker hth) hs

/-- the step that ends a session with a transfer running frees it under the thread -/
theorem noneFreed_step (hn : s.ledger.Numbered) (hb : NoneFreed s) (hen : enabled s l)
    (he : exec c s l = .ok s') : NoneFreed s' ↔ Spared c s l := by
  obtain ⟨op, ho⟩ := exec_step hen he
  rw [spared_iff hn, noneFreed_iff, ← ho.endsEq]
  constructor
  · intro h sid hsid tid w hw hs
    obtain ⟨y, -, hL⟩ := ho.step.ended hsid
    obtain ⟨x, hx⟩ := h tid w (by rw [hL, Ledger.freed_workers, hw])
    rw [hL, hs, Ledger.freed_sess, if_pos rfl] at hx
    cases hx
  · exact ho.step.backed hn (noneFreed_iff.mp hb)

theorem noneFreed_reach (h : Reach c (Spared c) s) : NoneFreed s := by
  refine Runs.Reach.inv_with (J := fun s => s.ledger.Numbered) (I := NoneFreed)
    (fun s => numbered_reach) ?_ ?_ h
  · rintro s ⟨fds, -, rfl⟩ tid th ⟨⟩
  · rintro s l s' hn hb hc ⟨hen, he⟩
    exact (noneFreed_step hn hb hen he).mpr hc

/-- **No session is freed under a transfer** in a run that ends sessions only when none of their
transfers is running, and the first step that does otherwise frees one. -/
theorem threads_backed (h : Reach c (Spared c) s) : NoneFreed s ∧
    ∀ l s', enabled s l → exec c s l = .ok s' → (NoneFreed s' ↔ Spared c s l) :=
  ⟨noneFreed_reach h, fun _ _ hen he => noneFreed_step (numbered_reach h) (noneFreed_reach h) hen he⟩

/-- a login, PASV, a data connection and RETR -/
def retrRun : List Label :=
  connects ++ sends 5 "USER u" ++ sends 5 "PASS p" ++ sendsPasv 5 ++ dataConnects 7
    ++ sends 5 "RETR f"

/-- the transfer is running and its session is live -/
theorem threads_backed_retr : ∃ s, Reach sampleConf (Spared sampleConf) s ∧
    (∃ th, s.threads 0 = some th) ∧ NoneFreed s := by
  obtain ⟨s, hs, hp⟩ := reach_of_play (p := fun s => (s.threads 0).isSome)
    (sampleReach (Spared sampleConf))
    (show (play sampleConf (Spared sampleConf) sampleBoot retrRun).any _ = true by decide +kernel)
  exact ⟨s, hs, Option.isSome_iff_exists.mp hp, (threads_backed hs).1⟩

/-- QUIT while the transfer is running -/
theorem quit_under_transfer : ¬ ∀ c s, Reach c Runs.Any s → NoneFreed s := by
  intro h
  obtain ⟨s, hs, hp⟩ := reach_of_play
    (p := fun s => (s.threads 0).any fun th => (s.heap th.sess).isNone) (sampleReach Runs.Any)
    (show (play sampleConf Runs.Any sampleBoot (retrRun ++ sends 5 "QUIT")).any _ = true by
      decide +kernel)
  obtain ⟨th, hth, hn⟩ := (Option.any_eq_true _ _).mp hp
  obtain ⟨x, hx⟩ := h _ s hs 0 th hth
  rw [hx] at hn
  cases hn

end Myftpd
