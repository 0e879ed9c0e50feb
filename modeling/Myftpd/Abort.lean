import Myftpd.Answers
import Myftpd.Transfers

/-!
# ABOR

The flag that a transfer looks at is set in `handle_sigurg` only, which is never installed; the handler in
the table answers 225, whether there is a transfer or not.

* `StoppedFrom`    a transfer that is stopped, and the two replies that this takes;
* `AborAgrees`     what ABOR has to do;
* `abor_agrees_iff`  the states in which it does.
-/

namespace Myftpd
open CMem Server

/-- The transfer `tid` is stopped in `s`: however the run goes on, it does not leave its loop at the end of
its data, and when it has returned, 426 and then 226 have been sent to the session. -/
structure StoppedFrom (c : Conf) (s : Server) (tid : Tid) (sid : Sid) (fd : Fd) : Prop where
  stops : ∀ t th, Path c Runs.Any s t → t.threads tid = some th → th.pc.early = false → th.flag ≠ 0
  replies : ∀ t, Path c Runs.Any s t → t.threads tid = none → ∃ as bs m n text text',
    t.log = s.log ++ as ++ .reply sid fd m FTP_BADSENDNET text :: bs ∧
      .reply sid fd n FTP_ABOROK text' ∈ bs

/-- If ABOR is handled next, it is answered 225 only when the session has no transfer in progress, and a
transfer that is in progress is stopped. -/
def AborAgrees (c : Conf) (s : Server) : Prop :=
  ∀ env s' sid x, handles s (.command env) = some (sid, x, .abor) → exec c s (.command env) = .ok s' →
    (AnsweredWith FTP_ABOR_NOCONN s sid x s' → ∀ tid th, s.threads tid = some th → th.sess ≠ sid) ∧
    ∀ tid th, s.threads tid = some th → th.sess = sid → StoppedFrom c s' tid sid x.ctrlFd

section
variable {c : Conf} {s s' : Server} {env : Env} {sid : Sid} {x : Session}

theorem abor_answered (hh : handles s (.command env) = some (sid, x, .abor))
    (he : exec c s (.command env) = .ok s') : AnsweredWith FTP_ABOR_NOCONN s sid x s' := by
  obtain ⟨evs, -, -, hrun⟩ := exec_handles_ok hh he
  cases hrun
  exact (answeredWith_one rfl).mpr rfl

/-- **ABOR and the transfers agree** in a state unless ABOR is about to be handled while a transfer of the
session is in progress; and the flag that would stop a transfer is off in every session. -/
theorem abor_agrees_iff (hr : Reach c Runs.Any s) : (AborAgrees c s ↔
    ∀ env sid x, handles s (.command env) = some (sid, x, .abor) → busy s sid = false) ∧ NoAbor s := by
  have hn := numbered_reach hr
  refine ⟨⟨fun h env sid x hh => ?_, fun h env s' sid x hh he => ?_⟩, (fresh_reach hr).abor⟩
  · -- ABOR comes to its end when nothing breaks the pipe
    have hh' : handles s (.command { env with sigpipe := false }) = some (sid, x, .abor) := hh
    obtain ⟨evs, hm, -, hrun⟩ := exec_handles (c := c) hh'
    have hstep : exec c s (.command { env with sigpipe := false }) = .ok (doAbor sid x (s.goto (.events evs))) :=
      hrun.trans (piped_quiet rfl)
    obtain ⟨hidle, -⟩ := h _ _ sid x hh' hstep
    by_contra hb
    obtain ⟨tid, th, hth, hs⟩ := (busy_iff hn).mp (Bool.not_eq_false _ ▸ hb)
    exact hidle (abor_answered hh' hstep) tid th hth hs
  · have hidle : ∀ tid th, s.threads tid = some th → th.sess ≠ sid :=
      fun tid th hth => busy_of hn hth (h env sid x hh)
    exact ⟨fun _ => hidle, fun tid th hth hs => absurd hs (hidle tid th hth)⟩

end

/-- ABOR when nothing is being transferred -/
theorem abor_agrees_idle : ∃ s, Reach sampleConf Runs.Any s ∧
    (handles s (.command sampleEnv)).map (fun r => r.2.2) = some .abor ∧ AborAgrees sampleConf s := by
  obtain ⟨s, hs, hp⟩ := reach_of_play
    (p := fun s => (handles s (.command sampleEnv)).any fun r : Sid × Session × Cmd =>
      decide (r.2.2 = .abor) && !busy s r.1)
    (sampleReach Runs.Any)
    (show (play sampleConf Runs.Any sampleBoot (connects ++
      [.arrive 5 (ascii "ABOR" ++ [CR, LF]), .wait [input 5], .dispatch 0 sampleEnv])).any _ = true by
      decide +kernel)
  obtain ⟨⟨sid, x, h⟩, hh, hp⟩ := (Option.any_eq_true _ _).mp hp
  obtain ⟨ha, hb⟩ := Bool.and_eq_true_iff.mp hp
  refine ⟨s, hs, by rw [hh, Option.map_some, of_decide_eq_true ha], ?_⟩
  refine (abor_agrees_iff hs).1.mpr fun env sid' x' hh' => ?_
  cases hh.symm.trans hh'
  exact (Bool.not_eq_true' _).mp hb

/-- ABOR while a file is being sent -/
theorem abor_during_retr : ¬ ∀ c s, Reach c Runs.Any s → AborAgrees c s := by
  intro h
  obtain ⟨s, hs, hp⟩ := reach_of_play
    (p := fun s => (handles s (.command sampleEnv)).any fun r : Sid × Session × Cmd =>
      decide (r.2.2 = .abor) && (s.threads 0).any fun th => decide (th.sess = r.1))
    (sampleReach Runs.Any)
    (show (play sampleConf Runs.Any sampleBoot (retrRun ++
      [.arrive 5 (ascii "ABOR" ++ [CR, LF]), .wait [input 5], .dispatch 0 sampleEnv])).any _ = true by
      decide +kernel)
  obtain ⟨⟨sid, x, k⟩, hh, hp⟩ := (Option.any_eq_true _ _).mp hp
  obtain ⟨ha, hp⟩ := Bool.and_eq_true_iff.mp hp
  cases of_decide_eq_true ha
  obtain ⟨th, hth, hs'⟩ := (Option.any_eq_true _ _).mp hp
  obtain ⟨evs, -, -, hrun⟩ := exec_handles (c := sampleConf) hh
  have hstep : exec sampleConf s (.command sampleEnv) = .ok (doAbor sid x (s.goto (.events evs))) := hrun
  obtain ⟨hidle, -⟩ := h sampleConf s hs sampleEnv _ sid x hh hstep
  exact hidle (abor_answered hh hstep) 0 th hth (of_decide_eq_true hs')

end Myftpd
