import Myftpd.Fields

/-!
# ftpproto.cpp: what STAT reports

The rates that STAT reports are fields of the session.  `main` puts the configured ones into a session of its own, and
no other place writes them.

* `Session.stamp`  the fields that a record gets from `handleNewConn`;
* `stamp_kept`     a session has them for its whole life;
* `stat_told`      STAT answers that there is no limit, in every run.
-/

namespace Myftpd
open CMem Server

/-- the control connection, the two counts at its start, and the two rates -/
def Session.stamp (x : Session) : Fd × Nat × Nat × Nat × Nat :=
  (x.ctrlFd, x.numClients, x.numThisIp, x.bwUploadRateMax, x.bwDownloadRateMax)

section
variable {c : Conf} {env : Env} {s s' t : Server} {l : Label} {sid j : Sid} {x y : Session} {fd : Fd} {h : Cmd}

theorem record_stamp : (h.record c env x fd).stamp = x.stamp := by
  have hw : h.Writes x fd (h.record c env x fd) := record_writes
  generalize h.record c env x fd = y at hw
  cases hw <;> rfl

theorem rewritten_stamp : (rewritten c s l j x).stamp = x.stamp := by
  cases l with
  | dispatch now env =>
    unfold rewritten
    dsimp only
    split
    · split <;> rfl
    · split <;> rfl
  | command env =>
    unfold rewritten
    dsimp only
    split
    · split
      · exact record_stamp
      · rfl
    · rfl
  | thread tid env =>
    unfold rewritten
    dsimp only
    split
    · rename_i th _
      split
      · cases th.pc <;> rfl
      · rfl
    · rfl
  | _ => rfl

/-- **One step** of a session that has been there before. -/
theorem stamp_step (hn : s.ledger.Numbered) (hen : enabled s l) (he : exec c s l = .ok s') (hj : j < s.nextSid)
    (hy : s'.heap j = some y) : ∃ x, s.heap j = some x ∧ y.stamp = x.stamp := by
  obtain ⟨-, ⟨e, -⟩ | ⟨-, x, hx, rfl⟩⟩ := exec_record hn hen he hy
  · exact absurd e hj.ne
  · exact ⟨x, hx, rewritten_stamp⟩

/-- **A session keeps its stamp** for its whole life, and a record that is gone does not come back. -/
theorem stamp_kept {C D : Server → Label → Prop} (hr : Reach c C s) (h : Runs.Path (sys c) D s t)
    (hj : j < s.nextSid) (hy : t.heap j = some y) : ∃ x, s.heap j = some x ∧ y.stamp = x.stamp := by
  have hrun : t.ledger.Numbered ∧ j < t.nextSid ∧
      ∀ y, t.heap j = some y → ∃ x, s.heap j = some x ∧ y.stamp = x.stamp := by
    refine Runs.Path.inv (I := fun t => t.ledger.Numbered ∧ j < t.nextSid ∧ ∀ y, t.heap j = some y →
      ∃ x, s.heap j = some x ∧ y.stamp = x.stamp) ?_ h ⟨numbered_reach hr, hj, fun y hy => ⟨y, hy, rfl⟩⟩
    rintro t l t' ⟨hn, hlt, hi⟩ - ⟨hen, he⟩
    obtain ⟨op, ho⟩ := exec_step hen he
    refine ⟨ho.step.numbered hn, hlt.trans_le ho.step.nextSid_le, fun y hy => ?_⟩
    obtain ⟨z, hz, e⟩ := stamp_step hn hen he hlt hy
    obtain ⟨x, hx, e'⟩ := hi z hz
    exact ⟨x, hx, e.trans e'⟩
  exact hrun.2.2 y hy

/-- a session before and after a NOOP -/
theorem stamp_kept_noop : ∃ (t : Server) (x y : Session), t.heap 0 = some y ∧ y.stamp = x.stamp := by
  obtain ⟨s, hs, hp⟩ := reach_of_play (p := fun s => decide (0 < s.nextSid) && (play sampleConf Runs.Any s
      (sends 5 "NOOP")).any fun t : Server => (t.heap 0).isSome)
    (sampleReach Runs.Any) (show (play sampleConf Runs.Any sampleBoot connects).any _ = true by decide +kernel)
  rw [Bool.and_eq_true, decide_eq_true_eq] at hp
  obtain ⟨t, ht, hy⟩ := (Option.any_eq_true _ _).mp hp.2
  obtain ⟨y, hy⟩ := Option.isSome_iff_exists.mp hy
  obtain ⟨x, -, e⟩ := stamp_kept hs (play_trail ht).path hp.1 hy
  exact ⟨t, x, y, hy, e⟩

/-! ## STAT -/

/-- no session has a rate -/
def Unlimited (s : Server) : Prop := ∀ j x, s.heap j = some x → x.bwUploadRateMax = 0 ∧ x.bwDownloadRateMax = 0

theorem unlimited_reach {C : Server → Label → Prop} (h : Reach c C s) : Unlimited s := by
  refine Runs.Reach.inv_with (I := Unlimited) (fun s hs => numbered_reach hs) ?_ ?_ h
  · rintro s ⟨fds, -, rfl⟩
    exact nofun
  · rintro s l s' hn hi - ⟨hen, he⟩ j y hy
    obtain ⟨-, ⟨-, h⟩ | ⟨-, x, hx, rfl⟩⟩ := exec_record hn hen he hy
    · obtain ⟨ip, -, rfl⟩ := Option.map_eq_some_iff.mp h
      exact ⟨rfl, rfl⟩
    · have hstamp : (rewritten c s l j x).stamp = x.stamp := rewritten_stamp
      obtain ⟨h1, h2⟩ := hi j x hx
      have hpair := (congrArg (fun q => q.2.2.2) hstamp : (_, _) = (_, _))
      obtain ⟨e1, e2⟩ := Prod.mk.inj hpair
      exact ⟨e1.trans h1, e2.trans h2⟩

/-- **STAT**, to a client that is there, goes through, changes nothing but the log, and says the same in every run:
there is no limit. -/
theorem stat_told {C : Server → Label → Prop} (hr : Reach c C s)
    (hh : handles s (.command env) = some (sid, x, .stat)) (hp : env.sigpipe = false) :
    Runs.Trail (sys c) Runs.Any s (.command env :: goesOn 4)
      { s with
        main := .events s.main.pending
        log := s.log ++ [.lreply sid x.ctrlFd (some s.cmdNo) FTP_STATOK (ascii "FTP server status:"),
          .raw sid x.ctrlFd (ascii "     No session upload bandwidth limit\r\n"),
          .raw sid x.ctrlFd (ascii "     No session download bandwidth limit\r\n"),
          .reply sid x.ctrlFd (some s.cmdNo) FTP_STATOK (ascii "End of status")] } := by
  obtain ⟨evs, hm, hx, hrun⟩ := exec_handles (c := c) hh
  obtain ⟨h1, h2⟩ := unlimited_reach hr sid x hx
  have hlines : statLines x = [ascii "     No session upload bandwidth limit\r\n",
      ascii "     No session download bandwidth limit\r\n"] := by
    unfold statLines
    rw [if_pos h1, if_pos h2]
    rfl
  rw [piped_quiet hp] at hrun
  have hmain : (doStat sid x (s.goto (.events evs))).main = .reply sid _ evs := rfl
  have hrec : (doStat sid x (s.goto (.events evs))).heap sid = some x := hx
  have hrest := writes_trail (c := c) hrec hmain
  rw [hlines] at hrest
  have hen : enabled s (.command env) := ⟨sid, evs, hm⟩
  have hall := Runs.Trail.cons (T := sys c) (C := Runs.Any) trivial ⟨hen, hrun⟩ hrest
  rw [hm]
  have hlog : (doStat sid x (s.goto (.events evs))).log =
      s.log ++ [.lreply sid x.ctrlFd (some s.cmdNo) FTP_STATOK (ascii "FTP server status:")] := rfl
  rw [hlog, List.append_assoc] at hall
  exact hall

end

theorem stat_told_run : ∃ s s' : Server, Runs.Trail (sys sampleConf) Runs.Any s (.command sampleEnv :: goesOn 4) s' ∧
    s'.log.length = s.log.length + 4 := by
  obtain ⟨s, hs, hp⟩ := reach_of_play
    (p := fun s => (handles s (.command sampleEnv)).any fun r : Sid × Session × Cmd => decide (r.2.2 = .stat))
    (sampleReach Runs.Any) (show (play sampleConf Runs.Any sampleBoot (connects ++ [.arrive 5 (ascii "STAT" ++ [CR, LF]), .wait [input 5],
      .dispatch 0 sampleEnv])).any _ = true by decide +kernel)
  obtain ⟨⟨sid, x, h⟩, hr, hstat⟩ := (Option.any_eq_true _ _).mp hp
  obtain rfl : h = .stat := of_decide_eq_true hstat
  refine ⟨s, _, stat_told hs hr rfl, ?_⟩
  rw [List.length_append]
  rfl

end Myftpd
