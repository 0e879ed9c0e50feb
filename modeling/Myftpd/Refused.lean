import Myftpd.Answers
import Myftpd.Fields
import Myftpd.Paths

/-!
# ftpproto.cpp: what a refused command leaves as it was

The directory of a session, its transfer type and the name that waits for RNTO are written by the handlers of
PASS, CWD, TYPE, RNFR and RNTO.  `do_pass` writes the directory before it knows that there is one.

* `outcome`          the code of the final reply to a line;
* `KeepsRefused`     a step for a line that is refused leaves the three fields alone;
* `settles`          a handler that writes them answers with a code below 400;
* `refused_iff`      the runs in which refused lines change nothing.
-/

namespace Myftpd
open CMem Server

/-- the fields that a session has set up: directory, transfer type, name for RNTO -/
def Session.settings (x : Session) : Option Fd × Bool × Option (List UInt8) := (x.dirfd, x.isAscii, x.rnfrName)

/-- the line for which the step reads, handles or transfers, and its session -/
def serves (c : Conf) (s : Server) : Label → Option (Nat × Sid)
  | .dispatch now env => (reads c s (.dispatch now env)).map fun r => (s.cmdNo + 1, r.1)
  | .command _ =>
    match s.main with
    | .command sid _ => some (s.cmdNo, sid)
    | _ => none
  | .onward _ => s.main.inside.map fun sid => (s.cmdNo, sid)
  | .thread tid _ => (s.threads tid).map fun th => (th.cmd, th.sess)
  | _ => none

/-- the code of the final reply to line `n` -/
def outcome (log : List Act) (n : Nat) : Option Nat :=
  ((sent log).find? fun r => decide (r.cmd = n ∧ 200 ≤ r.code)).map Reply.code

/-- the final reply to the line is 4xx or 5xx -/
def Refused (log : List Act) (n : Nat) : Prop := ∃ code, outcome log n = some code ∧ 400 ≤ code ∧ code < 600

/-- A step for a line that is refused, in this step or later in a run by `ls`, leaves the session's settings. -/
def KeepsRefused (c : Conf) (s : Server) (l : Label) (s' : Server) (ls : List Label) : Prop :=
  ∀ t n sid, Runs.Trail (sys c) Runs.Any s' ls t → serves c s l = some (n, sid) → Refused t.log n →
    ∀ x, s.heap sid = some x → ∃ y, s'.heap sid = some y ∧ y.settings = x.settings

/-- The home directory can be opened, if this is a PASS with the right password in a session that has a directory
already. -/
def HomeOpens (c : Conf) (s : Server) : Label → Prop
  | .command env => ∀ p ∈ handles s (.command env), p.2.2 = .pass → passOk c p.2.1 = true → p.2.1.dirfd ≠ none →
      env.home ≠ none
  | _ => True

instance (c : Conf) (s : Server) : (l : Label) → Decidable (HomeOpens c s l)
  | .command env => inferInstanceAs (Decidable (∀ p ∈ handles s (.command env), p.2.2 = .pass →
      passOk c p.2.1 = true → p.2.1.dirfd ≠ none → env.home ≠ none))
  | .arrive _ _ | .hangup _ | .faults _ _ | .wait _ | .timeout | .waitErr _ | .evictOne _ | .dispatch _ _
  | .onward _ | .acceptOne _ | .acceptErr _ | .thread _ _ => isTrue trivial

section
variable {c : Conf} {env : Env} {now : Int} {sid : Sid} {x : Session} {s s' t : Server} {l : Label} {ls : List Label}
  {n code : Nat} {fd : Fd} {h : Cmd} {rs : List Reply}

/-! ## final replies -/

theorem outcome_stays (hs : sent s'.log = sent s.log ++ rs) (ho : outcome s.log n = some code) :
    outcome s'.log n = some code := by
  obtain ⟨r, hr, rfl⟩ := Option.map_eq_some_iff.mp ho
  unfold outcome
  rw [hs, List.find?_append, hr]
  rfl

theorem outcome_first (hs : sent s'.log = sent s.log ++ [⟨n, sid, fd, code⟩]) (hnew : ∀ r ∈ sent s.log, r.cmd ≠ n)
    (hc : 200 ≤ code) : outcome s'.log n = some code := by
  have hnone : (sent s.log).find? (fun r => decide (r.cmd = n ∧ 200 ≤ r.code)) = none :=
    List.find?_eq_none.mpr fun r hr hd => hnew r hr (of_decide_eq_true hd).1
  have hone : [(⟨n, sid, fd, code⟩ : Reply)].find? (fun r => decide (r.cmd = n ∧ 200 ≤ r.code)) =
      some ⟨n, sid, fd, code⟩ := List.find?_cons_of_pos (decide_eq_true ⟨rfl, hc⟩)
  unfold outcome
  rw [hs, List.find?_append, hnone, Option.none_or, hone]
  rfl

theorem sent_step (hf : Fresh s) (hs : Sends s s') : ∃ rs, sent s'.log = sent s.log ++ rs := by
  cases hs with
  | quiet he => exact ⟨_, he.sent⟩
  | command hm hx hs => exact ⟨_, hs.sent⟩
  | start hm hs => exact ⟨[], hs.sent.trans (List.append_nil _).symm⟩
  | @further sid cs hf => exact ⟨_, hf.sent ((s.heap sid).elim 0 Session.ctrlFd) fun x hx => by rw [hx]; rfl⟩
  | thread hth hs =>
    obtain ⟨fd, codes, hst⟩ := hf.thread hth hs
    obtain ⟨rs, o, h1, -⟩ := hst.cases
    exact ⟨rs, h1⟩

theorem sent_trail (hr : Reach c Runs.Any s) (h : Runs.Trail (sys c) Runs.Any s ls t) :
    ∃ rs, sent t.log = sent s.log ++ rs := by
  induction h with
  | nil => exact ⟨[], (List.append_nil _).symm⟩
  | cons _ hs _ ih =>
    obtain ⟨rs, h1⟩ := sent_step (fresh_reach hr) (exec_sends hs.1 hs.2)
    obtain ⟨qs, h2⟩ := ih (hr.step trivial hs)
    exact ⟨rs ++ qs, by rw [h2, h1, List.append_assoc]⟩

theorem not_refused (ho : outcome s.log n = some code) (hc : code < 400) (hs : sent t.log = sent s.log ++ rs) :
    ¬ Refused t.log n := by
  rintro ⟨code', ho', h4, -⟩
  rw [outcome_stays hs ho] at ho'
  cases ho'
  omega

/-! ## the handlers -/

/-- the entries accept the line `n` -/
def Accepts (sid : Sid) (n : Nat) (x : Session) (as : List Act) : Prop :=
  ∃ code, (200 ≤ code ∧ code < 400) ∧ sent as = [⟨n, sid, x.ctrlFd, code⟩]

theorem accepts_reply {text : List UInt8} (hc : 200 ≤ code ∧ code < 400) : Accepts sid n x (replied sid n x code text) :=
  ⟨code, hc, rfl⟩

/-- **A handler that writes the settings accepts the line**, except for a PASS that cannot open the home directory. -/
theorem settles (hh : h = .pass → passOk c x = true → x.dirfd ≠ none → env.home ≠ none) :
    (h.record c env x fd).settings = x.settings ∨ Accepts sid n x (h.logs c env sid n x) := by
  cases h with
  | pass =>
    unfold Cmd.record Cmd.logs
    cases hp : passOk c x with
    | false => exact Or.inl rfl
    | true =>
      cases ho : env.home with
      | some k => exact Or.inr (accepts_reply (by decide))
      | none =>
        cases hd : x.dirfd with
        | some fd => exact absurd ho (hh rfl hp (by rw [hd]; exact Option.some_ne_none fd))
        | none =>
          left
          unfold Session.settings
          rw [hd]
          rfl
  | cwd =>
    unfold Cmd.record Cmd.logs
    cases openatOk x.dirfd x.arg env.openat with
    | none => exact Or.inl rfl
    | some k => exact Or.inr ⟨FTP_CWDOK, by decide, rfl⟩
  | type =>
    unfold Cmd.record Cmd.logs
    by_cases hA : x.arg = ascii "A"
    · simp only [if_pos hA]
      exact Or.inr (accepts_reply (by decide))
    · by_cases hI : x.arg = ascii "I"
      · simp only [if_neg hA, if_pos hI]
        exact Or.inr (accepts_reply (by decide))
      · simp only [if_neg hA, if_neg hI]
        exact Or.inl trivial
  | rnfr => exact Or.inr (accepts_reply (by decide))
  | rnto =>
    unfold Cmd.record Cmd.logs
    cases ho : x.rnfrName with
    | none =>
      left
      unfold Session.settings
      rw [ho]
    | some old =>
      refine Or.inr ⟨FTP_RENAMEOK, by decide, ?_⟩
      cases env.rename <;> rfl
  | user =>
    left
    show (Option.elim (c.getpwnam x.arg) x fun pw => { x with uid := pw.uid }).settings = _
    cases c.getpwnam x.arg with
    | none => rfl
    | some pw => rfl
  | list =>
    left
    unfold Cmd.record
    dsimp only
    split
    · rfl
    · rfl
  | _ => exact Or.inl rfl

theorem quit_accepted : Accepts sid n x (Cmd.quit.logs c env sid n x) := accepts_reply (by decide)

/-! ## the steps -/

/-- reading a line, accepting a connection and transferring leave the settings alone -/
theorem settings_kept (hl : ∀ env, l ≠ .command env) : (rewritten c s l sid x).settings = x.settings := by
  refine rewritten_field Session.settings hl (fun _ _ => rfl) (fun _ => rfl) fun pc => ?_
  cases pc <;> rfl

theorem readsFrom_some {p : FdType × Sid} (h : readsFrom c s (.dispatch now env) = some p) : ∃ ev evs f,
    s.main = .events (ev :: evs) ∧ s.sessinfo ev.fd = ⟨some f, some p.2⟩ ∧ f.fd ≠ c.listenfd ∧ ev.epollin = true ∧
      f.type = p.1 := by
  unfold readsFrom at h
  dsimp only at h
  split at h
  · rename_i ev evs hm
    split at h
    · rename_i f sid hi
      split at h
      · rename_i hl
        cases h
        exact ⟨ev, evs, f, hm, hi, hl.1, hl.2, rfl⟩
      · cases h
    · cases h
  · cases h

theorem reads_stays {r : Sid × List UInt8 × List UInt8} (h : reads c s l = some r) : ends c s l ≠ some r.1 := by
  cases l with
  | dispatch now env =>
    unfold reads at h
    split at h
    · rename_i sid hfrom
      obtain ⟨ev, evs, f, hm, hi, hl, h1, ht⟩ := readsFrom_some hfrom
      obtain ⟨x, hx, h⟩ := Option.bind_eq_some_iff.mp h
      rw [ends_dispatch hm, eventEnds_ctrl hi hl h1 ht hx]
      split at h
      · rename_i hk
        rw [hk]
        exact nofun
      · cases h
    · cases h
  | _ => cases h

theorem command_keeps {evs : List Event} (hr : Reach c Runs.Any s) (hm : s.main = .command sid evs)
    (he : exec c s (.command env) = .ok s') (hc : HomeOpens c s (.command env)) (hx : s.heap sid = some x) :
    (∃ y, s'.heap sid = some y ∧ y.settings = x.settings) ∨ ∃ code, code < 400 ∧ outcome s'.log s.cmdNo = some code := by
  replace he := exec_command_ok hm he
  have haccept : ∀ {h : Cmd}, runCmd c env sid x (s.goto (.events evs)) h = .ok s' →
      Accepts sid s.cmdNo x (h.logs c env sid s.cmdNo x) → ∃ code, code < 400 ∧ outcome s'.log s.cmdNo = some code := by
    rintro h hrun ⟨code, ⟨h2, h4⟩, hs⟩
    have hsent : sent s'.log = sent s.log ++ [⟨s.cmdNo, sid, x.ctrlFd, code⟩] := by
      rw [← hs, runCmd_log (s := s.goto (.events evs)) hx hrun]
      exact List.filterMap_append
    exact ⟨code, h4, outcome_first hsent (fun r hr' e => past_ne ((fresh_reach hr).sent r hr') hm e.symm) h2⟩
  obtain ⟨z, hz, ⟨-, code, text, -, rfl⟩ | ⟨h, hh, hrun⟩⟩ := handleCmd_cases he
  · exact Or.inl ⟨x, hx, rfl⟩
  · cases hx.symm.trans hz
    by_cases hq : h = .quit
    · subst hq
      exact Or.inr (haccept hrun quit_accepted)
    · have hrec := runCmd_record hz hq hrun
      refine (settles (fun hp => ?_)).imp (fun hset => ⟨_, hrec, hset⟩) (haccept hrun)
      exact hc _ (handles_some hm hx hh) hp

/-- **One step** for a line that is refused leaves the settings, where the home directory can be opened. -/
theorem keeps_of_home (hr : Reach c Runs.Any s) (hs : (sys c).step l s s') (hc : HomeOpens c s l) :
    KeepsRefused c s l s' ls := by
  intro t n sid htr hserve href x hx
  have hn := numbered_reach hr
  obtain ⟨hen, he⟩ := hs
  obtain ⟨rs, hsent⟩ := sent_trail (hr.step trivial ⟨hen, he⟩) htr
  cases l with
  | dispatch now env =>
    obtain ⟨r, hread, e⟩ := Option.map_eq_some_iff.mp hserve
    cases e
    exact ⟨_, exec_stays hn hen he hx (reads_stays hread), settings_kept fun _ => nofun⟩
  | thread tid env =>
    obtain ⟨th, hth, e⟩ := Option.map_eq_some_iff.mp hserve
    cases e
    exact ⟨_, exec_stays hn hen he hx nofun, settings_kept fun _ => nofun⟩
  | command env =>
    obtain ⟨sid', evs, hm⟩ := hen
    unfold serves at hserve
    simp only [hm, Option.some.injEq, Prod.mk.injEq] at hserve
    obtain ⟨rfl, rfl⟩ := hserve
    rcases command_keeps hr hm he hc hx with h | ⟨code, h4, ho⟩
    · exact h
    · exact absurd href (not_refused ho h4 hsent)
  | onward b => exact ⟨x, (handlerStep_cases hen he).heap.symm ▸ hx, rfl⟩
  | _ => cases hserve

/-- the PASS that takes the directory away is refused -/
theorem home_of_keeps (hr : Reach c Runs.Any s) (hs : (sys c).step l s s') (htr : Runs.Trail (sys c) Runs.Any s' ls t)
    (hk : KeepsRefused c s l s' ls) : HomeOpens c s l := by
  cases l with
  | command env =>
    rintro ⟨sid, x, h⟩ hh rfl hp hd hhome
    obtain ⟨evs, hm, hx, hrun⟩ := exec_handles_ok hh hs.2
    have hpass : s' = answer sid x ((s.goto (.events evs)).put sid { x with dirfd := none }) FTP_LOGINERR
        "Login incorrect." := by
      change doPass c env sid x _ = _ at hrun
      unfold doPass at hrun
      split at hrun
      · cases hrun
      · rw [hhome] at hrun
        exact (Except.ok.inj hrun).symm
    have hsaid : sent s'.log = sent s.log ++ [⟨s.cmdNo, sid, x.ctrlFd, FTP_LOGINERR⟩] := by
      rw [hpass]
      exact List.filterMap_append
    have ho : outcome s'.log s.cmdNo = some FTP_LOGINERR :=
      outcome_first hsaid (fun r hr' e => past_ne ((fresh_reach hr).sent r hr') hm e.symm) (by decide)
    obtain ⟨rs, hsent⟩ := sent_trail (hr.step trivial hs) htr
    have hserve : serves c s (.command env) = some (s.cmdNo, sid) := by
      unfold serves
      simp only [hm]
    obtain ⟨y, hy, hset⟩ := hk t s.cmdNo sid htr hserve ⟨_, outcome_stays hsent ho, by decide⟩ x hx
    rw [hpass] at hy
    cases hy.symm.trans (put_self _)
    exact hd (congrArg Prod.fst hset).symm
  | _ => trivial

/-- **Refused lines change nothing**, in a run in which no session that has a directory gives the right password
while its home directory cannot be opened; and in no other run. -/
theorem refused_iff (hr : Reach c Runs.Any s) (h : Runs.Trail (sys c) Runs.Any s ls t) :
    Runs.Each (sys c) (KeepsRefused c) s ls ↔ Runs.Trail (sys c) (HomeOpens c) s ls t :=
  h.each_iff (I := Reach c Runs.Any) (C := HomeOpens c) (P := KeepsRefused c) step_det (fun _ _ _ hi hs => hi.step trivial hs)
    (fun _ _ _ _ _ hi hs htr => ⟨home_of_keeps hi hs htr, keeps_of_home hi hs⟩) hr

end

/-- a login, and the same password again when the home directory has gone -/
def secondPass : List Label :=
  connects ++ sends 5 "USER u" ++ sends 5 "PASS p" ++
    [.arrive 5 (ascii "PASS p" ++ [CR, LF]), .wait [input 5], .dispatch 0 sampleEnv]

/-- a login, TYPE with an unknown type, and a RNTO that comes too soon -/
theorem refused_type : ∃ t, Runs.Trail (sys sampleConf) Runs.Any sampleBoot
      (connects ++ sends 5 "USER u" ++ sends 5 "PASS p" ++ sends 5 "TYPE X" ++ sends 5 "RNTO b") t ∧
    Refused t.log 3 ∧ Refused t.log 4 ∧ Runs.Each (sys sampleConf) (KeepsRefused sampleConf) sampleBoot
      (connects ++ sends 5 "USER u" ++ sends 5 "PASS p" ++ sends 5 "TYPE X" ++ sends 5 "RNTO b") := by
  obtain ⟨t, ht, hp⟩ := (Option.any_eq_true _ _).mp (by decide +kernel :
    (play sampleConf (HomeOpens sampleConf) sampleBoot
      (connects ++ sends 5 "USER u" ++ sends 5 "PASS p" ++ sends 5 "TYPE X" ++ sends 5 "RNTO b")).any
      (fun t => decide (outcome t.log 3 = some FTP_BADCMD ∧ outcome t.log 4 = some FTP_NEEDRNFR)) = true)
  obtain ⟨h3, h4⟩ := of_decide_eq_true hp
  have htr := play_trail ht
  have hall := htr.weaken (D := Runs.Any) fun _ _ _ => trivial
  exact ⟨t, hall, ⟨_, h3, by decide⟩, ⟨_, h4, by decide⟩, (refused_iff (sampleReach Runs.Any) hall).mpr htr⟩

/-- **The second PASS** is answered 530, and the session has lost its directory. -/
theorem pass_loses_directory : ¬ ∀ c s t ls, Reach c Runs.Any s → Runs.Trail (sys c) Runs.Any s ls t →
    Runs.Each (sys c) (KeepsRefused c) s ls := by
  intro h
  obtain ⟨m, hm, hp⟩ := (Option.any_eq_true _ _).mp (by decide +kernel :
    (play sampleConf Runs.Any sampleBoot secondPass).any (fun m =>
      (handles m (.command { sampleEnv with home := none })).any (fun p => decide (p.2.2 = .pass) &&
        passOk sampleConf p.2.1 && decide (p.2.1.dirfd ≠ none)) &&
      (exec sampleConf m (.command { sampleEnv with home := none })).toOption.any fun _ =>
        decide (enabled m (.command { sampleEnv with home := none }))) = true)
  obtain ⟨h1, h2⟩ := Bool.and_eq_true_iff.mp hp
  obtain ⟨p, hh, h1⟩ := (Option.any_eq_true _ _).mp h1
  simp only [Bool.and_eq_true, decide_eq_true_eq] at h1
  obtain ⟨r, he, h2⟩ := (Option.any_eq_true _ _).mp h2
  have hs : (sys sampleConf).step (.command { sampleEnv with home := none }) m r :=
    ⟨of_decide_eq_true h2, ok_of_toOption he⟩
  have htr := play_trail hm
  have hr := htr.reach (D := Runs.Any) (fun _ _ _ => trivial) (sampleReach Runs.Any)
  have hkeep := h sampleConf sampleBoot r (secondPass ++ [.command { sampleEnv with home := none }])
    (sampleReach Runs.Any) (htr.append (.cons trivial hs .nil)) secondPass _ [] m r rfl htr hs
  exact home_of_keeps hr hs .nil hkeep p hh h1.1.1 h1.1.2 h1.2 rfl

end Myftpd
