import Myftpd.Refine.Outcome

/-!
# The command step and the ledger
-/

namespace Myftpd
open CMem Server

section
variable {c : Conf} {env : Env} {sid : Sid} {x : Session} {s s' : Server} {evs : List Event} {h : Cmd}

theorem handles_some (hm : s.main = .command sid evs) (hx : s.heap sid = some x)
    (hh : handlerOf x = some h) : handles s (.command env) = some (sid, x, h) := by
  unfold handles
  simp only [hm, hx, Option.bind_some, hh, Option.map_some]

theorem handles_none (hm : s.main = .command sid evs) (hx : s.heap sid = some x)
    (hh : handlerOf x = none) : handles s (.command env) = none := by
  unfold handles
  simp only [hm, hx, Option.bind_some, hh, Option.map_none]

theorem exec_handles (hh : handles s (.command env) = some (sid, x, h)) :
    ∃ evs, s.main = .command sid evs ∧ s.heap sid = some x ∧
      exec c s (.command env) = piped env s (runCmd c env sid x (s.goto (.events evs)) h) := by
  unfold handles at hh
  dsimp only at hh
  split at hh
  · rename_i j evs hm
    obtain ⟨y, hy, e⟩ := Option.bind_eq_some_iff.mp hh
    obtain ⟨k, hk, e⟩ := Option.map_eq_some_iff.mp e
    cases e
    refine ⟨evs, hm, hy, ?_⟩
    have hl : lookupCmd x.cmd = some (some h) := Option.join_eq_some_iff.mp hk
    rw [exec_command hm]
    unfold handleCmd
    simp only [show (s.goto (.events evs)).heap sid = some x from hy, hl]
  · cases hh

theorem exec_handles_ok (hh : handles s (.command env) = some (sid, x, h))
    (he : exec c s (.command env) = .ok s') : ∃ evs, s.main = .command sid evs ∧ s.heap sid = some x ∧
      runCmd c env sid x (s.goto (.events evs)) h = .ok s' := by
  obtain ⟨evs, hm, hx, e⟩ := exec_handles hh
  rw [e] at he
  exact ⟨evs, hm, hx, piped_ok he⟩

theorem ends_command (hh : handles s (.command env) = some (sid, x, h)) :
    ends c s (.command env) = if h = .quit then some sid else none := by
  unfold ends
  simp only [hh]
  cases h <;> rfl

theorem closes_command (hh : handles s (.command env) = some (sid, x, h)) (hq : h ≠ .quit) :
    closes c s (.command env) = cmdCloses x env h := by
  unfold closes
  rw [ends_command hh, if_neg hq]
  simp only [hh]

theorem drops_command (hh : handles s (.command env) = some (sid, x, h)) :
    drops s (.command env) = cmdDrops sid x h := by
  unfold drops
  simp only [hh]

theorem Outcome.stay {l : Label} {m : Main} (hs : Same (s.goto m) s') (he : ends c s l = none)
    (hc : closes c s l = []) (hd : drops s l = none) (hp : ∀ ev ∈ m.pending, ev ∈ waiting s l)
    (hk : ∀ sid, m.serves = some sid → s.main.serves = some sid) :
    Outcome c s l s' .stay where
  step := by rw [hs.ledger]; exact Ledger.Step.stay
  endsEq := he.symm
  notEvict := nofun
  closesEq := hc.symm
  dropsEq := hd.symm
  tl := Or.inl hs.tl
  pending := Or.inr fun ev hev => hp ev (by rwa [hs.main] at hev)
  handling := fun sid e => Or.inl ⟨hk sid (by rwa [hs.main] at e), rfl⟩
  stage := nofun

/-- where a handler leaves the main loop, its session is the one that is served -/
theorem Main.Leaves.serves {m m' : Main} {j : Sid} (h : m.Leaves sid m') (hm : m.serves = none)
    (hj : m'.serves = some j) : j = sid := by
  cases h with
  | returned => rw [hm] at hj; cases hj
  | writes ws => exact (Option.some.inj hj).symm
  | listens text => exact (Option.some.inj hj).symm

theorem Outcome.command {op : Op} (hm : s.main = .command sid evs) (hx : s.heap sid = some x)
    (hh : handlerOf x = some h) (hq : h ≠ .quit)
    (hy : Yields sid (h.yield c env sid x (s.goto (.events evs))) (s.goto (.events evs)) s')
    (hstep : s.ledger.Step op s'.ledger) (hends : op.ends = none)
    (hcl : op.closes s.ledger = cmdCloses x env h) (hd : op.drops s.ledger = cmdDrops sid x h)
    (hop : TlAfter s s.tl op) (hst : op.stage = none) : Outcome c s (.command env) s' op where
  step := hstep
  endsEq := by rw [ends_command (handles_some hm hx hh), if_neg hq, hends]
  notEvict := by
    rintro j rfl
    cases hends
  closesEq := by rw [closes_command (handles_some hm hx hh) hq, hcl]
  dropsEq := by rw [drops_command (handles_some hm hx hh), hd]
  tl := by rw [hy.tl]; exact hop
  pending := Or.inr fun ev hev => by
    rw [hy.leaves.pending] at hev
    unfold waiting
    rw [hm]
    exact hev
  handling := by
    intro j hj
    obtain rfl := hy.leaves.serves rfl hj
    exact Or.inr ⟨_, by rw [hy.heap, Function.update_self]⟩
  stage := by rw [hst]; exact nofun

theorem pass_step (hm : s.main = .command sid evs) (hx : s.heap sid = some x)
    (hh : handlerOf x = some .pass) (he : doPass c env sid x (s.goto (.events evs)) = .ok s') :
    ∃ op, Outcome c s (.command env) s' op := by
  have hy := doPass_yields (s := s.goto (.events evs)) hx he
  have hl := hy.ledger_eq rfl
  by_cases hp : passOk c x = true
  · cases hk : env.home with
    | none =>
      refine ⟨.noDir sid, .command hm hx hh (by decide) hy ?_ rfl rfl rfl (Or.inl rfl) rfl⟩
      rw [hl]
      simp only [Cmd.yield, Cmd.opens, Cmd.record, if_pos hp, hk, Option.map_none]
      rw [put_ledger]
      exact Ledger.Step.noDir (ledger_sess hx)
    | some k =>
      refine ⟨.pass sid s.fds.lowest, .command hm hx hh (by decide) hy ?_ rfl rfl rfl (Or.inl rfl) rfl⟩
      rw [hl]
      simp only [Cmd.yield, Cmd.opens, Cmd.record, if_pos hp, hk, Option.map_some]
      rw [put_ledger]
      exact Ledger.Step.pass (k := k) (ledger_sess hx) lowest_free
  · refine ⟨.stay, .command hm hx hh (by decide) hy ?_ rfl rfl rfl (Or.inl rfl) rfl⟩
    rw [hy.ledger hx (congrArg Session.core (if_neg hp)) rfl (if_neg hp) rfl]
    exact Ledger.Step.stay

theorem cwd_step (hm : s.main = .command sid evs) (hx : s.heap sid = some x)
    (hh : handlerOf x = some .cwd) (he : s' = doCwd env sid x (s.goto (.events evs))) :
    ∃ op, Outcome c s (.command env) s' op := by
  subst he
  have hy : Yields sid (Cmd.cwd.yield c env sid x (s.goto (.events evs))) (s.goto (.events evs))
      (doCwd env sid x (s.goto (.events evs))) := doCwd_yields hx
  have hl := hy.ledger_eq rfl
  cases ho : openatOk x.dirfd x.arg env.openat with
  | none =>
    have hno : ¬ (openatOk x.dirfd x.arg env.openat).isSome = true := by rw [ho]; exact Bool.false_ne_true
    have hcl : cmdCloses x env .cwd = [] := if_neg hno
    refine ⟨.stay, .command hm hx hh (by decide) hy ?_ rfl hcl.symm rfl (Or.inl rfl) rfl⟩
    rw [hy.ledger hx (congrArg Session.core (if_neg hno)) rfl (by simp only [Cmd.yield, Cmd.opens, ho, Option.map_none])
      hcl]
    exact Ledger.Step.stay
  | some k =>
    have hyes : (openatOk x.dirfd x.arg env.openat).isSome = true := by rw [ho]; rfl
    have hcl : cmdCloses x env .cwd = x.dirfd.toList := if_pos hyes
    refine ⟨.cwd sid s.fds.lowest, .command hm hx hh (by decide) hy ?_ rfl ?_ rfl (Or.inl rfl) rfl⟩
    · rw [hl]
      simp only [Cmd.yield, Cmd.opens, Cmd.record, ho, Option.map_some, hcl, closeAll_toList]
      rw [put_ledger, closeOpt_ledger]
      exact Ledger.Step.cwd (k := k) (ledger_sess hx) lowest_free
    · rw [hcl]
      show (s.ledger.sess sid).elim [] _ = _
      rw [ledger_sess hx]
      rfl

theorem pasv_step (hm : s.main = .command sid evs) (hx : s.heap sid = some x)
    (hh : handlerOf x = some .pasv) (he : doPasv env sid x (s.goto (.events evs)) = .ok s') :
    ∃ op, Outcome c s (.command env) s' op := by
  have hy := doPasv_yields (c := c) (s := s.goto (.events evs)) hx he
  refine ⟨.pasv sid s.fds.lowest, .command hm hx hh (by decide) hy ?_ rfl rfl ?_ (Or.inl rfl) rfl⟩
  · rw [hy.ledger_eq rfl]
    show s.ledger.Step _ (Server.put ((s.goto (.events evs)).opened (some (.pasv sid))) sid _).ledger
    rw [put_ledger]
    exact Ledger.Step.pasv (ledger_sess hx) lowest_free
  · show (s.ledger.sess sid).bind _ = _
    rw [ledger_sess hx]
    rfl

theorem list_step (hm : s.main = .command sid evs) (hx : s.heap sid = some x)
    (hh : handlerOf x = some .list) (he : doList env sid x (s.goto (.events evs)) = .ok s') :
    ∃ op, Outcome c s (.command env) s' op := by
  have hy := doList_yields (c := c) (s := s.goto (.events evs)) hx he
  by_cases h0 : getPasvDataFd x = 0
  · have hcl : cmdCloses x env .list = [] := if_pos h0
    refine ⟨.stay, .command hm hx hh (by decide) hy ?_ rfl hcl.symm rfl (Or.inl rfl) rfl⟩
    rw [hy.ledger hx (congrArg Session.core (if_pos h0)) rfl rfl hcl]
    exact Ledger.Step.stay
  · have hcl : cmdCloses x env .list = x.dataFd.toList ++ x.pasvListenFd.toList := if_neg h0
    refine ⟨.list sid, .command hm hx hh (by decide) hy ?_ rfl ?_ rfl (Or.inl rfl) rfl⟩
    · rw [hy.ledger_eq rfl]
      simp only [Cmd.yield, Cmd.opens, Cmd.record, if_neg h0, hcl, closeAll_append, closeAll_toList]
      rw [put_ledger, closeOpt_ledger, closeOpt_ledger]
      exact Ledger.Step.list (ledger_sess hx)
    · rw [hcl]
      show (s.ledger.sess sid).elim [] _ = _
      rw [ledger_sess hx]
      rfl

theorem start_step (hm : s.main = .command sid evs) (hx : s.heap sid = some x)
    (hh : handlerOf x = some h) (hq : h = .retr ∨ h = .stor)
    (hy : Yields sid (h.yield c env sid x (s.goto (.events evs))) (s.goto (.events evs)) s') :
    ∃ op, Outcome c s (.command env) s' op := by
  have hne : h ≠ .quit ∧ cmdCloses x env h = [] ∧ cmdDrops sid x h = none ∧ h.record c env x s.fds.lowest = x ∧
      h.opens c env sid x = none := by
    rcases hq with rfl | rfl <;> exact ⟨by decide, rfl, rfl, rfl, rfl⟩
  obtain ⟨hne, hcl, hdr, hrec, hop⟩ := hne
  cases hk : h.starts env x with
  | none =>
    refine ⟨.stay, .command hm hx hh hne hy ?_ rfl hcl.symm hdr.symm (Or.inl rfl) rfl⟩
    rw [hy.ledger hx (congrArg Session.core hrec) hk hop hcl]
    exact Ledger.Step.stay
  | some k =>
    refine ⟨.start sid, .command hm hx hh hne hy ?_ rfl hcl.symm hdr.symm (Or.inl rfl) rfl⟩
    rw [hy.ledger_started hx (congrArg Session.core hrec) hk hop hcl]
    exact Ledger.Step.start (ledger_sess hx)

theorem quit_step (hm : s.main = .command sid evs) (hx : s.heap sid = some x)
    (hh : handlerOf x = some .quit) (he : doQuit sid x (s.goto (.events evs)) = .ok s') :
    ∃ op, Outcome c s (.command env) s' op := by
  obtain ⟨y, hy, -, rfl⟩ := closeSess_inv he
  obtain rfl : x = y := Option.some.inj (hx.symm.trans hy)
  have hends : ends c s (.command env) = some sid := by
    rw [ends_command (handles_some hm hx hh), if_pos rfl]
  refine ⟨.free sid, ?_, hends.symm, nofun, ?_, ?_, ?_, Or.inr ?_, ?_, nofun⟩
  · rw [closed_ledger]
    exact Ledger.Step.free (ledger_sess hx)
  · show (s.ledger.sess sid).elim [] _ = _
    unfold closes
    rw [ledger_sess hx, hends]
    simp only [hx]
    rfl
  · rw [drops_command (handles_some hm hx hh)]
    rfl
  · rw [closed_tl]
    exact Or.inl rfl
  · unfold waiting
    rw [closed_main, hm]
    exact fun ev hev => hev
  · rw [closed_main]
    exact nofun

theorem closes_none (c : Conf) (he : handles s (.command env) = none) :
    ends c s (.command env) = none ∧ closes c s (.command env) = [] ∧
      drops s (.command env) = none := by
  have h1 : ends c s (.command env) = none := by
    unfold ends
    simp only [he]
  refine ⟨h1, ?_, ?_⟩
  · unfold closes
    rw [h1]
    simp only [he]
  · unfold drops
    simp only [he]

/-- **The command step.** -/
theorem command_step (hm : s.main = .command sid evs)
    (he : handleCmd c env sid (s.goto (.events evs)) = .ok s') :
    ∃ op, Outcome c s (.command env) s' op := by
  have hp : ∀ ev ∈ (Main.events evs).pending, ev ∈ waiting s (.command env) := by
    unfold waiting
    rw [hm]
    exact fun ev hev => hev
  unfold handleCmd at he
  cases hx : s.heap sid with
  | none =>
    rw [show (s.goto (.events evs)).heap sid = none from hx] at he
    cases he
  | some x =>
    rw [show (s.goto (.events evs)).heap sid = some x from hx] at he
    -- a line without a handler is only answered
    have hanswer : ∀ a, handlerOf x = none → s' = (s.goto (.events evs)).emit a →
        ∃ op, Outcome c s (.command env) s' op := by
      rintro a hno rfl
      obtain ⟨h1, h2, h3⟩ := closes_none c (handles_none hm hx hno)
      exact ⟨_, Outcome.stay (Same.emit _ _) h1 h2 h3 hp nofun⟩
    cases hl : lookupCmd x.cmd with
    | none =>
      simp only [hl] at he
      exact hanswer _ (by unfold handlerOf; rw [hl]; rfl) (Except.ok.inj he).symm
    | some o =>
      cases o with
      | none =>
        simp only [hl] at he
        exact hanswer _ (by unfold handlerOf; rw [hl]; rfl) (Except.ok.inj he).symm
      | some h =>
        simp only [hl] at he
        have hh : handlerOf x = some h := by unfold handlerOf; rw [hl]; rfl
        by_cases hq : h.quiet = true
        · have hne : h ≠ .quit := by rintro rfl; cases hq
          have hy := runCmd_yields (s := s.goto (.events evs)) hx hne he
          have hs := runCmd_same hq (show (s.goto (.events evs)).heap sid = some x from hx) he
          have hcl : cmdCloses x env h = [] := by cases h <;> first | rfl | cases hq
          have hd : cmdDrops sid x h = none := by cases h <;> first | rfl | cases hq
          exact ⟨.stay, .command hm hx hh hne hy (by rw [hs]; exact Ledger.Step.stay) rfl hcl.symm hd.symm
            (Or.inl rfl) rfl⟩
        · cases h with
          | pass => exact pass_step hm hx hh he
          | cwd => exact cwd_step hm hx hh (Except.ok.inj he).symm
          | quit => exact quit_step hm hx hh he
          | pasv => exact pasv_step hm hx hh he
          | list => exact list_step hm hx hh he
          | retr => exact start_step hm hx hh (Or.inl rfl) (runCmd_yields (s := s.goto (.events evs)) hx nofun he)
          | stor => exact start_step hm hx hh (Or.inr rfl) (runCmd_yields (s := s.goto (.events evs)) hx nofun he)
          | _ => exact absurd rfl hq

end

end Myftpd
