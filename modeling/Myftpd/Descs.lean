import Myftpd.Lib.Matching
import Myftpd.Passive

/-!
# The descriptor table after a step of the main loop

* `Cmd.fds`   what a handler does to the table;
* `loop_fds`  the table after a step that is not one of a transfer thread.
-/

namespace Myftpd
open CMem Server Matching

/-- the table after the handler; `fd` is its lowest free number -/
def Cmd.fds (c : Conf) (env : Env) (sid : Sid) (x : Session) (fd : Fd) (f : Fd → Option Desc) :
    Cmd → Fd → Option Desc
  | .pass => if passOk c x = true then env.home.elim f fun k => Function.update f fd (some (.cwd sid k)) else f
  | .cwd => (openatOk x.dirfd x.arg env.openat).elim f fun k =>
      shut x.dirfd (Function.update f fd (some (.cwd sid k)))
  | .pasv => Function.update f fd (some (.pasv sid))
  | .list => if getPasvDataFd x = 0 then f else shut x.pasvListenFd (shut x.dataFd f)
  | _ => f

/-- the table after `closeSess` -/
def Session.shut (x : Session) (f : Fd → Option Desc) : Fd → Option Desc :=
  Matching.shut x.pasvListenFd (Matching.shut x.dataFd (Matching.shut (some x.ctrlFd) f))

/-- the table after a step of the main loop -/
def fdsAfter (c : Conf) (s : Server) (l : Label) : Fd → Option Desc :=
  match ends c s l with
  | some sid => (s.heap sid).elim s.fds.get fun x => x.shut s.fds.get
  | none =>
    match l with
    | .acceptOne conn => (admits c s (.acceptOne conn)).elim s.fds.get fun _ =>
        Function.update s.fds.get s.fds.lowest (some (.ctrl s.nextSid))
    | .dispatch now env => (accepts c s (.dispatch now env)).elim s.fds.get fun sid =>
        Function.update s.fds.get s.fds.lowest (some (.data sid))
    | .command env => (handles s (.command env)).elim s.fds.get fun r =>
        r.2.2.fds c env r.1 r.2.1 s.fds.lowest s.fds.get
    | _ => s.fds.get

section
variable {c : Conf} {env : Env} {now : Int} {sid : Sid} {x y : Session} {s s' t : Server} {l : Label}
  {ev : Event} {evs : List Event} {h : Cmd} {o : Option Fd}

theorem closeOpt_get : (s.closeOpt o).fds.get = shut o s.fds.get := by
  cases o with
  | none => exact shut_none.symm
  | some fd => exact shut_some.symm

theorem closed_get : (closed s sid x).fds.get = x.shut s.fds.get := by
  show (((s.close x.ctrlFd).closeOpt x.dataFd).closeOpt x.pasvListenFd).fds.get = _
  rw [closeOpt_get, closeOpt_get]
  unfold Session.shut
  rw [shut_some]
  rfl

theorem opened_get {d : Option Desc} :
    (s.opened d).fds.get = d.elim s.fds.get fun d => Function.update s.fds.get s.fds.lowest (some d) := by
  cases d <;> rfl

theorem closeAll_get : (s.closeAll o.toList).fds.get = shut o s.fds.get := by
  cases o with
  | none => exact shut_none.symm
  | some fd => exact shut_some.symm

theorem runCmd_fds (hx : s.heap sid = some x) (hq : h ≠ .quit) (he : runCmd c env sid x s h = .ok s') :
    s'.fds.get = h.fds c env sid x s.fds.lowest s.fds.get := by
  have hfds : s'.fds = ((s.opened (h.opens c env sid x)).closeAll (cmdCloses x env h)).fds :=
    congrArg Prod.fst (runCmd_yields hx hq he).kernel
  rw [hfds]
  cases h with
  | pass =>
    show (s.opened (if passOk c x = true then env.home.map (Desc.cwd sid) else none)).fds.get = _
    rw [opened_get]
    unfold Cmd.fds
    split
    · cases env.home <;> rfl
    · rfl
  | cwd =>
    unfold Cmd.fds Cmd.opens cmdCloses
    cases openatOk x.dirfd x.arg env.openat with
    | none => rfl
    | some k => exact closeAll_get
  | pasv => rfl
  | list =>
    show (s.closeAll (if getPasvDataFd x = 0 then [] else _)).fds.get = if getPasvDataFd x = 0 then _ else _
    split
    · rfl
    · have hboth : s.closeAll (x.dataFd.toList ++ x.pasvListenFd.toList) =
          (s.closeAll x.dataFd.toList).closeAll x.pasvListenFd.toList := List.foldl_append
      rw [hboth, closeAll_get, closeAll_get]
  | _ => rfl

theorem fdsAfter_ended (h : ends c s l = some sid) (hx : s.heap sid = some x) :
    fdsAfter c s l = x.shut s.fds.get := by
  unfold fdsAfter
  simp only [h, hx]
  rfl

theorem command_fds (hm : s.main = .command sid evs)
    (he : handleCmd c env sid (s.goto (.events evs)) = .ok s') :
    s'.fds.get = fdsAfter c s (.command env) := by
  obtain ⟨x, hx, ⟨hh, code, text, -, rfl⟩ | ⟨h, hh, hrun⟩⟩ := handleCmd_cases he
  · have hn : handles s (.command env) = none := handles_none hm hx hh
    unfold fdsAfter
    rw [(closes_none c hn).1]
    simp only [hn]
    rfl
  · have hsome : handles s (.command env) = some (sid, x, h) := handles_some hm hx hh
    have hends := ends_command (c := c) hsome
    by_cases hq : h = .quit
    · subst hq
      obtain ⟨y, hy, -, rfl⟩ := closeSess_inv hrun
      rw [if_pos rfl] at hends
      rw [fdsAfter_ended hends hy]
      exact closed_get
    · rw [if_neg hq] at hends
      unfold fdsAfter
      simp only [hends, hsome]
      exact runCmd_fds (s := s.goto (.events evs)) hx hq hrun

theorem fdsAfter_dispatch (h : ends c s (.dispatch now env) = none) :
    fdsAfter c s (.dispatch now env) = (accepts c s (.dispatch now env)).elim s.fds.get fun sid =>
      Function.update s.fds.get s.fds.lowest (some (.data sid)) := by
  unfold fdsAfter
  rw [h]

theorem dispatch_fds (hm : s.main = .events (ev :: evs)) (he : dispatch c env now ev evs s = .ok s') :
    s'.fds.get = fdsAfter c s (.dispatch now env) := by
  have hsame : readsFrom c s (.dispatch now env) = none → ends c s (.dispatch now env) = none →
      s'.fds.get = s.fds.get → s'.fds.get = fdsAfter c s (.dispatch now env) := by
    intro h1 h2 h3
    have hacc : accepts c s (.dispatch now env) = none :=
      accepts_none fun sid type e => absurd (h1.symm.trans e) nofun
    rw [fdsAfter_dispatch h2, hacc]
    exact h3
  cases dispatch_cases he with
  | listen hf hl =>
    refine hsame (readsFrom_none hm fun g i hi => Or.inl ?_)
      ((ends_dispatch hm).trans (eventEnds_listen hf hl)) rfl
    rw [hi] at hf
    cases hf
    exact hl
  | @ctrl f sid _ hi hl h1 ht hr =>
    have hacc : accepts c s (.dispatch now env) = none := by
      apply accepts_none
      intro j type e
      rw [readsFrom_input hm hi hl h1, ht] at e
      cases e
      rfl
    obtain ⟨x, hx, h'⟩ := processCtrlRead_cases hr
    change s.heap sid = some x at hx
    have hends : ends c s (.dispatch now env) = _ :=
      (ends_dispatch hm).trans (eventEnds_ctrl hi hl h1 ht hx)
    rcases h' with ⟨hk, hc⟩ | ⟨m, k, cmd, arg, hk, hp, rfl⟩
    · rw [show ctrlRead (s.sock x.ctrlFd) = _ from hk] at hends
      obtain ⟨y, hy, -, rfl⟩ := closeSess_inv hc
      rw [fdsAfter_ended hends hy]
      exact closed_get
    · rw [show ctrlRead (s.sock x.ctrlFd) = _ from hk] at hends
      rw [fdsAfter_dispatch hends, hacc]
      rfl
  | @data f sid _ hi hl h1 ht hr =>
    have hacc : accepts c s (.dispatch now env) = if env.accept = true then some sid else none := by
      unfold accepts
      simp only [readsFrom_input hm hi hl h1, ne_eq, ht, not_false_eq_true, true_and]
    rw [fdsAfter_dispatch ((ends_dispatch hm).trans (eventEnds_data hi h1 ht)), hacc]
    obtain ⟨x, p, hx, -, ⟨ha, rfl⟩ | ⟨ha, rfl⟩⟩ := processDataRead_cases hr
    · rw [if_pos ha]
      rfl
    · rw [if_neg (Bool.eq_false_iff.mp ha)]
      rfl
  | hup hi hl h1 h2 h3 hc =>
    obtain ⟨y, hy, -, rfl⟩ := closeSess_inv hc
    rw [fdsAfter_ended ((ends_dispatch hm).trans (eventEnds_hup hi hl h1 h2 h3)) hy]
    exact closed_get
  | quiet h1 h2 =>
    exact hsame (readsFrom_none hm fun g i hi => Or.inr h1)
      ((ends_dispatch hm).trans (eventEnds_quiet h1 h2)) rfl

theorem accept_fds {conn : Conn} (he : handleNewConn c conn s = .ok s') :
    s'.fds.get = fdsAfter c s (.acceptOne conn) := by
  show _ = (admits c s (.acceptOne conn)).elim s.fds.get fun _ =>
    Function.update s.fds.get s.fds.lowest (some (.ctrl s.nextSid))
  unfold handleNewConn at he
  dsimp only at he
  split at he
  · rename_i text hv
    obtain ⟨x, hx, -, rfl⟩ := closeSess_inv he
    change Function.update s.heap s.nextSid (some (newSession s)) s.nextSid = some x at hx
    rw [Function.update_self] at hx
    cases hx
    rw [admits_none hv, closed_get]
    show shut none (shut none (shut (some s.fds.lowest)
      (Function.update s.fds.get s.fds.lowest (some (.ctrl s.nextSid))))) = s.fds.get
    rw [shut_none, shut_none, shut_some, Function.update_idem, ← s.fds.lowest_none,
      Function.update_eq_self]
  · rename_i hv
    obtain ⟨t, ht, he⟩ := bind_ok.mp he
    unfold setSessinfo at ht
    split at ht
    · cases ht
      cases he
      rw [admits_some hv]
      rfl
    · cases ht

theorem evict_fds (he : Myftpd.evictOne c now s = .ok s') : s'.fds.get = fdsAfter c s (.evictOne now) := by
  rcases evictOne_cases he with ⟨rfl, hstop⟩ | ⟨n, node, x, t, hn', hnode, ht, hx, hc, rfl⟩
  · unfold fdsAfter
    rw [show ends c s (.evictOne now) = none from overdue_none hstop]
    rfl
  · obtain ⟨y, hy, -, rfl⟩ := closeSess_inv hc
    rw [fdsAfter_ended (show ends c s (.evictOne now) = _ from overdue_some hn' hnode ht) hy]
    show (closed s node.sess y).fds.get = _
    exact closed_get

/-- **The descriptor table after a step of the main loop.** -/
theorem loop_fds (hen : enabled s l) (he : exec c s l = .ok s') (hl : ∀ tid tenv, l ≠ .thread tid tenv) :
    s'.fds.get = fdsAfter c s l := by
  cases l with
  | dispatch now env =>
    obtain ⟨ev, evs, hm⟩ := hen
    unfold exec at he
    simp only [hm] at he
    exact dispatch_fds hm he
  | command env =>
    obtain ⟨sid, evs, hm⟩ := hen
    exact command_fds hm (exec_command_ok hm he)
  | acceptOne conn => exact accept_fds he
  | acceptErr e =>
    obtain ⟨evs, hm⟩ := hen
    unfold exec at he
    simp only [hm] at he
    split at he
    · cases he
      rfl
    · cases he
  | evictOne now => exact evict_fds he
  | thread tid tenv => exact absurd rfl (hl tid tenv)
  | waitErr e => cases he
  | onward b => cases handlerStep_cases hen he <;> rfl
  | _ => cases he; rfl

end

end Myftpd
