import Myftpd.Worked
import Myftpd.Lifetime

/-!
# The records after a step

What every step does to every record, as a function of the state before.

* `Cmd.Writes`   what a handler can make of the record of its session;
* `rewritten`    the record of a session after a step;
* `exec_heap`    the sessions after a step: one ends, one is new, the others are `rewritten`;
* `exec_tl`      the timeout list after a step.
-/

namespace Myftpd
open CMem Server

/-- what a handler can make of a record; `fd` is the lowest free descriptor -/
inductive Cmd.Writes (x : Session) (fd : Fd) : Cmd → Session → Prop where
  | keeps {h : Cmd} : h ≠ .pasv → Writes x fd h x
  | user (uid : Nat) : Writes x fd .user { x with uid := uid }
  | dir {h : Cmd} (d : Option Fd) : h = .pass ∨ h = .cwd → Writes x fd h { x with dirfd := d }
  | port (a : Option SockAddr) : Writes x fd .port { x with portAddr := a }
  | pasv : Writes x fd .pasv { x with pasvListenFd := some fd }
  | type (b : Bool) : Writes x fd .type { x with isAscii := b }
  | list : Writes x fd .list { x with dataFd := none, pasvListenFd := none }
  | rest (k : Int) : Writes x fd .rest { x with restartPos := k }
  | rename {h : Cmd} (o : Option (List UInt8)) : h = .rnfr ∨ h = .rnto → Writes x fd h { x with rnfrName := o }

/-- the record of the session `j` after the step, when it was `x` before -/
def rewritten (c : Conf) (s : Server) (l : Label) (j : Sid) (x : Session) : Session :=
  match l with
  | .dispatch now env =>
    match reads c s (.dispatch now env) with
    | some (sid, cmd, arg) => if j = sid then { x with cmd := cmd, arg := arg } else x
    | none => if accepts c s (.dispatch now env) = some j then { x with dataFd := some s.fds.lowest } else x
  | .command env =>
    match handles s (.command env) with
    | some (sid, _, h) => if j = sid then h.record c env x s.fds.lowest else x
    | none => x
  | .thread tid _ =>
    match s.threads tid with
    | some th => if j = th.sess then th.pc.record x else x
    | none => x
  | _ => x

/-- the record of a connection that has been admitted -/
def admittedSession (s : Server) (ip : Nat) : Session :=
  { newSession s with numThisIp := handleIpCount s ip }

def heapAfter (c : Conf) (s : Server) (l : Label) (j : Sid) : Option Session :=
  if ends c s l = some j then none
  else if j = s.nextSid then (admits c s l).map (admittedSession s)
  else (s.heap j).map (rewritten c s l j)

/-- the descriptor of an event that refreshes a node -/
def refreshes (c : Conf) (s : Server) : Label → Option Fd
  | .dispatch _ _ =>
    match s.main with
    | .events (ev :: _) => (s.sessinfo ev.fd).fdIn.bind fun f =>
        if f.fd ≠ c.listenfd ∧ ev.epollin = true then some f.fd else none
    | _ => none
  | _ => none

def listAfter (c : Conf) (s : Server) : Label → TimeList
  | .dispatch now env => (refreshes c s (.dispatch now env)).elim s.tl fun fd => s.tl.refreshTimeout fd now
  | .acceptOne conn => (admits c s (.acceptOne conn)).elim s.tl fun _ =>
      s.tl.addtoNode s.nextSid s.fds.lowest conn.now
  | .evictOne now => (s.tl.pLRU.bind fun n => ((ends c s (.evictOne now)).bind s.heap).map fun x =>
      s.tl.remove n x.ctrlFd).getD s.tl
  | _ => s.tl

section
variable {c : Conf} {env : Env} {now : Int} {sid j : Sid} {x y : Session} {s s' t : Server} {l : Label}
  {ev : Event} {evs : List Event} {h : Cmd}

/-- **The record after a handler.** -/
theorem record_writes : Cmd.Writes x fd h (h.record c env x fd) := by
  unfold Cmd.record
  cases h with
  | user =>
    show Cmd.Writes x fd .user ((c.getpwnam x.arg).elim x fun pw => { x with uid := pw.uid })
    cases c.getpwnam x.arg with
    | none => exact .keeps nofun
    | some pw => exact .user _
  | pass =>
    dsimp only
    split
    · exact .dir _ (Or.inl rfl)
    · exact .keeps nofun
  | cwd =>
    dsimp only
    split
    · exact .dir _ (Or.inr rfl)
    · exact .keeps nofun
  | port => exact .port _
  | pasv => exact .pasv
  | type =>
    dsimp only
    split
    · exact .type _
    · split
      · exact .type _
      · exact .keeps nofun
  | list =>
    dsimp only
    split
    · exact .keeps nofun
    · exact .list
  | rest => exact .rest _
  | rnfr => exact .rename _ (Or.inl rfl)
  | rnto => exact .rename _ (Or.inr rfl)
  | _ => exact .keeps nofun

theorem handles_heap (hh : handles s l = some (sid, x, h)) : s.heap sid = some x := by
  cases l with
  | command env =>
    obtain ⟨evs, -, hx, -⟩ := exec_handles (c := sampleConf) hh
    exact hx
  | _ => cases hh

/-- a field that reading a line, accepting a connection and a transfer thread leave alone: only the handlers
write it -/
theorem rewritten_field {α : Type} (f : Session → α) (hl : ∀ env, l ≠ .command env)
    (hline : ∀ cmd arg, f { x with cmd := cmd, arg := arg } = f x)
    (hconn : ∀ o, f { x with dataFd := o } = f x) (hth : ∀ pc : Pc, f (pc.record x) = f x) :
    f (rewritten c s l j x) = f x := by
  unfold rewritten
  cases l with
  | command env => exact absurd rfl (hl env)
  | dispatch now env =>
    dsimp only
    split
    · split
      · exact hline _ _
      · rfl
    · split
      · exact hconn _
      · rfl
  | thread tid env =>
    dsimp only
    split
    · split
      · exact hth _
      · rfl
    · rfl
  | _ => rfl

theorem rewritten_command {z : Session} (hh : handles s (.command env) = some (sid, z, h)) :
    rewritten c s (.command env) j x = if j = sid then h.record c env x s.fds.lowest else x := by
  unfold rewritten
  simp only [hh]

/-! ## the handlers -/

theorem put_self (y : Session) : (s.put sid y).heap sid = some y := Function.update_self ..

theorem runCmd_record (hx : s.heap sid = some x) (hq : h ≠ .quit)
    (he : runCmd c env sid x s h = .ok s') : s'.heap sid = some (h.record c env x s.fds.lowest) := by
  rw [(runCmd_yields hx hq he).heap]
  exact Function.update_self ..

theorem HandlerStep.heap (h : HandlerStep s s') : s'.heap = s.heap := by cases h <;> rfl

/-! ## the steps -/

section
variable (hn : s.ledger.Numbered)
include hn

theorem next_unused : s.heap s.nextSid = none := by
  cases hx : s.heap s.nextSid with
  | none => rfl
  | some x => exact absurd (hn.sess _ _ (ledger_sess hx)) (Nat.lt_irrefl _)

/-- a step that admits nobody: the records that are left have been rewritten -/
theorem heapAfter_of (ha : admits c s l = none) (h0 : ∀ j, s.heap j = none → s'.heap j = none)
    (h1 : ∀ j x, s.heap j = some x →
      s'.heap j = if ends c s l = some j then none else some (rewritten c s l j x)) :
    s'.heap = heapAfter c s l := by
  funext j
  unfold heapAfter
  rw [ha]
  cases hx : s.heap j with
  | none =>
    rw [h0 j hx]
    split
    · rfl
    · split <;> rfl
  | some x =>
    rw [h1 j x hx]
    by_cases hj : j = s.nextSid
    · rw [hj, next_unused hn] at hx
      cases hx
    · rw [if_neg hj]
      rfl

theorem heapAfter_same (ha : admits c s l = none) (he : ends c s l = none) (hs : s'.heap = s.heap)
    (hr : ∀ j x, rewritten c s l j x = x) : s'.heap = heapAfter c s l := by
  refine heapAfter_of hn ha (fun j hj => by rw [hs, hj]) fun j x hx => ?_
  rw [hs, hx, he, hr]
  exact (if_neg nofun).symm

theorem heapAfter_ended (ha : admits c s l = none) (he : ends c s l = some sid)
    (hs : s'.heap = Function.update s.heap sid none) (hr : ∀ j x, rewritten c s l j x = x) :
    s'.heap = heapAfter c s l := by
  refine heapAfter_of hn ha (fun j hj => ?_) fun j x hx => ?_
  · rw [hs, Function.update_apply, hj, ite_self]
  · rw [hs, Function.update_apply, he, hr, hx]
    simp only [Option.some.injEq, eq_comm]

theorem heapAfter_put (ha : admits c s l = none) (he : ends c s l = none) (hx : s.heap sid = some x)
    (hs : s'.heap = Function.update s.heap sid (some y)) (hy : rewritten c s l sid x = y)
    (hr : ∀ j z, j ≠ sid → rewritten c s l j z = z) : s'.heap = heapAfter c s l := by
  refine heapAfter_of hn ha (fun j hj => ?_) fun j z hz => ?_
  · rw [hs, Function.update_of_ne, hj]
    rintro rfl
    cases hx.symm.trans hj
  · rw [he, if_neg nofun, hs, Function.update_apply]
    split
    · rename_i e
      subst e
      cases hx.symm.trans hz
      rw [hy]
    · rename_i e
      rw [hr j z e, hz]

omit hn in
theorem unread_same (h : readsFrom c s (.dispatch now env) = none) (j : Sid) (x : Session) :
    rewritten c s (.dispatch now env) j x = x := by
  unfold rewritten
  simp only [reads_none (c := c) fun sid e => absurd (h.symm.trans e) nofun,
    accepts_none (c := c) fun sid type e => absurd (h.symm.trans e) nofun]
  exact if_neg nofun

/-! ### events, connections, evictions -/

theorem dispatch_heap (hm : s.main = .events (ev :: evs))
    (he : dispatch c env now ev evs s = .ok s') : s'.heap = heapAfter c s (.dispatch now env) := by
  have hunread : ∀ f, (s.sessinfo ev.fd).fdIn = some f → f.fd = c.listenfd ∨ ev.epollin = false →
      ∀ j x, rewritten c s (.dispatch now env) j x = x := by
    intro f hf h j q
    refine unread_same (readsFrom_none hm fun g sid hi => ?_) j q
    rw [hi] at hf
    cases hf
    exact h
  cases dispatch_cases he with
  | listen hf hl =>
    exact heapAfter_same hn rfl ((ends_dispatch hm).trans (eventEnds_listen hf hl)) rfl
      (hunread _ hf (Or.inl hl))
  | @ctrl f sid _ hi hl h1 ht hr =>
    have hfrom : readsFrom c s (.dispatch now env) = some (.ctrl, sid) := by
      rw [readsFrom_input hm hi hl h1, ht]
    have hacc : accepts c s (.dispatch now env) = none := accepts_none fun _ _ e => by
      cases hfrom.symm.trans e
      rfl
    obtain ⟨x, hx, h'⟩ := processCtrlRead_cases hr
    change s.heap sid = some x at hx
    have hends : ends c s (.dispatch now env) = _ :=
      (ends_dispatch hm).trans (eventEnds_ctrl hi hl h1 ht hx)
    rcases h' with ⟨hk, hc⟩ | ⟨m, k, cmd, arg, hk, hp, rfl⟩
    · rw [show ctrlRead (s.sock x.ctrlFd) = _ from hk] at hends
      obtain ⟨y, -, -, rfl⟩ := closeSess_inv hc
      have hreads : reads c s (.dispatch now env) = none := by
        unfold reads
        simp only [hfrom, hx, Option.bind_some, show ctrlRead (s.sock x.ctrlFd) = _ from hk]
      refine heapAfter_ended hn rfl hends closed_heap fun j z => ?_
      unfold rewritten
      simp only [hreads, hacc]
      exact if_neg nofun
    · rw [show ctrlRead (s.sock x.ctrlFd) = _ from hk] at hends
      have hreads : reads c s (.dispatch now env) = some (sid, cmd, arg) := by
        unfold reads
        simp only [hfrom, hx, Option.bind_some, show ctrlRead (s.sock x.ctrlFd) = _ from hk, hp,
          Option.map_some]
      refine heapAfter_put hn rfl hends hx (y := { x with cmd := cmd, arg := arg }) rfl ?_ fun j z hj => ?_
      · unfold rewritten
        simp only [hreads, ↓reduceIte]
      · unfold rewritten
        simp only [hreads, if_neg hj]
  | @data f sid _ hi hl h1 ht hr =>
    have hfrom : readsFrom c s (.dispatch now env) = some (f.type, sid) := readsFrom_input hm hi hl h1
    have hreads : reads c s (.dispatch now env) = none := reads_none fun j e =>
      ht (congrArg Prod.fst (Option.some.inj (hfrom.symm.trans e)))
    have hacc : accepts c s (.dispatch now env) = if env.accept = true then some sid else none := by
      unfold accepts
      simp only [hfrom, ne_eq, ht, not_false_eq_true, true_and]
    have hends : ends c s (.dispatch now env) = none :=
      (ends_dispatch hm).trans (eventEnds_data hi h1 ht)
    obtain ⟨x, p, hx, -, ⟨ha, rfl⟩ | ⟨ha, rfl⟩⟩ := processDataRead_cases hr
    · rw [if_pos ha] at hacc
      refine heapAfter_put hn rfl hends hx (y := { x with dataFd := some s.fds.lowest }) rfl ?_
        fun j z hj => ?_
      · unfold rewritten
        simp only [hreads, hacc, ↓reduceIte]
      · unfold rewritten
        simp only [hreads, hacc, Option.some.injEq, if_neg (Ne.symm hj)]
    · rw [if_neg (Bool.eq_false_iff.mp ha)] at hacc
      apply heapAfter_same hn rfl hends rfl
      intro j z
      unfold rewritten
      simp only [hreads, hacc]
      exact if_neg nofun
  | hup hi hl h1 h2 h3 hc =>
    obtain ⟨x, -, -, rfl⟩ := closeSess_inv hc
    exact heapAfter_ended hn rfl ((ends_dispatch hm).trans (eventEnds_hup hi hl h1 h2 h3)) closed_heap
      (hunread _ (by rw [hi]) (Or.inr h1))
  | quiet h1 h2 =>
    exact heapAfter_same hn rfl ((ends_dispatch hm).trans (eventEnds_quiet h1 h2)) rfl
      (unread_same (readsFrom_none hm fun g sid hi => Or.inr h1))

theorem accept_heap {conn : Conn} (he : handleNewConn c conn s = .ok s') :
    s'.heap = heapAfter c s (.acceptOne conn) := by
  have hid : ∀ j x, rewritten c s (.acceptOne conn) j x = x := fun _ _ => rfl
  unfold handleNewConn at he
  dsimp only at he
  split at he
  · rename_i text hv
    obtain ⟨x, -, -, rfl⟩ := closeSess_inv he
    refine heapAfter_same hn (admits_none hv) rfl ?_ hid
    rw [closed_heap]
    show Function.update (Function.update s.heap s.nextSid _) s.nextSid none = s.heap
    rw [Function.update_idem, ← next_unused hn, Function.update_eq_self]
  · rename_i hv
    obtain ⟨t, ht, he⟩ := bind_ok.mp he
    unfold setSessinfo at ht
    split at ht
    · cases ht
      cases he
      funext j
      unfold heapAfter
      rw [admits_some hv, if_neg (show ¬ ends c s (.acceptOne conn) = some j from nofun)]
      show Function.update (Function.update s.heap s.nextSid _) s.nextSid _ j = _
      rw [Function.update_idem, Function.update_apply]
      split
      · rfl
      · exact (congrFun Option.map_id (s.heap j)).symm
    · cases ht

theorem evict_heap (he : Myftpd.evictOne c now s = .ok s') :
    s'.heap = heapAfter c s (.evictOne now) := by
  rcases evictOne_cases he with ⟨rfl, hstop⟩ | ⟨n, node, x, t, hn', hnode, ht, hx, hc, rfl⟩
  · exact heapAfter_same hn rfl (overdue_none hstop) rfl fun _ _ => rfl
  · obtain ⟨y, -, -, rfl⟩ := closeSess_inv hc
    exact heapAfter_ended hn rfl (overdue_some hn' hnode ht) closed_heap fun _ _ => rfl

/-! ### commands and threads -/

theorem command_heap (hm : s.main = .command sid evs)
    (he : handleCmd c env sid (s.goto (.events evs)) = .ok s') :
    s'.heap = heapAfter c s (.command env) := by
  obtain ⟨x, hx, ⟨hh, code, text, -, rfl⟩ | ⟨h, hh, hrun⟩⟩ := handleCmd_cases he
  · have hnone : handles s (.command env) = none := handles_none hm hx hh
    refine heapAfter_same hn rfl ?_ rfl fun j z => ?_
    · unfold ends
      simp only [hnone]
    · unfold rewritten
      simp only [hnone]
  · have hsome : handles s (.command env) = some (sid, x, h) := handles_some hm hx hh
    have hends := ends_command (c := c) hsome
    obtain ⟨o, as, hd, -⟩ := runCmd_did hx hrun
    have ho : s'.heap = Function.update s.heap sid o := hd.heap
    by_cases hq : h = .quit
    · subst hq
      obtain ⟨z, -, -, rfl⟩ := closeSess_inv hrun
      refine heapAfter_ended hn rfl hends closed_heap fun j z => ?_
      unfold rewritten
      simp only [hsome]
      exact ite_self _
    · rw [if_neg hq] at hends
      have hrec := runCmd_record hx hq hrun
      rw [ho, Function.update_self] at hrec
      subst hrec
      refine heapAfter_put hn rfl hends hx ho ?_ fun j z hj => ?_
      · unfold rewritten
        simp only [hsome, ↓reduceIte]
        rfl
      · unfold rewritten
        simp only [hsome, if_neg hj]

theorem thread_heap {tid : Tid} {th : Thread} {tenv : TEnv} (hth : s.threads tid = some th)
    (he : threadStep tenv tid s = .ok s') : s'.heap = heapAfter c s (.thread tid tenv) := by
  obtain ⟨o, h⟩ := thread_ran hth he
  refine heapAfter_of hn rfl (fun j hj => ?_) fun j x hx => ?_
  · rw [h.beside j, hj, Option.map_none, ite_self]
  · have hr : rewritten c s (.thread tid tenv) j x = if j = th.sess then th.pc.record x else x := by
      unfold rewritten
      simp only [hth]
    have hends : ¬ ends c s (.thread tid tenv) = some j := nofun
    rw [h.beside j, hx, if_neg hends, hr]
    split <;> rfl

/-- **The sessions after a step.** -/
theorem exec_heap (hen : enabled s l) (he : exec c s l = .ok s') : s'.heap = heapAfter c s l := by
  cases l with
  | arrive fd bs => cases he; exact heapAfter_same hn rfl rfl rfl fun _ _ => rfl
  | hangup fd => cases he; exact heapAfter_same hn rfl rfl rfl fun _ _ => rfl
  | faults fd es => cases he; exact heapAfter_same hn rfl rfl rfl fun _ _ => rfl
  | wait evs => cases he; exact heapAfter_same hn rfl rfl rfl fun _ _ => rfl
  | timeout => cases he; exact heapAfter_same hn rfl rfl rfl fun _ _ => rfl
  | waitErr e => cases he
  | evictOne now => exact evict_heap hn he
  | dispatch now env =>
    obtain ⟨ev, evs, hm⟩ := hen
    unfold exec at he
    simp only [hm] at he
    exact dispatch_heap hn hm he
  | command env =>
    obtain ⟨sid, evs, hm⟩ := hen
    exact command_heap hn hm (exec_command_ok hm he)
  | onward b =>
    exact heapAfter_same hn rfl rfl (handlerStep_cases hen he).heap fun _ _ => rfl
  | acceptOne conn => exact accept_heap hn he
  | acceptErr e =>
    obtain ⟨evs, hm⟩ := hen
    unfold exec at he
    simp only [hm] at he
    split at he
    · cases he
      exact heapAfter_same hn rfl rfl rfl fun _ _ => rfl
    · cases he
  | thread tid env =>
    obtain ⟨th, hth⟩ := Option.ne_none_iff_exists'.mp hen
    exact thread_heap hn hth he

theorem exec_stays (hen : enabled s l) (he : exec c s l = .ok s') (hx : s.heap j = some x)
    (h : ends c s l ≠ some j) : s'.heap j = some (rewritten c s l j x) := by
  have hj : j ≠ s.nextSid := Nat.ne_of_lt (hn.sess j _ (ledger_sess hx))
  rw [exec_heap hn hen he]
  unfold heapAfter
  rw [if_neg h, if_neg hj, hx]
  rfl

theorem heap_stays_none (hen : enabled s l) (he : exec c s l = .ok s') (hlt : j < s.nextSid)
    (hx : s.heap j = none) : s'.heap j = none := by
  rw [exec_heap hn hen he]
  unfold heapAfter
  rw [if_neg (Nat.ne_of_lt hlt), hx]
  exact ite_self _

/-- a record after a step is that of a new session or a rewritten one -/
theorem exec_record (hen : enabled s l) (he : exec c s l = .ok s') (hy : s'.heap j = some y) :
    ends c s l ≠ some j ∧ (j = s.nextSid ∧ (admits c s l).map (admittedSession s) = some y ∨
      j ≠ s.nextSid ∧ ∃ x, s.heap j = some x ∧ y = rewritten c s l j x) := by
  rw [exec_heap hn hen he] at hy
  unfold heapAfter at hy
  split at hy
  · cases hy
  · rename_i h1
    refine ⟨h1, ?_⟩
    split at hy
    · rename_i h2
      exact Or.inl ⟨h2, hy⟩
    · rename_i h2
      obtain ⟨x, hx, e⟩ := Option.map_eq_some_iff.mp hy
      exact Or.inr ⟨h2, x, hx, e.symm⟩

end

/-! ## the timeout list -/

theorem dispatch_tl (hm : s.main = .events (ev :: evs)) (he : dispatch c env now ev evs s = .ok s') :
    s'.tl = listAfter c s (.dispatch now env) := by
  have hsome : ∀ {f : FdT}, (s.sessinfo ev.fd).fdIn = some f → f.fd ≠ c.listenfd → ev.epollin = true →
      refreshes c s (.dispatch now env) = some f.fd := by
    intro f hf hl h1
    unfold refreshes
    simp only [hm, hf, Option.bind_some]
    exact if_pos ⟨hl, h1⟩
  have hnone : (∀ f, (s.sessinfo ev.fd).fdIn = some f → f.fd = c.listenfd ∨ ev.epollin = false) →
      refreshes c s (.dispatch now env) = none := by
    intro h
    unfold refreshes
    simp only [hm]
    refine Option.bind_eq_none_iff.mpr fun f hf => if_neg fun ⟨h1, h2⟩ => ?_
    rcases h f hf with h3 | h3
    · exact h1 h3
    · rw [h2] at h3
      cases h3
  show _ = (refreshes c s (.dispatch now env)).elim s.tl fun fd => s.tl.refreshTimeout fd now
  cases dispatch_cases he with
  | listen hf hl =>
    rw [hnone fun g hg => Or.inl (by cases hf.symm.trans hg; exact hl)]
    rfl
  | @ctrl f sid _ hi hl h1 ht hr =>
    rw [hsome (by rw [hi]) hl h1]
    obtain ⟨x, hx, ⟨-, hc⟩ | ⟨m, k, cmd, arg, -, -, rfl⟩⟩ := processCtrlRead_cases hr
    · obtain ⟨y, -, -, rfl⟩ := closeSess_inv hc
      exact closed_tl
    · rfl
  | @data f sid _ hi hl h1 ht hr =>
    rw [hsome (by rw [hi]) hl h1]
    obtain ⟨x, p, -, -, ⟨-, rfl⟩ | ⟨-, rfl⟩⟩ := processDataRead_cases hr
    · rfl
    · rfl
  | hup hi hl h1 h2 h3 hc =>
    rw [hnone fun g hg => Or.inr h1]
    obtain ⟨y, -, -, rfl⟩ := closeSess_inv hc
    exact closed_tl
  | quiet h1 h2 =>
    rw [hnone fun g hg => Or.inr h1]
    rfl

/-- **The timeout list after a step.** -/
theorem exec_tl (hen : enabled s l) (he : exec c s l = .ok s') : s'.tl = listAfter c s l := by
  have hb : Booked c s l s'.books := exec_books hen he
  have htl : s'.tl = s'.books.tl := rfl
  cases l with
  | dispatch now env =>
    obtain ⟨ev, evs, hm⟩ := hen
    unfold exec at he
    simp only [hm] at he
    exact dispatch_tl hm he
  | acceptOne conn =>
    rw [htl]
    generalize s'.books = b at hb
    show b.tl = (admits c s (.acceptOne conn)).elim s.tl fun _ =>
      s.tl.addtoNode s.nextSid s.fds.lowest conn.now
    cases hb with
    | same ha => rw [ha]; rfl
    | admitted _ hv => rw [admits_some hv]; rfl
    | refused _ text hv => rw [admits_none hv]; rfl
  | evictOne now =>
    change Myftpd.evictOne c now s = .ok s' at he
    show s'.tl = (s.tl.pLRU.bind fun n => ((overdue c now s).bind s.heap).map fun x =>
      s.tl.remove n x.ctrlFd).getD s.tl
    rcases evictOne_cases he with ⟨rfl, hstop⟩ | ⟨n, node, x, t, hn', hnode, ht, hx, hc, rfl⟩
    · rw [overdue_none hstop]
      cases s.tl.pLRU <;> rfl
    · obtain ⟨y, -, -, rfl⟩ := closeSess_inv hc
      have hsess : (overdue c now s).bind s.heap = some x := by
        rw [overdue_some hn' hnode ht]
        exact hx
      rw [hn', Option.bind_some, hsess]
      show (s.closed node.sess y).tl.remove n x.ctrlFd = _
      rw [closed_tl]
      rfl
  | _ =>
    rw [htl]
    generalize s'.books = b at hb
    cases hb with
    | same ha => rfl

/-! ## the threads -/

theorem threads_kept {tid : Tid} (hlt : tid < s.nextTid) (hen : enabled s l) (he : exec c s l = .ok s')
    (hl : ∀ env, l ≠ .thread tid env) : s'.threads tid = s.threads tid := by
  cases exec_worked hen he with
  | loop _ _ h => rw [h.threads]
  | start _ _ h =>
    rw [h.threads]
    show Function.update s.threads s.nextTid _ tid = _
    rw [Function.update_of_ne (Nat.ne_of_lt hlt)]
  | @thread tid' env _ _ _ h => rw [h.threads, Function.update_of_ne (fun e => hl env (by rw [e]))]

theorem thread_kept {tid : Tid} {th : Thread} (hn : s.ledger.Numbered) (hen : enabled s l)
    (he : exec c s l = .ok s') (hth : s.threads tid = some th) (hl : ∀ env, l ≠ .thread tid env) :
    s'.threads tid = some th := by
  rw [threads_kept (hn.worker tid _ (ledger_worker hth)) hen he hl, hth]

end

end Myftpd
