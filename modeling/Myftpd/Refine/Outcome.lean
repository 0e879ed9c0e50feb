import Myftpd.Handled
import Myftpd.Ledger

/-!
# The ledger of a server

`Server.ledger` forgets everything but the ledger.  `Outcome` says what a step of the server and an
operation on its ledger have to do with each other: which session is ended, which descriptors are
closed or dropped, what becomes of the timeout list and of the pending events.

* `Same`        nothing changes in the ledger, the timeout list and the main loop;
* `runCmd_same` most handlers leave the ledger alone.
-/

namespace Myftpd
open CMem Server

def Session.core (x : Session) : Core := ⟨x.ctrlFd, x.pasvListenFd, x.dataFd, x.dirfd⟩

def Thread.worker (t : Thread) : Worker := ⟨t.sess, t.pc, t.file⟩

def Server.ledger (s : Server) : Ledger where
  sess := fun sid => (s.heap sid).map Session.core
  nextSid := s.nextSid
  desc := s.fds.get
  watch := s.watch
  info := s.sessinfo
  workers := fun tid => (s.threads tid).map Thread.worker
  nextTid := s.nextTid

/-! ## what a step ends and closes -/

/-- the handler in the table for the command that the record holds -/
def handlerOf (x : Session) : Option Cmd := (lookupCmd x.cmd).join

/-- the command that is handled in this step: its session, the record and the handler -/
def handles (s : Server) : Label → Option (Sid × Session × Cmd)
  | .command _ =>
    match s.main with
    | .command sid _ => (s.heap sid).bind fun x => (handlerOf x).map fun h => (sid, x, h)
    | _ => none
  | _ => none

/-- the session that an event ends: end of file on its control socket, or `EPOLLHUP` alone -/
def eventEnds (c : Conf) (s : Server) (ev : Event) : Option Sid :=
  match s.sessinfo ev.fd with
  | ⟨some f, some sid⟩ =>
    if f.fd = c.listenfd then none
    else if ev.epollin then
      match s.heap sid with
      | none => none
      | some x =>
        if f.type = .ctrl then
          match ctrlRead (s.sock x.ctrlFd) with
          | .ok none => some sid
          | _ => none
        else none
    else if ev.epollout then none
    else if ev.epollhup then some sid else none
  | _ => none

/-- the session whose node is last in the list, when it is overdue -/
def overdue (c : Conf) (now : Int) (s : Server) : Option Sid :=
  match s.tl.pLRU with
  | none => none
  | some n =>
    match s.tl.node n with
    | none => none
    | some node =>
      if TimeList.isTimeout node now c.idleSessionTimeout then some node.sess else none

/-- the session that a step ends: QUIT, end of file, `EPOLLHUP` or the idle limit -/
def ends (c : Conf) (s : Server) : Label → Option Sid
  | .evictOne now => overdue c now s
  | .dispatch _ _ =>
    match s.main with
    | .events (ev :: _) => eventEnds c s ev
    | _ => none
  | .command env =>
    match handles s (.command env) with
    | some (sid, _, .quit) => some sid
    | _ => none
  | _ => none

/-- the descriptor numbers that a transfer thread closes at its stage; `x` is its session -/
def threadCloses (th : Thread) (x : Option Session) : List Fd :=
  match th.pc with
  | .rmData => x.elim [] fun x => x.dataFd.toList
  | .rmPasv => x.elim [] fun x => x.pasvListenFd.toList
  | .closeFile => th.file.toList
  | _ => []

/-- the descriptor numbers that a step closes -/
def closes (c : Conf) (s : Server) (l : Label) : List Fd :=
  match ends c s l with
  | some sid => (s.heap sid).elim [] sessCloses
  | none =>
    match l with
    | .command env =>
      match handles s (.command env) with
      | some (_, x, h) => cmdCloses x env h
      | none => []
    | .thread tid _ =>
      match s.threads tid with
      | some th => threadCloses th (s.heap th.sess)
      | none => []
    | _ => []

/-- the listener that PASV drops from the record without closing it -/
def cmdDrops (sid : Sid) (x : Session) : Cmd → Option (Sid × Fd)
  | .pasv => x.pasvListenFd.map fun fd => (sid, fd)
  | _ => none

/-- the listener that a transfer thread drops from the record of its session `x` -/
def threadDrops (th : Thread) (x : Option Session) : Option (Sid × Fd) :=
  match th.pc with
  | .setPasv => x.bind fun x => x.pasvListenFd.map fun fd => (th.sess, fd)
  | _ => none

/-- the session whose record loses its listener in this step, and the listener -/
def drops (s : Server) (l : Label) : Option (Sid × Fd) :=
  match l with
  | .command env =>
    match handles s (.command env) with
    | some (sid, x, h) => cmdDrops sid x h
    | none => none
  | .thread tid _ =>
    match s.threads tid with
    | some th => threadDrops th (s.heap th.sess)
    | none => none
  | _ => none

/-- the events that still wait once the step has taken its own -/
def waiting (s : Server) : Label → List Event
  | .dispatch _ _ => s.main.pending.tail
  | _ => s.main.pending

def TlAfter (s : Server) (tl : TimeList) : Op → Prop
  | .enter fd => ∃ now, tl = s.tl.addtoNode s.nextSid fd now
  | .evict sid => ∃ n node x, s.tl.pLRU = some n ∧ s.tl.node n = some node ∧ node.sess = sid ∧
      s.heap sid = some x ∧ tl = s.tl.remove n x.ctrlFd
  | _ => tl = s.tl ∨ ∃ fd now, tl = s.tl.refreshTimeout fd now

/-- a step of the server and the operation on its ledger -/
structure Outcome (c : Conf) (s : Server) (l : Label) (s' : Server) (op : Op) : Prop where
  step : s.ledger.Step op s'.ledger
  endsEq : op.ends = ends c s l
  notEvict : ∀ sid, op = .free sid → ∀ now, l ≠ .evictOne now
  closesEq : op.closes s.ledger = closes c s l
  dropsEq : op.drops s.ledger = drops s l
  tl : TlAfter s s'.tl op
  pending : (∃ evs, l = .wait evs) ∨ ∀ ev ∈ s'.main.pending, ev ∈ waiting s l
  handling : ∀ sid, s'.main.serves = some sid →
    s.main.serves = some sid ∧ op.ends = none ∨ ∃ x, s'.heap sid = some x
  stage : ∀ r, op.stage = some r → s.main.stage = some r

/-! ## the ledger after an update -/

section
variable {s : Server} {sid : Sid} {x : Session} {fd : Fd}

@[simp] theorem emit_ledger (a : Act) : (s.emit a).ledger = s.ledger := rfl
@[simp] theorem goto_ledger (pc : Main) : (s.goto pc).ledger = s.ledger := rfl

theorem put_ledger (y : Session) : (s.put sid y).ledger = s.ledger.setSess sid (some y.core) := by
  unfold Server.ledger Ledger.setSess
  congr 1
  exact Function.comp_update (Option.map Session.core) s.heap sid (some y)

theorem ledger_sess (hx : s.heap sid = some x) : s.ledger.sess sid = some x.core := by
  show (s.heap sid).map _ = _
  rw [hx]
  rfl

theorem put_same_ledger {y : Session} (hx : s.heap sid = some x) (hc : y.core = x.core) :
    (s.put sid y).ledger = s.ledger := by
  rw [put_ledger, hc]
  unfold Ledger.setSess
  rw [← ledger_sess hx, Function.update_eq_self]

@[simp] theorem close_ledger : (s.close fd).ledger = s.ledger.close fd := rfl

@[simp] theorem closeOpt_ledger (o : Option Fd) :
    (s.closeOpt o).ledger = s.ledger.closeOpt o := by cases o <;> rfl

theorem lowest_free : s.ledger.desc s.fds.lowest = none := s.fds.lowest_none

theorem setThread_ledger (tid : Tid) (t : Thread) :
    (setThread tid s t).ledger = s.ledger.setWorker tid (some t.worker) := by
  unfold Server.ledger Ledger.setWorker setThread
  congr 1
  exact Function.comp_update (Option.map Thread.worker) s.threads tid (some t)

theorem endThread_ledger (tid : Tid) : (endThread tid s).ledger = s.ledger.setWorker tid none := by
  unfold Server.ledger Ledger.setWorker endThread
  congr 1
  exact Function.comp_update (Option.map Thread.worker) s.threads tid none

theorem forget_ledger (t : Server) (sid : Sid) (fd : Fd) :
    ({ t with
      heap := Function.update t.heap sid none
      sessinfo := Function.update t.sessinfo fd Edata.null } : Server).ledger
    = { t.ledger with
      sess := Function.update t.ledger.sess sid none
      info := Function.update t.ledger.info fd Edata.null } := by
  unfold Server.ledger
  congr 1
  exact Function.comp_update (Option.map Session.core) t.heap sid none

theorem closed_ledger : (closed s sid x).ledger = s.ledger.freed sid x.core := by
  unfold closed Ledger.freed
  dsimp only
  rw [forget_ledger, closeOpt_ledger, closeOpt_ledger, close_ledger]
  rfl

end

/-! ## steps that the ledger does not see -/

structure Same (s s' : Server) : Prop where
  ledger : s'.ledger = s.ledger
  tl : s'.tl = s.tl
  main : s'.main = s.main

namespace Same

variable {s t u : Server} {sid : Sid} {x y : Session}

theorem refl (s : Server) : Same s s := ⟨rfl, rfl, rfl⟩

theorem trans (h : Same s t) (h' : Same t u) : Same s u :=
  ⟨h'.ledger.trans h.ledger, h'.tl.trans h.tl, h'.main.trans h.main⟩

theorem emit (s : Server) (a : Act) : Same s (s.emit a) := ⟨rfl, rfl, rfl⟩

theorem put (hx : s.heap sid = some x) (hc : y.core = x.core) : Same s (s.put sid y) :=
  ⟨put_same_ledger hx hc, rfl, rfl⟩

theorem put_emit {a : Act} (hx : s.heap sid = some x) (hc : y.core = x.core) :
    Same s ((s.put sid y).emit a) := (put hx hc).trans (emit _ a)

theorem emits (s : Server) (as : List Act) : Same s (s.emits as) := ⟨rfl, rfl, rfl⟩

end Same

/-- the handlers that open, close and hand over no descriptor -/
def Cmd.quiet : Cmd → Bool
  | .pass => false
  | .cwd => false
  | .quit => false
  | .pasv => false
  | .retr => false
  | .stor => false
  | .list => false
  | _ => true

section
variable {c : Conf} {env : Env} {sid : Sid} {x : Session} {s s' : Server} {h : Cmd} {y : Yield}

theorem record_core {fd : Fd} (hp : h ≠ .pass) (hc : h ≠ .cwd) (hv : h ≠ .pasv) (hl : h ≠ .list) :
    (h.record c env x fd).core = x.core := by
  cases h with
  | pass => exact absurd rfl hp
  | cwd => exact absurd rfl hc
  | pasv => exact absurd rfl hv
  | list => exact absurd rfl hl
  | user =>
    show ((c.getpwnam x.arg).elim x fun pw => { x with uid := pw.uid }).core = x.core
    cases c.getpwnam x.arg <;> rfl
  | type =>
    unfold Cmd.record
    dsimp only
    split
    · rfl
    · split <;> rfl
  | _ => rfl

theorem closeAll_keeps {α : Type} (f : Server → α) (hf : ∀ s fd, f (Server.close s fd) = f s) (fds : List Fd) :
    f (s.closeAll fds) = f s := by
  unfold closeAll
  induction fds generalizing s with
  | nil => rfl
  | cons fd fds ih => rw [List.foldl_cons, ih, hf]

theorem closeAll_append (a b : List Fd) : s.closeAll (a ++ b) = (s.closeAll a).closeAll b := List.foldl_append

theorem closeAll_toList (o : Option Fd) : s.closeAll o.toList = s.closeOpt o := by cases o <;> rfl

theorem Yields.ledger_eq (hy : Yields sid y s s') (hk : y.starts = none) :
    s'.ledger = (((s.opened y.opens).closeAll y.shuts).put sid y.record).ledger := by
  have hthr := hy.threads
  have hnext := hy.nextTid
  rw [hk] at hthr hnext
  obtain ⟨h1, h2⟩ := Prod.mk.inj hy.kernel
  obtain ⟨h2, -⟩ := Prod.mk.inj h2
  have hsid : s'.nextSid = s.nextSid := congrArg Books.nextSid hy.books
  have hopen : ∀ o : Option Desc, (s.opened o).heap = s.heap ∧ (s.opened o).nextSid = s.nextSid ∧
      (s.opened o).sessinfo = s.sessinfo ∧ (s.opened o).threads = s.threads ∧ (s.opened o).nextTid = s.nextTid :=
    fun o => by cases o <;> exact ⟨rfl, rfl, rfl, rfl, rfl⟩
  obtain ⟨o1, o2, o3, o4, o5⟩ := hopen y.opens
  unfold Server.ledger Server.put
  dsimp only
  rw [hy.heap, h1, h2, hthr, hnext, hsid, hy.sessinfo, closeAll_keeps Server.heap fun _ _ => rfl,
    closeAll_keeps Server.nextSid fun _ _ => rfl, closeAll_keeps Server.sessinfo fun _ _ => rfl,
    closeAll_keeps Server.threads fun _ _ => rfl, closeAll_keeps Server.nextTid fun _ _ => rfl, o1, o2, o3, o4, o5]
  rfl

theorem Yields.ledger (hy : Yields sid y s s') (hx : s.heap sid = some x) (hr : y.record.core = x.core)
    (hk : y.starts = none) (ho : y.opens = none) (hs : y.shuts = []) : s'.ledger = s.ledger := by
  rw [hy.ledger_eq hk, ho, hs]
  exact put_same_ledger hx hr

theorem Yields.ledger_started {k : Kind} (hy : Yields sid y s s') (hx : s.heap sid = some x)
    (hr : y.record.core = x.core) (hk : y.starts = some k) (ho : y.opens = none) (hs : y.shuts = []) :
    s'.ledger = { s.ledger.setWorker s.nextTid (some ⟨sid, .offset, none⟩) with nextTid := s.nextTid + 1 } := by
  have hker := hy.kernel
  have hthr := hy.threads
  have hnext := hy.nextTid
  rw [ho, hs] at hker
  rw [hk] at hthr hnext
  obtain ⟨h1, h2⟩ := Prod.mk.inj hker
  obtain ⟨h2, -⟩ := Prod.mk.inj h2
  have hsid : s'.nextSid = s.nextSid := congrArg Books.nextSid hy.books
  have hsess : (fun j => (s'.heap j).map Session.core) = s.ledger.sess := by
    rw [hy.heap]
    exact congrArg Ledger.sess (put_same_ledger hx hr)
  have hwork : (fun t => (s'.threads t).map Thread.worker) =
      Function.update s.ledger.workers s.nextTid (some ⟨sid, .offset, none⟩) := by
    rw [hthr]
    exact Function.comp_update (Option.map Thread.worker) s.threads s.nextTid _
  unfold Server.ledger Ledger.setWorker
  rw [h1, h2, hnext, hsid, hy.sessinfo]
  congr 1

theorem Yields.tl (hy : Yields sid y s s') : s'.tl = s.tl := congrArg Books.tl hy.books

/-- **Most handlers leave the ledger alone.** -/
theorem runCmd_same (hq : h.quiet = true) (hx : s.heap sid = some x) (he : runCmd c env sid x s h = .ok s') :
    s'.ledger = s.ledger := by
  have hne : h ≠ .quit := by rintro rfl; cases hq
  refine (runCmd_yields hx hne he).ledger hx (record_core ?_ ?_ ?_ ?_) ?_ ?_ ?_
  · rintro rfl; cases hq
  · rintro rfl; cases hq
  · rintro rfl; cases hq
  · rintro rfl; cases hq
  · cases h <;> first | rfl | cases hq
  · cases h <;> first | rfl | cases hq
  · cases h <;> first | rfl | cases hq

end

end Myftpd
