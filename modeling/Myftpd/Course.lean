import Myftpd.Handled

/-!
# A step of a transfer thread as a function

What a step leaves of the thread, the record of its session, the descriptors and the log, as functions of the thread, of
that record and of what the system answers.  Where the rest of the server stands, and what it does in between, does not
matter.

* `Thread.goes`, `Thread.logs`, `Thread.rest`   the parts, and `Thread.stepped`, the state with them;
* `thread_eq`   both routines, in one case analysis each; the later modules only use this;
* `thread_can`  a thread whose session is live can always take its step.
-/

namespace Myftpd
open CMem Server

/-! ## the parts -/

/-- the record of a session; for one that has been freed, that of a new one -/
def Server.seen (s : Server) (sid : Sid) : Session := (s.heap sid).getD (newSession s)

/-- the answer of `openat` to the thread of the session `x` -/
abbrev Session.openFile (x : Session) (env : TEnv) : Option Unit :=
  openatOk x.dirfd x.arg (if env.openat then some () else none)

/-- the stages before the file is open -/
def Pc.begins : Pc → Bool
  | .offset => true
  | .clear => true
  | .open => true
  | _ => false

/-- the stages after the loop -/
def Pc.leaves : Pc → Bool
  | .rmData => true
  | .rmPasv => true
  | .setPasv => true
  | .setData => true
  | .closeFile => true
  | .final => true
  | .checkAbor => true
  | _ => false

namespace Thread

/-- the system refuses what the thread asks of it in its next step -/
def refused (th : Thread) (env : TEnv) (x : Session) : Bool :=
  match th.pc, th.kind with
  | .open, _ => (x.openFile env).isNone
  | .lock, _ => !env.lock
  | .stat, _ => !env.fstat.1
  | .seek, .retr => decide (env.lseek = false ∨ wrapS 32 th.offset = -1)
  | .seek, .stor _ => !env.lseek
  | _, _ => false

/-- the thread returns in its next step -/
def returns (th : Thread) (env : TEnv) (x : Session) : Bool :=
  decide (th.pc = .checkAbor) || th.refused env x

/-- the step reads or writes the record of the session -/
def usesRecord (env : TEnv) (th : Thread) : Bool :=
  match th.pc, th.kind with
  | .lock, _ => !env.lock
  | .stat, _ => !env.fstat.1
  | .seek, .retr => decide (env.lseek = false ∨ wrapS 32 th.offset = -1)
  | .seek, .stor _ => !env.lseek
  | .loop, .retr => decide (th.left ≠ 0)
  | .trunc, _ => false
  | .write _, _ => false
  | .closeFile, _ => false
  | _, _ => true

/-- what `sendfile` is asked for -/
def num (th : Thread) : Nat := if th.left > 4096 then 4096 else th.left.toNat

/-- what `sendfile(sess->data_fd, ..)` returns, `none` for -1 -/
def sends (th : Thread) (env : TEnv) (x : Session) : Option Nat :=
  x.dataFd.bind fun _ => env.sendfile.map fun n => min n th.num

/-- what `read(sess->data_fd, ..)` returns -/
def reads (env : TEnv) (x : Session) : IoRes :=
  match x.dataFd, env.read with
  | none, _ => .err
  | some _, .ok n => .ok (min n 1024)
  | some _, r => r

/-- the thread after its step, if it does not return; `fd` is the lowest free descriptor -/
def goes (env : TEnv) (x : Session) (fd : Fd) (th : Thread) : Thread :=
  match th.pc, th.kind with
  | .offset, _ => { th with offset := x.restartPos, pc := .clear }
  | .clear, _ => { th with pc := .open }
  | .open, _ => { th with file := some fd, pc := .lock }
  | .lock, .retr => { th with pc := .stat }
  | .lock, .stor isAppend => { th with pc := if isAppend = false ∧ th.offset = 0 then .trunc else .seek }
  | .trunc, .stor _ => { th with pc := .seek }
  | .seek, .retr => { th with pc := .opening }
  | .seek, .stor _ => { th with pc := .stat }
  | .stat, .retr => { th with size := env.fstat.2, pc := if th.offset = 0 then .opening else .seek }
  | .stat, .stor _ => { th with size := env.fstat.2, pc := .opening }
  | .opening, _ =>
    { th with flag := 0, left := if th.offset > th.size then 0 else th.size - th.offset, pc := .loop }
  | .loop, .retr =>
    if th.left = 0 then { th with flag := 0, pc := .rmData } else
    match th.sends env x with
    | none => { th with flag := 2, pc := .rmData }
    | some n => if x.aborReceived then { th with flag := 2, pc := .rmData } else { th with left := th.left - n }
  | .loop, .stor _ =>
    match Thread.reads env x with
    | .intr => th
    | .err => { th with flag := 2, pc := .rmData }
    | .ok 0 => { th with flag := 0, pc := .rmData }
    | .ok (n + 1) => if x.aborReceived then { th with flag := 2, pc := .rmData } else { th with pc := .write (n + 1) }
  | .write n, .stor _ =>
    match env.write with
    | .intr => th
    | .err => { th with flag := 1, pc := .rmData }
    | .ok k => { th with pc := if n - k = 0 then .loop else .write (n - k) }
  | .rmData, _ => { th with pc := .rmPasv }
  | .rmPasv, _ => { th with pc := .setPasv }
  | .setPasv, _ => { th with pc := .setData }
  | .setData, _ => { th with pc := .closeFile }
  | .closeFile, _ => { th with pc := .final }
  | .final, _ => { th with pc := .checkAbor }
  | _, _ => th

def after (env : TEnv) (x : Session) (fd : Fd) (th : Thread) : Option Thread :=
  if th.returns env x = true then none else some (th.goes env x fd)

/-- the texts of the final reply; with ABOR there may be none -/
def closing (x : Session) (th : Thread) : List Act :=
  if th.flag = 0 ∧ x.aborReceived = false then replied th.sess th.cmd x FTP_TRANSFEROK (ascii "Transfer complete.")
  else if th.flag = 1 then replied th.sess th.cmd x FTP_BADSENDFILE (ascii (badFileText th.kind))
  else if th.flag = 2 then replied th.sess th.cmd x FTP_BADSENDNET (ascii (badNetText th.kind))
  else []

/-- what a stage adds to the log when nothing is refused -/
def acts (env : TEnv) (x : Session) (th : Thread) : List Act :=
  match th.pc, th.kind with
  | .open, .retr => [.fs th.sess (.openRead (.dirfd x.dirfd) x.arg)]
  | .open, .stor _ => [.fs th.sess (.create (.dirfd x.dirfd) x.arg)]
  | .trunc, .stor _ => [.fs th.sess .truncate]
  | .opening, _ => replied th.sess th.cmd x FTP_DATACONN (openingText x th.size)
  | .loop, .retr => if th.left = 0 then [] else (th.sends env x).elim [] fun n => [.fs th.sess (.send n)]
  | .write n, .stor _ =>
    match env.write with
    | .ok k => [.fs th.sess (.write (min k n))]
    | _ => []
  | .final, _ => th.closing x
  | .checkAbor, _ => if x.aborReceived = true then [.mainReply FTP_ABOROK (ascii "ABOR successful")] else []
  | _, _ => []

/-- what a stage adds to the log -/
def logs (env : TEnv) (x : Session) (th : Thread) : List Act :=
  if th.refused env x = true then replied th.sess th.cmd x (failReply th.kind).1 (ascii (failReply th.kind).2)
  else th.acts env x

/-- the server after the step, but for the thread and the log -/
def rest (env : TEnv) (tid : Tid) (x : Session) (th : Thread) (s : Server) : Server :=
  match th.pc with
  | .clear => s.put th.sess { x with restartPos := 0 }
  | .open => if (x.openFile env).isNone = true then s else { s with fds := s.fds.alloc (.file tid) }
  | .rmData => s.removefd x.dataFd
  | .rmPasv => s.removefd x.pasvListenFd
  | .setPasv => s.put th.sess { x with pasvListenFd := none }
  | .setData => s.put th.sess { x with dataFd := none }
  | .closeFile => s.closeOpt th.file
  | .checkAbor => if x.aborReceived = true then s.put th.sess { x with aborReceived := false } else s
  | _ => s

/-- the server after the step -/
def stepped (env : TEnv) (tid : Tid) (x : Session) (th : Thread) (s : Server) : Server :=
  let t := (th.rest env tid x s).emits (th.logs env x)
  { t with threads := Function.update s.threads tid (th.after env x s.fds.lowest) }

/-- the step; on the record of a session that has been freed it is a memory error -/
def outcome (env : TEnv) (tid : Tid) (th : Thread) (s : Server) : Res Server :=
  if th.usesRecord env = true ∧ s.heap th.sess = none then .error (.crash .freed)
  else .ok (th.stepped env tid (s.seen th.sess) s)

end Thread

section
variable {env : TEnv} {tid : Tid} {th u : Thread} {s s' t : Server} {x : Session} {fd : Fd}

theorem seen_of (hx : s.heap th.sess = some x) : s.seen th.sess = x := by
  unfold Server.seen
  rw [hx]
  rfl

theorem withSess_eq (hx : s.heap th.sess = some x) (f : Session → Res Server) : withSess th s f = f x := by
  unfold withSess
  rw [hx]

theorem emits_nil (s : Server) : s.emits [] = s := by
  unfold Server.emits
  rw [List.append_nil]

theorem setThread_same (hth : s.threads tid = some th) : setThread tid s th = s := by
  unfold setThread
  rw [← hth, Function.update_eq_self]

theorem rest_threads : (th.rest env tid x s).threads = s.threads := by
  have hclose : ∀ o : Option Fd, (s.closeOpt o).threads = s.threads := fun o => by cases o <;> rfl
  unfold Thread.rest
  cases th.pc with
  | rmData => exact hclose _
  | rmPasv => exact hclose _
  | closeFile => exact hclose _
  | «open» => dsimp only; split <;> rfl
  | checkAbor => dsimp only; split <;> rfl
  | _ => rfl

theorem rest_log : (th.rest env tid x s).log = s.log := by
  have hclose : ∀ o : Option Fd, (s.closeOpt o).log = s.log := fun o => by cases o <;> rfl
  unfold Thread.rest
  cases th.pc with
  | rmData => exact hclose _
  | rmPasv => exact hclose _
  | closeFile => exact hclose _
  | «open» => dsimp only; split <;> rfl
  | checkAbor => dsimp only; split <;> rfl
  | _ => rfl

theorem stepped_on (hret : th.returns env x = false) :
    th.stepped env tid x s =
      setThread tid ((th.rest env tid x s).emits (th.logs env x)) (th.goes env x s.fds.lowest) := by
  unfold Thread.stepped Thread.after setThread
  rw [if_neg (Bool.eq_false_iff.mp hret)]
  dsimp only [Server.emits]
  rw [rest_threads]

theorem stepped_done (hret : th.returns env x = true) :
    th.stepped env tid x s = endThread tid ((th.rest env tid x s).emits (th.logs env x)) := by
  unfold Thread.stepped Thread.after endThread
  rw [if_pos hret]
  dsimp only [Server.emits]
  rw [rest_threads]

theorem stays_of (hpc : th.pc ≠ .checkAbor) (h : th.refused env x = false) : th.returns env x = false := by
  unfold Thread.returns
  rw [h, decide_eq_false hpc]
  rfl

theorem stepped_quiet (hret : th.returns env x = false) (hlog : th.logs env x = []) :
    th.stepped env tid x s = setThread tid (th.rest env tid x s) (th.goes env x s.fds.lowest) := by
  rw [stepped_on hret, hlog, emits_nil]

theorem quiet_ok (hret : th.returns env x = false) (hlog : th.logs env x = [])
    (ht : t = setThread tid (th.rest env tid x s) (th.goes env x s.fds.lowest)) :
    (.ok t : Res Server) = .ok (th.stepped env tid x s) := by
  rw [ht, stepped_quiet hret hlog]

theorem stepped_idle (hth : s.threads tid = some th) (hret : th.returns env x = false) (hlog : th.logs env x = [])
    (hrest : th.rest env tid x s = s) (hgo : th.goes env x s.fds.lowest = th) : th.stepped env tid x s = s := by
  rw [stepped_quiet hret hlog, hrest, hgo, setThread_same hth]

theorem outcome_of (hx : s.heap th.sess = some x) : th.outcome env tid s = .ok (th.stepped env tid x s) := by
  unfold Thread.outcome
  rw [hx, seen_of hx]
  exact if_neg fun h => Option.some_ne_none x h.2

theorem outcome_free (hu : th.usesRecord env = false) :
    th.outcome env tid s = .ok (th.stepped env tid (s.seen th.sess) s) :=
  if_neg fun h => Bool.false_ne_true (hu.symm.trans h.1)

theorem withSess_outcome {f : Session → Res Server} (hu : th.usesRecord env = true)
    (h : ∀ x, s.heap th.sess = some x → f x = .ok (th.stepped env tid x s)) :
    withSess th s f = th.outcome env tid s := by
  unfold withSess
  cases hx : s.heap th.sess with
  | none => exact (if_pos ⟨hu, hx⟩).symm
  | some x => exact (h x hx).trans (outcome_of hx).symm

/-- **A refusal** is told, and the thread returns. -/
theorem stepped_refused (hr : th.refused env x = true) (hrest : th.rest env tid x s = s) :
    th.stepped env tid x s = endThread tid (s.ftpReply th.sess x (some th.cmd) (failReply th.kind).1
      (ascii (failReply th.kind).2)) := by
  have hret : th.returns env x = true := by
    unfold Thread.returns
    rw [hr, Bool.or_true]
  rw [stepped_done hret, hrest]
  unfold Thread.logs
  rw [if_pos hr]
  rfl

theorem giveUp_eq (hu : th.usesRecord env = true) (hr : ∀ x, th.refused env x = true)
    (hrest : ∀ x, th.rest env tid x s = s) : giveUp tid th s = th.outcome env tid s :=
  withSess_outcome hu fun x _ => congrArg Except.ok (stepped_refused (hr x) (hrest x)).symm

/-! ## the stages that the two routines share -/

theorem enterStep_eq (hin : th.pc.begins = true) : enterStep env tid th s th.pc = th.outcome env tid s := by
  obtain ⟨sess, cmd, kind, p, offset, file, size, left, flag⟩ := th
  cases p with
  | offset => exact withSess_outcome rfl fun x _ => quiet_ok rfl rfl rfl
  | clear => exact withSess_outcome rfl fun x _ => quiet_ok rfl rfl rfl
  | «open» =>
    refine withSess_outcome rfl fun x hx => ?_
    cases ho : openatOk x.dirfd x.arg (if env.openat = true then some () else none) with
    | none =>
      have hr : Thread.refused ⟨sess, cmd, kind, .open, offset, file, size, left, flag⟩ env x = true :=
        Option.isNone_iff_eq_none.mpr ho
      exact (withSess_eq hx _).trans (congrArg Except.ok (stepped_refused hr (if_pos hr)).symm)
    | some u =>
      have hr : Thread.refused ⟨sess, cmd, kind, .open, offset, file, size, left, flag⟩ env x = false :=
        Option.isNone_eq_false_iff.mpr (Option.isSome_of_eq_some ho)
      have hret : Thread.returns ⟨sess, cmd, kind, .open, offset, file, size, left, flag⟩ env x = false := hr
      have hrest : Thread.rest env tid x ⟨sess, cmd, kind, .open, offset, file, size, left, flag⟩ s =
        { s with fds := s.fds.alloc (.file tid) } := if_neg (Bool.eq_false_iff.mp hr)
      rw [stepped_on hret, hrest]
      unfold Thread.logs
      rw [if_neg (Bool.eq_false_iff.mp hr)]
      cases kind with
      | retr => rfl
      | stor a => rfl
  | _ => cases hin

theorem openingStep_eq (hpc : th.pc = .opening) : openingStep tid th s = th.outcome env tid s := by
  obtain ⟨sess, cmd, kind, p, offset, file, size, left, flag⟩ := th
  cases hpc
  refine withSess_outcome rfl fun x _ => ?_
  rw [stepped_on rfl]
  rfl

theorem leaveStep_eq (hin : th.pc.leaves = true) : leaveStep tid th s th.pc = th.outcome env tid s := by
  obtain ⟨sess, cmd, kind, p, offset, file, size, left, flag⟩ := th
  cases p with
  | rmData => exact withSess_outcome rfl fun x _ => quiet_ok rfl rfl rfl
  | rmPasv => exact withSess_outcome rfl fun x _ => quiet_ok rfl rfl rfl
  | setPasv => exact withSess_outcome rfl fun x _ => quiet_ok rfl rfl rfl
  | setData => exact withSess_outcome rfl fun x _ => quiet_ok rfl rfl rfl
  | closeFile =>
    rw [outcome_free rfl]
    exact quiet_ok rfl rfl rfl
  | final =>
    refine withSess_outcome rfl fun x _ => ?_
    rw [stepped_on rfl]
    show Except.ok (next tid _ _ .checkAbor) = .ok (setThread tid (s.emits (Thread.closing x _)) _)
    unfold Thread.closing
    dsimp only
    split
    · rfl
    · split
      · rfl
      · split
        · rfl
        · rw [emits_nil]
          rfl
  | checkAbor =>
    refine withSess_outcome rfl fun x _ => ?_
    have hlogs : Thread.logs env x ⟨sess, cmd, kind, .checkAbor, offset, file, size, left, flag⟩ =
      if x.aborReceived = true then [.mainReply FTP_ABOROK (ascii "ABOR successful")] else [] := rfl
    have hrest : Thread.rest env tid x ⟨sess, cmd, kind, .checkAbor, offset, file, size, left, flag⟩ s =
      if x.aborReceived = true then s.put sess { x with aborReceived := false } else s := rfl
    rw [stepped_done rfl, hlogs, hrest]
    by_cases ha : x.aborReceived = true
    · rw [if_pos ha, if_pos ha, if_pos ha]
      rfl
    · rw [if_neg ha, if_neg ha, if_neg ha, emits_nil]
  | _ => cases hin

/-! ## the two routines -/

/-- a stage that has been granted what it asks for -/
theorem granted_eq (hu : th.usesRecord env = false) (hr : ∀ x, th.refused env x = false) (hc : th.pc ≠ .checkAbor)
    (hacts : ∀ x, th.acts env x = []) (hrest : ∀ x, th.rest env tid x s = s)
    (hgo : ∀ x, th.goes env x s.fds.lowest = u) : .ok (setThread tid s u) = th.outcome env tid s := by
  have hret : th.returns env (s.seen th.sess) = false := stays_of hc (hr _)
  have hlog : th.logs env (s.seen th.sess) = [] := by
    unfold Thread.logs
    rw [hr, hacts]
    rfl
  rw [outcome_free hu]
  exact quiet_ok hret hlog (by rw [hrest, hgo])

theorem tested_eq {b : Bool} (hu : th.usesRecord env = !b) (hr : ∀ x, th.refused env x = !b) (hc : th.pc ≠ .checkAbor)
    (hacts : ∀ x, th.acts env x = []) (hrest : ∀ x, th.rest env tid x s = s)
    (hgo : ∀ x, th.goes env x s.fds.lowest = u) :
    (if b = true then .ok (setThread tid s u) else giveUp tid th s) = th.outcome env tid s := by
  cases b with
  | true => exact granted_eq hu hr hc hacts hrest hgo
  | false => exact giveUp_eq hu hr hrest

theorem idle_eq (hth : s.threads tid = some th) (hu : th.usesRecord env = false)
    (hret : ∀ x, th.returns env x = false) (hlog : ∀ x, th.logs env x = []) (hrest : ∀ x, th.rest env tid x s = s)
    (hgo : ∀ x, th.goes env x s.fds.lowest = th) : .ok s = th.outcome env tid s := by
  rw [outcome_free hu, stepped_idle hth (hret _) (hlog _) (hrest _) (hgo _)]

/-- **`threadRetr`**, every stage. -/
theorem retrStep_eq (hk : th.kind = .retr) (hth : s.threads tid = some th) :
    retrStep env tid th s = th.outcome env tid s := by
  obtain ⟨sess, cmd, kind, p, offset, file, size, left, flag⟩ := th
  cases hk
  cases p with
  | lock => exact tested_eq rfl (fun _ => rfl) nofun (fun _ => rfl) (fun _ => rfl) (fun _ => rfl)
  | stat => exact tested_eq rfl (fun _ => rfl) nofun (fun _ => rfl) (fun _ => rfl) (fun _ => rfl)
  | seek =>
    by_cases hl : env.lseek = false ∨ wrapS 32 offset = -1
    · exact (if_pos hl).trans (giveUp_eq (decide_eq_true hl) (fun _ => decide_eq_true hl) (fun _ => rfl))
    · exact (if_neg hl).trans (granted_eq (decide_eq_false hl) (fun _ => decide_eq_false hl) nofun (fun _ => rfl)
        (fun _ => rfl) (fun _ => rfl))
  | loop =>
    by_cases h0 : left = 0
    · subst h0
      exact granted_eq rfl (fun _ => rfl) nofun (fun _ => rfl) (fun _ => rfl) (fun _ => rfl)
    · refine (if_neg h0).trans (withSess_outcome (decide_eq_true h0) fun x _ => ?_)
      rw [stepped_on rfl]
      show _ = Except.ok (setThread tid (s.emits (if left = 0 then [] else _)) (if left = 0 then _ else _))
      rw [if_neg h0, if_neg h0]
      unfold Thread.sends
      cases hd : x.dataFd with
      | none => exact congrArg (fun t => Except.ok (setThread tid t _)) (emits_nil s).symm
      | some fd =>
        cases hn : env.sendfile with
        | none => exact congrArg (fun t => Except.ok (setThread tid t _)) (emits_nil s).symm
        | some n =>
          cases ha : x.aborReceived with
          | true => rfl
          | false => rfl
  | trunc => exact idle_eq hth rfl (fun _ => rfl) (fun _ => rfl) (fun _ => rfl) (fun _ => rfl)
  | write n => exact idle_eq hth rfl (fun _ => rfl) (fun _ => rfl) (fun _ => rfl) (fun _ => rfl)
  | opening => unfold retrStep; exact openingStep_eq rfl
  | offset => unfold retrStep; exact enterStep_eq rfl
  | clear => unfold retrStep; exact enterStep_eq rfl
  | «open» => unfold retrStep; exact enterStep_eq rfl
  | _ => unfold retrStep; exact leaveStep_eq rfl

/-- **`upload_common`**, every stage. -/
theorem uploadStep_eq {a : Bool} (hk : th.kind = .stor a) (hth : s.threads tid = some th) :
    uploadStep env tid th s a = th.outcome env tid s := by
  obtain ⟨sess, cmd, kind, p, offset, file, size, left, flag⟩ := th
  cases hk
  cases p with
  | lock => exact tested_eq rfl (fun _ => rfl) nofun (fun _ => rfl) (fun _ => rfl) (fun _ => rfl)
  | trunc =>
    rw [outcome_free rfl, stepped_on rfl]
    rfl
  | seek => exact tested_eq rfl (fun _ => rfl) nofun (fun _ => rfl) (fun _ => rfl) (fun _ => rfl)
  | stat => exact tested_eq rfl (fun _ => rfl) nofun (fun _ => rfl) (fun _ => rfl) (fun _ => rfl)
  | loop =>
    refine withSess_outcome rfl fun x _ => ?_
    rw [stepped_quiet rfl rfl]
    unfold Thread.goes Thread.reads
    cases hd : x.dataFd with
    | none => rfl
    | some fd =>
      cases hn : env.read with
      | intr => exact congrArg Except.ok (setThread_same hth).symm
      | err => rfl
      | ok n =>
        cases n with
        | zero => rfl
        | succ n =>
          have hmin : min (n + 1) 1024 = min n 1023 + 1 := by omega
          dsimp only
          rw [hmin]
          cases ha : x.aborReceived with
          | true => rfl
          | false => rfl
  | write n =>
    obtain ⟨openat, lock, ftruncate, lseek, fstat, sendfile, read, write⟩ := env
    cases write with
    | intr => exact idle_eq hth rfl (fun _ => rfl) (fun _ => rfl) (fun _ => rfl) (fun _ => rfl)
    | err => exact granted_eq rfl (fun _ => rfl) nofun (fun _ => rfl) (fun _ => rfl) (fun _ => rfl)
    | ok k =>
      rw [outcome_free rfl, stepped_on rfl]
      rfl
  | opening => unfold uploadStep; exact openingStep_eq rfl
  | offset => unfold uploadStep; exact enterStep_eq rfl
  | clear => unfold uploadStep; exact enterStep_eq rfl
  | «open» => unfold uploadStep; exact enterStep_eq rfl
  | _ => unfold uploadStep; exact leaveStep_eq rfl

/-- **Every step of a transfer thread.** -/
theorem thread_eq (hth : s.threads tid = some th) : threadStep env tid s = th.outcome env tid s := by
  unfold threadStep
  simp only [hth]
  cases hk : th.kind with
  | retr => exact retrStep_eq hk hth
  | stor a => exact uploadStep_eq hk hth

theorem thread_stepped (hth : s.threads tid = some th) (he : threadStep env tid s = .ok s') :
    (th.usesRecord env = true → s.heap th.sess = some (s.seen th.sess)) ∧
      s' = th.stepped env tid (s.seen th.sess) s := by
  rw [thread_eq hth] at he
  unfold Thread.outcome at he
  split at he
  · cases he
  · rename_i hlive
    cases he
    refine ⟨fun hu => ?_, rfl⟩
    cases hx : s.heap th.sess with
    | none => exact absurd ⟨hu, hx⟩ hlive
    | some x => rw [seen_of hx]

theorem thread_after (hth : s.threads tid = some th) (he : threadStep env tid s = .ok s') :
    s'.threads tid = th.after env (s.seen th.sess) s.fds.lowest := by
  rw [(thread_stepped hth he).2]
  exact Function.update_self ..

theorem thread_logs (hth : s.threads tid = some th) (he : threadStep env tid s = .ok s') :
    s'.log = s.log ++ th.logs env (s.seen th.sess) := by
  rw [(thread_stepped hth he).2]
  exact congrArg (· ++ _) rest_log

theorem refused_uses (h : th.refused env x = true) : th.usesRecord env = true := by
  obtain ⟨sess, cmd, kind, p, offset, file, size, left, flag⟩ := th
  cases p with
  | «open» => rfl
  | lock => exact h
  | stat => exact h
  | seek => cases kind <;> exact h
  | _ => cases h

theorem returns_uses (h : th.returns env x = true) : th.usesRecord env = true := by
  unfold Thread.returns at h
  rw [Bool.or_eq_true, decide_eq_true_eq] at h
  rcases h with hpc | hr
  · unfold Thread.usesRecord
    rw [hpc]
  · exact refused_uses hr

/-- **A thread whose session is live** can take its step. -/
theorem thread_can (env : TEnv) (hth : s.threads tid = some th) (hx : s.heap th.sess = some x) :
    ∃ s', threadStep env tid s = .ok s' := ⟨_, (thread_eq hth).trans (outcome_of hx)⟩

end

end Myftpd
