import Myftpd.Epoll

/-!
# What a handler makes of the state

What a handler leaves, as functions of the record and of what the system answers: the record, the descriptors that
are opened and closed, the transfer that is started, the entries of the log, and where the main loop goes on.

* `Yield`          these parts, and `Yields`, a state with them;
* `Cmd.yield`      those of a handler;
* `runCmd_yields`  every handler but QUIT, in one case analysis; the later modules only use this.
-/

namespace Myftpd
open CMem Server

/-! ## the parts -/

/-- the address that PORT leaves in the record -/
def Env.portAddr (env : Env) : SockAddr :=
  let v := fun i => env.portArgs.getD i 0 % 256
  ⟨[v 0, v 1, v 2, v 3], [v 4, v 5]⟩

/-- the record of a session after the handler; `fd` is the lowest free descriptor -/
def Cmd.record (c : Conf) (env : Env) (x : Session) (fd : Fd) : Cmd → Session
  | .user => (c.getpwnam x.arg).elim x fun pw => { x with uid := pw.uid }
  | .pass => if passOk c x = true then { x with dirfd := env.home.map fun _ => fd } else x
  | .cwd => if (openatOk x.dirfd x.arg env.openat).isSome = true then { x with dirfd := some fd } else x
  | .port => { x with portAddr := some env.portAddr }
  | .pasv => { x with pasvListenFd := some fd }
  | .type =>
    if x.arg = ascii "A" then { x with isAscii := true }
    else if x.arg = ascii "I" then { x with isAscii := false } else x
  | .list => if getPasvDataFd x = 0 then x else { x with dataFd := none, pasvListenFd := none }
  | .rest => { x with restartPos := strToLonglong x.arg }
  | .rnfr => { x with rnfrName := some x.arg }
  | .rnto => { x with rnfrName := none }
  | _ => x

def Cmd.opens (c : Conf) (env : Env) (sid : Sid) (x : Session) : Cmd → Option Desc
  | .pass => if passOk c x = true then env.home.map (Desc.cwd sid) else none
  | .cwd => (openatOk x.dirfd x.arg env.openat).map (Desc.cwd sid)
  | .pasv => some (.pasv sid)
  | _ => none

/-- the descriptor numbers that `closeSess` closes -/
def sessCloses (x : Session) : List Fd := x.ctrlFd :: (x.dataFd.toList ++ x.pasvListenFd.toList)

/-- the descriptor numbers that a handler closes, QUIT apart -/
def cmdCloses (x : Session) (env : Env) : Cmd → List Fd
  | .cwd => if (openatOk x.dirfd x.arg env.openat).isSome then x.dirfd.toList else []
  | .list => if getPasvDataFd x = 0 then [] else x.dataFd.toList ++ x.pasvListenFd.toList
  | _ => []

def newThread (sid : Sid) (cmd : Nat) (kind : Kind) : Thread :=
  { sess := sid, cmd := cmd, kind := kind, pc := .offset, offset := 0, file := none, size := 0,
    left := 0, flag := 0 }

def Cmd.starts (env : Env) (x : Session) : Cmd → Option Kind
  | .retr => if getPasvDataFd x ≠ 0 ∧ env.pthreadCreate = true then some .retr else none
  | .stor => if getPasvDataFd x ≠ 0 ∧ env.pthreadCreate = true then some (.stor false) else none
  | _ => none

section
variable (c : Conf) (env : Env) (sid : Sid) (n : Nat) (x : Session)

/-- a reply to line `n` -/
def replied (code : Nat) (text : List UInt8) : List Act := [.reply sid x.ctrlFd (some n) code text]

/-- a call for the session, if it succeeds -/
def called (op : FsOp) (ok : Bool) : List Act := if ok = true then [.fs sid op] else []

/-- the first line of a longer reply -/
def begun (code : Nat) (first : String) : List Act := [.lreply sid x.ctrlFd (some n) code (ascii first)]

/-- the listing that goes to the data connection -/
def listed : List Act := env.opendir.elim [] fun es =>
  .fs sid (.list (.dirfd x.dirfd)) :: (shown es).map fun e => .data sid x.dataFd e.line

def chmodLogs (arg : List UInt8) : List Act :=
  if arg = [] then replied sid n x FTP_BADCMD (ascii "SITE CHMOD needs 2 arguments.") else
  (split100 arg).elim [] fun p =>
    if p.2 = [] then replied sid n x FTP_BADCMD (ascii "SITE CHMOD needs 2 arguments.") else
    called sid (.chmod p.2 (strOctalToUint p.1)) env.chmod ++ replied sid n x FTP_CHMODOK
      (ascii (if env.chmod = true then "SITE CHMOD command ok." else "SITE CHMOD command failed."))

def umaskLogs (arg : List UInt8) : List Act :=
  if arg = [] then replied sid n x FTP_UMASKOK (ascii "Your current UMASK is 0" ++ fmtOct c.localUmask) else
  .umask (strOctalToUint arg) ::
    replied sid n x FTP_UMASKOK (ascii "UMASK set to 0" ++ fmtOct (strOctalToUint arg))

/-- what a handler adds to the log -/
def Cmd.logs : Cmd → List Act
  | .user => (c.getpwnam x.arg).elim (replied sid n x FTP_LOGINERR (ascii "Login incorrect.")) fun _ =>
      replied sid n x FTP_GIVEPWORD (ascii "Please specify the password.")
  | .pass =>
    if passOk c x = true ∧ env.home.isSome = true then replied sid n x FTP_LOGINOK (ascii "Login successful.")
    else replied sid n x FTP_LOGINERR (ascii "Login incorrect.")
  | .cwd =>
    if (openatOk x.dirfd x.arg env.openat).isSome = true then
      .fs sid (.chdirTo (.dirfd x.dirfd) x.arg) ::
        replied sid n x FTP_CWDOK (ascii "Directory successfully changed.")
    else replied sid n x FTP_FILEFAIL (ascii "Failed to change directory.")
  | .cdup =>
    if env.chdirUp = true then .chdirUp :: replied sid n x FTP_CWDOK (ascii "Directory successfully changed.")
    else replied sid n x FTP_FILEFAIL (ascii "Failed to change directory.")
  | .quit => replied sid n x FTP_GOODBYE (ascii "Goodbye.")
  | .port => replied sid n x FTP_PORTOK (ascii "PORT command successful. Consider using PASV.")
  | .pasv => []
  | .type =>
    if x.arg = ascii "A" then replied sid n x FTP_TYPEOK (ascii "Switching to ASCII mode.")
    else if x.arg = ascii "I" then replied sid n x FTP_TYPEOK (ascii "Switching to Binary mode.")
    else replied sid n x FTP_BADCMD (ascii "Unrecognised TYPE command.")
  | .retr => []
  | .stor => []
  | .appe => []
  | .list =>
    if getPasvDataFd x = 0 then [] else
    replied sid n x FTP_DATACONN (ascii "Here comes the directory listing.") ++ (listed env sid x ++
      replied sid n x FTP_TRANSFEROK (ascii "Directory send OK."))
  | .nlst => []
  | .rest => replied sid n x FTP_RESTOK
      (ascii "Restart position accepted (" ++ fmtDec (strToLonglong x.arg) ++ ascii ").")
  | .abor => replied sid n x FTP_ABOR_NOCONN (ascii "No transfer to ABOR")
  | .pwd => replied sid n x FTP_PWDOK (ascii "\"" ++ fmtStr (getFileName env x.dirfd) ++ ascii "\"")
  | .mkd => called sid (.mkdir x.arg) env.mkdir ++
      if env.mkdir = true then replied sid n x FTP_MKDIROK (mkdText env x)
      else replied sid n x FTP_FILEFAIL (ascii "Create directory operation failed.")
  | .rmd => called sid (.rmdir x.arg) env.rmdir ++
      if env.rmdir = true then replied sid n x FTP_RMDIROK (ascii "Remove directory operation successful.")
      else replied sid n x FTP_FILEFAIL (ascii "Remove directory operation failed.")
  | .dele => called sid (.unlink x.arg) env.unlink ++
      if env.unlink = true then replied sid n x FTP_DELEOK (ascii "Delete operation successful.")
      else replied sid n x FTP_FILEFAIL (ascii "Delete operation failed.")
  | .rnfr => replied sid n x FTP_RNFROK (ascii "Ready for RNTO")
  | .rnto => x.rnfrName.elim (replied sid n x FTP_NEEDRNFR (ascii "RNFR required first.")) fun old =>
      called sid (.rename old x.arg) env.rename ++ replied sid n x FTP_RENAMEOK (ascii "Rename successful.")
  | .site => (split100 x.arg).elim [] fun p =>
      if p.1 = ascii "CHMOD" then chmodLogs env sid n x p.2
      else if p.1 = ascii "UMASK" then umaskLogs c sid n x p.2
      else if p.1 = ascii "HELP" then replied sid n x FTP_SITEHELP (ascii "CHMOD UMASK HELP")
      else replied sid n x FTP_BADCMD (ascii "Unknown SITE command.")
  | .syst => replied sid n x FTP_SYSTOK (ascii "UNIX Type: L8")
  | .feat => begun sid n x FTP_FEAT "Features:"
  | .size => env.stat.elim (replied sid n x FTP_FILEFAIL (ascii "SIZE operation failed.")) fun p =>
      .fs sid (.stat x.arg) :: if p.1 = true then replied sid n x FTP_SIZEOK (fmtDec p.2)
        else replied sid n x FTP_FILEFAIL (ascii "SIZE operation failed.")
  | .stat => begun sid n x FTP_STATOK "FTP server status:"
  | .noop => replied sid n x FTP_NOOPOK (ascii "NOOP ok.")
  | .help => begun sid n x FTP_HELP "The following commands are recognized."

/-- where the main loop stands when the handler leaves it -/
def Cmd.leads (m : Main) : Cmd → Main
  | .pasv => .pasv sid (pasvText env.localip (env.tcpServer.getD 0)) .name m.pending
  | .feat => .reply sid (linesThen (featLines.map ascii) FTP_FEAT "End") m.pending
  | .stat => .reply sid (linesThen (statLines x) FTP_STATOK "End of status") m.pending
  | .help => .reply sid (linesThen (helpLines.map ascii) FTP_HELP "Help OK.") m.pending
  | _ => m

end

/-- what a handler leaves -/
structure Yield where
  record : Session
  starts : Option Kind
  opens : Option Desc
  shuts : List Fd
  leads : Main
  logs : List Act

def Cmd.yield (c : Conf) (env : Env) (sid : Sid) (x : Session) (s : Server) (h : Cmd) : Yield :=
  ⟨h.record c env x s.fds.lowest, h.starts env x, h.opens c env sid x, cmdCloses x env h,
    h.leads env sid x s.main, h.logs c env sid s.cmdNo x⟩

/-- what the kernel keeps: the descriptor table, the registrations, the control sockets -/
def Server.kernel (s : Server) : Slots Desc × (Fd → Bool) × (Fd → Sock) := (s.fds, s.watch, s.sock)

/-- the timeout list, the two counts of `handleNewConn`, and the number of the next session -/
structure Books where
  tl : TimeList
  children : Nat
  ipCount : Nat → Option Nat
  nextSid : Sid

def Server.books (s : Server) : Books := ⟨s.tl, s.sChildren, s.sIpCount, s.nextSid⟩

/-- `s'` has come from `s` by the parts `y`, for the session `sid` -/
structure Yields (sid : Sid) (y : Yield) (s s' : Server) : Prop where
  heap : s'.heap = Function.update s.heap sid (some y.record)
  threads : s'.threads = y.starts.elim s.threads fun k =>
    Function.update s.threads s.nextTid (some (newThread sid s.cmdNo k))
  nextTid : s'.nextTid = y.starts.elim s.nextTid fun _ => s.nextTid + 1
  kernel : s'.kernel = ((s.opened y.opens).closeAll y.shuts).kernel
  sessinfo : s'.sessinfo = s.sessinfo
  books : s'.books = s.books
  cmdNo : s'.cmdNo = s.cmdNo
  main : s'.main = y.leads
  log : s'.log = s.log ++ y.logs

section
variable {c : Conf} {env : Env} {sid : Sid} {x z : Session} {s s' t : Server} {h : Cmd} {y : Yield}
  {o : Option Desc} {fds : List Fd} {m : Main} {as bs : List Act} {k : Option Kind} {code : Nat} {text : List UInt8}

namespace Yields

theorem refl (hx : s.heap sid = some x) : Yields sid ⟨x, none, none, [], s.main, []⟩ s s where
  heap := by rw [← hx, Function.update_eq_self]
  threads := rfl
  nextTid := rfl
  kernel := rfl
  sessinfo := rfl
  books := rfl
  cmdNo := rfl
  main := rfl
  log := (List.append_nil _).symm

theorem put (hy : Yields sid y s t) (z : Session) : Yields sid { y with record := z } s (t.put sid z) where
  heap := by
    show Function.update t.heap sid (some z) = _
    rw [hy.heap, Function.update_idem]
  threads := hy.threads
  nextTid := hy.nextTid
  kernel := hy.kernel
  sessinfo := hy.sessinfo
  books := hy.books
  cmdNo := hy.cmdNo
  main := hy.main
  log := hy.log

theorem emits (hy : Yields sid y s t) (bs : List Act) : Yields sid { y with logs := y.logs ++ bs } s (t.emits bs) where
  heap := hy.heap
  threads := hy.threads
  nextTid := hy.nextTid
  kernel := hy.kernel
  sessinfo := hy.sessinfo
  books := hy.books
  cmdNo := hy.cmdNo
  main := hy.main
  log := by
    show t.log ++ bs = _
    rw [hy.log, List.append_assoc]

theorem emit (hy : Yields sid y s t) (a : Act) : Yields sid { y with logs := y.logs ++ [a] } s (t.emit a) := hy.emits [a]

theorem reply (hy : Yields sid y s t) (x : Session) (code : Nat) (text : List UInt8) :
    Yields sid { y with logs := y.logs ++ replied sid s.cmdNo x code text } s
      (t.ftpReply sid x (some t.cmdNo) code text) := by
  rw [hy.cmdNo]
  exact hy.emits _

theorem goto (hy : Yields sid y s t) (m : Main) : Yields sid { y with leads := m } s (t.goto m) :=
  ⟨hy.heap, hy.threads, hy.nextTid, hy.kernel, hy.sessinfo, hy.books, hy.cmdNo, rfl, hy.log⟩

theorem alloc {z : Session} (hy : Yields sid ⟨z, k, none, [], m, as⟩ s t) (d : Desc) :
    Yields sid ⟨z, k, some d, [], m, as⟩ s { t with fds := t.fds.alloc d } where
  heap := hy.heap
  threads := hy.threads
  nextTid := hy.nextTid
  kernel := by
    have hk : (t.fds, t.watch, t.sock) = (s.fds, s.watch, s.sock) := hy.kernel
    obtain ⟨h1, h2⟩ := Prod.mk.inj hk
    show (t.fds.alloc d, t.watch, t.sock) = (s.fds.alloc d, s.watch, s.sock)
    rw [h1, h2]
  sessinfo := hy.sessinfo
  books := hy.books
  cmdNo := hy.cmdNo
  main := hy.main
  log := hy.log

theorem close (hy : Yields sid y s t) (fd : Fd) : Yields sid { y with shuts := y.shuts ++ [fd] } s (t.close fd) where
  heap := hy.heap
  threads := hy.threads
  nextTid := hy.nextTid
  kernel := by
    obtain ⟨h1, h2⟩ := Prod.mk.inj hy.kernel
    obtain ⟨h2, h3⟩ := Prod.mk.inj h2
    show _ = ((y.shuts ++ [fd]).foldl Server.close (s.opened y.opens)).kernel
    rw [List.foldl_append]
    unfold Server.kernel Server.close
    rw [h1, h2, h3]
    rfl
  sessinfo := hy.sessinfo
  books := hy.books
  cmdNo := hy.cmdNo
  main := hy.main
  log := hy.log

theorem closeOpt (hy : Yields sid y s t) (o : Option Fd) :
    Yields sid { y with shuts := y.shuts ++ o.toList } s (t.closeOpt o) := by
  cases o with
  | none =>
    rw [Option.toList_none, List.append_nil]
    exact hy
  | some fd => exact hy.close fd

theorem transfer (hx : s.heap sid = some x) (kind : Kind) :
    Yields sid ⟨x, if getPasvDataFd x ≠ 0 ∧ env.pthreadCreate = true then some kind else none, none, [], s.main, []⟩ s
      (if getPasvDataFd x = 0 then s else startThread env sid s kind) := by
  unfold startThread
  by_cases h0 : getPasvDataFd x = 0
  · rw [if_neg fun h => h.1 h0, if_pos h0]
    exact refl hx
  · rw [if_neg h0]
    by_cases hp : env.pthreadCreate = true
    · rw [if_pos ⟨h0, hp⟩, if_pos hp]
      exact ⟨(refl hx).heap, rfl, rfl, rfl, rfl, rfl, rfl, rfl, (refl hx).log⟩
    · rw [if_neg fun h => hp h.2, if_neg hp]
      exact refl hx

theorem of (hy : Yields sid ⟨z, k, o, fds, m, as⟩ s s') (hr : h.record c env x s.fds.lowest = z)
    (hk : h.starts env x = k) (ho : h.opens c env sid x = o) (hs : cmdCloses x env h = fds)
    (hm : h.leads env sid x s.main = m) (hl : h.logs c env sid s.cmdNo x = as) :
    Yields sid (h.yield c env sid x s) s s' := by
  unfold Cmd.yield
  rw [hr, hk, ho, hs, hm, hl]
  exact hy

end Yields

/-! ## the handlers -/

theorem doUser_yields (hx : s.heap sid = some x) : Yields sid (Cmd.user.yield c env sid x s) s (doUser c sid x s) := by
  unfold doUser
  cases hu : c.getpwnam x.arg with
  | none =>
    refine .of (.reply (.refl hx) x _ _) ?_ rfl rfl rfl rfl ?_
    · simp only [Cmd.record, hu, Option.elim_none]
    · simp only [Cmd.logs, hu, Option.elim_none, List.nil_append]
  | some pw =>
    refine .of (.reply (.put (.refl hx) _) x _ _) ?_ rfl rfl rfl rfl ?_
    · simp only [Cmd.record, hu, Option.elim_some]
    · simp only [Cmd.logs, hu, Option.elim_some, List.nil_append]

theorem doPass_yields (hx : s.heap sid = some x) (he : doPass c env sid x s = .ok s') :
    Yields sid (Cmd.pass.yield c env sid x s) s s' := by
  unfold doPass at he
  split at he
  · cases he
  · split at he
    · rename_i hp
      split at he
      · rename_i hh
        cases he
        refine .of (.reply (.put (.refl hx) _) x _ _) ?_ rfl ?_ rfl rfl ?_
        · simp only [Cmd.record, if_pos hp, hh, Option.map_none]
        · simp only [Cmd.opens, if_pos hp, hh, Option.map_none]
        · exact if_neg fun h => by simp [hh] at h
      · rename_i k hh
        cases he
        refine .of (.reply (.put (.alloc (.refl hx) (.cwd sid k)) _) x _ _) ?_ rfl ?_ rfl rfl ?_
        · simp only [Cmd.record, if_pos hp, hh, Option.map_some]
        · simp only [Cmd.opens, if_pos hp, hh, Option.map_some]
        · exact if_pos ⟨hp, by rw [hh]; rfl⟩
    · rename_i hp
      cases he
      exact .of (.reply (.refl hx) x _ _) (if_neg hp) rfl (if_neg hp) rfl rfl (if_neg fun h => hp h.1)

theorem doCwd_yields (hx : s.heap sid = some x) : Yields sid (Cmd.cwd.yield c env sid x s) s (doCwd env sid x s) := by
  unfold doCwd
  cases ho : openatOk x.dirfd x.arg env.openat with
  | none =>
    have hno : ¬ (openatOk x.dirfd x.arg env.openat).isSome = true := by rw [ho]; exact Bool.false_ne_true
    refine .of (.reply (.refl hx) x _ _) (if_neg hno) rfl ?_ (if_neg hno) rfl (if_neg hno)
    simp only [Cmd.opens, ho, Option.map_none]
  | some k =>
    have hyes : (openatOk x.dirfd x.arg env.openat).isSome = true := by rw [ho]; rfl
    refine .of (.reply (.put (.closeOpt (.emit (.alloc (.refl hx) (.cwd sid k)) _) x.dirfd) _) x _ _)
      (if_pos hyes) rfl ?_ (if_pos hyes) rfl (if_pos hyes)
    simp only [Cmd.opens, ho, Option.map_some]

theorem called_yields {b : Bool} {op : FsOp} {good bad : List UInt8} {code' : Nat} (hx : s.heap sid = some x)
    (hr : h.record c env x s.fds.lowest = x) (hk : h.starts env x = none) (ho : h.opens c env sid x = none)
    (hs : cmdCloses x env h = []) (hm : h.leads env sid x s.main = s.main)
    (hl : h.logs c env sid s.cmdNo x = called sid op b ++
      if b = true then replied sid s.cmdNo x code good else replied sid s.cmdNo x code' bad) :
    Yields sid (h.yield c env sid x s) s (if b = true then (s.emit (.fs sid op)).ftpReply sid x (some s.cmdNo) code good
      else s.ftpReply sid x (some s.cmdNo) code' bad) := by
  cases b with
  | true => exact .of (.reply (.emit (.refl hx) _) x _ _) hr hk ho hs hm hl
  | false => exact .of (.reply (.refl hx) x _ _) hr hk ho hs hm hl

theorem doType_yields (hx : s.heap sid = some x) : Yields sid (Cmd.type.yield c env sid x s) s (doType sid x s) := by
  unfold doType
  split
  · rename_i hA
    exact .of (.reply (.put (.refl hx) _) x _ _) (if_pos hA) rfl rfl rfl rfl (if_pos hA)
  · rename_i hA
    split
    · rename_i hI
      exact .of (.reply (.put (.refl hx) _) x _ _) ((if_neg hA).trans (if_pos hI)) rfl rfl rfl rfl
        ((if_neg hA).trans (if_pos hI))
    · rename_i hI
      exact .of (.reply (.refl hx) x _ _) ((if_neg hA).trans (if_neg hI)) rfl rfl rfl rfl
        ((if_neg hA).trans (if_neg hI))

theorem doPasv_yields (hx : s.heap sid = some x) (he : doPasv env sid x s = .ok s') :
    Yields sid (Cmd.pasv.yield c env sid x s) s s' := by
  unfold doPasv at he
  split at he
  · cases he
  · rename_i port hp
    cases he
    refine .of (.goto (.put (.alloc (.refl hx) _) _) _) rfl rfl rfl rfl ?_ rfl
    show Main.pasv sid (pasvText env.localip (env.tcpServer.getD 0)) .name s.main.pending = _
    rw [hp]
    rfl

theorem listCommon_yields (hy : Yields sid y s t) (he : listCommon env sid x t = .ok s') :
    Yields sid { y with logs := y.logs ++ listed env sid x } s s' := by
  unfold listCommon at he
  unfold listed
  split at he
  · cases he
  · split at he
    · rename_i ho
      cases he
      rw [ho, Option.elim_none, List.append_nil]
      exact hy
    · rename_i es ho
      cases he
      rw [foldl_emit, ho]
      have h2 := (hy.emit (.fs sid (.list (.dirfd x.dirfd)))).emits ((shown es).map fun e => .data sid x.dataFd e.line)
      rw [List.append_assoc] at h2
      exact h2

theorem doList_yields (hx : s.heap sid = some x) (he : doList env sid x s = .ok s') :
    Yields sid (Cmd.list.yield c env sid x s) s s' := by
  unfold doList at he
  split at he
  · rename_i h0
    cases he
    exact .of (.refl hx) (if_pos h0) rfl rfl (if_pos h0) rfl (if_pos h0)
  · rename_i h0
    obtain ⟨t, ht, he⟩ := bind_ok.mp he
    cases he
    have h1 := listCommon_yields (.reply (.refl hx) x _ _) ht
    refine .of (.reply (.put (.closeOpt (.closeOpt h1 x.dataFd) x.pasvListenFd) _) x _ _) (if_neg h0) rfl rfl
      (if_neg h0) rfl ((if_neg h0).trans ?_)
    rw [← List.append_assoc]
    rfl

theorem doRnto_yields (hx : s.heap sid = some x) : Yields sid (Cmd.rnto.yield c env sid x s) s (doRnto env sid x s) := by
  unfold doRnto
  cases ho : x.rnfrName with
  | none =>
    refine .of (.reply (.refl hx) x _ _) ?_ rfl rfl rfl rfl ?_
    · show ({ x with rnfrName := none } : Session) = x
      rw [← ho]
    · simp only [Cmd.logs, ho, Option.elim_none, List.nil_append]
  | some old =>
    dsimp only
    split
    · rename_i hm
      refine .of (.reply (.put (.emit (.refl hx) _) _) x _ _) rfl rfl rfl rfl rfl ?_
      simp only [Cmd.logs, ho, Option.elim_some, called, if_pos hm, List.nil_append]
    · rename_i hm
      refine .of (.reply (.put (.refl hx) _) x _ _) rfl rfl rfl rfl rfl ?_
      simp only [Cmd.logs, ho, Option.elim_some, called, if_neg hm, List.nil_append]

theorem doSize_yields (hx : s.heap sid = some x) : Yields sid (Cmd.size.yield c env sid x s) s (doSize env sid x s) := by
  unfold doSize
  cases ho : env.stat with
  | none =>
    refine .of (.reply (.refl hx) x _ _) rfl rfl rfl rfl rfl ?_
    simp only [Cmd.logs, ho, Option.elim_none, List.nil_append]
  | some p =>
    obtain ⟨reg, size⟩ := p
    have hl : Cmd.size.logs c env sid s.cmdNo x = .fs sid (.stat x.arg) ::
        if reg = true then replied sid s.cmdNo x FTP_SIZEOK (fmtDec size)
        else replied sid s.cmdNo x FTP_FILEFAIL (ascii "SIZE operation failed.") := by
      simp only [Cmd.logs, ho, Option.elim_some]
    cases reg with
    | true => exact .of (.reply (.emit (.refl hx) _) x _ _) rfl rfl rfl rfl rfl hl
    | false => exact .of (.reply (.emit (.refl hx) _) x _ _) rfl rfl rfl rfl rfl hl

theorem Yields.site {as : List Act} (hy : Yields sid ⟨x, none, none, [], s.main, as⟩ s s')
    (hl : Cmd.site.logs c env sid s.cmdNo x = as) : Yields sid (Cmd.site.yield c env sid x s) s s' :=
  .of hy rfl rfl rfl rfl rfl hl

theorem doSiteChmod_yields {arg : List UInt8} (hx : s.heap sid = some x) (he : doSiteChmod env sid x s arg = .ok s') :
    Yields sid ⟨x, none, none, [], s.main, chmodLogs env sid s.cmdNo x arg⟩ s s' := by
  unfold doSiteChmod at he
  unfold chmodLogs
  split at he
  · rename_i h0
    cases he
    rw [if_pos h0]
    exact .reply (.refl hx) x _ _
  · rename_i h0
    rw [if_neg h0]
    split at he
    · cases he
    · rename_i perm file hs
      rw [hs, Option.elim_some]
      dsimp only
      split at he
      · rename_i h1
        cases he
        rw [if_pos h1]
        exact .reply (.refl hx) x _ _
      · rename_i h1
        rw [if_neg h1]
        split at he
        · rename_i hm
          cases he
          rw [hm]
          exact .reply (.emit (.refl hx) _) x _ _
        · rename_i hm
          cases he
          rw [Bool.eq_false_iff.mpr hm]
          exact .reply (.refl hx) x _ _

theorem doSiteUmask_yields {arg : List UInt8} (hx : s.heap sid = some x) :
    Yields sid ⟨x, none, none, [], s.main, umaskLogs c sid s.cmdNo x arg⟩ s (doSiteUmask c sid x s arg) := by
  unfold umaskLogs doSiteUmask
  split
  · exact .reply (.refl hx) x _ _
  · exact .reply (.emit (.refl hx) (.umask (strOctalToUint arg))) x _ _

theorem doSite_yields (hx : s.heap sid = some x) (he : doSite c env sid x s = .ok s') :
    Yields sid (Cmd.site.yield c env sid x s) s s' := by
  unfold doSite at he
  split at he
  · cases he
  · rename_i cmd arg hs
    have hl : Cmd.site.logs c env sid s.cmdNo x = if cmd = ascii "CHMOD" then chmodLogs env sid s.cmdNo x arg
        else if cmd = ascii "UMASK" then umaskLogs c sid s.cmdNo x arg
        else if cmd = ascii "HELP" then replied sid s.cmdNo x FTP_SITEHELP (ascii "CHMOD UMASK HELP")
        else replied sid s.cmdNo x FTP_BADCMD (ascii "Unknown SITE command.") := by
      simp only [Cmd.logs, hs, Option.elim_some]
    split at he
    · rename_i h1
      exact .site (doSiteChmod_yields hx he) (hl.trans (if_pos h1))
    · rename_i h1
      rw [if_neg h1] at hl
      split at he
      · rename_i h2
        cases he
        exact .site (doSiteUmask_yields hx) (hl.trans (if_pos h2))
      · rename_i h2
        rw [if_neg h2] at hl
        split at he
        · rename_i h3
          cases he
          exact .site (.reply (.refl hx) x _ _) (hl.trans (if_pos h3))
        · rename_i h3
          cases he
          exact .site (.reply (.refl hx) x _ _) (hl.trans (if_neg h3))

/-- **Every handler** but QUIT. -/
theorem runCmd_yields (hx : s.heap sid = some x) (hq : h ≠ .quit) (he : runCmd c env sid x s h = .ok s') :
    Yields sid (h.yield c env sid x s) s s' := by
  cases h with
  | user => cases he; exact doUser_yields hx
  | pass => exact doPass_yields hx he
  | cwd => cases he; exact doCwd_yields hx
  | cdup =>
    cases he
    unfold doCdup
    split
    · rename_i hc
      exact .of (.reply (.emit (.refl hx) _) x _ _) rfl rfl rfl rfl rfl (if_pos hc)
    · rename_i hc
      exact .of (.reply (.refl hx) x _ _) rfl rfl rfl rfl rfl (if_neg hc)
  | quit => exact absurd rfl hq
  | port => cases he; exact .of (.reply (.put (.refl hx) _) x _ _) rfl rfl rfl rfl rfl rfl
  | pasv => exact doPasv_yields hx he
  | type => cases he; exact doType_yields hx
  | retr => cases he; exact .transfer hx .retr
  | stor => cases he; exact .transfer hx (.stor false)
  | appe =>
    cases he
    unfold doAppe
    rw [ite_self]
    exact .refl hx
  | list => exact doList_yields hx he
  | nlst =>
    change doNlst env sid x s = _ at he
    unfold doNlst getTransferFd at he
    rw [if_pos rfl] at he
    cases he
    exact .refl hx
  | rest => cases he; exact .of (.reply (.put (.refl hx) _) x _ _) rfl rfl rfl rfl rfl rfl
  | abor => cases he; exact .reply (.refl hx) x _ _
  | pwd => cases he; exact .reply (.refl hx) x _ _
  | mkd => cases he; exact called_yields hx rfl rfl rfl rfl rfl rfl
  | rmd => cases he; exact called_yields hx rfl rfl rfl rfl rfl rfl
  | dele => cases he; exact called_yields hx rfl rfl rfl rfl rfl rfl
  | rnfr => cases he; exact .of (.reply (.put (.refl hx) _) x _ _) rfl rfl rfl rfl rfl rfl
  | rnto => cases he; exact doRnto_yields hx
  | site => exact doSite_yields hx he
  | syst => cases he; exact .reply (.refl hx) x _ _
  | feat => cases he; exact .goto (.emit (.refl hx) _) _
  | size => cases he; exact doSize_yields hx
  | stat => cases he; exact .goto (.emit (.refl hx) _) _
  | noop => cases he; exact .reply (.refl hx) x _ _
  | help => cases he; exact .goto (.emit (.refl hx) _) _

theorem runCmd_quit (hx : s.heap sid = some x) (he : runCmd c env sid x s .quit = .ok s') :
    x.ctrlFd < MAX_SESSIONS ∧ s' = closed (answer sid x s FTP_GOODBYE "Goodbye.") sid x := by
  obtain ⟨z, hz, hb, rfl⟩ := closeSess_inv he
  cases hx.symm.trans hz
  exact ⟨hb, rfl⟩

theorem leads_leaves : m.Leaves sid (h.leads env sid x m) := by
  cases h with
  | pasv => exact .listens _
  | feat => exact .writes _
  | stat => exact .writes _
  | help => exact .writes _
  | _ => exact .returned

theorem Yields.leaves (hy : Yields sid (h.yield c env sid x s) s s') : s.main.Leaves sid s'.main := by
  rw [hy.main]
  exact leads_leaves

end

end Myftpd
