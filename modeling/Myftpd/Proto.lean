import Myftpd.Server

/-!
# ftpproto.cpp: the command handlers

`Env` is what the system answers while one command is handled.  A handler takes the session record
`x` of the session `sid` as it stands in the heap and returns the state afterwards.

The table `ctrlCmds` and the handlers keep the order of the source.
-/

namespace Myftpd
open CMem

/-- one entry that `readdir` gives: its name, whether `lstat` succeeds, and the line that is built for it, in which the
`perms` of the process and its directory have a part -/
structure Dirent where
  name : List UInt8
  lstat : Bool
  line : List UInt8
  deriving DecidableEq, Repr

/-- what the system answers during a command -/
structure Env where
  home : Option FKind                       -- `open(pw->pw_dir, O_RDONLY)`
  openat : Option FKind                     -- `openat` of CWD, where the path can be resolved
  chdirUp : Bool                            -- `chdir("..")`
  mkdir : Bool
  rmdir : Bool
  unlink : Bool
  rename : Bool
  chmod : Bool
  stat : Option (Bool × Nat)                -- regular file?, size
  getcwd : List UInt8
  fileName : Option (List UInt8)            -- `readlink("/proc/self/fd/N")`, which fails where N is closed
  opendir : Option (List Dirent)            -- the directory of that name
  localip : List Nat                        -- four numbers
  tcpServer : Option Nat                    -- the port of the new listener
  portArgs : List Nat                       -- the six numbers of PORT
  pthreadCreate : Bool
  accept : Bool                             -- `accept` on the passive listener
  sigpipe : Bool                            -- a write of the handler meets a connection that was reset
  deriving DecidableEq, Repr

def absolute (path : List UInt8) : Bool := path.head? == some 47

/-- `openat(dirfd, path, …)`: with -1 for `dirfd` only an absolute path can be opened -/
def openatOk {α : Type} (dirfd : Option Fd) (path : List UInt8) (r : Option α) : Option α :=
  if absolute path || dirfd.isSome then r else none

/-- `get_file_name(fd)`: NULL for -1, for 0 too (`0 >= fd`), and when `readlink` fails -/
def getFileName (env : Env) (fd : Option Fd) : Option (List UInt8) :=
  fd.bind fun n => if n = 0 then none else env.fileName

/-- what `sprintf` prints for `%s`, NULL included -/
def fmtStr : Option (List UInt8) → List UInt8
  | some s => s
  | none => ascii "(null)"

/-- `getPasvDataFd`: 0 when there is no listener or no data connection -/
def getPasvDataFd (x : Session) : Nat :=
  match x.pasvListenFd, x.dataFd with
  | some _, some d => d
  | _, _ => 0

section
variable (c : Conf) (env : Env) (sid : Sid) (x : Session) (s : Server)

/-- a final reply to the control line that is being handled -/
def answer (code : Nat) (text : String) : Server :=
  s.ftpReply sid x (some s.cmdNo) code (ascii text)

def doUser : Server :=
  match c.getpwnam x.arg with
  | none => answer sid x s FTP_LOGINERR "Login incorrect."
  | some pw => answer sid x (s.put sid { x with uid := pw.uid }) FTP_GIVEPWORD
      "Please specify the password."

/-- the shadow entry of `uid` -/
def shadow : Option (List UInt8) := (c.getpwuid x.uid).bind fun pw => c.getspnam pw.name

/-- the password verifies against the entry -/
def passOk : Bool := (shadow c x).any fun sp => c.crypt x.arg sp == some sp

/-- `crypt` gives NULL, and `strcmp` is called with it -/
def cryptNull : Bool := (shadow c x).any fun sp => c.crypt x.arg sp == none

def doPass : Res Server :=
  if cryptNull c x then .error (.crash .nullCrypt)
  else if passOk c x then
    match env.home with
    | none => .ok (answer sid x (s.put sid { x with dirfd := none }) FTP_LOGINERR "Login incorrect.")
    | some k =>
      let fd := s.fds.lowest
      let s := { s with fds := s.fds.alloc (.cwd sid k) }
      .ok (answer sid x (s.put sid { x with dirfd := some fd }) FTP_LOGINOK "Login successful.")
  else .ok (answer sid x s FTP_LOGINERR "Login incorrect.")

def doCwd : Server :=
  match openatOk x.dirfd x.arg env.openat with
  | none => answer sid x s FTP_FILEFAIL "Failed to change directory."
  | some k =>
    let newdir := s.fds.lowest
    let s := { s with fds := s.fds.alloc (.cwd sid k) }
    let s := s.emit (.fs sid (.chdirTo (.dirfd x.dirfd) x.arg))
    let s := s.closeOpt x.dirfd
    answer sid x (s.put sid { x with dirfd := some newdir }) FTP_CWDOK
      "Directory successfully changed."

/-- the directory of the whole process -/
def doCdup : Server :=
  if env.chdirUp then answer sid x (s.emit .chdirUp) FTP_CWDOK "Directory successfully changed."
  else answer sid x s FTP_FILEFAIL "Failed to change directory."

def doQuit : Res Server := (answer sid x s FTP_GOODBYE "Goodbye.").closeSess sid

/-- the six numbers are stored in bytes -/
def doPort : Server :=
  let v := fun i => env.portArgs.getD i 0 % 256
  let a : SockAddr := ⟨[v 0, v 1, v 2, v 3], [v 4, v 5]⟩
  answer sid x (s.put sid { x with portAddr := some a }) FTP_PORTOK
    "PORT command successful. Consider using PASV."

/-- `"Entering Passive Mode (%u,%u,%u,%u,%u,%u)."` -/
def pasvText (ip : List Nat) (port : Nat) : List UInt8 :=
  ascii "Entering Passive Mode (" ++ fmtDec (ip.getD 0 0) ++ ascii "," ++ fmtDec (ip.getD 1 0)
    ++ ascii "," ++ fmtDec (ip.getD 2 0) ++ ascii "," ++ fmtDec (ip.getD 3 0) ++ ascii ","
    ++ fmtDec (port / 256) ++ ascii "," ++ fmtDec (port % 256) ++ ascii ")."

/-- `do_pasv` up to `sess->pasv_listen_fd=tcp_server(ip,0)`; an earlier listener of the session stays as
it is -/
def doPasv : Res Server :=
  match env.tcpServer with
  | none => .error (.exit .tcpServer)
  | some port =>
    let fd := s.fds.lowest
    let s := { s with fds := s.fds.alloc (.pasv sid) }
    let s := s.put sid { x with pasvListenFd := some fd }
    .ok (s.goto (.pasv sid (pasvText env.localip port) .name s.main.pending))

def doType : Server :=
  if x.arg = ascii "A" then
    answer sid x (s.put sid { x with isAscii := true }) FTP_TYPEOK "Switching to ASCII mode."
  else if x.arg = ascii "I" then
    answer sid x (s.put sid { x with isAscii := false }) FTP_TYPEOK "Switching to Binary mode."
  else answer sid x s FTP_BADCMD "Unrecognised TYPE command."

/-- `pthread_create(&tidp, NULL, f, sess)`; a failure is only printed -/
def startThread (kind : Kind) : Server :=
  if env.pthreadCreate then
    { s with
      threads := Function.update s.threads s.nextTid (some
        { sess := sid, cmd := s.cmdNo, kind := kind, pc := .offset, offset := 0, file := none,
          size := 0, left := 0, flag := 0 })
      nextTid := s.nextTid + 1 }
  else s

def doRetr : Server := if getPasvDataFd x = 0 then s else startThread env sid s .retr

def doStor : Server := if getPasvDataFd x = 0 then s else startThread env sid s (.stor false)

/-- never answers: the upload is commented out -/
def doAppe : Server := if getPasvDataFd x = 0 then s else s

/-- the entries of a listing that are shown -/
def shown (es : List Dirent) : List Dirent := es.filter fun e => e.lstat && e.name.head? != some 46

/-- `list_common(sess, 1)` on the directory `dirfd` names; `opendir(NULL)` is undefined -/
def listCommon : Res Server :=
  match getFileName env x.dirfd with
  | none => .error (.crash .nullPath)
  | some _ =>
    match env.opendir with
    | none => .ok s
    | some es =>
      let s := s.emit (.fs sid (.list (.dirfd x.dirfd)))
      .ok ((shown es).foldl (fun s e => s.emit (.data sid x.dataFd e.line)) s)

def doList : Res Server :=
  if getPasvDataFd x = 0 then .ok s else do
  let s := answer sid x s FTP_DATACONN "Here comes the directory listing."
  let s ← listCommon env sid x s
  let s := (s.removefd x.dataFd).removefd x.pasvListenFd
  let s := s.put sid { x with dataFd := none, pasvListenFd := none }
  return answer sid x s FTP_TRANSFEROK "Directory send OK."

/-- `get_transfer_fd` returns 0 whatever the session, so NLST ends here -/
def getTransferFd (_x : Session) : Nat := 0

def doNlst : Res Server :=
  if getTransferFd x = 0 then .ok s else do
  let s := answer sid x s FTP_DATACONN "Here comes the directory listing."
  let s ← listCommon env sid x s
  let s := s.closeOpt x.dataFd
  let s := s.put sid { x with dataFd := none }
  return answer sid x s FTP_TRANSFEROK "Directory send OK."

def doRest : Server :=
  let pos := strToLonglong x.arg
  (s.put sid { x with restartPos := pos }).ftpReply sid x (some s.cmdNo) FTP_RESTOK
    (ascii "Restart position accepted (" ++ fmtDec pos ++ ascii ").")

def doAbor : Server := answer sid x s FTP_ABOR_NOCONN "No transfer to ABOR"

def doPwd : Server :=
  s.ftpReply sid x (some s.cmdNo) FTP_PWDOK
    (ascii "\"" ++ fmtStr (getFileName env x.dirfd) ++ ascii "\"")

/-- the text of the 257 reply -/
def mkdText : List UInt8 :=
  if x.arg.head? = some 47 then x.arg ++ ascii " create"
  else if env.getcwd.getLast? = some 47 then env.getcwd ++ x.arg ++ ascii " created"
  else env.getcwd ++ ascii "/" ++ x.arg ++ ascii " created"

def doMkd : Server :=
  if env.mkdir then
    (s.emit (.fs sid (.mkdir x.arg))).ftpReply sid x (some s.cmdNo) FTP_MKDIROK (mkdText env x)
  else answer sid x s FTP_FILEFAIL "Create directory operation failed."

def doRmd : Server :=
  if env.rmdir then
    answer sid x (s.emit (.fs sid (.rmdir x.arg))) FTP_RMDIROK "Remove directory operation successful."
  else answer sid x s FTP_FILEFAIL "Remove directory operation failed."

def doDele : Server :=
  if env.unlink then
    answer sid x (s.emit (.fs sid (.unlink x.arg))) FTP_DELEOK "Delete operation successful."
  else answer sid x s FTP_FILEFAIL "Delete operation failed."

def doRnfr : Server :=
  answer sid x (s.put sid { x with rnfrName := some x.arg }) FTP_RNFROK "Ready for RNTO"

/-- the result of `rename` is not looked at -/
def doRnto : Server :=
  match x.rnfrName with
  | none => answer sid x s FTP_NEEDRNFR "RNFR required first."
  | some old =>
    let s := if env.rename then s.emit (.fs sid (.rename old x.arg)) else s
    answer sid x (s.put sid { x with rnfrName := none }) FTP_RENAMEOK "Rename successful."

/-- `str_split(str, a, b, ' ')` into two zeroed arrays of 100 bytes, as `do_site` and
`do_site_chmod` use it: the string of length less than `MAX_ARG`, then the arrays -/
def split100 (str : List UInt8) : Option (List UInt8 × List UInt8) :=
  let m := str ++ List.replicate (MAX_ARG - str.length) 0 ++ List.replicate 200 0
  (strSplit m 0 MAX_ARG (MAX_ARG + 100) SP).map fun m =>
    (cstrAt m MAX_ARG, cstrAt m (MAX_ARG + 100))

def doSiteChmod (chmodArg : List UInt8) : Res Server :=
  if chmodArg = [] then .ok (answer sid x s FTP_BADCMD "SITE CHMOD needs 2 arguments.")
  else match split100 chmodArg with
  | none => .error (.crash .overlap)
  | some (perm, file) =>
    if file = [] then .ok (answer sid x s FTP_BADCMD "SITE CHMOD needs 2 arguments.")
    else if env.chmod then
      .ok (answer sid x (s.emit (.fs sid (.chmod file (strOctalToUint perm)))) FTP_CHMODOK
        "SITE CHMOD command ok.")
    else .ok (answer sid x s FTP_CHMODOK "SITE CHMOD command failed.")

/-- the mask of the whole process -/
def doSiteUmask (umaskArg : List UInt8) : Server :=
  if umaskArg = [] then
    s.ftpReply sid x (some s.cmdNo) FTP_UMASKOK
      (ascii "Your current UMASK is 0" ++ fmtOct c.localUmask)
  else
    let um := strOctalToUint umaskArg
    (s.emit (.umask um)).ftpReply sid x (some s.cmdNo) FTP_UMASKOK
      (ascii "UMASK set to 0" ++ fmtOct um)

def doSite : Res Server :=
  match split100 x.arg with
  | none => .error (.crash .overlap)
  | some (cmd, arg) =>
    if cmd = ascii "CHMOD" then doSiteChmod env sid x s arg
    else if cmd = ascii "UMASK" then .ok (doSiteUmask c sid x s arg)
    else if cmd = ascii "HELP" then .ok (answer sid x s FTP_SITEHELP "CHMOD UMASK HELP")
    else .ok (answer sid x s FTP_BADCMD "Unknown SITE command.")

def doSyst : Server := answer sid x s FTP_SYSTOK "UNIX Type: L8"

/-- the lines between the first and the last of a multi-line reply, and the last -/
def linesThen (ts : List (List UInt8)) (code : Nat) (text : String) : List Write :=
  ts.map .raw ++ [.reply code (ascii text)]

def featLines : List String :=
  [" EPRT\r\n", " EPSV\r\n", " MDTM\r\n", " PASV\r\n", " REST STREAM\r\n", " SIZE\r\n", " TVFS\r\n",
    " UTF8\r\n"]

def doFeat : Server :=
  (s.ftpLreply sid x (some s.cmdNo) FTP_FEAT (ascii "Features:")).andThen sid
    (linesThen (featLines.map ascii) FTP_FEAT "End")

def doSize : Server :=
  match env.stat with
  | none => answer sid x s FTP_FILEFAIL "SIZE operation failed."
  | some (reg, size) =>
    let s := s.emit (.fs sid (.stat x.arg))
    if reg then s.ftpReply sid x (some s.cmdNo) FTP_SIZEOK (fmtDec size)
    else answer sid x s FTP_FILEFAIL "SIZE operation failed."

/-- the two bandwidth lines; the second test looks at the upload rate again -/
def statLines : List (List UInt8) :=
  (if x.bwUploadRateMax = 0 then [ascii "     No session upload bandwidth limit\r\n"]
    else [ascii "     Session upload bandwidth limit in byte/s is " ++ fmtDec x.bwUploadRateMax
      ++ ascii "\r\n"]) ++
  (if x.bwDownloadRateMax = 0 then [ascii "     No session download bandwidth limit\r\n"]
    else if x.bwUploadRateMax > 0 then
      [ascii "     Session download bandwidth limit in byte/s is " ++ fmtDec x.bwDownloadRateMax
        ++ ascii "\r\n"]
    else [])

def doStat : Server :=
  (s.ftpLreply sid x (some s.cmdNo) FTP_STATOK (ascii "FTP server status:")).andThen sid
    (linesThen (statLines x) FTP_STATOK "End of status")

def doNoop : Server := answer sid x s FTP_NOOPOK "NOOP ok."

def helpLines : List String :=
  [" ABOR ACCT ALLO APPE CDUP CWD  DELE EPRT EPSV FEAT HELP LIST MDTM MKD\r\n",
    " MODE NLST NOOP OPTS PASS PASV PORT PWD  QUIT REIN REST RETR RMD  RNFR\r\n",
    " RNTO SITE SIZE SMNT STAT STOR STOU STRU SYST TYPE USER XCUP XCWD XMKD\r\n",
    " XPWD XRMD\r\n"]

def doHelp : Server :=
  (s.ftpLreply sid x (some s.cmdNo) FTP_HELP (ascii "The following commands are recognized.")).andThen sid
    (linesThen (helpLines.map ascii) FTP_HELP "Help OK.")

end

/-! ## the table -/

inductive Cmd where
  | user | pass | cwd | cdup | quit | port | pasv | type | retr | stor | appe | list | nlst | rest
  | abor | pwd | mkd | rmd | dele | rnfr | rnto | site | syst | feat | size | stat | noop | help
  deriving DecidableEq, Repr

/-- `ctrl_cmds`; `none` is a NULL handler -/
def ctrlCmds : List (List UInt8 × Option Cmd) :=
  [(ascii "USER", some .user),
   (ascii "PASS", some .pass),
   (ascii "CWD", some .cwd),
   (ascii "XCWD", some .cwd),
   (ascii "CDUP", some .cdup),
   (ascii "XCUP", some .cdup),
   (ascii "QUIT", some .quit),
   (ascii "ACCT", none),
   (ascii "SMNT", none),
   (ascii "REIN", none),
   (ascii "PORT", some .port),
   (ascii "PASV", some .pasv),
   (ascii "TYPE", some .type),
   (ascii "STRU", none),
   (ascii "MODE", none),
   (ascii "RETR", some .retr),
   (ascii "STOR", some .stor),
   (ascii "APPE", some .appe),
   (ascii "LIST", some .list),
   (ascii "NLST", some .nlst),
   (ascii "REST", some .rest),
   (ascii "ABOR", some .abor),
   ([255, 244, 255, 242] ++ ascii "ABOR", some .abor),
   (ascii "PWD", some .pwd),
   (ascii "XPWD", some .pwd),
   (ascii "MKD", some .mkd),
   (ascii "XMKD", some .mkd),
   (ascii "RMD", some .rmd),
   (ascii "XRMD", some .rmd),
   (ascii "DELE", some .dele),
   (ascii "RNFR", some .rnfr),
   (ascii "RNTO", some .rnto),
   (ascii "SITE", some .site),
   (ascii "SYST", some .syst),
   (ascii "FEAT", some .feat),
   (ascii "SIZE", some .size),
   (ascii "STAT", some .stat),
   (ascii "NOOP", some .noop),
   (ascii "HELP", some .help),
   (ascii "STOU", none),
   (ascii "ALLO", none)]

def runCmd (c : Conf) (env : Env) (sid : Sid) (x : Session) (s : Server) : Cmd → Res Server
  | .user => .ok (doUser c sid x s)
  | .pass => doPass c env sid x s
  | .cwd => .ok (doCwd env sid x s)
  | .cdup => .ok (doCdup env sid x s)
  | .quit => doQuit sid x s
  | .port => .ok (doPort env sid x s)
  | .pasv => doPasv env sid x s
  | .type => .ok (doType sid x s)
  | .retr => .ok (doRetr env sid x s)
  | .stor => .ok (doStor env sid x s)
  | .appe => .ok (doAppe x s)
  | .list => doList env sid x s
  | .nlst => doNlst env sid x s
  | .rest => .ok (doRest sid x s)
  | .abor => .ok (doAbor sid x s)
  | .pwd => .ok (doPwd env sid x s)
  | .mkd => .ok (doMkd env sid x s)
  | .rmd => .ok (doRmd env sid x s)
  | .dele => .ok (doDele env sid x s)
  | .rnfr => .ok (doRnfr sid x s)
  | .rnto => .ok (doRnto env sid x s)
  | .site => doSite c env sid x s
  | .syst => .ok (doSyst sid x s)
  | .feat => .ok (doFeat sid x s)
  | .size => .ok (doSize env sid x s)
  | .stat => .ok (doStat sid x s)
  | .noop => .ok (doNoop sid x s)
  | .help => .ok (doHelp sid x s)

/-- the search through `ctrl_cmds`: the handler of the command, `some none` for a NULL handler -/
def lookupCmd (cmd : List UInt8) : Option (Option Cmd) := ctrlCmds.lookup cmd

/-- the second half of `processCtrlRead`, once `cmd` and `arg` are set -/
def handleCmd (c : Conf) (env : Env) (sid : Sid) (s : Server) : Res Server :=
  match s.heap sid with
  | none => .error (.crash .freed)
  | some x =>
    match lookupCmd x.cmd with
    | none => .ok (answer sid x s FTP_BADCMD "Unknown command.")
    | some none => .ok (answer sid x s FTP_COMMANDNOTIMPL "Unimplement command.")
    | some (some h) => runCmd c env sid x s h

/-! ## handlers that are under way -/

/-- The rest of `do_pasv` up to the reply.  Each stage reads `sess->pasv_listen_fd`, which a transfer thread of
the session may have set to -1, and the listener may have been closed. -/
def pasvStep (sid : Sid) (text : List UInt8) (pc : PasvPc) (evs : List Event) (s : Server) : Res Server :=
  match s.heap sid with
  | none => .error (.crash .freed)
  | some x =>
    match pc, x.pasvListenFd with
    | .name, some fd =>
      if isPasv (s.fds.get fd) then .ok (s.goto (.pasv sid text .entry evs)) else .error (.exit .getsockname)
    | .name, none => .error (.exit .getsockname)
    | .entry, some fd => do
      let s ← s.setSessinfo fd ⟨some ⟨.data, fd⟩, some sid⟩
      return s.goto (.pasv sid text .watch evs)
    | .watch, some fd =>
      -- `&sessinfo[fd]`; `epoll_ctl` fails where the listener has been closed
      if fd < MAX_SESSIONS then
        .ok ((if isPasv (s.fds.get fd) then s.addFdData fd else s).goto (.reply sid [.reply FTP_PASVOK text] evs))
      else .error (.crash .bounds)
    | _, none => .error (.crash .bounds)

def Write.act (sid : Sid) (x : Session) (cmd : Option Nat) : Write → Act
  | .raw text => .raw sid x.ctrlFd text
  | .reply code text => .reply sid x.ctrlFd cmd code text

/-- the next write of the handler, or its return -/
def replyStep (sigpipe : Bool) (sid : Sid) (ws : List Write) (evs : List Event) (s : Server) : Res Server :=
  match ws with
  | [] => .ok (s.goto (.events evs))
  | w :: ws =>
    match s.heap sid with
    | none => .error (.crash .freed)
    | some x =>
      if sigpipe then .error (.exit .sigpipe)
      else .ok ((s.emit (w.act sid x (some s.cmdNo))).goto (.reply sid ws evs))

/-- one step of the handler that is under way -/
def handlerStep (sigpipe : Bool) (s : Server) : Res Server :=
  match s.main with
  | .pasv sid text pc evs => pasvStep sid text pc evs s
  | .reply sid ws evs => replyStep sigpipe sid ws evs s
  | _ => .ok s

/-- `SIGPIPE` ends the process if the handler has written anything -/
def piped (env : Env) (s : Server) (r : Res Server) : Res Server :=
  r.bind fun s' => if env.sigpipe && s.log.length < s'.log.length then .error (.exit .sigpipe) else .ok s'

theorem piped_ok {env : Env} {s s' : Server} {r : Res Server} (h : piped env s r = .ok s') : r = .ok s' := by
  obtain ⟨t, ht, h⟩ := bind_ok.mp h
  split at h
  · cases h
  · rw [ht, ← Except.ok.inj h]

theorem piped_error {env : Env} {s : Server} {r : Res Server} {e : Stop} (h : piped env s r = .error e) :
    r = .error e ∨ e = .exit .sigpipe := by
  unfold piped at h
  cases r with
  | error e' => exact Or.inl h
  | ok t =>
    change (if env.sigpipe && s.log.length < t.log.length then _ else _) = _ at h
    split at h
    · cases h
      exact Or.inr rfl
    · cases h

theorem piped_silent {env : Env} {s s' : Server} (h : s'.log = s.log) : piped env s (.ok s') = .ok s' := by
  show (if env.sigpipe && s.log.length < s'.log.length then _ else _) = _
  rw [h, decide_eq_false (Nat.lt_irrefl _), Bool.and_false]
  rfl

/-- a handler that has written anything has met no `SIGPIPE` -/
theorem piped_log {env : Env} {s s' : Server} {r : Res Server} {as : List Act} (h : piped env s r = .ok s')
    (hl : s'.log = s.log ++ as) (ha : as ≠ []) : env.sigpipe = false := by
  obtain ⟨t, -, h⟩ := bind_ok.mp h
  split at h
  · cases h
  · rename_i hn
    cases h
    by_contra hp
    refine hn (Bool.and_eq_true_iff.mpr ⟨Bool.not_eq_false _ ▸ hp, decide_eq_true ?_⟩)
    rw [hl, List.length_append]
    exact Nat.lt_add_of_pos_right (List.length_pos_of_ne_nil ha)

theorem piped_quiet {env : Env} {s : Server} {r : Res Server} (h : env.sigpipe = false) : piped env s r = r := by
  unfold piped
  rw [h]
  cases r <;> rfl

theorem getFileName_some {env : Env} {fd : Option Fd} {name : List UInt8}
    (h : getFileName env fd = some name) : fd ≠ none ∧ env.fileName = some name := by
  obtain ⟨n, rfl, hn⟩ := Option.bind_eq_some_iff.mp h
  split at hn
  · cases hn
  · exact ⟨Option.some_ne_none n, hn⟩

theorem listCommon_ok {env : Env} {sid : Sid} {x : Session} {s s' : Server}
    (h : listCommon env sid x s = .ok s') : getFileName env x.dirfd ≠ none ∧ (s' = s ∨ ∃ es : List Dirent,
      s' = (s.emit (.fs sid (.list (.dirfd x.dirfd)))).emits
        (es.map fun e => .data sid x.dataFd e.line)) := by
  unfold listCommon at h
  cases hd : getFileName env x.dirfd with
  | none =>
    rw [hd] at h
    cases h
  | some name =>
    rw [hd] at h
    refine ⟨Option.some_ne_none name, ?_⟩
    dsimp only at h
    split at h
    · cases h
      exact Or.inl rfl
    · rename_i es _
      cases h
      exact Or.inr ⟨shown es, Server.foldl_emit _ _ _⟩

end Myftpd
