import Myftpd.Proto

/-!
# ftpproto.cpp: the transfer threads `threadRetr` and `upload_common`

A thread runs next to the main loop.  One step of it is one access to the shared session record, or
one system call; `TEnv` is what the system answers.  A step that reads or writes the record of a
session that has been freed is a memory error.

The two routines differ up to the transfer loop (`retrStep`, `uploadStep`) and share the way they
begin (`enterStep`) and clean up (`leaveStep`).
-/

namespace Myftpd
open CMem

/-- what `read` and `write` give -/
inductive IoRes where
  | ok (n : Nat)
  | intr          -- -1 with `EINTR`
  | err           -- -1 with another errno
  deriving DecidableEq, Repr

/-- what the system answers during one step of a transfer thread -/
structure TEnv where
  openat : Bool
  lock : Bool
  ftruncate : Bool
  lseek : Bool
  fstat : Bool × Int                -- regular file?, size
  sendfile : Option Nat             -- `none`: -1
  read : IoRes
  write : IoRes
  deriving DecidableEq, Repr

/-- the texts that tell the two routines apart -/
def failReply : Kind → Nat × String
  | .retr => (FTP_FILEFAIL, "Failed to open file.")
  | .stor _ => (FTP_UPLOADFAIL, "Could not create file.")

def badFileText : Kind → String
  | .retr => "Failure reading from local file."
  | .stor _ => "Failure writting to local file."

def badNetText : Kind → String
  | .retr => "Failure writting to network stream."
  | .stor _ => "Failure reading from network stream."

/-- `"Opening %s mode data connection for %s (%lld bytes)."` -/
def openingText (x : Session) (size : Int) : List UInt8 :=
  ascii "Opening " ++ ascii (if x.isAscii then "ASCII" else "BINARY")
    ++ ascii " mode data connection for " ++ x.arg ++ ascii " (" ++ fmtDec size ++ ascii " bytes)."

section
variable (env : TEnv) (tid : Tid) (th : Thread) (s : Server)

def setThread (t : Thread) : Server := { s with threads := Function.update s.threads tid (some t) }

/-- the thread returns -/
def endThread : Server := { s with threads := Function.update s.threads tid none }

/-- an access to the record of the session -/
def withSess (f : Session → Res Server) : Res Server :=
  match s.heap th.sess with
  | none => .error (.crash .freed)
  | some x => f x

/-- the early `return NULL` after a refusal; the file stays open -/
def giveUp : Res Server :=
  withSess th s fun x =>
    .ok (endThread tid (s.ftpReply th.sess x (some th.cmd) (failReply th.kind).1
      (ascii (failReply th.kind).2)))

/-- on to the next stage -/
def next (pc : Pc) : Server := setThread tid s { th with pc := pc }

/-- the first stages: the restart offset is taken over and reset, the file is opened -/
def enterStep : Pc → Res Server
  | .offset => withSess th s fun x => .ok (setThread tid s { th with offset := x.restartPos, pc := .clear })
  | .clear => withSess th s fun x => .ok (next tid th (s.put th.sess { x with restartPos := 0 }) .open)
  | .open => withSess th s fun x =>
    match openatOk x.dirfd x.arg (if env.openat then some () else none) with
    | none => giveUp tid th s
    | some () =>
      let op := match th.kind with
        | .retr => FsOp.openRead (.dirfd x.dirfd) x.arg
        | .stor _ => FsOp.create (.dirfd x.dirfd) x.arg
      let fd := s.fds.lowest
      let s := { s with fds := s.fds.alloc (.file tid) }
      .ok (setThread tid (s.emit (.fs th.sess op)) { th with file := some fd, pc := .lock })
  | _ => .ok s

/-- reply 150 and the first values of the loop variables -/
def openingStep : Res Server :=
  withSess th s fun x =>
    .ok (setThread tid (s.ftpReply th.sess x (some th.cmd) FTP_DATACONN (openingText x th.size))
      { th with flag := 0, left := if th.offset > th.size then 0 else th.size - th.offset, pc := .loop })

/-- the stages after the loop -/
def leaveStep : Pc → Res Server
  | .rmData => withSess th s fun x => .ok (next tid th (s.removefd x.dataFd) .rmPasv)
  | .rmPasv => withSess th s fun x => .ok (next tid th (s.removefd x.pasvListenFd) .setPasv)
  | .setPasv => withSess th s fun x =>
    .ok (next tid th (s.put th.sess { x with pasvListenFd := none }) .setData)
  | .setData => withSess th s fun x =>
    .ok (next tid th (s.put th.sess { x with dataFd := none }) .closeFile)
  | .closeFile => .ok (next tid th (s.closeOpt th.file) .final)
  | .final => withSess th s fun x =>
    let reply := fun code text => s.ftpReply th.sess x (some th.cmd) code (ascii text)
    let s := if th.flag = 0 ∧ x.aborReceived = false then reply FTP_TRANSFEROK "Transfer complete."
      else if th.flag = 1 then reply FTP_BADSENDFILE (badFileText th.kind)
      else if th.flag = 2 then reply FTP_BADSENDNET (badNetText th.kind)
      else s
    .ok (next tid th s .checkAbor)
  -- `check_abor`; its reply goes to `p_sess`, the session of `main`
  | .checkAbor => withSess th s fun x =>
    if x.aborReceived then
      .ok (endThread tid ((s.put th.sess { x with aborReceived := false }).emit
        (.mainReply FTP_ABOROK (ascii "ABOR successful"))))
    else .ok (endThread tid s)
  | _ => .ok s

/-- leave the loop with `flag` -/
def leave (flag : Nat) : Server := setThread tid s { th with flag := flag, pc := .rmData }

/-- one round of `while (bytes_to_send)`; `lseek` gives the offset, stored in an `int` -/
def retrStep : Res Server :=
  match th.pc with
  | .lock => if env.lock then .ok (next tid th s .stat) else giveUp tid th s
  | .stat =>
    if env.fstat.1 then
      .ok (setThread tid s { th with size := env.fstat.2, pc := if th.offset = 0 then .opening else .seek })
    else giveUp tid th s
  | .seek =>
    if env.lseek = false ∨ wrapS 32 th.offset = -1 then giveUp tid th s
    else .ok (next tid th s .opening)
  | .opening => openingStep tid th s
  | .loop =>
    if th.left = 0 then .ok (leave tid th s 0) else
    withSess th s fun x =>
      let num := if th.left > 4096 then 4096 else th.left.toNat
      match x.dataFd, env.sendfile with
      | some _, some n =>
        let s := s.emit (.fs th.sess (.send (min n num)))
        if x.aborReceived then .ok (leave tid th s 2)
        else .ok (setThread tid s { th with left := th.left - (min n num : Nat) })
      | _, _ => .ok (leave tid th s 2)
  | .offset => enterStep env tid th s .offset
  | .clear => enterStep env tid th s .clear
  | .open => enterStep env tid th s .open
  | pc => leaveStep tid th s pc

/-- one round of `for(;;)`, or one `write` of the `writen` in it -/
def uploadStep (isAppend : Bool) : Res Server :=
  match th.pc with
  | .lock =>
    if env.lock then .ok (next tid th s (if isAppend = false ∧ th.offset = 0 then .trunc else .seek))
    else giveUp tid th s
  | .trunc => .ok (next tid th (s.emit (.fs th.sess .truncate)) .seek)
  | .seek => if env.lseek then .ok (next tid th s .stat) else giveUp tid th s
  | .stat =>
    if env.fstat.1 then .ok (setThread tid s { th with size := env.fstat.2, pc := .opening })
    else giveUp tid th s
  | .opening => openingStep tid th s
  | .loop => withSess th s fun x =>
    match x.dataFd, env.read with
    | some _, .intr => .ok s
    | some _, .ok 0 => .ok (leave tid th s 0)
    | some _, .ok (n+1) =>
      if x.aborReceived then .ok (leave tid th s 2)
      else .ok (next tid th s (.write (min (n+1) 1024)))
    | _, _ => .ok (leave tid th s 2)
  | .write n =>
    match env.write with
    | .intr => .ok s
    | .err => .ok (leave tid th s 1)
    | .ok k =>
      let s := s.emit (.fs th.sess (.write (min k n)))
      .ok (next tid th s (if n - k = 0 then .loop else .write (n - k)))
  | .offset => enterStep env tid th s .offset
  | .clear => enterStep env tid th s .clear
  | .open => enterStep env tid th s .open
  | pc => leaveStep tid th s pc

end

/-- one step of the thread `tid` -/
def threadStep (env : TEnv) (tid : Tid) (s : Server) : Res Server :=
  match s.threads tid with
  | none => .ok s
  | some th =>
    match th.kind with
    | .retr => retrStep env tid th s
    | .stor isAppend => uploadStep env tid th s isAppend

end Myftpd
