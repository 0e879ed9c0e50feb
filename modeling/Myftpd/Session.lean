import Myftpd.Sysutil
import Myftpd.Lib.DList

/-!
# session.h, ftpcodes.h and the timeout list of ftpepoll.cpp

Pointers are numbers: `Sid` for a `session_t`, `Nid` for a `toNode`.  Descriptors are numbers too;
where the source holds -1 for "no descriptor", the model holds `none`.

The timeout list is kept at pointer level: `left` and `right` of the nodes, `pMRU` and `pLRU`
(`TimeList.links`), and `map_fd_toNode`.
-/

namespace Myftpd
open CMem

abbrev Fd := Nat
abbrev Sid := Nat
abbrev Nid := Nat
abbrev Tid := Nat

/-! ## reply codes -/

def FTP_DATACONN : Nat := 150
def FTP_NOOPOK : Nat := 200
def FTP_TYPEOK : Nat := 200
def FTP_PORTOK : Nat := 200
def FTP_UMASKOK : Nat := 200
def FTP_CHMODOK : Nat := 200
def FTP_FEAT : Nat := 211
def FTP_STATOK : Nat := 211
def FTP_SIZEOK : Nat := 213
def FTP_SITEHELP : Nat := 214
def FTP_HELP : Nat := 214
def FTP_SYSTOK : Nat := 215
def FTP_GREET : Nat := 220
def FTP_GOODBYE : Nat := 221
def FTP_ABOR_NOCONN : Nat := 225
def FTP_TRANSFEROK : Nat := 226
def FTP_ABOROK : Nat := 226
def FTP_PASVOK : Nat := 227
def FTP_LOGINOK : Nat := 230
def FTP_CWDOK : Nat := 250
def FTP_RMDIROK : Nat := 250
def FTP_DELEOK : Nat := 250
def FTP_RENAMEOK : Nat := 250
def FTP_PWDOK : Nat := 257
def FTP_MKDIROK : Nat := 257
def FTP_GIVEPWORD : Nat := 331
def FTP_RESTOK : Nat := 350
def FTP_RNFROK : Nat := 350
def FTP_TOO_MANY_USERS : Nat := 421
def FTP_IP_LIMIT : Nat := 421
def FTP_BADSENDNET : Nat := 426
def FTP_BADSENDFILE : Nat := 451
def FTP_BADCMD : Nat := 500
def FTP_COMMANDNOTIMPL : Nat := 502
def FTP_NEEDRNFR : Nat := 503
def FTP_LOGINERR : Nat := 530
def FTP_FILEFAIL : Nat := 550
def FTP_UPLOADFAIL : Nat := 553

/-! ## sessions -/

/-- `sockaddr_in` as `do_port` fills it -/
structure SockAddr where
  ip : List Nat
  port : List Nat
  deriving DecidableEq, Repr

/-- `session_t`.  `cmd` and `arg` are the C strings in the two buffers; `cmdline` is used only while
a line is read and parsed.  The fields that only the disabled rate limit reads are left out. -/
structure Session where
  uid : Nat
  ctrlFd : Fd
  cmd : List UInt8
  arg : List UInt8
  portAddr : Option SockAddr
  pasvListenFd : Option Fd
  dataFd : Option Fd
  bwUploadRateMax : Nat
  bwDownloadRateMax : Nat
  isAscii : Bool
  restartPos : Int
  rnfrName : Option (List UInt8)
  aborReceived : Bool
  numClients : Nat
  numThisIp : Nat
  dirfd : Option Fd
  deriving DecidableEq, Repr

/-- `init_session`, with the control socket that every session gets at once -/
def initSession (ctrlFd : Fd) : Session where
  uid := 0
  ctrlFd := ctrlFd
  cmd := []
  arg := []
  portAddr := none
  pasvListenFd := none
  dataFd := none
  bwUploadRateMax := 0
  bwDownloadRateMax := 0
  isAscii := false
  restartPos := 0
  rnfrName := none
  aborReceived := false
  numClients := 0
  numThisIp := 0
  dirfd := none

inductive FdType where
  | listen        -- 0, the listening socket
  | ctrl          -- FDTYPECTRL
  | data          -- FDTYPEDATA
  deriving DecidableEq, Repr

/-- `fd_t` -/
structure FdT where
  type : FdType
  fd : Fd
  deriving DecidableEq, Repr

/-- `edata_t` -/
structure Edata where
  fdIn : Option FdT
  sess : Option Sid
  deriving DecidableEq, Repr

def Edata.null : Edata := ⟨none, none⟩

/-! ## the timeout list -/

/-- `toNode` without its two links -/
structure ToNode where
  sess : Sid
  lastTime : Int
  deriving DecidableEq, Repr

/-- The timeout list: `links.head` is `pMRU`, `links.last` is `pLRU`. -/
structure TimeList where
  links : DList Nid
  node : Nid → Option ToNode
  nextNid : Nid
  map : Fd → Option Nid

namespace TimeList

def init : TimeList := ⟨DList.empty, fun _ => none, 0, fun _ => none⟩

def pMRU (tl : TimeList) : Option Nid := tl.links.head
def pLRU (tl : TimeList) : Option Nid := tl.links.last

def linkMRU (tl : TimeList) (n : Nid) : TimeList := { tl with links := tl.links.linkHead n }

def unlinkNode (tl : TimeList) (n : Nid) : TimeList := { tl with links := tl.links.unlink n }

/-- `newToNode(sess, sec)`, `linkMRU`, `map_fd_toNode[fd] = node` -/
def addtoNode (tl : TimeList) (sid : Sid) (fd : Fd) (now : Int) : TimeList :=
  let n := tl.nextNid
  let tl := { tl with
    node := Function.update tl.node n (some ⟨sid, wrapS 32 now⟩)
    nextNid := n + 1 }
  let tl := tl.linkMRU n
  { tl with map := Function.update tl.map fd (some n) }

/-- `node->lastTime = now`, `unlinkNode`, `linkMRU`, when the map knows the descriptor -/
def refreshTimeout (tl : TimeList) (fd : Fd) (now : Int) : TimeList :=
  match tl.map fd with
  | none => tl
  | some n =>
    let tl := { tl with
      node := Function.update tl.node n ((tl.node n).map fun x : ToNode => ⟨x.sess, wrapS 32 now⟩) }
    (tl.unlinkNode n).linkMRU n

/-- `sessTime`, stored in an `int` -/
def sessTime (x : ToNode) (now : Int) : Int := wrapS 32 (now - x.lastTime)

/-- `sessTime(pLRU)+TIMEOUTSEG > tunable_idle_session_timeout`: the `int` on the left is compared as
an `unsigned` -/
def isTimeout (x : ToNode) (now : Int) (idle : Nat) : Bool :=
  decide (wrapU32 (sessTime x now + TIMEOUTSEG) > idle)

/-- the part of `removeToNode` that concerns the list: clear the map entry, unlink, free -/
def remove (tl : TimeList) (n : Nid) (fd : Fd) : TimeList :=
  let tl := { tl with map := Function.update tl.map fd none }
  let tl := tl.unlinkNode n
  { tl with node := Function.update tl.node n none }

end TimeList

end Myftpd
