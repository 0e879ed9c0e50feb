import Myftpd.Session
import Myftpd.Lib.Slots

/-!
# The state of the server, and the routines that several parts of it share

`Server` holds what the process owns (sessions, `sessinfo`, the timeout list, the counters of
connections, transfer threads), what the kernel keeps for it (the descriptor table, the set of
descriptors registered in `epollfd`, the receive sides of the control sockets), where the main loop
stands (`Main`) and the log of what it did (`Act`).

A descriptor remembers what it was opened for (`Desc`); the program sees only its number.
-/

namespace Myftpd
open CMem

/-- the kind of file a path turned out to name -/
inductive FKind where
  | dir | reg | other
  deriving DecidableEq, Repr

/-- what an open descriptor refers to -/
inductive Desc where
  | std
  | listen
  | epoll
  | ctrl (sid : Sid)
  | pasv (sid : Sid)
  | data (sid : Sid)
  | cwd (sid : Sid) (kind : FKind)
  | file (tid : Tid)
  deriving DecidableEq, Repr

/-- a listener of PASV -/
def isPasv : Option Desc → Bool
  | some (.pasv _) => true
  | _ => false

/-- the directory a relative path is resolved against -/
inductive Base where
  | dirfd (fd : Option Fd)
  | process
  deriving DecidableEq, Repr

/-- A call that reached the file system and succeeded. -/
inductive FsOp where
  | chdirTo (b : Base) (path : List UInt8)     -- `openat` of CWD
  | list (b : Base)
  | openRead (b : Base) (path : List UInt8)
  | create (b : Base) (path : List UInt8)      -- `openat` with `O_CREAT`
  | mkdir (path : List UInt8)
  | rmdir (path : List UInt8)
  | unlink (path : List UInt8)
  | rename (old new : List UInt8)
  | stat (path : List UInt8)
  | chmod (path : List UInt8) (mode : Nat)
  | truncate
  | send (n : Nat)
  | write (n : Nat)
  deriving DecidableEq, Repr

/-- What the server does towards the outside.  `cmd` is the number of the control line that is
being answered, `none` for the greeting and for a refused connection. -/
inductive Act where
  | line (sid : Sid) (cmd : Nat)
  | reply (sid : Sid) (fd : Fd) (cmd : Option Nat) (code : Nat) (text : List UInt8)
  | lreply (sid : Sid) (fd : Fd) (cmd : Option Nat) (code : Nat) (text : List UInt8)
  | raw (sid : Sid) (fd : Fd) (text : List UInt8)
  | data (sid : Sid) (fd : Option Fd) (bs : List UInt8)
  | fs (sid : Sid) (op : FsOp)
  | chdirUp
  | umask (um : Nat)
  | mainReply (code : Nat) (text : List UInt8)  -- a reply on `p_sess`, the session of `main`
  deriving DecidableEq, Repr

/-- one ready descriptor of an `epoll_wait`: the pointer is `&sessinfo[fd]` -/
structure Event where
  fd : Fd
  epollin : Bool
  epollout : Bool
  epollhup : Bool
  deriving DecidableEq, Repr

/-- the reads of `sess->pasv_listen_fd` in `do_pasv`: for `getsockname`, for `sessinfo`, for `addFdData` -/
inductive PasvPc where
  | name | entry | watch
  deriving DecidableEq, Repr

/-- one write of a handler to the control socket -/
inductive Write where
  | raw (text : List UInt8)                 -- `writen`
  | reply (code : Nat) (text : List UInt8)  -- `ftp_reply`
  deriving DecidableEq, Repr

/-- Where the main loop stands. -/
inductive Main where
  | events (evs : List Event)             -- events of the batch still to dispatch; none: `epoll_wait`
  | accepting (evs : List Event)          -- in the accept loop
  | command (sid : Sid) (evs : List Event)  -- `processCtrlRead` has parsed a line
  | pasv (sid : Sid) (text : List UInt8) (pc : PasvPc) (evs : List Event)  -- in `do_pasv`, with a listener
  | reply (sid : Sid) (ws : List Write) (evs : List Event)  -- in a handler that has these writes to make
  | evict                                 -- in the eviction loop of `epoll_wait_timeout`
  deriving DecidableEq, Repr

/-- events of the current batch that are still to be dispatched -/
def Main.pending : Main → List Event
  | .events evs => evs
  | .accepting evs => evs
  | .command _ evs => evs
  | .pasv _ _ _ evs => evs
  | .reply _ _ evs => evs
  | .evict => []

/-- the session whose handler is under way -/
def Main.inside : Main → Option Sid
  | .pasv sid _ _ _ => some sid
  | .reply sid _ _ => some sid
  | _ => none

/-- the session whose line is in hand -/
def Main.serves : Main → Option Sid
  | .command sid _ => some sid
  | m => m.inside

theorem serves_inside {m : Main} {sid : Sid} (h : m.inside = some sid) : m.serves = some sid := by
  cases m <;> first | exact h | cases h

/-- the session that is in `do_pasv`, and which read comes next -/
def Main.stage : Main → Option (Sid × PasvPc)
  | .pasv sid _ pc _ => some (sid, pc)
  | _ => none

theorem stage_outside {m : Main} (h : m.inside = none) : m.stage = none := by
  cases m <;> first | rfl | cases h

/-- where a handler that starts at `m` leaves the main loop: it has returned, or it has more to do -/
inductive Main.Leaves (sid : Sid) (m : Main) : Main → Prop where
  | returned : m.Leaves sid m
  | writes (ws : List Write) : m.Leaves sid (.reply sid ws m.pending)
  | listens (text : List UInt8) : m.Leaves sid (.pasv sid text .name m.pending)

theorem Main.Leaves.pending {sid : Sid} {m m' : Main} (h : m.Leaves sid m') : m'.pending = m.pending := by
  cases h <;> rfl

/-- the routine a transfer thread runs -/
inductive Kind where
  | retr
  | stor (isAppend : Bool)
  deriving DecidableEq, Repr

/-- Where a transfer thread stands; the two routines share the names of their stages. -/
inductive Pc where
  | offset | clear | open | lock | trunc | seek | stat | opening | loop | write (n : Nat)
  | rmData | rmPasv | setPasv | setData | closeFile | final | checkAbor
  deriving DecidableEq, Repr

/-- A transfer thread: its session, the control line that started it, and its locals. -/
structure Thread where
  sess : Sid
  cmd : Nat
  kind : Kind
  pc : Pc
  offset : Int
  file : Option Fd
  size : Int
  left : Int
  flag : Nat
  deriving DecidableEq, Repr

structure Passwd where
  name : List UInt8
  uid : Nat
  dir : List UInt8
  deriving DecidableEq, Repr

/-- what is fixed while the server runs: tunables, the two descriptors of `main`, the accounts -/
structure Conf where
  maxClients : Nat
  maxPerIp : Nat
  idleSessionTimeout : Nat
  localUmask : Nat
  listenfd : Fd
  epollfd : Fd
  getpwnam : List UInt8 → Option Passwd
  getpwuid : Nat → Option Passwd
  getspnam : List UInt8 → Option (List UInt8)
  crypt : List UInt8 → List UInt8 → Option (List UInt8)  -- NULL for a malformed entry

structure Server where
  heap : Sid → Option Session
  nextSid : Sid
  fds : Slots Desc
  watch : Fd → Bool
  sock : Fd → Sock
  sessinfo : Fd → Edata
  tl : TimeList
  sChildren : Nat
  sIpCount : Nat → Option Nat
  threads : Tid → Option Thread
  nextTid : Tid
  cmdNo : Nat
  main : Main
  log : List Act

namespace Server

/-! ## single updates -/

def emit (s : Server) (a : Act) : Server := { s with log := s.log ++ [a] }
def emits (s : Server) (as : List Act) : Server := { s with log := s.log ++ as }
def put (s : Server) (sid : Sid) (x : Session) : Server :=
  { s with heap := Function.update s.heap sid (some x) }
def goto (s : Server) (pc : Main) : Server := { s with main := pc }

/-- the handler goes on with these writes -/
def andThen (s : Server) (sid : Sid) (ws : List Write) : Server := s.goto (.reply sid ws s.main.pending)

/-- `close(fd)`: the descriptor leaves the table and with it the set of `epollfd` -/
def close (s : Server) (fd : Fd) : Server :=
  { s with
    fds := s.fds.release fd
    watch := Function.update s.watch fd false
    sock := Function.update s.sock fd Sock.fresh }

/-- `close` of a descriptor field, nothing for -1 -/
def closeOpt (s : Server) : Option Fd → Server
  | none => s
  | some fd => s.close fd

def closeAll (s : Server) (fds : List Fd) : Server := fds.foldl Server.close s

/-- a call that gives a new descriptor, if it does -/
def opened (s : Server) : Option Desc → Server
  | none => s
  | some d => { s with fds := s.fds.alloc d }

/-- `removefd`: `epoll_ctl(EPOLL_CTL_DEL)` and `close`; both fail on -1 -/
def removefd (s : Server) (fd : Option Fd) : Server := s.closeOpt fd

/-- `addFdData(epollfd, fd, p, false)` with `p = &sessinfo[fd]` -/
def addFdData (s : Server) (fd : Fd) : Server := { s with watch := Function.update s.watch fd true }

/-- `sessinfo[fd] = e`, undefined outside the array -/
def setSessinfo (s : Server) (fd : Fd) (e : Edata) : Res Server :=
  if fd < MAX_SESSIONS then .ok { s with sessinfo := Function.update s.sessinfo fd e }
  else .error (.crash .bounds)

/-! ## replies -/

def ftpReply (s : Server) (sid : Sid) (x : Session) (cmd : Option Nat) (code : Nat)
    (text : List UInt8) : Server := s.emit (.reply sid x.ctrlFd cmd code text)

def ftpLreply (s : Server) (sid : Sid) (x : Session) (cmd : Option Nat) (code : Nat)
    (text : List UInt8) : Server := s.emit (.lreply sid x.ctrlFd cmd code text)

/-! ## closing a session -/

/-- `closeSess`: the three descriptors, the session, its `fd_t` -/
def closeSess (s : Server) (sid : Sid) : Res Server :=
  match s.heap sid with
  | none => .error (.crash .freed)
  | some x =>
    let s := ((s.close x.ctrlFd).closeOpt x.dataFd).closeOpt x.pasvListenFd
    let s := { s with heap := Function.update s.heap sid none }
    s.setSessinfo x.ctrlFd Edata.null

/-- `removeToNode(node)` -/
def removeToNode (s : Server) (n : Nid) : Res Server :=
  match s.tl.node n with
  | none => .error (.crash .freed)
  | some node =>
    match s.heap node.sess with
    | none => .error (.crash .freed)
    | some x => do
      let s ← s.closeSess node.sess
      return { s with tl := s.tl.remove n x.ctrlFd }

/-- the state at the first `epoll_wait`: `listenfd` is open and registered -/
def boot (c : Conf) (fds : Slots Desc) : Server where
  heap := fun _ => none
  nextSid := 0
  fds := fds
  watch := Function.update (fun _ => false) c.listenfd true
  sock := fun _ => Sock.fresh
  sessinfo := Function.update (fun _ => Edata.null) c.listenfd ⟨some ⟨.listen, c.listenfd⟩, none⟩
  tl := TimeList.init
  sChildren := 0
  sIpCount := fun _ => none
  threads := fun _ => none
  nextTid := 0
  cmdNo := 0
  main := .events []
  log := []

/-! ## fields after an update -/

section
variable {s : Server} {sid : Sid} {x : Session}

theorem foldl_emit {α : Type} (f : α → Act) (l : List α) (s : Server) :
    l.foldl (fun s a => s.emit (f a)) s = s.emits (l.map f) := by
  induction l generalizing s with
  | nil => simp only [List.foldl_nil, emits, List.map_nil, List.append_nil]
  | cons a l ih =>
    rw [List.foldl_cons, ih, List.map_cons]
    simp only [emits, emit, List.append_assoc, List.singleton_append]

@[simp] theorem closeOpt_main (o : Option Fd) : (s.closeOpt o).main = s.main := by cases o <;> rfl
@[simp] theorem closeOpt_tl (o : Option Fd) : (s.closeOpt o).tl = s.tl := by cases o <;> rfl
@[simp] theorem closeOpt_heap (o : Option Fd) : (s.closeOpt o).heap = s.heap := by cases o <;> rfl
@[simp] theorem closeOpt_threads (o : Option Fd) : (s.closeOpt o).threads = s.threads := by
  cases o <;> rfl
@[simp] theorem closeOpt_sessinfo (o : Option Fd) : (s.closeOpt o).sessinfo = s.sessinfo := by
  cases o <;> rfl

/-- the state that `closeSess` leaves -/
def closed (s : Server) (sid : Sid) (x : Session) : Server :=
  let t := ((s.close x.ctrlFd).closeOpt x.dataFd).closeOpt x.pasvListenFd
  { t with
    heap := Function.update t.heap sid none
    sessinfo := Function.update t.sessinfo x.ctrlFd Edata.null }

theorem closeSess_inv {s' : Server} (h : s.closeSess sid = .ok s') :
    ∃ x, s.heap sid = some x ∧ x.ctrlFd < MAX_SESSIONS ∧ s' = closed s sid x := by
  unfold closeSess at h
  cases hx : s.heap sid with
  | none => rw [hx] at h; cases h
  | some x =>
    rw [hx] at h
    dsimp only at h
    unfold setSessinfo at h
    split at h
    · rename_i hb
      cases h
      exact ⟨x, rfl, hb, rfl⟩
    · cases h

theorem closeSess_eq (hx : s.heap sid = some x) (hb : x.ctrlFd < MAX_SESSIONS) :
    s.closeSess sid = .ok (closed s sid x) := by
  unfold closeSess setSessinfo
  simp only [hx, if_pos hb]
  rfl

theorem removeToNode_inv {n : Nid} {s' : Server} (h : s.removeToNode n = .ok s') :
    ∃ node x t, s.tl.node n = some node ∧ s.heap node.sess = some x ∧ s.closeSess node.sess = .ok t ∧
      s' = { t with tl := t.tl.remove n x.ctrlFd } := by
  unfold removeToNode at h
  cases hn : s.tl.node n with
  | none => rw [hn] at h; cases h
  | some node =>
    simp only [hn] at h
    cases hx : s.heap node.sess with
    | none => rw [hx] at h; cases h
    | some x =>
      rw [hx] at h
      obtain ⟨t, ht, h⟩ := bind_ok.mp h
      cases h
      exact ⟨node, x, t, rfl, hx, ht, rfl⟩

theorem removeToNode_eq {n : Nid} {node : ToNode} (hn : s.tl.node n = some node)
    (hx : s.heap node.sess = some x) (hb : x.ctrlFd < MAX_SESSIONS) : s.removeToNode n = .ok
      { closed s node.sess x with tl := (closed s node.sess x).tl.remove n x.ctrlFd } := by
  unfold removeToNode
  simp only [hn, hx, closeSess_eq hx hb]
  rfl

theorem closed_heap : (closed s sid x).heap = Function.update s.heap sid none := by
  unfold closed
  simp only [closeOpt_heap]
  rfl

theorem closed_tl : (closed s sid x).tl = s.tl := by
  unfold closed
  simp only [closeOpt_tl]
  rfl

theorem closed_main : (closed s sid x).main = s.main := by
  unfold closed
  simp only [closeOpt_main]
  rfl

theorem closed_threads : (closed s sid x).threads = s.threads := by
  unfold closed
  simp only [closeOpt_threads]
  rfl

end

end Server

/-- the descriptors of the process before the first connection -/
structure Boots (c : Conf) (fds : Slots Desc) : Prop where
  listen : fds.get c.listenfd = some .listen
  epoll : fds.get c.epollfd = some .epoll
  std : ∀ n d, fds.get n = some d → n = c.listenfd ∨ n = c.epollfd ∨ d = .std

end Myftpd
