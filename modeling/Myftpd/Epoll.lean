import Myftpd.Transfer
import Myftpd.Lib.Runs

/-!
# ftpepoll.cpp: connections, the event loop, and the system as a whole

`Label` names one step: of the network (bytes, end of file or errors on a control socket), of the
main loop, or of a transfer thread.  `exec` carries it out, `enabled` says when it can happen.
The steps of the main loop are those between which nothing of the loop's own is pending: return of
`epoll_wait` (`wait`, `timeout`, `waitErr`), one round of the eviction loop (`evictOne`), taking the
next event of the batch up to the parsed command (`dispatch`), the command (`command`), the further
steps of a handler between which a transfer thread can come in (`onward`), and one round of the accept
loop (`acceptOne`, `acceptErr`).
-/

namespace Myftpd
open CMem Server

/-- a new connection: the client's address and the clock reading of `addtoNode` -/
structure Conn where
  ip : Nat
  now : Int
  deriving DecidableEq, Repr

def sChildrenMax : Nat := 2^32

/-- `handle_ip_count(&ip)`: the new count -/
def handleIpCount (s : Server) (ip : Nat) : Nat :=
  match s.sIpCount ip with
  | none => 1
  | some n => (n + 1) % 2^32

/-- `isValid(sess)`: the refusal that is sent, if any -/
def isValid (c : Conf) (x : Session) : Option (Nat × String) :=
  if c.maxClients > 0 ∧ x.numClients > c.maxClients then
    some (FTP_TOO_MANY_USERS, "There are too many users. Try later.")
  else if c.maxPerIp > 0 ∧ x.numThisIp > c.maxPerIp then
    some (FTP_IP_LIMIT, "There are too many connections from your IP. Try later.")
  else none

theorem isValid_code {c : Conf} {x : Session} {r : Nat × String} (h : isValid c x = some r) :
    r = (FTP_TOO_MANY_USERS, r.2) := by
  unfold isValid at h
  split at h
  · cases h
    rfl
  · split at h
    · cases h
      rfl
    · cases h

/-- the record of a new connection as `isValid` sees it; `num_this_ip` is still 0 -/
def newSession (s : Server) : Session :=
  { initSession s.fds.lowest with numClients := s.sChildren }

/-- `accept` has given the descriptor, `malloc` the session -/
def beginConn (s : Server) : Server :=
  ({ s with
    fds := s.fds.alloc (.ctrl s.nextSid)
    sock := Function.update s.sock s.fds.lowest Sock.fresh
    nextSid := s.nextSid + 1 }).put s.nextSid (newSession s)

/-- `handleNewConn(connfd, addr)` on the connection that `accept` returns next -/
def handleNewConn (c : Conf) (conn : Conn) (s : Server) : Res Server :=
  let connfd := s.fds.lowest
  let sid := s.nextSid
  let x := newSession s
  match isValid c x with
  | some (code, text) => ((beginConn s).ftpReply sid x none code (ascii text)).closeSess sid
  | none => do
    let ips := handleIpCount s conn.ip
    let s := beginConn s
    let s := { s with
      sChildren := (s.sChildren + 1) % sChildrenMax
      sIpCount := Function.update s.sIpCount conn.ip (some ips) }
    let x := { x with numThisIp := ips }
    let s ← (s.put sid x).setSessinfo connfd ⟨some ⟨.ctrl, connfd⟩, some sid⟩
    let s := s.addFdData connfd
    let s := s.ftpReply sid x none FTP_GREET (ascii "(myftpd 0.1)")
    return { s with tl := s.tl.addtoNode sid connfd conn.now }

/-- `processDataRead(sess)` -/
def processDataRead (env : Env) (sid : Sid) (s : Server) : Res Server :=
  match s.heap sid with
  | none => .error (.crash .freed)
  | some x =>
    match x.pasvListenFd with
    | none => .error (.exit .pasvListen)
    | some _ =>
      if env.accept then
        let fd := s.fds.lowest
        .ok (({ s with fds := s.fds.alloc (.data sid) }).put sid { x with dataFd := some fd })
      else .ok s

/-- the first half of `processCtrlRead(sess)`: read a line, parse it, and leave the command to
`handleCmd`; at end of file close the session -/
def processCtrlRead (sid : Sid) (evs : List Event) (s : Server) : Res Server :=
  match s.heap sid with
  | none => .error (.crash .freed)
  | some x =>
    match ctrlRead (s.sock x.ctrlFd) with
    | .error e => .error e
    | .ok none => s.closeSess sid
    | .ok (some (m, k)) =>
      match parseCmdline m with
      | none => .error (.crash .overlap)
      | some (cmd, arg) =>
        let s := { s with sock := Function.update s.sock x.ctrlFd k, cmdNo := s.cmdNo + 1 }
        let s := (s.put sid { x with cmd := cmd, arg := arg }).emit (.line sid s.cmdNo)
        .ok (s.goto (.command sid evs))

/-- `processRead(pedat)` -/
def processRead (env : Env) (type : FdType) (sid : Option Sid) (evs : List Event) (s : Server) :
    Res Server :=
  match sid with
  | none => .error (.crash .nullEdata)
  | some sid => if type = .ctrl then processCtrlRead sid evs s else processDataRead env sid s

/-- one event of the batch; `processRead` returns 0 or -1 and `processWrite` 0, so the registration
is never changed here -/
def dispatch (c : Conf) (env : Env) (now : Int) (ev : Event) (evs : List Event) (s : Server) :
    Res Server :=
  let pedat := s.sessinfo ev.fd
  let s := s.goto (.events evs)
  match pedat.fdIn with
  | none => .error (.crash .nullEdata)
  | some f =>
    if f.fd = c.listenfd then .ok (s.goto (.accepting evs))
    else if ev.epollin then
      if f.fd < MAX_SESSIONS then
        processRead env f.type pedat.sess evs { s with tl := s.tl.refreshTimeout f.fd now }
      else .error (.crash .bounds)
    else if ev.epollout then .ok s
    else if ev.epollhup then
      match pedat.sess with
      | none => .error (.crash .nullEdata)
      | some sid => s.closeSess sid
    else .ok s

/-- **Where an event is read from**: the two routines behind `processRead`. -/
theorem dispatch_read {c : Conf} {env : Env} {now : Int} {ev : Event} {evs : List Event} {s : Server}
    {type : FdType} {fd : Fd} {sid : Sid} (hi : s.sessinfo ev.fd = ⟨some ⟨type, fd⟩, some sid⟩)
    (hl : fd ≠ c.listenfd) (hb : fd < MAX_SESSIONS) (hin : ev.epollin = true) :
    dispatch c env now ev evs s = processRead env type (some sid) evs
      { s.goto (.events evs) with tl := s.tl.refreshTimeout fd now } := by
  unfold dispatch
  simp only [hi, if_neg hl, hin, if_pos hb, ↓reduceIte]
  rfl

/-- one round of the eviction loop -/
def evictOne (c : Conf) (now : Int) (s : Server) : Res Server :=
  match s.tl.pLRU with
  | none => .ok (s.goto (.events []))
  | some n =>
    match s.tl.node n with
    | none => .error (.crash .freed)
    | some node =>
      if TimeList.isTimeout node now c.idleSessionTimeout then s.removeToNode n
      else .ok (s.goto (.events []))

/-! ## what the steps of the loop can do -/

section
variable {c : Conf} {env : Env} {now : Int} {ev : Event} {evs : List Event} {s s' : Server} {sid : Sid}

theorem processCtrlRead_cases (he : processCtrlRead sid evs s = .ok s') : ∃ x, s.heap sid = some x ∧
    (ctrlRead (s.sock x.ctrlFd) = .ok none ∧ s.closeSess sid = .ok s' ∨
      ∃ m k cmd arg, ctrlRead (s.sock x.ctrlFd) = .ok (some (m, k)) ∧
        parseCmdline m = some (cmd, arg) ∧ s' = ((({ s with
          sock := Function.update s.sock x.ctrlFd k, cmdNo := s.cmdNo + 1 }).put sid
            { x with cmd := cmd, arg := arg }).emit (.line sid (s.cmdNo + 1))).goto (.command sid evs)) := by
  unfold processCtrlRead at he
  split at he
  · cases he
  · rename_i x hx
    refine ⟨x, hx, ?_⟩
    split at he
    · cases he
    · rename_i hk
      exact Or.inl ⟨hk, he⟩
    · rename_i m k hk
      split at he
      · cases he
      · rename_i cmd arg hp
        cases he
        exact Or.inr ⟨m, k, cmd, arg, hk, hp, rfl⟩

theorem processDataRead_cases (he : processDataRead env sid s = .ok s') : ∃ x p,
    s.heap sid = some x ∧ x.pasvListenFd = some p ∧
    (env.accept = true ∧ s' = ({ s with fds := s.fds.alloc (.data sid) }).put sid
        { x with dataFd := some s.fds.lowest } ∨
      env.accept = false ∧ s' = s) := by
  unfold processDataRead at he
  split at he
  · cases he
  · rename_i x hx
    split at he
    · cases he
    · rename_i p hp
      refine ⟨x, p, hx, hp, ?_⟩
      split at he
      · rename_i ha
        cases he
        exact Or.inl ⟨ha, rfl⟩
      · rename_i ha
        cases he
        exact Or.inr ⟨Bool.eq_false_iff.mpr ha, rfl⟩

/-- the state when `processRead` is called: the node of the descriptor has been refreshed -/
abbrev readied (s : Server) (evs : List Event) (fd : Fd) (now : Int) : Server :=
  { s.goto (.events evs) with tl := s.tl.refreshTimeout fd now }

/-- what an event leads to -/
inductive Dispatched (c : Conf) (env : Env) (now : Int) (ev : Event) (evs : List Event) (s : Server) :
    Server → Prop where
  | listen {f : FdT} : (s.sessinfo ev.fd).fdIn = some f → f.fd = c.listenfd →
      Dispatched c env now ev evs s (s.goto (.accepting evs))
  | ctrl {f : FdT} {sid : Sid} {s' : Server} : s.sessinfo ev.fd = ⟨some f, some sid⟩ →
      f.fd ≠ c.listenfd → ev.epollin = true → f.type = .ctrl →
      processCtrlRead sid evs (readied s evs f.fd now) = .ok s' → Dispatched c env now ev evs s s'
  | data {f : FdT} {sid : Sid} {s' : Server} : s.sessinfo ev.fd = ⟨some f, some sid⟩ →
      f.fd ≠ c.listenfd → ev.epollin = true → f.type ≠ .ctrl →
      processDataRead env sid (readied s evs f.fd now) = .ok s' → Dispatched c env now ev evs s s'
  | hup {f : FdT} {sid : Sid} {s' : Server} : s.sessinfo ev.fd = ⟨some f, some sid⟩ →
      f.fd ≠ c.listenfd → ev.epollin = false → ev.epollout = false → ev.epollhup = true →
      (s.goto (.events evs)).closeSess sid = .ok s' → Dispatched c env now ev evs s s'
  | quiet : ev.epollin = false → ev.epollout = true ∨ ev.epollhup = false →
      Dispatched c env now ev evs s (s.goto (.events evs))

theorem dispatch_cases (he : dispatch c env now ev evs s = .ok s') :
    Dispatched c env now ev evs s s' := by
  unfold dispatch at he
  dsimp only at he
  split at he
  · cases he
  · rename_i f hf
    have hi : ∀ sid, (s.sessinfo ev.fd).sess = some sid → s.sessinfo ev.fd = ⟨some f, some sid⟩ :=
      fun sid hs => by rw [← hf, ← hs]
    split at he
    · rename_i hl
      cases he
      exact .listen hf hl
    · rename_i hl
      split at he
      · rename_i h1
        split at he
        · unfold processRead at he
          split at he
          · cases he
          · rename_i sid hs
            split at he
            · rename_i ht
              exact .ctrl (hi sid hs) hl h1 ht he
            · rename_i ht
              exact .data (hi sid hs) hl h1 ht he
        · cases he
      · rename_i h1
        have h1' : ev.epollin = false := Bool.eq_false_iff.mpr h1
        split at he
        · rename_i h2
          cases he
          exact .quiet h1' (Or.inl h2)
        · rename_i h2
          split at he
          · rename_i h3
            split at he
            · cases he
            · rename_i sid hs
              exact .hup (hi sid hs) hl h1' (Bool.eq_false_iff.mpr h2) h3 he
          · rename_i h3
            cases he
            exact .quiet h1' (Or.inr (Bool.eq_false_iff.mpr h3))

/-- what the next step of a handler leads to -/
inductive HandlerStep (s : Server) : Server → Prop where
  | name {sid : Sid} {text : List UInt8} {evs : List Event} {x : Session} {fd : Fd} :
      s.main = .pasv sid text .name evs → s.heap sid = some x → x.pasvListenFd = some fd →
      isPasv (s.fds.get fd) = true → HandlerStep s (s.goto (.pasv sid text .entry evs))
  | entry {sid : Sid} {text : List UInt8} {evs : List Event} {x : Session} {fd : Fd} :
      s.main = .pasv sid text .entry evs → s.heap sid = some x → x.pasvListenFd = some fd →
      fd < MAX_SESSIONS → HandlerStep s ({ s with
        sessinfo := Function.update s.sessinfo fd ⟨some ⟨.data, fd⟩, some sid⟩ }.goto (.pasv sid text .watch evs))
  | watch {sid : Sid} {text : List UInt8} {evs : List Event} {x : Session} {fd : Fd} :
      s.main = .pasv sid text .watch evs → s.heap sid = some x → x.pasvListenFd = some fd →
      fd < MAX_SESSIONS → isPasv (s.fds.get fd) = true →
      HandlerStep s ((s.addFdData fd).goto (.reply sid [.reply FTP_PASVOK text] evs))
  | deaf {sid : Sid} {text : List UInt8} {evs : List Event} {x : Session} {fd : Fd} :
      s.main = .pasv sid text .watch evs → s.heap sid = some x → x.pasvListenFd = some fd →
      fd < MAX_SESSIONS → isPasv (s.fds.get fd) = false →
      HandlerStep s (s.goto (.reply sid [.reply FTP_PASVOK text] evs))
  | write {sid : Sid} {w : Write} {ws : List Write} {evs : List Event} {x : Session} :
      s.main = .reply sid (w :: ws) evs → s.heap sid = some x →
      HandlerStep s ((s.emit (w.act sid x (some s.cmdNo))).goto (.reply sid ws evs))
  | back {sid : Sid} {evs : List Event} : s.main = .reply sid [] evs → HandlerStep s (s.goto (.events evs))

theorem pasvStep_cases {text : List UInt8} {pc : PasvPc} (hm : s.main = .pasv sid text pc evs)
    (he : pasvStep sid text pc evs s = .ok s') : HandlerStep s s' := by
  unfold pasvStep at he
  split at he
  · cases he
  · rename_i x hx
    split at he
    · rename_i fd hp
      split at he
      · rename_i hd
        cases he
        exact .name hm hx hp hd
      · cases he
    · cases he
    · rename_i fd hp
      obtain ⟨t, ht, he⟩ := bind_ok.mp he
      unfold setSessinfo at ht
      split at ht
      · rename_i hb
        cases ht
        cases he
        exact .entry hm hx hp hb
      · cases ht
    · rename_i fd hp
      split at he
      · rename_i hb
        cases he
        split
        · rename_i hd
          exact .watch hm hx hp hb hd
        · rename_i hd
          exact .deaf hm hx hp hb (Bool.eq_false_iff.mpr hd)
      · cases he
    · cases he

theorem handlerStep_cases {sigpipe : Bool} (hen : s.main.inside ≠ none) (he : handlerStep sigpipe s = .ok s') :
    HandlerStep s s' := by
  unfold handlerStep at he
  split at he
  · rename_i hm
    exact pasvStep_cases hm he
  · rename_i sid ws evs hm
    unfold replyStep at he
    split at he
    · cases he
      exact .back hm
    · split at he
      · cases he
      · rename_i x hx
        split at he
        · cases he
        · cases he
          exact .write hm hx
  · rename_i h1 h2
    unfold Main.inside at hen
    split at hen
    · rename_i hm
      exact absurd hm (h1 _ _ _ _)
    · rename_i hm
      exact absurd hm (h2 _ _ _)
    · exact absurd rfl hen

/-- a round of the eviction loop ends the loop or removes a node -/
theorem evictOne_cases (he : Myftpd.evictOne c now s = .ok s') :
    s' = s.goto (.events []) ∧ (∀ n, s.tl.pLRU = some n → ∃ node, s.tl.node n = some node ∧
        TimeList.isTimeout node now c.idleSessionTimeout = false) ∨
      ∃ n node x t, s.tl.pLRU = some n ∧ s.tl.node n = some node ∧
        TimeList.isTimeout node now c.idleSessionTimeout = true ∧ s.heap node.sess = some x ∧
        s.closeSess node.sess = .ok t ∧ s' = { t with tl := t.tl.remove n x.ctrlFd } := by
  unfold Myftpd.evictOne at he
  split at he
  · rename_i h0
    cases he
    refine Or.inl ⟨rfl, fun n hn => ?_⟩
    rw [h0] at hn
    cases hn
  · rename_i n hn
    split at he
    · cases he
    · rename_i node hnode
      split at he
      · rename_i ht
        obtain ⟨node', x, t, hn', hx, hc, rfl⟩ := removeToNode_inv he
        cases hnode.symm.trans hn'
        exact Or.inr ⟨n, node, x, t, hn, hnode, ht, hx, hc, rfl⟩
      · rename_i ht
        cases he
        refine Or.inl ⟨rfl, fun m hm => ?_⟩
        cases hn.symm.trans hm
        exact ⟨node, hnode, Bool.eq_false_iff.mpr ht⟩

end

/-! ## the system -/

inductive Label where
  | arrive (fd : Fd) (bs : List UInt8)           -- bytes from the peer
  | hangup (fd : Fd)                             -- the peer has closed
  | faults (fd : Fd) (script : List (Option Errno))  -- what the next calls will meet
  | wait (evs : List Event)                      -- `epoll_wait` returns events
  | timeout                                      -- `epoll_wait` returns 0
  | waitErr (e : Errno)                          -- `epoll_wait` fails
  | evictOne (now : Int)
  | dispatch (now : Int) (env : Env)
  | command (env : Env)
  | onward (sigpipe : Bool)
  | acceptOne (conn : Conn)
  | acceptErr (e : Errno)                        -- `accept` on the listening socket fails
  | thread (tid : Tid) (env : TEnv)
  deriving DecidableEq, Repr

def isCtrl : Option Desc → Bool
  | some (.ctrl _) => true
  | _ => false

/-- when a step can happen -/
def enabled (s : Server) : Label → Prop
  | .arrive fd _ => isCtrl (s.fds.get fd)
  | .hangup fd => isCtrl (s.fds.get fd)
  | .faults fd _ => isCtrl (s.fds.get fd)
  | .wait evs => s.main = .events [] ∧ evs ≠ [] ∧ evs.length ≤ MAXEVENTNUM ∧
      (evs.map Event.fd).Nodup ∧ ∀ ev ∈ evs, s.watch ev.fd
  | .timeout => s.main = .events [] ∧ s.tl.pLRU ≠ none
  | .waitErr _ => s.main = .events []
  | .evictOne _ => s.main = .evict
  | .dispatch _ _ => ∃ ev evs, s.main = .events (ev :: evs)
  | .command _ => ∃ sid evs, s.main = .command sid evs
  | .onward _ => s.main.inside ≠ none
  | .acceptOne _ => ∃ evs, s.main = .accepting evs
  | .acceptErr _ => ∃ evs, s.main = .accepting evs
  | .thread tid _ => s.threads tid ≠ none

/-- what a step does -/
def exec (c : Conf) (s : Server) : Label → Res Server
  | .arrive fd bs => .ok { s with
      sock := Function.update s.sock fd { s.sock fd with queue := (s.sock fd).queue ++ bs } }
  | .hangup fd => .ok { s with sock := Function.update s.sock fd { s.sock fd with fin := true } }
  | .faults fd es => .ok { s with sock := Function.update s.sock fd { s.sock fd with script := es } }
  | .wait evs => .ok (s.goto (.events evs))
  | .timeout => .ok (s.goto .evict)
  | .waitErr _ => .error (.exit .epoll)
  | .evictOne now => Myftpd.evictOne c now s
  | .dispatch now env =>
    match s.main with
    | .events (ev :: evs) => Myftpd.dispatch c env now ev evs s
    | _ => .ok s
  | .command env =>
    match s.main with
    | .command sid evs => piped env s (handleCmd c env sid (s.goto (.events evs)))
    | _ => .ok s
  | .onward sigpipe => handlerStep sigpipe s
  | .acceptOne conn => handleNewConn c conn s
  | .acceptErr e =>
    match s.main with
    | .accepting evs => if e = .EAGAIN then .ok (s.goto (.events evs)) else .error (.exit .accept)
    | _ => .ok s
  | .thread tid env => threadStep env tid s

theorem exec_command {c : Conf} {s : Server} {env : Env} {sid : Sid} {evs : List Event}
    (hm : s.main = .command sid evs) :
    exec c s (.command env) = piped env s (handleCmd c env sid (s.goto (.events evs))) := by
  unfold exec
  simp only [hm]

theorem exec_command_ok {c : Conf} {s s' : Server} {env : Env} {sid : Sid} {evs : List Event}
    (hm : s.main = .command sid evs) (he : exec c s (.command env) = .ok s') :
    handleCmd c env sid (s.goto (.events evs)) = .ok s' := by
  rw [exec_command hm] at he
  exact piped_ok he

def initial (c : Conf) (s : Server) : Prop := ∃ fds, Boots c fds ∧ s = boot c fds

/-- the server as a transition system -/
def sys (c : Conf) : Runs.System Server Label where
  init := initial c
  step := fun l s s' => enabled s l ∧ exec c s l = .ok s'

abbrev Reach (c : Conf) (C : Server → Label → Prop) (s : Server) : Prop := Runs.Reach (sys c) C s

abbrev Path (c : Conf) (C : Server → Label → Prop) (s t : Server) : Prop := Runs.Path (sys c) C s t

/-! ## runs that are given step by step -/

def isEvents : Main → Bool
  | .events (_ :: _) => true
  | _ => false

def isCommand : Main → Bool
  | .command _ _ => true
  | _ => false

def isAccepting : Main → Bool
  | .accepting _ => true
  | _ => false

theorem isEvents_iff (m : Main) : isEvents m = true ↔ ∃ ev evs, m = .events (ev :: evs) := by
  rcases m with (_ | ⟨ev, evs⟩) | _ | _ | _ | _ | _ <;> simp [isEvents]

theorem isCommand_iff (m : Main) : isCommand m = true ↔ ∃ sid evs, m = .command sid evs := by
  rcases m with _ | _ | _ | _ | _ | _ <;> simp [isCommand]

theorem isAccepting_iff (m : Main) : isAccepting m = true ↔ ∃ evs, m = .accepting evs := by
  rcases m with _ | _ | _ | _ | _ | _ <;> simp [isAccepting]

instance (s : Server) : (l : Label) → Decidable (enabled s l)
  | .arrive fd _ => inferInstanceAs (Decidable (isCtrl (s.fds.get fd) = true))
  | .hangup fd => inferInstanceAs (Decidable (isCtrl (s.fds.get fd) = true))
  | .faults fd _ => inferInstanceAs (Decidable (isCtrl (s.fds.get fd) = true))
  | .wait evs => inferInstanceAs (Decidable (s.main = .events [] ∧ evs ≠ [] ∧
      evs.length ≤ MAXEVENTNUM ∧ (evs.map Event.fd).Nodup ∧ ∀ ev ∈ evs, s.watch ev.fd = true))
  | .timeout => inferInstanceAs (Decidable (s.main = .events [] ∧ s.tl.pLRU ≠ none))
  | .waitErr _ => inferInstanceAs (Decidable (s.main = .events []))
  | .evictOne _ => inferInstanceAs (Decidable (s.main = .evict))
  | .dispatch _ _ => decidable_of_iff _ (isEvents_iff s.main)
  | .command _ => decidable_of_iff _ (isCommand_iff s.main)
  | .onward _ => inferInstanceAs (Decidable (s.main.inside ≠ none))
  | .acceptOne _ => decidable_of_iff _ (isAccepting_iff s.main)
  | .acceptErr _ => decidable_of_iff _ (isAccepting_iff s.main)
  | .thread tid _ => inferInstanceAs (Decidable (s.threads tid ≠ none))

/-- carry out the steps one after the other, as long as each can happen and meets `C` -/
def play (c : Conf) (C : Server → Label → Prop) [∀ s l, Decidable (C s l)] (s : Server) :
    List Label → Option Server
  | [] => some s
  | l :: ls =>
    if enabled s l ∧ C s l then
      match exec c s l with
      | .ok s' => play c C s' ls
      | .error _ => none
    else none

theorem play_cons {c : Conf} {s t : Server} {l : Label} {ls : List Label}
    {C : Server → Label → Prop} [∀ s l, Decidable (C s l)] (hen : enabled s l) (hc : C s l)
    (he : exec c s l = .ok t) : play c C s (l :: ls) = play c C t ls := by
  conv_lhs => unfold play
  rw [if_pos ⟨hen, hc⟩, he]

theorem play_reach {c : Conf} {C : Server → Label → Prop} [∀ s l, Decidable (C s l)] {s t : Server}
    {ls : List Label} (h : play c C s ls = some t) (hr : Reach c C s) : Reach c C t := by
  induction ls generalizing s with
  | nil => cases h; exact hr
  | cons l ls ih =>
    unfold play at h
    split at h
    · rename_i hl
      split at h
      · rename_i s' hs'
        exact ih h (Runs.Reach.step hr hl.2 ⟨hl.1, hs'⟩)
      · cases h
    · cases h

theorem play_trail {c : Conf} {C : Server → Label → Prop} [∀ s l, Decidable (C s l)] {s t : Server} {ls : List Label}
    (h : play c C s ls = some t) : Runs.Trail (sys c) C s ls t := by
  induction ls generalizing s with
  | nil => cases h; exact .nil
  | cons l ls ih =>
    unfold play at h
    split at h
    · rename_i hl
      split at h
      · rename_i s' hs'
        exact .cons hl.2 ⟨hl.1, hs'⟩ (ih h)
      · cases h
    · cases h

theorem step_det {c : Conf} (l : Label) (s u v : Server) (h : (sys c).step l s u) (h' : (sys c).step l s v) : u = v :=
  Except.ok.inj (h.2.symm.trans h'.2)

theorem reach_of_play {c : Conf} {C : Server → Label → Prop} [∀ s l, Decidable (C s l)] {s : Server}
    {ls : List Label} {p : Server → Bool} (hr : Reach c C s)
    (h : (play c C s ls).any p = true) : ∃ t, Reach c C t ∧ p t = true := by
  cases ht : play c C s ls with
  | none => rw [ht] at h; cases h
  | some t =>
    rw [ht] at h
    exact ⟨t, play_reach ht hr, h⟩

instance (s : Server) (l : Label) : Decidable (Runs.Any s l) := inferInstanceAs (Decidable True)

/-- Descriptors 0 to 2 are the standard ones, 3 is `listenfd`, 4 is `epollfd`. -/
def sampleDesc : Nat → Option Desc
  | 0 => some .std
  | 1 => some .std
  | 2 => some .std
  | 3 => some .listen
  | 4 => some .epoll
  | _ => none

def sampleFds : Slots Desc := ⟨sampleDesc, 5, fun n h => by
  obtain ⟨k, rfl⟩ := Nat.exists_eq_add_of_le' h
  rfl⟩

/-- a server with one account, `u` with the password `p` -/
def sampleConf : Conf where
  maxClients := 0
  maxPerIp := 0
  idleSessionTimeout := 300
  localUmask := 63
  listenfd := 3
  epollfd := 4
  getpwnam := fun n => if n = ascii "u" then some ⟨ascii "u", 1000, ascii "/home/u"⟩ else none
  getpwuid := fun n => if n = 1000 then some ⟨ascii "u", 1000, ascii "/home/u"⟩ else none
  getspnam := fun n => if n = ascii "u" then some (ascii "x") else none
  crypt := fun key _ => if key = ascii "p" then some (ascii "x") else some []

theorem sampleBoots : Boots sampleConf sampleFds where
  listen := rfl
  epoll := rfl
  std := by
    intro n d h
    match n with
    | 0 | 1 | 2 => exact Or.inr (Or.inr (Option.some.inj h).symm)
    | 3 => exact Or.inl rfl
    | 4 => exact Or.inr (Or.inl rfl)
    | n+5 => cases h

/-- the sample server at its first `epoll_wait` -/
def sampleBoot : Server := boot sampleConf sampleFds

theorem sampleReach (C : Server → Label → Prop) : Reach sampleConf C sampleBoot :=
  Runs.Reach.init ⟨sampleFds, sampleBoots, rfl⟩

/-- everything succeeds -/
def sampleEnv : Env where
  home := some .dir
  openat := some .dir
  chdirUp := true
  mkdir := true
  rmdir := true
  unlink := true
  rename := true
  chmod := true
  stat := some (true, 3)
  getcwd := ascii "/"
  fileName := some (ascii "/home/u")
  opendir := some []
  localip := [127, 0, 0, 1]
  tcpServer := some 4000
  portArgs := [127, 0, 0, 1, 4, 1]
  pthreadCreate := true
  accept := true
  sigpipe := false

def sampleTEnv : TEnv where
  openat := true
  lock := true
  ftruncate := true
  lseek := true
  fstat := (true, 3)
  sendfile := some 3
  read := .ok 0
  write := .ok 3

def input (fd : Fd) : Event := ⟨fd, true, false, false⟩

/-- a client connects -/
def connects : List Label :=
  [.wait [input 3], .dispatch 0 sampleEnv, .acceptOne ⟨1, 0⟩, .acceptErr .EAGAIN]

/-- a line arrives on `fd`, is read and handled -/
def sends (fd : Fd) (line : String) : List Label :=
  [.arrive fd (ascii line ++ [CR, LF]), .wait [input fd], .dispatch 0 sampleEnv, .command sampleEnv]

/-- the further steps of a handler, undisturbed -/
def goesOn (n : Nat) : List Label := List.replicate n (.onward false)

/-- **The writes of a handler**, one after the other, with nothing in between. -/
theorem writes_trail {c : Conf} {s : Server} {sid : Sid} {x : Session} {ws : List Write} {evs : List Event} (hx : s.heap sid = some x) (hm : s.main = .reply sid ws evs) :
    Runs.Trail (sys c) Runs.Any s (goesOn (ws.length + 1))
      { s with main := .events evs, log := s.log ++ ws.map fun w => w.act sid x (some s.cmdNo) } := by
  have hen : ∀ {s : Server} {ws : List Write}, s.main = .reply sid ws evs → enabled s (.onward false) := by
    intro s ws hm e
    rw [hm] at e
    cases e
  induction ws generalizing s with
  | nil =>
    have hstep : exec c s (.onward false) = .ok (s.goto (.events evs)) := by
      show handlerStep false s = _
      unfold handlerStep
      rw [hm]
      rfl
    rw [List.map_nil, List.append_nil]
    exact .cons trivial ⟨hen hm, hstep⟩ .nil
  | cons w ws ih =>
    have hstep : exec c s (.onward false) =
        .ok ((s.emit (w.act sid x (some s.cmdNo))).goto (.reply sid ws evs)) := by
      show handlerStep false s = _
      unfold handlerStep
      rw [hm]
      show replyStep false sid (w :: ws) evs s = _
      unfold replyStep
      rw [hx]
      rfl
    have hrest := ih (s := (s.emit (w.act sid x (some s.cmdNo))).goto (.reply sid ws evs)) hx rfl
    rw [List.map_cons, List.append_cons]
    exact .cons trivial ⟨hen hm, hstep⟩ hrest

/-- PASV is sent and handled to its reply -/
def sendsPasv (fd : Fd) : List Label := sends fd "PASV" ++ goesOn 5

/-- a data connection to the passive listener `fd` -/
def dataConnects (fd : Fd) : List Label := [.wait [input fd], .dispatch 0 sampleEnv]

end Myftpd
