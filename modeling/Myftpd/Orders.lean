import Mathlib.Data.Set.Insert
import Myftpd.Answers

/-!
# The data connection and the command in either order

`epoll_wait` hands out the event of the data connection and that of the control connection in an order
that the client does not control.  Without a data connection LIST, RETR and STOR return without a word.

* `Race`          the data connection and a transfer command are both there;
* `outcomes`      what the client can get to see after given steps and the transfer that they start;
* `orders_agree`  the two orders come to the same when nothing is transferred in either.
-/

namespace Myftpd
open CMem Server

/-! ## what the client sees -/

/-- what is sent to the session on its control connection -/
def Act.onCtrl (sid : Sid) : Act → Bool
  | .reply i _ _ _ _ => i == sid
  | .lreply i _ _ _ _ => i == sid
  | .raw i _ _ => i == sid
  | _ => false

/-- what goes over the data connection of the session -/
def Act.onData (sid : Sid) : Act → Bool
  | .data i _ _ => i == sid
  | .fs i (.send _) => i == sid
  | .fs i (.write _) => i == sid
  | _ => false

/-- the control connection of the session, and its data connection -/
def seenBy (sid : Sid) (log : List Act) : List Act × List Act :=
  (log.filter fun a => a.onCtrl sid, log.filter fun a => a.onData sid)

/-- a step of a transfer that line `n` has started -/
def OfLine (n : Nat) (s : Server) (l : Label) : Prop :=
  ∃ tid env th, l = .thread tid env ∧ s.threads tid = some th ∧ th.cmd = n

/-- What the session can have seen when the steps have been carried out, one of which reads a line, and
the transfer that the line has started has returned. -/
def outcomes (c : Conf) (s : Server) (sid : Sid) (ls : List Label) : Set (List Act × List Act) :=
  { o | ∃ t u, play c Runs.Any s ls = some t ∧ Path c (OfLine (s.cmdNo + 1)) t u ∧
    (∀ tid th, u.threads tid = some th → th.cmd ≠ s.cmdNo + 1) ∧ o = seenBy sid u.log }

/-! ## the two orders -/

/-- what comes after the first event in its batch: the second one, or nothing -/
def batch (together : Bool) (ev : Event) : List Event := if together = true then [ev] else []

/-- when the second event is not in the batch of the first, `epoll_wait` is called once more -/
def pause (together : Bool) (ev : Event) : List Label := if together = true then [] else [.wait [ev]]

section
variable (together : Bool) (d k : Event) (now₁ now₂ : Int) (env₁ env₂ env₃ : Env)

/-- the event `d` of the data connection, then the line of which `k` is the event -/
def dataFirst : List Label :=
  [.wait (d :: batch together k), .dispatch now₁ env₁] ++
    (pause together k ++ [.dispatch now₂ env₂, .command env₃])

/-- the line, then the event of the data connection -/
def lineFirst : List Label :=
  [.wait (k :: batch together d), .dispatch now₂ env₂, .command env₃] ++
    (pause together d ++ [.dispatch now₁ env₁])

end

/-- `epoll_wait` can hand out `ev`, which is input for the session -/
structure Due (c : Conf) (s : Server) (ev : Event) (f : FdT) (sid : Sid) : Prop where
  watched : s.watch ev.fd = true
  input : ev.epollin = true
  info : s.sessinfo ev.fd = ⟨some f, some sid⟩
  other : f.fd ≠ c.listenfd

/-- the command and the argument of the line at the head of the queue -/
def lineAt (k : Sock) : Option (List UInt8 × List UInt8) :=
  match ctrlRead k with
  | .ok (some (m, _)) => parseCmdline m
  | _ => none

/-- The session listens since its last PASV and has no data connection yet; the data connection has come
in, and so has a line with the transfer command `h`. -/
structure Race (c : Conf) (s : Server) (sid : Sid) (x : Session) (d k : Event) (h : Cmd) : Prop where
  idle : s.main = .events []
  live : s.heap sid = some x
  listens : x.pasvListenFd = some d.fd
  unjoined : x.dataFd = none
  data : ∃ g, Due c s d ⟨.data, g⟩ sid
  ctrl : ∃ g, Due c s k ⟨.ctrl, g⟩ sid
  line : ∃ cmd arg, lineAt (s.sock x.ctrlFd) = some (cmd, arg) ∧ lookupCmd cmd = some (some h)
  transfer : h = .list ∨ h = .retr ∨ h = .stor

section
variable {c : Conf} {s t u : Server} {sid : Sid} {x y : Session} {d k ev : Event} {evs : List Event}
  {h : Cmd} {as : List Act} {now : Int} {env : Env} {g : Fd} {ls : List Label}

/-! ## the steps of an order -/

/-- In the course of an order nothing changes but the record of the session, the batch, the descriptors
and the log. -/
structure Mid (c : Conf) (s t : Server) (sid : Sid) (y : Session) (as : List Act) : Prop where
  reach : Reach c Runs.Any t
  heap : t.heap sid = some y
  watch : t.watch = s.watch
  info : t.sessinfo = s.sessinfo
  threads : t.threads = s.threads
  log : t.log = s.log ++ as

theorem lineAt_some {k : Sock} {r : List UInt8 × List UInt8} (h : lineAt k = some r) :
    ∃ m q, ctrlRead k = .ok (some (m, q)) ∧ parseCmdline m = some r := by
  unfold lineAt at h
  split at h
  · rename_i m q hr
    exact ⟨m, q, hr, h⟩
  · cases h

theorem Mid.input {f : FdT} (hmid : Mid c s t sid y as) (hev : Due c s ev f sid)
    (hm : t.main = .events (ev :: evs)) : InputFor c t ev evs f sid y where
  next := hm
  input := hev.input
  info := by rw [hmid.info, hev.info]
  other := hev.other
  live := hmid.heap

theorem two_le_maxEventNum : 2 ≤ MAXEVENTNUM := by decide

theorem Mid.pause {b : Bool} (hmid : Mid c s t sid y as) (hm : t.main = .events (batch b ev))
    (hw : s.watch ev.fd = true) :
    (∀ ls, play c Runs.Any t (pause b ev ++ ls) = play c Runs.Any (t.goto (.events [ev])) ls) ∧
      Mid c s (t.goto (.events [ev])) sid y as := by
  cases b with
  | true =>
    have e : t.goto (.events [ev]) = t := by
      show t.goto (.events (batch true ev)) = t
      rw [← hm]
      rfl
    rw [e]
    exact ⟨fun _ => rfl, hmid⟩
  | false =>
    have hen : enabled t (.wait [ev]) := by
      refine ⟨hm, List.cons_ne_nil _ _, (Nat.le_of_succ_le two_le_maxEventNum), List.nodup_singleton _, fun e he => ?_⟩
      rw [List.mem_singleton.mp he, hmid.watch]
      exact hw
    have he : exec c t (.wait [ev]) = .ok (t.goto (.events [ev])) := rfl
    exact ⟨fun ls => play_cons hen trivial he, hmid.reach.step trivial ⟨hen, he⟩, hmid.heap,
      hmid.watch, hmid.info, hmid.threads, hmid.log⟩

theorem processDataRead_joins {p : Fd} (env : Env) (t : Server) (hx : t.heap sid = some y)
    (hp : y.pasvListenFd = some p) : processDataRead env sid t = .ok (if env.accept = true then
      ({ t with fds := t.fds.alloc (.data sid) }).put sid { y with dataFd := some t.fds.lowest }
      else t) := by
  unfold processDataRead
  simp only [hx, hp]
  split <;> rfl

/-- the record after the event of the data connection, when `accept` can give the descriptor `fd` -/
def joined (env : Env) (fd : Fd) (x : Session) : Session :=
  if env.accept = true then { x with dataFd := some fd } else x

theorem joined_ctrlFd {fd : Fd} : (joined env fd x).ctrlFd = x.ctrlFd := by
  unfold joined
  split <;> rfl

theorem joined_dataFd {fd p : Fd} {cmd arg : List UInt8} (hp : x.pasvListenFd = some p)
    (hd : x.dataFd = none) : getPasvDataFd { joined env fd x with cmd := cmd, arg := arg } =
      if env.accept = true then fd else 0 := by
  by_cases ha : env.accept = true
  · rw [show joined env fd x = { x with dataFd := some fd } from if_pos ha, if_pos ha]
    unfold getPasvDataFd
    simp only [hp]
  · rw [show joined env fd x = x from if_neg ha, if_neg ha]
    unfold getPasvDataFd
    simp only [hp, hd]

theorem Mid.joins (now : Int) (env : Env) (hmid : Mid c s t sid y as) (hev : Due c s d ⟨.data, g⟩ sid)
    (hp : y.pasvListenFd ≠ none) (hm : t.main = .events (d :: evs)) :
    ∃ t', (∀ ls, play c Runs.Any t (.dispatch now env :: ls) = play c Runs.Any t' ls) ∧
      Mid c s t' sid (joined env t.fds.lowest y) as ∧
      t'.main = .events evs ∧ t'.sock = t.sock ∧ t'.cmdNo = t.cmdNo := by
  have he : exec c t (.dispatch now env) = _ := (hmid.input hev hm).exec (bounded_reach hmid.reach)
  have hen : enabled t (.dispatch now env) := ⟨d, evs, hm⟩
  obtain ⟨p, hp⟩ := Option.ne_none_iff_exists'.mp hp
  have hrd := processDataRead_joins env { t.goto (.events evs) with tl := t.tl.refreshTimeout g now }
    hmid.heap hp
  have hx := he.trans hrd
  refine ⟨_, fun ls => play_cons hen trivial hx, ?_⟩
  have hr := hmid.reach.step trivial ⟨hen, hx⟩
  unfold joined
  cases ha : env.accept with
  | true =>
    rw [ha] at hr
    refine ⟨⟨hr, ?_, hmid.watch, hmid.info, hmid.threads, hmid.log⟩, rfl, rfl, rfl⟩
    exact Function.update_self ..
  | false =>
    rw [ha] at hr
    exact ⟨⟨hr, hmid.heap, hmid.watch, hmid.info, hmid.threads, hmid.log⟩, rfl, rfl, rfl⟩

theorem Mid.reads {m cmd arg : List UInt8} {q : Sock} (now : Int) (env : Env)
    (hmid : Mid c s t sid y as) (hev : Due c s k ⟨.ctrl, g⟩ sid) (hm : t.main = .events (k :: evs))
    (hr : ctrlRead (t.sock y.ctrlFd) = .ok (some (m, q))) (hp : parseCmdline m = some (cmd, arg)) :
    ∃ t', (∀ ls, play c Runs.Any t (.dispatch now env :: ls) = play c Runs.Any t' ls) ∧
      Mid c s t' sid { y with cmd := cmd, arg := arg } (as ++ [.line sid (t.cmdNo + 1)]) ∧
      t'.main = .command sid evs ∧ t'.fds = t.fds ∧ t'.cmdNo = t.cmdNo + 1 := by
  have hx := (hmid.input hev hm).line (bounded_reach hmid.reach) hr hp now env
  have hen : enabled t (.dispatch now env) := ⟨k, evs, hm⟩
  refine ⟨_, fun ls => play_cons hen trivial hx, ⟨hmid.reach.step trivial ⟨hen, hx⟩,
    Function.update_self .., hmid.watch, hmid.info, hmid.threads, ?_⟩, rfl, rfl, rfl⟩
  show t.log ++ _ = _
  rw [hmid.log, List.append_assoc]

/-- the handler returns without a word: there is no data connection, or no thread -/
def Mute (env : Env) (x : Session) (h : Cmd) : Prop :=
  getPasvDataFd x = 0 ∨ h ≠ .list ∧ env.pthreadCreate = false

theorem mute_runs (ht : h = .list ∨ h = .retr ∨ h = .stor) (hq : Mute env x h) :
    runCmd c env sid x s h = .ok s := by
  have hstart : ∀ kind, getPasvDataFd x ≠ 0 → h ≠ .list → startThread env sid s kind = s := by
    intro kind h0 hl
    unfold startThread
    rw [(hq.resolve_left h0).2]
    rfl
  rcases ht with rfl | rfl | rfl
  · have h0 : getPasvDataFd x = 0 := hq.resolve_right fun h => h.1 rfl
    show doList env sid x s = _
    unfold doList
    rw [if_pos h0]
  · show Except.ok (doRetr env sid x s) = _
    unfold doRetr
    split
    · rfl
    · rename_i h0
      rw [hstart _ h0 (by rintro ⟨⟩)]
  · show Except.ok (doStor env sid x s) = _
    unfold doStor
    split
    · rfl
    · rename_i h0
      rw [hstart _ h0 (by rintro ⟨⟩)]

theorem Mid.mute (hmid : Mid c s t sid y as) (hm : t.main = .command sid evs)
    (hl : lookupCmd y.cmd = some (some h)) (ht : h = .list ∨ h = .retr ∨ h = .stor)
    (hq : Mute env y h) :
    (∀ ls, play c Runs.Any t (.command env :: ls) = play c Runs.Any (t.goto (.events evs)) ls) ∧
      Mid c s (t.goto (.events evs)) sid y as := by
  have hen : enabled t (.command env) := ⟨sid, evs, hm⟩
  have he : exec c t (.command env) = .ok (t.goto (.events evs)) := by
    rw [exec_command hm]
    unfold handleCmd
    simp only [show (t.goto (.events evs)).heap sid = some y from hmid.heap, hl]
    rw [mute_runs ht hq]
    exact piped_silent rfl
  exact ⟨fun ls => play_cons hen trivial he, hmid.reach.step trivial ⟨hen, he⟩, hmid.heap, hmid.watch, hmid.info, hmid.threads,
    hmid.log⟩

/-! ## the outcomes -/

theorem unserved (hr : Reach c Runs.Any s) {tid : Tid} {th : Thread}
    (hth : s.threads tid = some th) : th.cmd ≠ s.cmdNo + 1 := by
  have hp := ((fresh_reach hr).threads tid th hth).1
  unfold Past at hp
  omega

/-- the line itself is not seen on the connections of the session -/
theorem seenBy_line (log : List Act) (n : Nat) : seenBy sid (log ++ [.line sid n]) = seenBy sid log := by
  unfold seenBy
  rw [List.filter_append, List.filter_append]
  show (_ ++ [], _ ++ []) = _
  rw [List.append_nil, List.append_nil]

theorem outcomes_mute (hr : Reach c Runs.Any s)
    (hp : play c Runs.Any s ls = some t) (hmid : Mid c s t sid y [.line sid (s.cmdNo + 1)]) :
    outcomes c s sid ls = {seenBy sid s.log} := by
  have hdone : ∀ tid th, t.threads tid = some th → th.cmd ≠ s.cmdNo + 1 := by
    intro tid th hth
    rw [hmid.threads] at hth
    exact unserved hr hth
  have hseen : seenBy sid t.log = seenBy sid s.log := by rw [hmid.log, seenBy_line]
  ext o
  rw [Set.mem_singleton_iff]
  constructor
  · rintro ⟨t', u, hp', hpath, -, rfl⟩
    cases hp.symm.trans hp'
    have hu : u = t := by
      refine hpath.inv (I := fun u => u = t) ?_ rfl
      rintro _ l s' rfl ⟨tid, env, th, -, hth, hn⟩
      exact absurd hn (hdone tid th hth)
    rw [hu, hseen]
  · rintro rfl
    exact ⟨t, t, hp, .refl, hdone, hseen.symm⟩

theorem answered_seen {fd : Fd} (hr : Reach c Runs.Any s)
    (ha : Answered u (s.cmdNo + 1) sid fd) : seenBy sid u.log ≠ seenBy sid s.log := by
  intro e
  obtain ⟨cs, hcs, hone⟩ := ha
  cases cs with
  | nil => exact not_once_nil hone
  | cons code cs =>
    have hmem : (⟨s.cmdNo + 1, sid, fd, code⟩ : Reply) ∈ replies u.log (s.cmdNo + 1) := by
      rw [hcs]
      exact List.mem_cons_self
    obtain ⟨a, ha, hrep⟩ := List.mem_filterMap.mp (List.mem_filter.mp hmem).1
    have hon : a.onCtrl sid = true := by
      unfold Act.toReply at hrep
      split at hrep
      · cases hrep
        exact beq_self_eq_true sid
      · cases hrep
    have hfil : a ∈ (seenBy sid s.log).1 := by
      rw [← e]
      exact List.mem_filter.mpr ⟨ha, hon⟩
    have hold := (fresh_reach hr).sent _
      (List.mem_filterMap.mpr ⟨a, (List.mem_filter.mp hfil).1, hrep⟩)
    unfold Past at hold
    dsimp only at hold
    omega

/-- a handler that has a data connection, and a thread if it needs one, answers or starts a transfer -/
theorem loud_answers (hm : s.main.owed = []) (hx : s.heap sid = some x) (hl : lookupCmd x.cmd = some (some h))
    (ht : h = .list ∨ h = .retr ∨ h = .stor) (hq : ¬ Mute env x h) (he : handleCmd c env sid s = .ok u) :
    (Answers sid x s u ∨ Started s u sid) ∧ u.main = s.main := by
  obtain ⟨h0, hq⟩ := not_or.mp hq
  unfold handleCmd at he
  simp only [hx, hl] at he
  have hnq : h ≠ .quit := by rcases ht with rfl | rfl | rfl <;> nofun
  have hmain : u.main = s.main := by
    rw [(runCmd_yields hx hnq he).main]
    rcases ht with rfl | rfl | rfl <;> rfl
  refine ⟨?_, hmain⟩
  rcases runCmd_sends hm hx he with ⟨-, h1⟩ | ⟨h1, h2, -⟩ | ⟨-, h1⟩
  · exact Or.inl h1
  · -- a handler that does neither has no data connection, or no thread
    exfalso
    rcases ht with rfl | rfl | rfl
    · exact of_decide_eq_false h1 h0
    · have hthr : env.pthreadCreate = true := (Bool.not_eq_false _).mp fun hp => hq ⟨nofun, hp⟩
      exact starts_iff.mpr ⟨Or.inl rfl, h0, hthr⟩ h2
    · have hthr : env.pthreadCreate = true := (Bool.not_eq_false _).mp fun hp => hq ⟨nofun, hp⟩
      exact starts_iff.mpr ⟨Or.inr rfl, h0, hthr⟩ h2
  · exact Or.inr h1

/-- when the handler has something to do, it is seen in every outcome -/
theorem outcomes_loud (hr : Reach c Runs.Any s)
    (hp : play c Runs.Any s ls = play c Runs.Any t [.command env]) (hmid : Mid c s t sid y as)
    (hmt : t.main = .command sid evs) (hn : t.cmdNo = s.cmdNo + 1)
    (hl : lookupCmd y.cmd = some (some h)) (ht : h = .list ∨ h = .retr ∨ h = .stor)
    (hq : ¬ Mute env y h) : seenBy sid s.log ∉ outcomes c s sid ls := by
  rintro ⟨t', u, hp', hpath, hdone, hseen⟩
  rw [hp] at hp'
  have hen : enabled t (.command env) := ⟨sid, evs, hmt⟩
  have he : exec c t (.command env) = .ok t' := by
    unfold play at hp'
    rw [if_pos ⟨hen, trivial⟩] at hp'
    split at hp'
    · rename_i s' he
      cases hp'
      exact he
    · cases hp'
  obtain ⟨hans, hmain⟩ := loud_answers (s := t.goto (.events evs)) rfl hmid.heap hl ht hq (exec_command_ok hmt he)
  have hserve : Serving t.cmdNo sid y.ctrlFd t' := .start hmid.reach hmt hmid.heap hen he hans
  have hu : Serving t.cmdNo sid y.ctrlFd u :=
    serving_path (hmid.reach.step trivial ⟨hen, he⟩) hserve (hpath.weaken fun _ _ _ => trivial)
  have hrest : u.main = .events evs := by
    refine hpath.inv (I := fun u => u.main = .events evs) ?_ hmain
    rintro a l b h' ⟨tid, env, th, rfl, hth, -⟩ ⟨-, he⟩
    exact (thread_ran hth he).choose_spec.main.trans h'
  rw [hn] at hu
  exact answered_seen hr (hu.answered (fun _ => by rw [hrest]; rfl) hdone) hseen.symm

/-! ## the orders -/

theorem Race.begin {ev ev' : Event} {f f' : FdT} {b : Bool} (hr : Reach c Runs.Any s)
    (hrace : Race c s sid x d k h) (h1 : Due c s ev f sid) (h2 : Due c s ev' f' sid)
    (hne : f.type ≠ f'.type) :
    (∀ ls, play c Runs.Any s (.wait (ev :: batch b ev') :: ls) =
      play c Runs.Any (s.goto (.events (ev :: batch b ev'))) ls) ∧
    Mid c s (s.goto (.events (ev :: batch b ev'))) sid x [] := by
  have hfd : ev.fd ≠ ev'.fd := by
    intro e
    have hi := h1.info
    rw [e, h2.info] at hi
    cases hi
    exact hne rfl
  have hen : enabled s (.wait (ev :: batch b ev')) := by
    refine ⟨hrace.idle, List.cons_ne_nil _ _, ?_, ?_, fun e he => ?_⟩
    · refine Nat.le_trans ?_ two_le_maxEventNum
      cases b
      · exact Nat.le_succ 1
      · exact Nat.le_refl 2
    · cases b
      · exact List.nodup_singleton _
      · exact List.nodup_cons.mpr ⟨fun hm => hfd (List.mem_singleton.mp hm), List.nodup_singleton _⟩
    · rcases List.mem_cons.mp he with rfl | he
      · exact h1.watched
      · cases b
        · cases he
        · rw [List.mem_singleton.mp he]
          exact h2.watched
  have he : exec c s (.wait (ev :: batch b ev')) = .ok (s.goto (.events (ev :: batch b ev'))) := rfl
  refine ⟨fun ls => play_cons hen trivial he, hr.step trivial ⟨hen, he⟩, hrace.live, rfl, rfl, rfl, ?_⟩
  exact (List.append_nil _).symm

theorem dataFirst_play (b : Bool) (now₁ now₂ : Int) (env₁ env₂ env₃ : Env)
    (hr : Reach c Runs.Any s) (hrace : Race c s sid x d k h) :
    ∃ t y, play c Runs.Any s (dataFirst b d k now₁ now₂ env₁ env₂ env₃) =
        play c Runs.Any t [.command env₃] ∧ Mid c s t sid y [.line sid (s.cmdNo + 1)] ∧
      t.main = .command sid [] ∧ t.cmdNo = s.cmdNo + 1 ∧ lookupCmd y.cmd = some (some h) ∧
      getPasvDataFd y = if env₁.accept = true then s.fds.lowest else 0 := by
  obtain ⟨g, hd⟩ := hrace.data
  obtain ⟨g', hk⟩ := hrace.ctrl
  obtain ⟨cmd, arg, hline, hlook⟩ := hrace.line
  obtain ⟨m, q, hread, hparse⟩ := lineAt_some hline
  have hlis : x.pasvListenFd ≠ none := by rw [hrace.listens]; exact Option.some_ne_none _
  obtain ⟨e0, m0⟩ := hrace.begin (b := b) hr hd hk (by rintro ⟨⟩)
  obtain ⟨t1, e1, m1, hm1, hs1, hn1⟩ := m0.joins now₁ env₁ hd hlis rfl
  obtain ⟨e2, m2⟩ := m1.pause hm1 hk.watched
  have hread' : ctrlRead ((t1.goto (.events [k])).sock (joined env₁ s.fds.lowest x).ctrlFd) =
      .ok (some (m, q)) := by
    rw [joined_ctrlFd, ← hread, show (t1.goto (.events [k])).sock = s.sock from hs1]
  obtain ⟨t3, e3, m3, hm3, -, hn3⟩ := m2.reads now₂ env₂ hk rfl hread' hparse
  have hn : t3.cmdNo = s.cmdNo + 1 := hn3.trans (congrArg Nat.succ hn1)
  rw [show (t1.goto (.events [k])).cmdNo = s.cmdNo from hn1] at m3
  exact ⟨t3, { joined env₁ s.fds.lowest x with cmd := cmd, arg := arg },
    (e0 _).trans ((e1 _).trans ((e2 _).trans (e3 _))), m3, hm3, hn, hlook,
    joined_dataFd hrace.listens hrace.unjoined⟩

theorem lineFirst_play (b : Bool) (now₁ now₂ : Int) (env₁ env₂ env₃ : Env)
    (hr : Reach c Runs.Any s) (hrace : Race c s sid x d k h) :
    ∃ t y, play c Runs.Any s (lineFirst b d k now₁ now₂ env₁ env₂ env₃) = some t ∧
      Mid c s t sid y [.line sid (s.cmdNo + 1)] := by
  obtain ⟨g, hd⟩ := hrace.data
  obtain ⟨g', hk⟩ := hrace.ctrl
  obtain ⟨cmd, arg, hline, hlook⟩ := hrace.line
  obtain ⟨m, q, hread, hparse⟩ := lineAt_some hline
  obtain ⟨e0, m0⟩ := hrace.begin (b := b) hr hk hd (by rintro ⟨⟩)
  obtain ⟨t1, e1, m1, hm1, -, -⟩ := m0.reads now₂ env₂ hk rfl hread hparse
  have hmute : Mute env₃ { x with cmd := cmd, arg := arg } h := by
    left
    unfold getPasvDataFd
    simp only [hrace.listens, hrace.unjoined]
  obtain ⟨e2, m2⟩ := m1.mute hm1 hlook hrace.transfer hmute
  obtain ⟨e3, m3⟩ := m2.pause (show _ = Main.events (batch b d) from rfl) hd.watched
  obtain ⟨t4, e4, m4, -⟩ := m3.joins now₁ env₁ hd
    (show x.pasvListenFd ≠ none by rw [hrace.listens]; exact Option.some_ne_none _) rfl
  exact ⟨t4, _, (e0 _).trans ((e1 _).trans ((e2 _).trans ((e3 _).trans (e4 _)))), m4⟩

theorem outcomes_lineFirst {b : Bool} {now₁ now₂ : Int} {env₁ env₂ env₃ : Env}
    (hr : Reach c Runs.Any s) (hrace : Race c s sid x d k h) :
    outcomes c s sid (lineFirst b d k now₁ now₂ env₁ env₂ env₃) = {seenBy sid s.log} := by
  obtain ⟨t, y, hp, hmid⟩ := lineFirst_play b now₁ now₂ env₁ env₂ env₃ hr hrace
  exact outcomes_mute hr hp hmid

/-- the data connection first: nothing is seen exactly when the handler returns without a word -/
theorem outcomes_dataFirst {b : Bool} {now₁ now₂ : Int} {env₁ env₂ env₃ : Env}
    (hr : Reach c Runs.Any s) (hrace : Race c s sid x d k h) :
    outcomes c s sid (dataFirst b d k now₁ now₂ env₁ env₂ env₃) = {seenBy sid s.log} ↔
      (env₁.accept = true → s.fds.lowest ≠ 0 → h ≠ .list ∧ env₃.pthreadCreate = false) := by
  obtain ⟨t, y, hp, hmid, hm, hn, hl, h0⟩ := dataFirst_play b now₁ now₂ env₁ env₂ env₃
    hr hrace
  have hmute : Mute env₃ y h ↔
      (env₁.accept = true → s.fds.lowest ≠ 0 → h ≠ .list ∧ env₃.pthreadCreate = false) := by
    unfold Mute
    rw [h0]
    by_cases ha : env₁.accept = true
    · rw [if_pos ha]
      exact ⟨fun h _ h1 => h.resolve_left h1, fun h => (em _).imp_right (h ha)⟩
    · rw [if_neg ha]
      exact ⟨fun _ h => absurd h ha, fun _ => Or.inl rfl⟩
  rw [← hmute]
  constructor
  · intro ho
    by_contra hq
    apply outcomes_loud hr hp hmid hm hn hl hrace.transfer hq
    rw [ho]
    exact Set.mem_singleton _
  · intro hq
    obtain ⟨e, m⟩ := hmid.mute hm hl hrace.transfer hq
    exact outcomes_mute hr (hp.trans (e [])) m

/-- **The two orders come to the same** exactly when nothing is transferred in either: no data connection
is accepted, or it gets the descriptor 0, or no thread is created for RETR or STOR. -/
theorem orders_agree {a b : Bool} {now₁ now₂ : Int} {env₁ env₂ env₃ : Env}
    (hr : Reach c Runs.Any s) (hrace : Race c s sid x d k h) :
    outcomes c s sid (dataFirst a d k now₁ now₂ env₁ env₂ env₃) =
        outcomes c s sid (lineFirst b d k now₁ now₂ env₁ env₂ env₃) ↔
      (env₁.accept = true → s.fds.lowest ≠ 0 → h ≠ .list ∧ env₃.pthreadCreate = false) := by
  rw [outcomes_lineFirst hr hrace, outcomes_dataFirst hr hrace]

end

/-- a login and PASV; then LIST arrives -/
def raceRun : List Label :=
  connects ++ sends 5 "USER u" ++ sends 5 "PASS p" ++ sendsPasv 5
    ++ [.arrive 5 (ascii "LIST" ++ [CR, LF])]

theorem sampleRace : ∃ s x, Reach sampleConf Runs.Any s ∧
    Race sampleConf s 0 x (input 7) (input 5) .list ∧ s.fds.lowest ≠ 0 := by
  obtain ⟨s, hs, hp⟩ := reach_of_play
    (p := fun s => decide (s.main = .events [] ∧ s.watch 7 = true ∧ s.watch 5 = true ∧
        s.sessinfo 7 = ⟨some ⟨.data, 7⟩, some 0⟩ ∧ s.sessinfo 5 = ⟨some ⟨.ctrl, 5⟩, some 0⟩ ∧
        s.fds.lowest ≠ 0) &&
      (s.heap 0).any fun x : Session => decide (x.pasvListenFd = some 7 ∧ x.dataFd = none ∧
        lineAt (s.sock x.ctrlFd) = some (ascii "LIST", [])))
    (sampleReach Runs.Any)
    (show (play sampleConf Runs.Any sampleBoot raceRun).any _ = true by decide +kernel)
  obtain ⟨h1, h2⟩ := (Bool.and_eq_true _ _).mp hp
  obtain ⟨hm, hw, hw', hi, hi', h0⟩ := of_decide_eq_true h1
  obtain ⟨x, hx, h2⟩ := (Option.any_eq_true _ _).mp h2
  obtain ⟨hl, hd, hline⟩ := of_decide_eq_true h2
  exact ⟨s, x, hs, ⟨hm, hx, hl, hd, ⟨7, hw, rfl, hi, by decide⟩, ⟨5, hw', rfl, hi', by decide⟩,
    ⟨_, _, hline, by decide⟩, Or.inl rfl⟩, h0⟩

/-- the data connection is not accepted -/
theorem orders_agree_refused : ∃ s x, Reach sampleConf Runs.Any s ∧
    Race sampleConf s 0 x (input 7) (input 5) .list ∧
    outcomes sampleConf s 0 (dataFirst true (input 7) (input 5) 0 0
        { sampleEnv with accept := false } sampleEnv sampleEnv) =
      outcomes sampleConf s 0 (lineFirst true (input 7) (input 5) 0 0
        { sampleEnv with accept := false } sampleEnv sampleEnv) := by
  obtain ⟨s, x, hs, hrace, -⟩ := sampleRace
  exact ⟨s, x, hs, hrace, (orders_agree hs hrace).mpr fun h => absurd h Bool.false_ne_true⟩

/-- LIST, and the data connection in the same batch: the listing is sent in one order only -/
theorem order_matters : ¬ ∀ c s sid x d k h a b now₁ now₂ env₁ env₂ env₃, Reach c Runs.Any s →
    Race c s sid x d k h → outcomes c s sid (dataFirst a d k now₁ now₂ env₁ env₂ env₃) =
      outcomes c s sid (lineFirst b d k now₁ now₂ env₁ env₂ env₃) := by
  intro h
  obtain ⟨s, x, hs, hrace, h0⟩ := sampleRace
  have he := h _ s 0 x _ _ _ true true 0 0 sampleEnv sampleEnv sampleEnv hs hrace
  rw [outcomes_lineFirst hs hrace, outcomes_dataFirst hs hrace] at he
  exact (he rfl h0).1 rfl

end Myftpd
