import Myftpd.Answers
import Myftpd.Fields

/-!
# The tables that are indexed by descriptors

`sessinfo` and `map_fd_toNode` have `MAX_SESSIONS` entries, and nothing looks at the number of a new
descriptor before it is used as an index.  `do_pasv` takes its index from the record, where a transfer thread may have
put -1 in the meantime.

* `indexes`        the indexes that a step uses;
* `Indexable`          the steps that find room for a new descriptor, and do not put -1 under a PASV;
* `in_bounds_kept` the runs that stay within the tables;
* `overrun`        whatever the configuration, one client can leave them.
-/

namespace Myftpd
open CMem Server

/-- the step opens a listener for PASV -/
def opensPasv (s : Server) : Label → Bool
  | .command env => (handles s (.command env)).any fun r => decide (r.2.2 = .pasv) && env.tcpServer.isSome
  | _ => false

/-- `pasv_listen_fd` of the record, -1 for none -/
def Session.pasvIndex (x : Session) : Int := x.pasvListenFd.elim (-1) Int.ofNat

/-- the index that `do_pasv` reads from the record of the session, for `sessinfo` and for `addFdData` -/
def pasvIndexes (s : Server) : Label → List Int
  | .onward _ =>
    match s.main.stage with
    | some (sid, .entry) => ((s.heap sid).map Session.pasvIndex).toList
    | some (sid, .watch) => ((s.heap sid).map Session.pasvIndex).toList
    | _ => []
  | _ => []

/-- the new descriptor in `handleNewConn`, `addtoNode` and the `closeSess` of a refusal -/
def newIndexes (s : Server) : Label → List Fd
  | .acceptOne _ => [s.fds.lowest]
  | _ => []

/-- The indexes of the step: a new descriptor, the descriptor of the event in `refreshTimeout`, the control socket of
the session in `closeSess` and `removeToNode`, and what `do_pasv` reads. -/
def indexes (c : Conf) (s : Server) (l : Label) : List Int :=
  (newIndexes s l ++ (refreshes c s l).toList ++ (((ends c s l).bind s.heap).map Session.ctrlFd).toList).map Int.ofNat ++
    pasvIndexes s l

/-- an index that is in the tables -/
def InTables (i : Int) : Prop := 0 ≤ i ∧ i < MAX_SESSIONS

instance (i : Int) : Decidable (InTables i) := inferInstanceAs (Decidable (_ ∧ _))

/-- a number below `MAX_SESSIONS` is not in use -/
def HasRoom (s : Server) : Prop := ∃ fd < MAX_SESSIONS, s.fds.get fd = none

instance (s : Server) : Decidable (HasRoom s) := inferInstanceAs (Decidable (∃ fd < MAX_SESSIONS, _))

/-- A connection and a listener of PASV find a number below `MAX_SESSIONS`, and no transfer thread sets
`pasv_listen_fd` to -1 while `do_pasv` of its session has still to take an index from it. -/
def Indexable (s : Server) : Label → Prop
  | .acceptOne _ => HasRoom s
  | .command env => opensPasv s (.command env) = true → HasRoom s
  | .thread tid _ => ∀ th ∈ s.threads tid, th.pc = .setPasv → ∀ p ∈ s.main.stage, p.1 = th.sess → p.2 = .name
  | _ => True

instance (s : Server) : (l : Label) → Decidable (Indexable s l)
  | .acceptOne _ => inferInstanceAs (Decidable (HasRoom s))
  | .command env => inferInstanceAs (Decidable (opensPasv s (.command env) = true → HasRoom s))
  | .thread tid _ => inferInstanceAs (Decidable (∀ th ∈ s.threads tid, th.pc = .setPasv → ∀ p ∈ s.main.stage,
      p.1 = th.sess → p.2 = .name))
  | .arrive _ _ | .hangup _ | .faults _ _ | .wait _ | .timeout | .waitErr _ | .evictOne _ | .dispatch _ _
  | .onward _ | .acceptErr _ => inferInstanceAs (Decidable True)

section
variable {c : Conf} {s s' t : Server} {l : Label} {sid : Sid} {x : Session} {env : Env} {i : Int}

theorem hasRoom_iff : HasRoom s ↔ s.fds.lowest < MAX_SESSIONS :=
  ⟨fun ⟨_, h, hn⟩ => Nat.lt_of_le_of_lt (s.fds.le_lowest hn) h, fun h => ⟨_, h, s.fds.lowest_none⟩⟩

theorem inTables_nat {fd : Fd} : InTables (Int.ofNat fd) ↔ fd < MAX_SESSIONS :=
  ⟨fun h => Int.ofNat_lt.mp h.2, fun h => ⟨Int.natCast_nonneg fd, Int.ofNat_lt.mpr h⟩⟩

theorem inTables_none : ¬ InTables (-1) := by decide

theorem refreshes_bounded (hb : s.ledger.Bounded c.listenfd) {fd : Fd}
    (h : refreshes c s l = some fd) : fd < MAX_SESSIONS := by
  cases l with
  | dispatch now env =>
    unfold refreshes at h
    dsimp only at h
    split at h
    · rename_i ev evs _
      obtain ⟨f, hf, h⟩ := Option.bind_eq_some_iff.mp h
      split at h
      · rename_i hl
        cases h
        obtain ⟨e, hg⟩ := hb.info ev.fd f (s.sessinfo ev.fd).sess (by rw [← hf]; rfl)
        rw [e]
        exact hg.resolve_left fun e' => hl.1 (e.trans e')
      · cases h
    · cases h
  | _ => cases h

/-! ## the listener of a PASV that is under way -/

/-- The session of a `do_pasv` is there, its listener is below `MAX_SESSIONS`, and once its name has been asked it is
in the record. -/
def Listed (s : Server) : Prop := ∀ sid pc, s.main.stage = some (sid, pc) → ∃ x, s.heap sid = some x ∧
  (∀ p, x.pasvListenFd = some p → p < MAX_SESSIONS) ∧ (pc ≠ .name → x.pasvListenFd ≠ none)

theorem Listed.outside (h : s.main.inside = none) : Listed s := fun sid pc e => by
  rw [stage_outside h] at e
  cases e

theorem doPasv_port (he : doPasv env sid x s = .ok s') : env.tcpServer.isSome = true := by
  unfold doPasv at he
  split at he
  · cases he
  · rename_i h
    rw [h]
    rfl

/-- **One step.** -/
theorem listed_step (h : Listed s) (hc : Indexable s l) (hen : enabled s l) (he : exec c s l = .ok s') : Listed s' := by
  have hout : ∀ {m : Main}, s.main = m → m.inside = none → l.between = true → l.further = false → Listed s' := by
    rintro m rfl h0 hb hf
    rcases between_stays hen he hb hf with ⟨e, -⟩ | ⟨-, e⟩
    · exact .outside (by rw [e, h0])
    · exact .outside e
  cases l with
  | arrive fd bs => cases he; exact h
  | hangup fd => cases he; exact h
  | faults fd es => cases he; exact h
  | wait evs => exact hout hen.1 rfl rfl rfl
  | timeout => exact hout hen.1 rfl rfl rfl
  | waitErr e => cases he
  | evictOne now => exact hout hen rfl rfl rfl
  | dispatch now env =>
    obtain ⟨ev, evs, hm⟩ := hen
    exact hout hm rfl rfl rfl
  | acceptOne conn =>
    obtain ⟨evs, hm⟩ := hen
    exact hout hm rfl rfl rfl
  | acceptErr e =>
    obtain ⟨evs, hm⟩ := hen
    exact hout hm rfl rfl rfl
  | command env =>
    obtain ⟨sid, evs, hm⟩ := hen
    obtain ⟨x, hx, -⟩ := handleCmd_cases (exec_command_ok hm he)
    intro j pc hs
    obtain ⟨hk, rfl, rfl, h1, -⟩ := command_stage hm hx he hs
    refine ⟨_, h1, fun p hp => ?_, fun e => absurd rfl e⟩
    cases hp
    have hh : handles s (.command env) = some (j, x, .pasv) := handles_some hm hx hk
    refine hasRoom_iff.mp (hc ?_)
    obtain ⟨evs', -, -, hrun⟩ := exec_handles_ok hh he
    show (handles s (.command env)).any _ = true
    rw [hh]
    exact doPasv_port hrun
  | onward b =>
    cases handlerStep_cases hen he with
    | @name sid text evs x fd hm hx hp hd =>
      rintro j pc ⟨⟩
      obtain ⟨y, h1, h2, -⟩ := h _ _ (congrArg Main.stage hm)
      cases hx.symm.trans h1
      exact ⟨x, hx, h2, fun _ e => by rw [hp] at e; cases e⟩
    | entry hm hx hp hb =>
      rintro j pc ⟨⟩
      obtain ⟨x, h1, h2, h3⟩ := h _ _ (congrArg Main.stage hm)
      exact ⟨x, h1, h2, fun _ => h3 nofun⟩
    | watch => exact nofun
    | deaf => exact nofun
    | write => exact nofun
    | back => exact nofun
  | thread tid env =>
    obtain ⟨th, hth⟩ := Option.ne_none_iff_exists'.mp hen
    obtain ⟨o, hran⟩ := thread_ran hth he
    intro sid pc hs
    rw [hran.main] at hs
    obtain ⟨x, hx, h2, h3⟩ := h sid pc hs
    have hheap := hran.beside sid
    by_cases hj : sid = th.sess
    · rw [if_pos hj, hx] at hheap
      refine ⟨_, hheap, ?_⟩
      by_cases hpc : th.pc = .setPasv
      · have hname : pc = .name := hc th hth hpc _ hs hj
        rw [hpc]
        exact ⟨nofun, fun e => absurd hname e⟩
      · have hsame : (th.pc.record x).pasvListenFd = x.pasvListenFd := by
          cases hpc' : th.pc <;> first | rfl | exact absurd hpc' hpc
        rw [hsame]
        exact ⟨h2, h3⟩
    · rw [if_neg hj] at hheap
      exact ⟨x, hheap.trans hx, h2, h3⟩

theorem listed_reach (h : Reach c (fun s l => Indexable s l) s) : Listed s := by
  refine Runs.Reach.inv (I := Listed) ?_ ?_ h
  · rintro s ⟨fds, -, rfl⟩
    exact nofun
  · rintro s l s' hi hc ⟨hen, he⟩
    exact listed_step hi hc hen he

/-- `do_pasv` takes its index from a record that has one in the tables -/
theorem pasvIndexes_in (h : Listed s) (hi : i ∈ pasvIndexes s l) : InTables i := by
  have hone : ∀ sid pc, s.main.stage = some (sid, pc) → pc ≠ .name →
      i ∈ ((s.heap sid).map Session.pasvIndex).toList → InTables i := by
    intro sid pc hs hpc hi
    obtain ⟨x, hx, h2, h3⟩ := h sid pc hs
    obtain ⟨p, hp⟩ := Option.ne_none_iff_exists'.mp (h3 hpc)
    rw [hx] at hi
    have hval : i = Int.ofNat p := by
      rw [Option.mem_toList.mp hi |> Option.some.inj |>.symm]
      unfold Session.pasvIndex
      rw [hp]
      rfl
    rw [hval]
    exact inTables_nat.mpr (h2 p hp)
  cases l with
  | onward b =>
    unfold pasvIndexes at hi
    dsimp only at hi
    split at hi
    · rename_i sid hs
      exact hone sid _ hs nofun hi
    · rename_i sid hs
      exact hone sid _ hs nofun hi
    · cases hi
  | _ => cases hi

/-- **A step that finds room** stays within the tables. -/
theorem indexes_in (hr : Reach c (fun s l => Indexable s l) s) (hc : Indexable s l) : ∀ i ∈ indexes c s l, InTables i := by
  have hb := bounded_reach (hr.weaken fun _ _ _ => trivial)
  intro i hi
  rcases List.mem_append.mp hi with hi | hi
  · obtain ⟨fd, hfd, rfl⟩ := List.mem_map.mp hi
    refine inTables_nat.mpr ?_
    rcases List.mem_append.mp hfd with hfd | hfd
    · rcases List.mem_append.mp hfd with hfd | hfd
      · cases l with
        | acceptOne conn =>
          rw [List.mem_singleton.mp hfd]
          exact hasRoom_iff.mp hc
        | _ => cases hfd
      · exact refreshes_bounded hb (Option.mem_toList.mp hfd)
    · obtain ⟨x, hx, rfl⟩ := Option.map_eq_some_iff.mp (Option.mem_toList.mp hfd)
      obtain ⟨sid, -, hx⟩ := Option.bind_eq_some_iff.mp hx
      exact hb.ctrl sid _ (ledger_sess hx)
  · exact pasvIndexes_in (listed_reach hr) hi

/-- a later step uses an index outside the tables, in a run that goes on from `s` -/
def LeadsOut (c : Conf) (s : Server) : Prop :=
  ∃ ls t l, Runs.Trail (sys c) Runs.Any s ls t ∧ enabled t l ∧ ∃ i ∈ indexes c t l, ¬ InTables i

/-- at the first read after `getsockname`, the handler takes what is in the record -/
theorem leaves_entry {text : List UInt8} {pc : PasvPc} {evs : List Event} (hm : s.main = .pasv sid text pc evs)
    (hpc : pc ≠ .name) (hx : s.heap sid = some x) (hi : ¬ InTables x.pasvIndex) : LeadsOut c s := by
  have hmem : x.pasvIndex ∈ pasvIndexes s (.onward false) := by
    unfold pasvIndexes
    rw [show s.main.stage = some (sid, pc) by rw [hm]; rfl]
    cases pc with
    | name => exact absurd rfl hpc
    | entry =>
      show _ ∈ ((s.heap sid).map _).toList
      rw [hx]
      exact List.mem_singleton_self _
    | watch =>
      show _ ∈ ((s.heap sid).map _).toList
      rw [hx]
      exact List.mem_singleton_self _
  refine ⟨[], s, .onward false, .nil, ?_, _, List.mem_append_right _ hmem, hi⟩
  show s.main.inside ≠ none
  rw [hm]
  exact nofun

theorem LeadsOut.cons (ht : (sys c).step l s s') (h : LeadsOut c s') : LeadsOut c s := by
  obtain ⟨ls, t, m, htr, hm⟩ := h
  exact ⟨l :: ls, t, m, .cons trivial ht htr, hm⟩

/-- `do_pasv` has opened its listener -/
def listening (s : Server) (sid : Sid) (x : Session) (text : List UInt8) : Server :=
  ({ s with fds := s.fds.alloc (.pasv sid) }.put sid { x with pasvListenFd := some s.fds.lowest }).goto
    (.pasv sid text .name s.main.pending)

theorem doPasv_some {port : Nat} (hp : env.tcpServer = some port) :
    doPasv env sid x s = .ok (listening s sid x (pasvText env.localip port)) := by
  unfold doPasv
  rw [hp]
  rfl

theorem listening_heap (text : List UInt8) :
    (listening s sid x text).heap sid = some { x with pasvListenFd := some s.fds.lowest } :=
  Function.update_self ..

theorem inside_enabled {b : Bool} (h : s.main.inside = some sid) : enabled s (.onward b) := fun e => by
  rw [h] at e
  cases e

theorem listening_named (sid : Sid) (x : Session) (text : List UInt8) :
    (sys c).step (.onward false) (listening s sid x text)
      ((listening s sid x text).goto (.pasv sid text .entry s.main.pending)) := by
  refine ⟨inside_enabled rfl, ?_⟩
  show pasvStep sid text .name s.main.pending (listening s sid x text) = _
  unfold pasvStep
  rw [listening_heap text]
  refine if_pos ?_
  rw [show (listening s sid x text).fds.get s.fds.lowest = some (.pasv sid) from Function.update_self ..]
  rfl

theorem leaves_pasv (hp : opensPasv s (.command env) = true) (hroom : ¬ HasRoom s) :
    ∃ s', (sys c).step (.command env) s s' ∧ LeadsOut c s' := by
  obtain ⟨⟨sid, x, k⟩, hh, hk⟩ := (Option.any_eq_true _ _).mp hp
  obtain ⟨hk, hport⟩ := Bool.and_eq_true_iff.mp hk
  obtain rfl : k = .pasv := of_decide_eq_true hk
  obtain ⟨port, hport⟩ := Option.isSome_iff_exists.mp hport
  obtain ⟨evs, hm, hx, hrun⟩ := exec_handles (c := c) hh
  have hdo : runCmd c env sid x (s.goto (.events evs)) .pasv =
      .ok (listening (s.goto (.events evs)) sid x (pasvText env.localip port)) := doPasv_some hport
  refine ⟨_, ⟨⟨sid, evs, hm⟩, hrun.trans ((congrArg (piped env s) hdo).trans (piped_silent rfl))⟩,
    .cons (listening_named sid x _) ?_⟩
  exact leaves_entry rfl nofun (listening_heap (pasvText env.localip port)) fun h => hroom (hasRoom_iff.mpr (inTables_nat.mp h))

theorem stage_some {p : Sid × PasvPc} (h : s.main.stage = some p) :
    ∃ text evs, s.main = .pasv p.1 text p.2 evs := by
  cases hm : s.main with
  | pasv sid text pc evs =>
    rw [hm] at h
    cases h
    exact ⟨text, evs, rfl⟩
  | _ =>
    rw [hm] at h
    cases h

/-- a transfer thread that puts -1 under a PASV -/
theorem leaves_setPasv {tid : Tid} {tenv : TEnv} {th : Thread} {p : Sid × PasvPc} (hl : Listed s)
    (hth : s.threads tid = some th) (hpc : th.pc = .setPasv) (hs : s.main.stage = some p) (hsess : p.1 = th.sess)
    (hne : p.2 ≠ .name) : ∃ s', (sys c).step (.thread tid tenv) s s' ∧ LeadsOut c s' := by
  obtain ⟨text, evs, hm⟩ := stage_some hs
  obtain ⟨x, hx, -⟩ := hl p.1 p.2 hs
  rw [hsess] at hx hm
  have hrun : threadStep tenv tid s =
      .ok (next tid th (s.put th.sess { x with pasvListenFd := none }) .setData) := by
    have hin : th.pc.leaves = true := by rw [hpc]; rfl
    rw [thread_eq hth, ← leaveStep_eq hin, hpc]
    exact withSess_eq hx _
  refine ⟨_, ⟨ne_of_eq_of_ne hth (Option.some_ne_none _), hrun⟩, ?_⟩
  exact leaves_entry hm hne (Function.update_self ..) inTables_none

/-- the loop waits, and nothing has come in on the control socket of the session -/
structure Quiet (c : Conf) (s : Server) (sid : Sid) (x : Session) : Prop where
  reach : Reach c Runs.Any s
  idle : s.main = .events []
  live : s.heap sid = some x
  watched : s.watch x.ctrlFd = true
  info : s.sessinfo x.ctrlFd = ⟨some ⟨.ctrl, x.ctrlFd⟩, some sid⟩
  desc : s.fds.get x.ctrlFd = some (.ctrl sid)
  other : x.ctrlFd ≠ c.listenfd
  sock : s.sock x.ctrlFd = Sock.fresh

/-- a step of the run leads outside the tables -/
def Overruns (c : Conf) : Prop :=
  ∃ s l, Reach c Runs.Any s ∧ enabled s l ∧ ∃ i ∈ indexes c s l, ¬ InTables i

def pasvLine : List UInt8 := ascii "PASV" ++ [CR, LF]

theorem ctrlRead_pasv : ctrlRead ⟨pasvLine, false, []⟩ = .ok (some (peeked pasvLine, Sock.fresh)) := by
  rw [ctrlRead_found (by decide +kernel)]
  have h : pasvLine.drop (lineLen pasvLine) = [] := by decide +kernel
  rw [h]
  rfl

theorem parse_pasv : parseCmdline (peeked pasvLine) = some (ascii "PASV", []) := by decide +kernel

theorem handlerOf_pasv {x : Session} (h : x.cmd = ascii "PASV") : handlerOf x = some .pasv := by
  unfold handlerOf
  rw [h]
  decide

/-- PASV has been handled to its reply -/
def listened (s : Server) (sid : Sid) (x : Session) (text : List UInt8) (evs : List Event) : Server :=
  { s with
    heap := Function.update s.heap sid (some { x with pasvListenFd := some s.fds.lowest })
    fds := s.fds.alloc (.pasv sid)
    watch := Function.update s.watch s.fds.lowest true
    sessinfo := Function.update s.sessinfo s.fds.lowest ⟨some ⟨.data, s.fds.lowest⟩, some sid⟩
    main := .events evs
    log := s.log ++ [.reply sid x.ctrlFd (some s.cmdNo) FTP_PASVOK text] }

/-- **The rest of `do_pasv`**, with nothing in between. -/
theorem pasv_trail (sid : Sid) (x : Session) (text : List UInt8) {evs : List Event} (hm : s.main = .events evs)
    (hlt : s.fds.lowest < MAX_SESSIONS) :
    Runs.Trail (sys c) Runs.Any (listening s sid x text) (goesOn 5) (listened s sid x text evs) := by
  have hpend : s.main.pending = evs := by
    rw [hm]
    rfl
  let y : Session := { x with pasvListenFd := some s.fds.lowest }
  let s1 := (listening s sid x text).goto (.pasv sid text .entry evs)
  let s2 : Server := { s1 with
    sessinfo := Function.update s.sessinfo s.fds.lowest ⟨some ⟨.data, s.fds.lowest⟩, some sid⟩
    main := .pasv sid text .watch evs }
  let s3 := (s2.addFdData s.fds.lowest).goto (.reply sid [.reply FTP_PASVOK text] evs)
  have hy1 : s1.heap sid = some y := listening_heap text
  have hy2 : s2.heap sid = some y := hy1
  have hy3 : s3.heap sid = some y := hy1
  have hname : (sys c).step (.onward false) (listening s sid x text) s1 := by
    have h := listening_named (c := c) (s := s) sid x text
    rwa [hpend] at h
  have hentry : (sys c).step (.onward false) s1 s2 := by
    refine ⟨inside_enabled rfl, ?_⟩
    show pasvStep sid text .entry evs s1 = _
    unfold pasvStep
    rw [hy1]
    show (setSessinfo s1 s.fds.lowest _).bind _ = _
    unfold setSessinfo
    rw [if_pos hlt]
    rfl
  have hwatch : (sys c).step (.onward false) s2 s3 := by
    refine ⟨inside_enabled rfl, ?_⟩
    show pasvStep sid text .watch evs s2 = _
    unfold pasvStep
    rw [hy2]
    show (if s.fds.lowest < MAX_SESSIONS then _ else _) = _
    rw [if_pos hlt, if_pos (by
      rw [show s2.fds.get s.fds.lowest = some (.pasv sid) from Function.update_self ..]
      rfl)]
  exact .cons trivial hname (.cons trivial hentry (.cons trivial hwatch (writes_trail hy3 rfl)))

/-- the listening socket is open, and waits for events -/
structure ListenerUp (c : Conf) (s : Server) : Prop where
  open_ : s.fds.get c.listenfd ≠ none
  watched : s.watch c.listenfd = true
  info : s.sessinfo c.listenfd = ⟨some ⟨.listen, c.listenfd⟩, none⟩

/-- what a step leaves of the listening socket and of the count of connections -/
structure ListenerKept (c : Conf) (s s' : Server) : Prop where
  children : s'.sChildren = s.sChildren
  listening : ListenerUp c s → ListenerUp c s'

theorem Quiet.asked (h : Quiet c s sid x) : ∃ t, Reach c Runs.Any t ∧ t.main = .command sid [] ∧
    t.heap sid = some { x with cmd := ascii "PASV", arg := [] } ∧ t.fds = s.fds ∧ t.watch = s.watch ∧
    t.sessinfo = s.sessinfo ∧ t.sock x.ctrlFd = Sock.fresh ∧ t.sChildren = s.sChildren := by
  let s1 : Server := { s with sock := Function.update s.sock x.ctrlFd ⟨pasvLine, false, []⟩ }
  have hr1 : Reach c Runs.Any s1 := by
    refine h.reach.step (l := .arrive x.ctrlFd pasvLine) trivial ⟨?_, ?_⟩
    · show isCtrl (s.fds.get x.ctrlFd) = true
      rw [h.desc]
      rfl
    · show Except.ok _ = Except.ok _
      rw [h.sock]
      rfl
  have hone : [input x.ctrlFd].length ≤ MAXEVENTNUM := show 1 ≤ MAXEVENTNUM by decide
  have hr2 : Reach c Runs.Any (s1.goto (.events [input x.ctrlFd])) :=
    hr1.step (l := .wait [input x.ctrlFd]) trivial ⟨⟨h.idle, List.cons_ne_nil _ _, hone,
      List.nodup_singleton _, fun e he => by rw [List.mem_singleton.mp he]; exact h.watched⟩, rfl⟩
  have hin : InputFor c (s1.goto (.events [input x.ctrlFd])) (input x.ctrlFd) [] ⟨.ctrl, x.ctrlFd⟩ sid x :=
    ⟨rfl, rfl, h.info, h.other, h.live⟩
  have hk : ctrlRead (s1.sock x.ctrlFd) = .ok (some (peeked pasvLine, Sock.fresh)) := by
    rw [show s1.sock x.ctrlFd = ⟨pasvLine, false, []⟩ from Function.update_self .., ctrlRead_pasv]
  have hread := hin.line (bounded_reach hr2) hk parse_pasv 0 sampleEnv
  refine ⟨_, hr2.step (l := .dispatch 0 sampleEnv) trivial ⟨⟨input x.ctrlFd, [], rfl⟩, hread⟩, rfl,
    Function.update_self .., rfl, rfl, rfl, Function.update_self .., rfl⟩

theorem Quiet.listening (h : Quiet c s sid x) : ∃ t text, Reach c Runs.Any (Myftpd.listening t sid
      { x with cmd := ascii "PASV", arg := [] } text) ∧ t.main = .events [] ∧ t.fds = s.fds ∧ t.watch = s.watch ∧
    t.sessinfo = s.sessinfo ∧ t.sock x.ctrlFd = Sock.fresh ∧ t.sChildren = s.sChildren := by
  obtain ⟨t, hr, hm, hy, hfds, hwatch, hinfo, hsock, hch⟩ := h.asked
  have hh : handles t (.command sampleEnv) = some (sid, _, .pasv) := handles_some hm hy (handlerOf_pasv rfl)
  obtain ⟨evs, hm', -, hrun⟩ := exec_handles (c := c) hh
  cases hm.symm.trans hm'
  have hport : sampleEnv.tcpServer = some 4000 := rfl
  have hdo : runCmd c sampleEnv sid { x with cmd := ascii "PASV", arg := [] } (t.goto (.events [])) .pasv =
      .ok (Myftpd.listening (t.goto (.events [])) sid { x with cmd := ascii "PASV", arg := [] }
        (pasvText sampleEnv.localip 4000)) := doPasv_some hport
  exact ⟨t.goto (.events []), _, hr.step (l := .command sampleEnv) trivial ⟨⟨sid, [], hm⟩,
    hrun.trans ((congrArg (piped sampleEnv t) hdo).trans (piped_silent rfl))⟩, rfl, hfds, hwatch, hinfo, hsock, hch⟩

/-- **PASV once more**: one more descriptor is in use. -/
theorem Quiet.pasv (h : Quiet c s sid x) (hlt : s.fds.lowest < MAX_SESSIONS) :
    ∃ s' x', Quiet c s' sid x' ∧ s.fds.lowest < s'.fds.lowest ∧ ListenerKept c s s' := by
  obtain ⟨t, text, hr, hm, hfds, hwatch, hinfo, hsock, hch⟩ := h.listening
  have hrun := pasv_trail (c := c) sid { x with cmd := ascii "PASV", arg := [] } text hm (by rw [hfds]; exact hlt)
  have hfds' : (listened t sid { x with cmd := ascii "PASV", arg := [] } text []).fds = s.fds.alloc (.pasv sid) := by
    rw [← hfds]
    rfl
  have hwatch' : (listened t sid { x with cmd := ascii "PASV", arg := [] } text []).watch =
      Function.update s.watch s.fds.lowest true := by
    rw [← hfds, ← hwatch]
    rfl
  have hinfo' : (listened t sid { x with cmd := ascii "PASV", arg := [] } text []).sessinfo =
      Function.update s.sessinfo s.fds.lowest ⟨some ⟨.data, s.fds.lowest⟩, some sid⟩ := by
    rw [← hfds, ← hinfo]
    rfl
  -- a descriptor in use is not the new one
  have hne : ∀ fd, s.fds.get fd ≠ none → fd ≠ s.fds.lowest := by
    rintro fd hfd rfl
    exact hfd s.fds.lowest_none
  have hctrl := hne x.ctrlFd (by rw [h.desc]; exact Option.some_ne_none _)
  refine ⟨_, _, ⟨hrun.reach (fun _ _ h => h) hr, rfl, Function.update_self .., ?_, ?_, ?_, h.other, hsock⟩, ?_, hch,
    fun hl => ⟨?_, ?_, ?_⟩⟩
  · rw [hwatch']
    exact (Function.update_of_ne hctrl _ _).trans h.watched
  · rw [hinfo']
    exact (Function.update_of_ne hctrl _ _).trans h.info
  · rw [hfds', Slots.alloc_get, if_neg hctrl]
    exact h.desc
  · rw [hfds']
    exact s.fds.lowest_alloc _
  · rw [hfds', Slots.alloc_get, if_neg (hne _ hl.open_)]
    exact hl.open_
  · rw [hwatch']
    exact (Function.update_of_ne (hne _ hl.open_) _ _).trans hl.watched
  · rw [hinfo']
    exact (Function.update_of_ne (hne _ hl.open_) _ _).trans hl.info

/-- **The numbers below `MAX_SESSIONS` run out.** -/
theorem Quiet.fill (h : Quiet c s sid x) :
    ∃ s' x', Quiet c s' sid x' ∧ MAX_SESSIONS ≤ s'.fds.lowest ∧ ListenerKept c s s' := by
  generalize hn : MAX_SESSIONS - s.fds.lowest = n
  induction n using Nat.strong_induction_on generalizing s x with
  | _ n ih =>
    by_cases hlt : s.fds.lowest < MAX_SESSIONS
    · obtain ⟨t, y, h1, hlow, hb⟩ := h.pasv hlt
      obtain ⟨s', x', h2, hfull, hb'⟩ := ih _ (by omega) h1 rfl
      exact ⟨s', x', h2, hfull, hb'.children.trans hb.children, fun hl => hb'.listening (hb.listening hl)⟩
    · exact ⟨s, x, h, Nat.le_of_not_lt hlt, rfl, fun hl => hl⟩

theorem LeadsOut.overruns (hr : Reach c Runs.Any s) (h : LeadsOut c s) : Overruns c := by
  obtain ⟨ls, t, l, htr, hen, hi⟩ := h
  exact ⟨t, l, htr.reach (fun _ _ h => h) hr, hen, hi⟩

theorem Quiet.overruns (h : Quiet c s sid x) : Overruns c := by
  obtain ⟨s', x', h', hfull, -⟩ := h.fill
  obtain ⟨t, text, hr, -, hfds, -⟩ := h'.listening
  refine LeadsOut.overruns hr (.cons (listening_named sid _ text) (leaves_entry rfl nofun (listening_heap text) fun hin => ?_))
  have hlt : t.fds.lowest < MAX_SESSIONS := inTables_nat.mp hin
  rw [hfds] at hlt
  exact Nat.not_lt_of_le hfull hlt

theorem handleNewConn_ok (conn : Conn) (hv : isValid c (newSession s) = none)
    (hb : s.fds.lowest < MAX_SESSIONS) : ∃ s', handleNewConn c conn s = .ok s' ∧
      s'.heap = Function.update s.heap s.nextSid (some (admittedSession s conn.ip)) ∧
      s'.watch = Function.update s.watch s.fds.lowest true ∧ s'.sessinfo = Function.update s.sessinfo
        s.fds.lowest ⟨some ⟨.ctrl, s.fds.lowest⟩, some s.nextSid⟩ ∧
      s'.fds = s.fds.alloc (.ctrl s.nextSid) ∧
      s'.sock = Function.update s.sock s.fds.lowest Sock.fresh ∧ s'.main = s.main := by
  unfold handleNewConn setSessinfo
  simp only [hv, if_pos hb]
  exact ⟨_, rfl, Function.update_idem .., rfl, rfl, rfl, rfl, rfl⟩

theorem Boots.connects {fds : Slots Desc} (hb : Boots c fds) :
    Overruns c ∨ ∃ s sid x, Quiet c s sid x := by
  let s1 := (boot c fds).goto (.events [input c.listenfd])
  let s2 := s1.goto (.accepting [])
  have hw : (boot c fds).watch c.listenfd = true := by
    show Function.update (fun _ => false) c.listenfd true c.listenfd = true
    rw [Function.update_self]
  have hone : [input c.listenfd].length ≤ MAXEVENTNUM := show 1 ≤ MAXEVENTNUM by decide
  have hr1 : Reach c Runs.Any s1 :=
    (Runs.Reach.init ⟨fds, hb, rfl⟩ : Reach c Runs.Any (boot c fds)).step
      (l := .wait [input c.listenfd]) trivial ⟨⟨rfl, List.cons_ne_nil _ _, hone, List.nodup_singleton _,
        fun e he => by rw [List.mem_singleton.mp he]; exact hw⟩, rfl⟩
  have hinfo : s1.sessinfo c.listenfd = ⟨some ⟨.listen, c.listenfd⟩, none⟩ := by
    show Function.update (fun _ => Edata.null) c.listenfd _ c.listenfd = _
    rw [Function.update_self]
  have hr2 : Reach c Runs.Any s2 := by
    refine hr1.step (l := .dispatch 0 sampleEnv) trivial ⟨⟨input c.listenfd, [], rfl⟩, ?_⟩
    show dispatch c sampleEnv 0 (input c.listenfd) [] s1 = _
    unfold dispatch
    simp only [show s1.sessinfo (input c.listenfd).fd = _ from hinfo, ↓reduceIte]
    rfl
  by_cases hlt : fds.lowest < MAX_SESSIONS
  · right
    have hne : fds.lowest ≠ c.listenfd := by
      intro e
      have := fds.lowest_none
      rw [e, hb.listen] at this
      cases this
    have hv : isValid c (newSession s2) = none := by
      unfold isValid
      rw [if_neg (fun h => absurd h.2 (Nat.not_lt_zero _)), if_neg fun h => absurd h.2 (Nat.not_lt_zero _)]
    obtain ⟨s3, he, h1, h2, h3, h4, h5, h6⟩ := handleNewConn_ok ⟨1, 0⟩ hv hlt
    have hr3 : Reach c Runs.Any s3 := hr2.step (l := .acceptOne ⟨1, 0⟩) trivial ⟨⟨[], rfl⟩, he⟩
    have hx : exec c s3 (.acceptErr .EAGAIN) = .ok (s3.goto (.events [])) := by
      unfold exec
      simp only [show s3.main = .accepting [] from h6, ↓reduceIte]
    refine ⟨s3.goto (.events []), 0, admittedSession s2 1, ⟨?_, rfl, ?_, ?_, ?_, ?_, hne, ?_⟩⟩
    · exact hr3.step (l := .acceptErr .EAGAIN) trivial ⟨⟨[], h6⟩, hx⟩
    · exact (congrFun h1 0).trans (Function.update_self ..)
    · exact (congrFun h2 fds.lowest).trans (Function.update_self ..)
    · exact (congrFun h3 fds.lowest).trans (Function.update_self ..)
    · show s3.fds.get fds.lowest = _
      rw [h4]
      exact Function.update_self ..
    · exact (congrFun h5 fds.lowest).trans (Function.update_self ..)
  · refine Or.inl ⟨s2, .acceptOne ⟨1, 0⟩, hr2, ⟨[], rfl⟩, Int.ofNat fds.lowest, ?_, fun h => hlt (inTables_nat.mp h)⟩
    exact List.mem_append_left _ (List.mem_append_left _ (List.mem_singleton_self _))

/-- **Whatever the configuration**, a run leads outside the tables. -/
theorem overrun {fds : Slots Desc} (hb : Boots c fds) : Overruns c := by
  rcases hb.connects with h | ⟨s, sid, x, h⟩
  · exact h
  · exact h.overruns

end

end Myftpd
