import Myftpd.Faults
import Myftpd.Lifetime

/-!
# Errors that one peer causes, and the other sessions

The steps in which `recv`, `accept` or `epoll_wait` fails (`Meets`).  A failed `accept` on a passive
listener is passed over, and so are the `EINTR` that `recv` and `read` give while a line is read.  Every
other error ends the process, with all its sessions.

* `Ledger.Bounded`  the descriptors in `sessinfo` and the control sockets are below `MAX_SESSIONS`;
* `Untouched`       what there is of a session that may not change: record, transfers, descriptors, last request;
* `survives_iff`    the errors that the server survives, and the other sessions with it.
-/

namespace Myftpd
open CMem Server

namespace Ledger

section
variable {L L' : Ledger} {op : Op} {lf : Fd}

/-- the records in `sessinfo` and the control sockets -/
structure Bounded (lf : Fd) (L : Ledger) : Prop where
  info : ∀ g f o, L.info g = ⟨some f, o⟩ → f.fd = g ∧ (g = lf ∨ g < MAX_SESSIONS)
  ctrl : ∀ sid x, L.sess sid = some x → x.ctrl < MAX_SESSIONS

theorem Step.info_new (h : L.Step op L') (g : Fd) : L'.info g = L.info g ∨
    L'.info g = Edata.null ∨ g < MAX_SESSIONS ∧ ∃ t sid, L'.info g = ⟨some ⟨t, g⟩, some sid⟩ := by
  cases h with
  | stay => exact Or.inl rfl
  | @enter fd _ hb =>
    show Function.update L.info fd _ g = _ ∨ Function.update L.info fd _ g = _ ∨ _
    rw [Function.update_apply]
    split
    · rename_i e
      subst e
      exact Or.inr (Or.inr ⟨hb, .ctrl, L.nextSid, Function.update_self ..⟩)
    · exact Or.inl rfl
  | @refuse fd _ =>
    show Function.update L.info fd _ g = _ ∨ Function.update L.info fd _ g = _ ∨ _
    rw [Function.update_apply]
    split
    · exact Or.inr (Or.inl rfl)
    · exact Or.inl rfl
  | free _ =>
    rw [freed_info]
    split
    · exact Or.inr (Or.inl rfl)
    · exact Or.inl rfl
  | evict _ =>
    rw [freed_info]
    split
    · exact Or.inr (Or.inl rfl)
    · exact Or.inl rfl
  | dataConn _ _ _ => exact Or.inl rfl
  | pass _ _ => exact Or.inl rfl
  | noDir _ => exact Or.inl rfl
  | cwd _ _ => exact Or.inl (congrFun (closeOpt_info ..) g)
  | pasv _ _ => exact Or.inl rfl
  | @entry sid x fd _ _ hb =>
    show Function.update L.info fd _ g = _ ∨ Function.update L.info fd _ g = _ ∨ _
    rw [Function.update_apply]
    split
    · rename_i e
      subst e
      exact Or.inr (Or.inr ⟨hb, .data, sid, Function.update_self ..⟩)
    · exact Or.inl rfl
  | enroll _ _ _ _ => exact Or.inl rfl
  | list _ => exact Or.inl (congrFun ((closeOpt_info ..).trans (closeOpt_info ..)) g)
  | start _ => exact Or.inl rfl
  | advance _ _ => exact Or.inl rfl
  | openFile _ _ => exact Or.inl rfl
  | rmData _ _ => exact Or.inl (congrFun (closeOpt_info ..) g)
  | rmPasv _ _ => exact Or.inl (congrFun (closeOpt_info ..) g)
  | setPasv _ _ _ => exact Or.inl rfl
  | setData _ _ => exact Or.inl rfl
  | closeFile _ => exact Or.inl (congrFun (closeOpt_info ..) g)
  | finish _ => exact Or.inl rfl

theorem Step.bounded (h : L.Step op L') (hb : L.Bounded lf) : L'.Bounded lf where
  info := by
    intro g f o hi
    rcases h.info_new g with e | e | ⟨hg, t, sid, e⟩
    · exact hb.info g f o (e.symm.trans hi)
    · cases e.symm.trans hi
    · cases e.symm.trans hi
      exact ⟨rfl, Or.inr hg⟩
  ctrl := by
    intro sid x hx
    rcases (h.born hx).2 with ⟨y, hy, e⟩ | ⟨fd, rfl, -, e⟩
    · rw [← e]
      exact hb.ctrl sid y hy
    · cases h with
      | enter _ hg => exact e ▸ hg

end

end Ledger

section
variable {c : Conf} {s s' : Server} {l : Label}

theorem bounded_reach {C : Server → Label → Prop} (h : Reach c C s) :
    s.ledger.Bounded c.listenfd := by
  refine Runs.Reach.inv (I := fun s => s.ledger.Bounded c.listenfd) ?_ ?_ h
  · rintro s ⟨fds, -, rfl⟩
    refine ⟨fun g f o hi => ?_, nofun⟩
    change Function.update (fun _ => Edata.null) c.listenfd _ g = _ at hi
    rw [Function.update_apply] at hi
    split at hi
    · rename_i e
      cases hi
      exact ⟨e.symm, Or.inl e⟩
    · cases hi
  · rintro s l s' hb - ⟨hen, he⟩
    obtain ⟨op, ho⟩ := exec_step hen he
    exact ho.step.bounded hb

/-! ## the errors -/

/-- the event `ev` is next, and it is input for the session `sid` -/
structure InputFor (c : Conf) (s : Server) (ev : Event) (evs : List Event) (f : FdT) (sid : Sid)
    (x : Session) : Prop where
  next : s.main = .events (ev :: evs)
  input : ev.epollin = true
  info : s.sessinfo ev.fd = ⟨some f, some sid⟩
  other : f.fd ≠ c.listenfd
  live : s.heap sid = some x

/-- the steps in which the system reports an error: to `epoll_wait`, to `accept` on the listening
socket, to a call that reads a control line, and to `accept` on a passive listener -/
inductive Meets (c : Conf) (s : Server) : Label → Prop where
  | wait (e : Errno) : s.main = .events [] → Meets c s (.waitErr e)
  | accept (e : Errno) (evs : List Event) : s.main = .accepting evs → e ≠ .EAGAIN →
      Meets c s (.acceptErr e)
  | recv {ev evs f sid x} (now : Int) (env : Env) : InputFor c s ev evs f sid x → f.type = .ctrl →
      (∃ e, some e ∈ (s.sock x.ctrlFd).script) → Meets c s (.dispatch now env)
  | passive {ev evs f sid x} (now : Int) (env : Env) : InputFor c s ev evs f sid x →
      f.type ≠ .ctrl → x.pasvListenFd ≠ none → env.accept = false → Meets c s (.dispatch now env)

/-- the session that the next event is about -/
def concerned (s : Server) : Option Sid :=
  match s.main with
  | .events (ev :: _) => (s.sessinfo ev.fd).sess
  | _ => none

/-- the session that a descriptor is open for -/
def Server.owner (s : Server) : Desc → Option Sid
  | .ctrl sid => some sid
  | .pasv sid => some sid
  | .data sid => some sid
  | .cwd sid _ => some sid
  | .file tid => (s.threads tid).map Thread.sess
  | _ => none

/-- Nothing of the session `j` has changed: its record, its transfers, its descriptors with their registrations and what
has arrived on them, and the time of its last request. -/
structure Untouched (j : Sid) (s s' : Server) : Prop where
  record : s'.heap j = s.heap j
  transfers : ∀ tid th, th.sess = j → (s'.threads tid = some th ↔ s.threads tid = some th)
  fds : ∀ fd d, s.owner d = some j → (s'.fds.get fd = some d ↔ s.fds.get fd = some d)
  state : ∀ fd d, s.owner d = some j → s.fds.get fd = some d →
    s'.watch fd = s.watch fd ∧ s'.sock fd = s.sock fd ∧ s'.sessinfo fd = s.sessinfo fd
  time : ∀ n node, node.sess = j → (s'.tl.node n = some node ↔ s.tl.node n = some node)

/-- the process goes on, and no other session has changed -/
def Survives (c : Conf) (s : Server) (l : Label) : Prop := ∃ s', exec c s l = .ok s' ∧
  ∀ j, s.heap j ≠ none → concerned s ≠ some j → Untouched j s s'

/-- All errors are `EINTR`, and what is left is a line that can be parsed, the end of the stream or
more bytes than fit in the buffer. -/
def Retried (k : Sock) : Prop := fails (calls k.queue) k.script = false ∧
  (HasLine k.queue ∧ parseCmdline (peeked k.queue) ≠ none ∨
    ¬ HasLine k.queue ∧ ¬ (k.queue.drop MAX_COMMAND_LINE = [] ∧ k.fin = false))

/-- no other session has this descriptor -/
def Spares (s : Server) (sid : Sid) (fd : Fd) : Prop :=
  ∀ d j, s.fds.get fd = some d → s.owner d = some j → j ≠ sid → s.heap j = none

/-- the descriptors that the step reads from or closes, as the record names them -/
def Session.used (x : Session) (k : Sock) : List Fd :=
  if HasLine k.queue then [x.ctrlFd] else x.ctrlFd :: (x.dataFd.toList ++ x.pasvListenFd.toList)

/-- the node that the step refreshes is not that of another session, or it has this time already -/
def Timely (s : Server) (sid : Sid) (fd : Fd) (now : Int) : Prop :=
  ∀ n node, s.tl.map fd = some n → s.tl.node n = some node → node.sess ≠ sid → s.heap node.sess ≠ none →
    node.lastTime = wrapS 32 now

/-- the errors that are passed over, in a session whose descriptors are its own -/
def Tolerated (s : Server) : Label → Prop
  | .dispatch now _ => ∀ sid x ev evs f, s.main = .events (ev :: evs) → s.sessinfo ev.fd = ⟨some f, some sid⟩ →
      s.heap sid = some x → Timely s sid f.fd now ∧
        (f.type = .ctrl → Retried (s.sock x.ctrlFd) ∧ ∀ fd ∈ x.used (s.sock x.ctrlFd), Spares s sid fd)
  | _ => False

theorem InputFor.concerned {ev : Event} {evs : List Event} {f : FdT} {sid : Sid} {x : Session}
    (h : InputFor c s ev evs f sid x) : concerned s = some sid := by
  unfold Myftpd.concerned
  simp only [h.next, h.info]

theorem InputFor.exec {ev : Event} {evs : List Event} {t : FdType} {fd : Fd} {sid : Sid}
    {x : Session} {now : Int} {env : Env} (h : InputFor c s ev evs ⟨t, fd⟩ sid x)
    (hb : s.ledger.Bounded c.listenfd) : exec c s (.dispatch now env) =
      processRead env t (some sid) evs
        { s.goto (.events evs) with tl := s.tl.refreshTimeout fd now } := by
  obtain ⟨e, hg⟩ := hb.info _ _ _ h.info
  have hf : fd < MAX_SESSIONS := by
    change fd = ev.fd at e
    rw [e]
    exact hg.resolve_left fun e' => h.other (e.trans e')
  show (match s.main with
    | .events (ev :: evs) => dispatch c env now ev evs s
    | _ => .ok s) = _
  rw [h.next]
  exact dispatch_read h.info h.other hf h.input

/-- the state in which a line has been read and parsed -/
def lineTaken (s : Server) (evs : List Event) (fd : Fd) (now : Int) (sid : Sid) (x : Session) (k : Sock)
    (cmd arg : List UInt8) : Server :=
  ((({ readied s evs fd now with
    sock := Function.update s.sock x.ctrlFd k, cmdNo := s.cmdNo + 1 } : Server).put sid
      { x with cmd := cmd, arg := arg }).emit (.line sid (s.cmdNo + 1))).goto (.command sid evs)

theorem InputFor.line {ev : Event} {evs : List Event} {fd : Fd} {sid : Sid} {x : Session} {k : Sock}
    {m cmd arg : List UInt8} (h : InputFor c s ev evs ⟨.ctrl, fd⟩ sid x)
    (hb : s.ledger.Bounded c.listenfd) (hr : ctrlRead (s.sock x.ctrlFd) = .ok (some (m, k)))
    (hp : parseCmdline m = some (cmd, arg)) (now : Int) (env : Env) :
    Myftpd.exec c s (.dispatch now env) = .ok (lineTaken s evs fd now sid x k cmd arg) := by
  rw [h.exec hb]
  show processCtrlRead sid evs _ = _
  unfold processCtrlRead
  simp only [show (s.goto (.events evs)).heap sid = some x from h.live,
    show ctrlRead ((s.goto (.events evs)).sock x.ctrlFd) = .ok (some (m, k)) from hr, hp]
  rfl

/-! ## the other sessions -/

section
variable {sid j : Sid} {x : Session} {evs : List Event} {fd : Fd} {now : Int} {t : Server}

theorem node_refreshed {tl : TimeList} (m : Nid) : (tl.refreshTimeout fd now).node m =
    if tl.map fd = some m then (tl.node m).map fun x => ⟨x.sess, wrapS 32 now⟩ else tl.node m := by
  unfold TimeList.refreshTimeout
  cases hm : tl.map fd with
  | none => rw [if_neg nofun]
  | some n =>
    show Function.update tl.node n _ m = _
    rw [Function.update_apply]
    by_cases e : m = n
    · rw [if_pos e, if_pos (congrArg some e.symm), e]
    · rw [if_neg e, if_neg fun h => e (Option.some.inj h).symm]

theorem timely_iff : (∀ j, s.heap j ≠ none → j ≠ sid → ∀ n node, node.sess = j →
      ((s.tl.refreshTimeout fd now).node n = some node ↔ s.tl.node n = some node)) ↔ Timely s sid fd now := by
  constructor
  · intro h n node hm hn hne hlive
    have hsame := (h _ hlive hne n node rfl).mpr hn
    rw [node_refreshed, if_pos hm, hn, Option.map_some] at hsame
    exact (congrArg ToNode.lastTime (Option.some.inj hsame)).symm
  · intro h j hlive hne n node hj
    rw [node_refreshed]
    split
    · rename_i hm
      cases hn : s.tl.node n with
      | none => rfl
      | some old =>
        rw [Option.map_some, Option.some.injEq, Option.some.injEq]
        have hkept : old.sess = j → (⟨old.sess, wrapS 32 now⟩ : ToNode) = old := fun e => by
          rw [← h n old hm hn (e ▸ hne) (e ▸ hlive)]
        constructor
        · intro e
          exact (hkept ((congrArg ToNode.sess e).trans hj)).symm.trans e
        · intro e
          exact (hkept ((congrArg ToNode.sess e).trans hj)).trans e
    · rfl

theorem untouched_refreshed (hr : t.heap j = s.heap j) (ht : t.threads = s.threads) (hf : t.fds = s.fds)
    (hw : t.watch = s.watch) (hi : t.sessinfo = s.sessinfo)
    (hk : ∀ fd d, s.owner d = some j → s.fds.get fd = some d → t.sock fd = s.sock fd)
    (hn : ∀ n node, node.sess = j → (t.tl.node n = some node ↔ s.tl.node n = some node)) : Untouched j s t where
  record := hr
  transfers := fun tid th _ => by rw [ht]
  fds := fun fd d _ => by rw [hf]
  state := fun fd d ho hd => ⟨by rw [hw], hk fd d ho hd, by rw [hi]⟩
  time := hn

theorem readied_untouched : (∀ j, s.heap j ≠ none → some sid ≠ some j → Untouched j s (readied s evs fd now)) ↔
    Timely s sid fd now := by
  rw [← timely_iff]
  constructor
  · intro h j hlive hne
    exact (h j hlive fun e => hne (Option.some.inj e).symm).time
  · intro h j hlive hne
    exact untouched_refreshed rfl rfl rfl rfl rfl (fun _ _ _ _ => rfl) (h j hlive fun e => hne (congrArg some e.symm))

theorem line_untouched {k : Sock} {cmd arg : List UInt8} (hk : k ≠ s.sock x.ctrlFd) :
    (∀ j, s.heap j ≠ none → some sid ≠ some j → Untouched j s (lineTaken s evs fd now sid x k cmd arg)) ↔
      Spares s sid x.ctrlFd ∧ Timely s sid fd now := by
  rw [← timely_iff]
  constructor
  · intro h
    refine ⟨fun d j hd ho hne => ?_, fun j hlive hne => (h j hlive fun e => hne (Option.some.inj e).symm).time⟩
    by_contra hlive
    have hsock := ((h j hlive fun e => hne (Option.some.inj e).symm).state _ d ho hd).2.1
    exact hk ((Function.update_self (f := s.sock) ..).symm.trans hsock)
  · rintro ⟨hs, ht⟩ j hlive hne
    have hj : j ≠ sid := fun e => hne (congrArg some e.symm)
    refine untouched_refreshed (Function.update_of_ne hj ..) rfl rfl rfl rfl (fun g d ho hd => ?_) (ht j hlive hj)
    refine Function.update_of_ne (fun e => hlive ?_) ..
    exact hs d j (e ▸ hd) ho hj

/-- what is left of a descriptor that is closed with the session, and of the others -/
theorem closed_state (g : Fd) : (g ∈ x.ctrlFd :: (x.dataFd.toList ++ x.pasvListenFd.toList) →
      (closed s sid x).fds.get g = none) ∧
    (g ∉ x.ctrlFd :: (x.dataFd.toList ++ x.pasvListenFd.toList) → (closed s sid x).fds.get g = s.fds.get g ∧
      (closed s sid x).watch g = s.watch g ∧ (closed s sid x).sock g = s.sock g ∧
      (closed s sid x).sessinfo g = s.sessinfo g) := by
  have hclose : ∀ (t : Server) (n : Fd), (t.close n).fds.get g = if g = n then none else t.fds.get g :=
    fun t n => Slots.release_get ..
  have hother : ∀ (t : Server) (n : Fd), g ≠ n → (t.close n).fds.get g = t.fds.get g ∧
      (t.close n).watch g = t.watch g ∧ (t.close n).sock g = t.sock g ∧ (t.close n).sessinfo g = t.sessinfo g :=
    fun t n hne => ⟨(hclose t n).trans (if_neg hne), Function.update_of_ne hne .., Function.update_of_ne hne .., rfl⟩
  have hopt : ∀ (t : Server) (o : Option Fd), (g ∈ o.toList → (t.closeOpt o).fds.get g = none) ∧
      (t.fds.get g = none → (t.closeOpt o).fds.get g = none) ∧
      (g ∉ o.toList → (t.closeOpt o).fds.get g = t.fds.get g ∧ (t.closeOpt o).watch g = t.watch g ∧
        (t.closeOpt o).sock g = t.sock g ∧ (t.closeOpt o).sessinfo g = t.sessinfo g) := by
    intro t o
    cases o with
    | none => exact ⟨nofun, id, fun _ => ⟨rfl, rfl, rfl, rfl⟩⟩
    | some n =>
      refine ⟨fun h => ?_, fun h => ?_, fun h => hother t n fun e => h (List.mem_singleton.mpr e)⟩
      · exact (hclose t n).trans (if_pos (List.mem_singleton.mp h))
      · refine (hclose t n).trans ?_
        rw [h]
        exact ite_self none
  constructor
  · intro h
    show (((s.close x.ctrlFd).closeOpt x.dataFd).closeOpt x.pasvListenFd).fds.get g = none
    rcases List.mem_cons.mp h with e | h
    · exact (hopt _ _).2.1 ((hopt _ _).2.1 ((hclose _ _).trans (if_pos e)))
    · rcases List.mem_append.mp h with h | h
      · exact (hopt _ _).2.1 ((hopt _ _).1 h)
      · exact (hopt _ _).1 h
  · intro h
    rw [List.mem_cons, List.mem_append, not_or, not_or] at h
    obtain ⟨h1, h2, h3⟩ := h
    obtain ⟨a1, a2, a3, -⟩ := hother s _ h1
    obtain ⟨b1, b2, b3, -⟩ := (hopt (s.close x.ctrlFd) x.dataFd).2.2 h2
    obtain ⟨c1, c2, c3, -⟩ := (hopt ((s.close x.ctrlFd).closeOpt x.dataFd) x.pasvListenFd).2.2 h3
    refine ⟨c1.trans (b1.trans a1), c2.trans (b2.trans a2), c3.trans (b3.trans a3), ?_⟩
    refine (Function.update_of_ne h1 ..).trans ?_
    simp only [closeOpt_sessinfo]
    rfl

theorem closed_untouched :
    (∀ j, s.heap j ≠ none → some sid ≠ some j → Untouched j s (closed (readied s evs fd now) sid x)) ↔
      (∀ g ∈ x.ctrlFd :: (x.dataFd.toList ++ x.pasvListenFd.toList), Spares s sid g) ∧ Timely s sid fd now := by
  rw [← timely_iff]
  have htl : (closed (readied s evs fd now) sid x).tl = s.tl.refreshTimeout fd now := closed_tl
  constructor
  · intro h
    refine ⟨fun g hg d j hd ho hne => ?_, fun j hlive hne => ?_⟩
    · by_contra hlive
      have hkept := ((h j hlive fun e => hne (Option.some.inj e).symm).fds g d ho).mpr hd
      rw [(closed_state g).1 hg] at hkept
      cases hkept
    · have htime := (h j hlive fun e => hne (Option.some.inj e).symm).time
      rwa [htl] at htime
  · rintro ⟨hs, ht⟩ j hlive hne
    have hj : j ≠ sid := fun e => hne (congrArg some e.symm)
    have hout : ∀ g d, s.owner d = some j → s.fds.get g = some d →
        g ∉ x.ctrlFd :: (x.dataFd.toList ++ x.pasvListenFd.toList) :=
      fun g d ho hd hg => hlive (hs g hg d j hd ho hj)
    refine ⟨?_, fun tid th _ => ?_, fun g d ho => ⟨fun hd => ?_, fun hd => ?_⟩, fun g d ho hd => ?_, ?_⟩
    · rw [closed_heap]
      exact Function.update_of_ne hj ..
    · rw [closed_threads]
      rfl
    · by_cases hg : g ∈ x.ctrlFd :: (x.dataFd.toList ++ x.pasvListenFd.toList)
      · rw [(closed_state g).1 hg] at hd
        cases hd
      · exact ((@closed_state (readied s evs fd now) sid x g).2 hg).1.symm.trans hd
    · exact ((closed_state g).2 (hout g d ho hd)).1.trans hd
    · exact ((closed_state g).2 (hout g d ho hd)).2
    · rw [htl]
      exact ht j hlive hj

end

theorem lineLen_pos (q : List UInt8) : 0 < lineLen q := Nat.succ_pos _

/-- **Reading a control line** goes well when the only errors are repeated calls. -/
theorem processCtrlRead_ok {sid : Sid} {x : Session} {evs : List Event} {fd : Fd} {now : Int}
    (hx : s.heap sid = some x) (hb : x.ctrlFd < MAX_SESSIONS) :
    (∃ s', processCtrlRead sid evs (readied s evs fd now) = .ok s' ∧
        ∀ j, s.heap j ≠ none → some sid ≠ some j → Untouched j s s') ↔
      Timely s sid fd now ∧ Retried (s.sock x.ctrlFd) ∧ ∀ g ∈ x.used (s.sock x.ctrlFd), Spares s sid g := by
  unfold Session.used
  have hxt : (s.goto (.events evs)).heap sid = some x := hx
  have hsock : (s.goto (.events evs)).sock x.ctrlFd = s.sock x.ctrlFd := rfl
  rcases hk : s.sock x.ctrlFd with ⟨q, fin, es⟩
  rw [hk] at hsock
  unfold processCtrlRead Retried
  simp only [hxt, hsock]
  cases hf : fails (calls q) es with
  | true =>
    rw [ctrlRead_fails hf]
    exact ⟨nofun, nofun⟩
  | false =>
    obtain ⟨es', hr⟩ := @ctrlRead_retried q fin es hf
    by_cases hl : HasLine q
    · rw [if_pos hl] at hr
      simp only [hr, if_pos hl]
      cases hp : parseCmdline (peeked q) with
      | none =>
        refine ⟨nofun, ?_⟩
        rintro ⟨-, ⟨-, ⟨-, h⟩ | ⟨h, -⟩⟩, -⟩
        · exact absurd rfl h
        · exact absurd hl h
      | some r =>
        obtain ⟨cmd, arg⟩ := r
        have hne : (⟨q.drop (lineLen q), fin, es'⟩ : Sock) ≠ s.sock x.ctrlFd := by
          intro e
          rw [hk] at e
          have hlen := congrArg (fun k : Sock => k.queue.length) e
          have hle := hl.lineLen_le_length
          have hpos := lineLen_pos q
          simp only [List.length_drop] at hlen
          omega
        have hiff := @line_untouched s sid x evs fd now ⟨q.drop (lineLen q), fin, es'⟩ cmd arg hne
        constructor
        · rintro ⟨s', he, h⟩
          cases he
          obtain ⟨h1, h2⟩ := hiff.mp h
          exact ⟨h2, ⟨trivial, Or.inl ⟨hl, Option.some_ne_none _⟩⟩, List.forall_mem_singleton.mpr h1⟩
        · rintro ⟨h2, -, h1⟩
          exact ⟨_, rfl, hiff.mpr ⟨List.forall_mem_singleton.mp h1, h2⟩⟩
    · rw [if_neg hl] at hr
      rw [if_neg hl]
      by_cases hd : q.drop MAX_COMMAND_LINE = [] ∧ fin = false
      · rw [if_pos hd] at hr
        simp only [hr]
        refine ⟨nofun, ?_⟩
        rintro ⟨-, ⟨-, ⟨h, -⟩ | ⟨-, h⟩⟩, -⟩
        · exact absurd h hl
        · exact absurd hd h
      · rw [if_neg hd] at hr
        simp only [hr]
        rw [@closeSess_eq (readied s evs fd now) sid x hx hb]
        constructor
        · rintro ⟨s', he, h⟩
          cases he
          obtain ⟨h1, h2⟩ := closed_untouched.mp h
          exact ⟨h2, ⟨trivial, Or.inr ⟨hl, hd⟩⟩, h1⟩
        · rintro ⟨h2, -, h1⟩
          exact ⟨_, rfl, closed_untouched.mpr ⟨h1, h2⟩⟩

theorem tolerated_iff {ev : Event} {evs : List Event} {f : FdT} {sid : Sid} {x : Session} {now : Int} {env : Env}
    (h : InputFor c s ev evs f sid x) : Tolerated s (.dispatch now env) ↔ Timely s sid f.fd now ∧
      (f.type = .ctrl → Retried (s.sock x.ctrlFd) ∧ ∀ fd ∈ x.used (s.sock x.ctrlFd), Spares s sid fd) := by
  constructor
  · intro ht
    exact ht sid x ev evs f h.next h.info h.live
  · intro hr sid' x' ev' evs' f' hm hi hx
    cases hm.symm.trans h.next
    cases hi.symm.trans h.info
    cases hx.symm.trans h.live
    exact hr

/-- **The errors that the server survives**, with all other sessions as they were: a call that reads a control line is
interrupted, or no connection can be accepted on a passive listener, and the descriptors that the session still names
are not another's. -/
theorem survives_iff (hr : Reach c Runs.Any s) (hm : Meets c s l) :
    Survives c s l ↔ Tolerated s l := by
  have hb := bounded_reach hr
  unfold Survives
  cases hm with
  | wait e _ => exact ⟨nofun, nofun⟩
  | accept e evs hm he =>
    have hx : exec c s (.acceptErr e) = .error (.exit .accept) := by
      unfold exec
      simp only [hm, if_neg he]
    rw [hx]
    exact ⟨nofun, nofun⟩
  | @recv ev evs f sid x now env h ht _ =>
    obtain ⟨t, fd⟩ := f
    obtain rfl : t = .ctrl := ht
    rw [h.concerned, h.exec hb, tolerated_iff h]
    refine (processCtrlRead_ok h.live (hb.ctrl sid _ (ledger_sess h.live))).trans ?_
    exact and_congr_right fun _ => ⟨fun h _ => h, fun h => h rfl⟩
  | @passive ev evs f sid x now env h ht hp ha =>
    obtain ⟨t, fd⟩ := f
    obtain ⟨p, hp⟩ := Option.ne_none_iff_exists'.mp hp
    have hx : (s.goto (.events evs)).heap sid = some x := h.live
    have hrun : exec c s (.dispatch now env) = .ok (readied s evs fd now) := by
      rw [h.exec hb]
      unfold processRead processDataRead
      simp only [if_neg ht, hx, hp, ha]
      rfl
    rw [h.concerned, hrun, tolerated_iff h]
    constructor
    · rintro ⟨s', he, hun⟩
      cases he
      exact ⟨readied_untouched.mp hun, fun e => absurd e ht⟩
    · rintro ⟨htime, -⟩
      exact ⟨_, rfl, readied_untouched.mpr htime⟩

end

/-- a client has sent a line; the calls that read it will be interrupted -/
def interruptedRun : List Label :=
  connects ++ [.arrive 5 (ascii "NOOP" ++ [CR, LF]), .faults 5 [some .EINTR, some .EINTR],
    .wait [input 5]]

theorem interruptedRun_reach : ∃ s x, Reach sampleConf Runs.Any s ∧
    InputFor sampleConf s (input 5) [] ⟨.ctrl, 5⟩ 0 x ∧
    s.sock x.ctrlFd = ⟨ascii "NOOP" ++ [CR, LF], false, [some .EINTR, some .EINTR]⟩ ∧
    s.fds.get x.ctrlFd = some (.ctrl 0) ∧ ((s.tl.map 5).bind s.tl.node).map ToNode.sess = some 0 := by
  obtain ⟨s, hs, hp⟩ := reach_of_play
    (p := fun s => decide (s.main = .events [input 5]) &&
      decide (s.sessinfo 5 = ⟨some ⟨.ctrl, 5⟩, some 0⟩) && (s.heap 0).any fun x : Session =>
        decide (x.ctrlFd = 5 ∧ s.sock 5 =
          ⟨ascii "NOOP" ++ [CR, LF], false, [some .EINTR, some .EINTR]⟩ ∧ s.fds.get 5 = some (.ctrl 0) ∧
            ((s.tl.map 5).bind s.tl.node).map ToNode.sess = some 0))
    (sampleReach Runs.Any)
    (show (play sampleConf Runs.Any sampleBoot interruptedRun).any _ = true by decide +kernel)
  simp only [Bool.and_eq_true, decide_eq_true_eq, Option.any_eq_true] at hp
  obtain ⟨⟨hm, hi⟩, x, hx, h5, hk, hd, hn⟩ := hp
  exact ⟨s, x, hs, ⟨hm, rfl, hi, by decide, hx⟩, by rw [h5, hk], by rw [h5, hd], hn⟩

/-- the server survives the interrupted calls -/
theorem survives_interrupted : ∃ s, Reach sampleConf Runs.Any s ∧
    Meets sampleConf s (.dispatch 0 sampleEnv) ∧ Survives sampleConf s (.dispatch 0 sampleEnv) := by
  obtain ⟨s, x, hs, h, hk, hmine, hnode⟩ := interruptedRun_reach
  have hm : Meets sampleConf s (.dispatch 0 sampleEnv) :=
    .recv 0 sampleEnv h rfl ⟨.EINTR, by rw [hk]; exact List.mem_cons_self⟩
  refine ⟨s, hs, hm, (survives_iff hs hm).mpr ((tolerated_iff h).mpr ⟨fun n node hn hx hne _ => ?_, fun _ => ?_⟩)⟩
  · rw [hn, Option.bind_some, hx] at hnode
    exact absurd (Option.some.inj hnode) hne
  · rw [hk]
    refine ⟨⟨by decide +kernel, Or.inl ⟨by decide +kernel, by decide +kernel⟩⟩, fun fd hfd => ?_⟩
    have hline : HasLine (ascii "NOOP" ++ [CR, LF]) := by decide +kernel
    unfold Session.used at hfd
    rw [if_pos hline, List.mem_singleton] at hfd
    intro d j hd ho hne
    rw [hfd, hmine] at hd
    cases hd
    exact absurd (Option.some.inj ho).symm hne

/-- `EINTR` on the first `epoll_wait` -/
theorem epoll_interrupted : ¬ ∀ c s l, Reach c Runs.Any s → Meets c s l → Survives c s l := by
  intro h
  obtain ⟨s', hs', -⟩ := h _ _ _ (sampleReach Runs.Any) (.wait .EINTR rfl)
  cases hs'

end Myftpd
