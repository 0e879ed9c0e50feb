import Myftpd.Books
import Myftpd.Paths

/-!
# The stages of a transfer thread

What a step of a transfer thread does to the thread, to the record of its session, and to everything
else, whatever its stage.

* `Pc.follows`  the order of the stages;
* `Pc.record`   what a stage does to the record of the session;
* `thread_ran`  every step of a thread.
-/

namespace Myftpd
open CMem Server

def Pc.opened : Pc → Bool
  | .offset => false
  | .clear => false
  | .open => false
  | _ => true

/-- the record of the session after a step at the stage -/
def Pc.record : Pc → Session → Session
  | .clear, x => { x with restartPos := 0 }
  | .setPasv, x => { x with pasvListenFd := none }
  | .setData, x => { x with dataFd := none }
  | .checkAbor, x => { x with aborReceived := false }
  | _, x => x

theorem record_dirfd (pc : Pc) (x : Session) : (pc.record x).dirfd = x.dirfd := by
  cases pc <;> rfl

/-- the `openat` of the thread succeeds -/
def Openable (env : TEnv) (th : Thread) (s : Server) : Prop :=
  ∃ x, s.heap th.sess = some x ∧
    openatOk x.dirfd x.arg (if env.openat then some () else none) = some ()

/-- the system has granted what the stage asks of it -/
structure Granted (env : TEnv) (th : Thread) (s : Server) : Prop where
  opens : th.pc = .open → Openable env th s
  lock : th.pc = .lock → env.lock = true

/-- What a thread adds to the log: the path is the argument of its session, resolved against the directory
of the session, and it is touched at the `openat` and after it only. -/
structure FromThread (env : TEnv) (th : Thread) (s : Server) (a : Act) : Prop where
  path : ∀ q ∈ a.paths, th.pc = .open ∧ ∃ x, s.heap th.sess = some x ∧ q = (.dirfd x.dirfd, x.arg)
  touch : ∀ j, a.touches = some j →
    j = th.sess ∧ (th.pc.opened = true ∨ th.pc = .open ∧ Openable env th s)

/-- what a stage does apart from the thread itself: a change to the record of the session, and to nothing
that the main loop or a thread keeps -/
structure Beside (env : TEnv) (f : Session → Session) (th : Thread) (s t : Server) : Prop where
  heap : ∀ j, t.heap j = if j = th.sess then (s.heap j).map f else s.heap j
  threads : t.threads = s.threads
  nextTid : t.nextTid = s.nextTid
  cmdNo : t.cmdNo = s.cmdNo
  main : t.main = s.main
  books : t.books = s.books
  log : Adds (FromThread env th s) s t

/-- A step of the thread `tid`, which is `th` before it; `o` is the thread after it. -/
structure Ran (env : TEnv) (tid : Tid) (th : Thread) (s s' : Server) (o : Option Thread) : Prop where
  beside : ∀ j, s'.heap j = if j = th.sess then (s.heap j).map th.pc.record else s.heap j
  threads : s'.threads = Function.update s.threads tid o
  nextTid : s'.nextTid = s.nextTid
  cmdNo : s'.cmdNo = s.cmdNo
  main : s'.main = s.main
  books : s'.books = s.books
  log : Adds (FromThread env th s) s s'
  next : ∀ u, o = some u → u.sess = th.sess ∧ u.cmd = th.cmd ∧ u.kind = th.kind ∧
    (u = th ∧ th.pc.idles = true ∨ th.pc.follows th.kind u.pc)
  offset : ∀ u, o = some u → u.offset = th.offset ∨
    th.pc = .offset ∧ ∃ x, s.heap th.sess = some x ∧ u.offset = x.restartPos
  granted : ∀ u, o = some u → Granted env th s

section
variable {env : TEnv} {tid : Tid} {th u : Thread} {s s' t : Server} {x y : Session}
  {f : Session → Session} {sid : Sid} {o : Option Thread}

theorem Ran.self (h : Ran env tid th s s' o) (hu : s'.threads tid = some u) : o = some u := by
  rw [h.threads, Function.update_self] at hu
  exact hu

theorem Ran.other {k : Tid} (h : Ran env tid th s s' o) (hu : s'.threads k = some u) (hk : k ≠ tid) :
    s.threads k = some u := by
  rw [h.threads, Function.update_of_ne hk] at hu
  exact hu

theorem FromThread.quiet {a : Act} (h1 : a.paths = []) (h2 : a.touches = none) :
    FromThread env th s a where
  path := by
    rw [h1]
    exact fun q hq => absurd hq List.not_mem_nil
  touch := by
    rw [h2]
    rintro j ⟨⟩

theorem FromThread.file {op : FsOp} (hop : op.paths = []) (ho : th.pc.opened = true) :
    FromThread env th s (.fs th.sess op) where
  path := by
    rw [show (Act.fs th.sess op).paths = [] from hop]
    exact fun q hq => absurd hq List.not_mem_nil
  touch := by
    rintro j ⟨rfl⟩
    exact ⟨rfl, Or.inl ho⟩

theorem FromThread.opens {op : FsOp} (hpc : th.pc = .open) (hx : s.heap th.sess = some x)
    (hop : op.paths = [(.dirfd x.dirfd, x.arg)]) (ho : Openable env th s) :
    FromThread env th s (.fs th.sess op) where
  path := by
    rw [show (Act.fs th.sess op).paths = _ from hop]
    intro q hq
    rw [List.mem_singleton.mp hq]
    exact ⟨hpc, x, hx, rfl⟩
  touch := by
    rintro j ⟨rfl⟩
    exact ⟨rfl, Or.inr ⟨hpc, ho⟩⟩

theorem Beside.same (h1 : t.heap = s.heap) (h2 : t.threads = s.threads) (h3 : t.nextTid = s.nextTid)
    (h4 : t.cmdNo = s.cmdNo) (h5 : t.main = s.main) (h6 : t.books = s.books)
    (h7 : Adds (FromThread env th s) s t) : Beside env id th s t where
  heap := by
    intro j
    rw [h1, Option.map_id, id, ite_self]
  threads := h2
  nextTid := h3
  cmdNo := h4
  main := h5
  books := h6
  log := h7

theorem Beside.refl (s : Server) : Beside env id th s s := .same rfl rfl rfl rfl rfl rfl (.refl s)

theorem Beside.emit {a : Act} (ha : FromThread env th s a) : Beside env id th s (s.emit a) :=
  .same rfl rfl rfl rfl rfl rfl (.emit rfl ha)

theorem Beside.closeOpt (o : Option Fd) : Beside env id th s (s.closeOpt o) := by
  cases o <;> exact .same rfl rfl rfl rfl rfl rfl (.of rfl)

theorem Beside.put (hx : s.heap th.sess = some x) : Beside env f th s (s.put th.sess (f x)) where
  heap := by
    intro j
    show Function.update s.heap th.sess (some (f x)) j = _
    rw [Function.update_apply]
    split
    · rename_i e
      rw [e, hx, Option.map_some]
    · rfl
  threads := rfl
  nextTid := rfl
  cmdNo := rfl
  main := rfl
  books := rfl
  log := .of rfl

theorem Ran.on (hb : Beside env f th s t) (hf : th.pc.record = f) (h1 : u.sess = th.sess)
    (h2 : u.cmd = th.cmd) (h3 : u.kind = th.kind) (h4 : th.pc.follows th.kind u.pc)
    (h5 : u.offset = th.offset ∨
      th.pc = .offset ∧ ∃ x, s.heap th.sess = some x ∧ u.offset = x.restartPos)
    (h6 : Granted env th s) : Ran env tid th s (setThread tid t u) (some u) where
  beside := by
    rw [hf]
    exact hb.heap
  threads := by
    show Function.update t.threads tid (some u) = _
    rw [hb.threads]
  nextTid := hb.nextTid
  cmdNo := hb.cmdNo
  main := hb.main
  books := hb.books
  log := hb.log
  next := by
    rintro v ⟨rfl⟩
    exact ⟨h1, h2, h3, Or.inr h4⟩
  offset := by
    rintro v ⟨rfl⟩
    exact h5
  granted := fun _ _ => h6

theorem Ran.done (hb : Beside env f th s t) (hf : th.pc.record = f) :
    Ran env tid th s (endThread tid t) none where
  beside := by
    rw [hf]
    exact hb.heap
  threads := by
    show Function.update t.threads tid none = _
    rw [hb.threads]
  nextTid := hb.nextTid
  cmdNo := hb.cmdNo
  main := hb.main
  books := hb.books
  log := hb.log
  next := by rintro v ⟨⟩
  offset := by rintro v ⟨⟩
  granted := by rintro v ⟨⟩

theorem Ran.idle (hth : s.threads tid = some th) (hf : th.pc.record = id) (hi : th.pc.idles = true) :
    Ran env tid th s s (some th) where
  beside := by
    rw [hf]
    exact (show Beside env id th s s from .refl s).heap
  threads := by rw [← hth, Function.update_eq_self]
  nextTid := rfl
  cmdNo := rfl
  main := rfl
  books := rfl
  log := .refl s
  next := by
    rintro v ⟨rfl⟩
    exact ⟨rfl, rfl, rfl, Or.inl ⟨rfl, hi⟩⟩
  offset := by
    rintro v ⟨rfl⟩
    exact Or.inl rfl
  granted := fun _ _ => ⟨fun h => (by rw [h] at hi; cases hi), fun h => (by rw [h] at hi; cases hi)⟩

theorem Granted.other {pc : Pc} (hpc : th.pc = pc) (h1 : pc ≠ .open) (h2 : pc ≠ .lock) :
    Granted env th s :=
  ⟨fun e => absurd (hpc.symm.trans e) h1, fun e => absurd (hpc.symm.trans e) h2⟩

theorem Granted.opened (hpc : th.pc = .open) (h : Openable env th s) : Granted env th s :=
  ⟨fun _ => h, fun e => (by rw [hpc] at e; cases e)⟩

theorem works_opened {pc : Pc} (h : pc.works = true) : pc.opened = true := by
  cases pc <;> first | rfl | cases h

theorem works_record {pc : Pc} (h : pc.works = true) : pc.record = id := by
  cases pc <;> first | rfl | cases h

theorem works_open {pc : Pc} (h : pc.works = true) : pc ≠ .open := by
  rintro rfl
  cases h

/-- **Every step of a transfer thread.** -/
theorem thread_ran (hth : s.threads tid = some th) (he : threadStep env tid s = .ok s') :
    ∃ o, Ran env tid th s s' o := by
  have hid : ∀ {pc : Pc}, th.pc = pc → pc.record = id → th.pc.record = id := fun e h => e ▸ h
  have hfol : ∀ {p q : Pc}, th.pc = p → p.follows th.kind q → th.pc.follows th.kind q := fun e h => e ▸ h
  cases thread_round hth he with
  | refuse hr hx _ =>
    refine ⟨none, .done (.emit (.quiet rfl rfl)) ?_⟩
    cases hpc : th.pc <;> first | rfl | (rw [hpc] at hr; cases hr)
  | @offset x hpc hx =>
    exact ⟨_, .on (.refl s) (hid hpc rfl) rfl rfl rfl (hfol hpc rfl) (Or.inr ⟨hpc, x, hx, rfl⟩)
      (.other hpc (by rintro ⟨⟩) (by rintro ⟨⟩))⟩
  | clear hpc hx =>
    exact ⟨_, .on (.put (f := Pc.record .clear) hx) (by rw [hpc]) rfl rfl rfl (hfol hpc rfl) (Or.inl rfl)
      (.other hpc (by rintro ⟨⟩) (by rintro ⟨⟩))⟩
  | @openat x op hpc hx ho hop =>
    have hopen : Openable env th s := ⟨x, hx, ho⟩
    have hlog : FromThread env th s (.fs th.sess op) :=
      .opens hpc hx (by rcases hop with rfl | rfl <;> rfl) hopen
    exact ⟨_, .on (.same rfl rfl rfl rfl rfl rfl (.emit rfl hlog)) (hid hpc rfl) rfl rfl rfl
      (hfol hpc rfl) (Or.inl rfl) (.opened hpc hopen)⟩
  | on hw ho =>
    exact ⟨_, .on (.refl s) (works_record hw) ho.sess ho.cmd ho.kind ho.follows (Or.inl ho.offset)
      ⟨fun e => absurd e (works_open hw), ho.lock⟩⟩
  | file hw hop ho =>
    refine ⟨_, .on (.emit (.file ?_ (works_opened hw))) (works_record hw) ho.sess ho.cmd ho.kind
      ho.follows (Or.inl ho.offset) ⟨fun e => absurd e (works_open hw), ho.lock⟩⟩
    rcases hop with rfl | ⟨n, rfl⟩ | ⟨n, rfl⟩
    · rfl
    · rfl
    · rfl
  | opening hpc hx ho =>
    exact ⟨_, .on (.emit (.quiet rfl rfl)) (hid hpc rfl) ho.sess ho.cmd ho.kind ho.follows
      (Or.inl ho.offset) (.other hpc (by rintro ⟨⟩) (by rintro ⟨⟩))⟩
  | rmData hpc hx =>
    exact ⟨_, .on (.closeOpt _) (hid hpc rfl) rfl rfl rfl (hfol hpc rfl) (Or.inl rfl)
      (.other hpc (by rintro ⟨⟩) (by rintro ⟨⟩))⟩
  | rmPasv hpc hx =>
    exact ⟨_, .on (.closeOpt _) (hid hpc rfl) rfl rfl rfl (hfol hpc rfl) (Or.inl rfl)
      (.other hpc (by rintro ⟨⟩) (by rintro ⟨⟩))⟩
  | setPasv hpc hx =>
    exact ⟨_, .on (.put (f := Pc.record .setPasv) hx) (by rw [hpc]) rfl rfl rfl (hfol hpc rfl)
      (Or.inl rfl) (.other hpc (by rintro ⟨⟩) (by rintro ⟨⟩))⟩
  | setData hpc hx =>
    exact ⟨_, .on (.put (f := Pc.record .setData) hx) (by rw [hpc]) rfl rfl rfl (hfol hpc rfl)
      (Or.inl rfl) (.other hpc (by rintro ⟨⟩) (by rintro ⟨⟩))⟩
  | closeFile hpc =>
    exact ⟨_, .on (.closeOpt _) (hid hpc rfl) rfl rfl rfl (hfol hpc rfl) (Or.inl rfl)
      (.other hpc (by rintro ⟨⟩) (by rintro ⟨⟩))⟩
  | final hpc hx _ =>
    exact ⟨_, .on (.emit (.quiet rfl rfl)) (hid hpc rfl) rfl rfl rfl (hfol hpc rfl) (Or.inl rfl)
      (.other hpc (by rintro ⟨⟩) (by rintro ⟨⟩))⟩
  | silent hpc hx _ =>
    exact ⟨_, .on (.refl s) (hid hpc rfl) rfl rfl rfl (hfol hpc rfl) (Or.inl rfl)
      (.other hpc (by rintro ⟨⟩) (by rintro ⟨⟩))⟩
  | aborted hpc hx _ =>
    have h1 : Beside env (Pc.record .checkAbor) th s (s.put th.sess _) := .put hx
    exact ⟨none, .done (f := Pc.record .checkAbor) ⟨h1.heap, rfl, rfl, rfl, rfl, rfl,
      .emit rfl (.quiet rfl rfl)⟩ (by rw [hpc])⟩
  | returns hpc hx ha =>
    refine ⟨none, .done (f := Pc.record .checkAbor) ⟨fun j => ?_, rfl, rfl, rfl, rfl, rfl, .of rfl⟩
      (by rw [hpc])⟩
    split
    · rename_i e
      rw [e, hx, Option.map_some]
      unfold Pc.record
      rw [← ha]
    · rfl
  | idle hi => exact ⟨_, .idle hth (works_record (idles_works hi)) hi⟩

/-! ## when a thread returns -/

/-- **The thread is gone after the step exactly when it returns.** -/
theorem thread_returns (hth : s.threads tid = some th) (hx : s.heap th.sess = some x)
    (he : threadStep env tid s = .ok s') : s'.threads tid = none ↔ th.returns env x = true := by
  rw [thread_after hth he, seen_of hx]
  unfold Thread.after
  cases hr : th.returns env x with
  | true => exact ⟨fun _ => rfl, fun _ => rfl⟩
  | false => exact ⟨nofun, nofun⟩

/-- a thread whose session has been freed does not return -/
theorem thread_orphan (hx : s.heap th.sess = none) (hth : s.threads tid = some th)
    (he : threadStep env tid s = .ok s') : s'.threads tid ≠ none := by
  have huse := (thread_stepped hth he).1
  rw [thread_after hth he]
  unfold Thread.after
  split
  · rename_i hr
    exact absurd ((huse (returns_uses hr)).symm.trans hx) nofun
  · exact nofun

end

end Myftpd
