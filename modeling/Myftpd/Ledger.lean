import Myftpd.Server

/-!
# The ledger: who owns which descriptor

An abstract model of the server, with everything left out that does not open, close or hand over a
descriptor.  It keeps the four descriptors of every session (`Core`), the descriptor table, the
registrations in `epollfd` with the records they point to, and the transfer threads with the stage
they are at.  `Op` names what one step can do, `Ledger.Step` says what it does.

The invariants of sessions, registrations and threads are about the ledger.
-/

namespace Myftpd

/-- the descriptors of a session -/
structure Core where
  ctrl : Fd
  pasv : Option Fd
  data : Option Fd
  dir : Option Fd
  deriving DecidableEq

def Core.fds (x : Core) : List Fd := x.ctrl :: (x.data.toList ++ x.pasv.toList ++ x.dir.toList)

/-- a transfer thread: its session, its stage and its file -/
structure Worker where
  sess : Sid
  pc : Pc
  file : Option Fd
  deriving DecidableEq

structure Ledger where
  sess : Sid → Option Core
  nextSid : Sid
  desc : Fd → Option Desc
  watch : Fd → Bool
  info : Fd → Edata
  workers : Tid → Option Worker
  nextTid : Tid

inductive Op where
  | stay
  | enter (fd : Fd)
  | refuse (fd : Fd)
  | free (sid : Sid)                      -- QUIT, end of file, `EPOLLHUP`
  | evict (sid : Sid)
  | dataConn (sid : Sid) (fd : Fd)
  | pass (sid : Sid) (fd : Fd)
  | noDir (sid : Sid)
  | cwd (sid : Sid) (fd : Fd)
  | pasv (sid : Sid) (fd : Fd)            -- the three stages of PASV
  | entry (sid : Sid) (fd : Fd)
  | enroll (sid : Sid) (fd : Fd)
  | list (sid : Sid)
  | start (sid : Sid)
  | advance (tid : Tid)
  | openFile (tid : Tid) (fd : Fd)
  | rmData (tid : Tid)
  | rmPasv (tid : Tid)
  | setPasv (tid : Tid)
  | setData (tid : Tid)
  | closeFile (tid : Tid)
  | finish (tid : Tid)

/-- the stages between the first `removefd` and the last reset of the session's descriptors -/
def Pc.cleaning : Pc → Bool
  | .rmPasv => true
  | .setPasv => true
  | .setData => true
  | _ => false

namespace Ledger

variable (L : Ledger)

def setSess (sid : Sid) (x : Option Core) : Ledger :=
  { L with sess := Function.update L.sess sid x }

def setWorker (tid : Tid) (w : Option Worker) : Ledger :=
  { L with workers := Function.update L.workers tid w }

def alloc (fd : Fd) (d : Desc) : Ledger := { L with desc := Function.update L.desc fd (some d) }

def close (fd : Fd) : Ledger :=
  { L with
    desc := Function.update L.desc fd none
    watch := Function.update L.watch fd false }

def closeOpt : Option Fd → Ledger
  | none => L
  | some fd => L.close fd

/-- after `closeSess` -/
def freed (sid : Sid) (x : Core) : Ledger :=
  let M := ((L.close x.ctrl).closeOpt x.data).closeOpt x.pasv
  { M with
    sess := Function.update M.sess sid none
    info := Function.update M.info x.ctrl Edata.null }

/-- after `handleNewConn` -/
def admitted (fd : Fd) : Ledger :=
  { L with
    sess := Function.update L.sess L.nextSid (some ⟨fd, none, none, none⟩)
    nextSid := L.nextSid + 1
    desc := Function.update L.desc fd (some (.ctrl L.nextSid))
    watch := Function.update L.watch fd true
    info := Function.update L.info fd ⟨some ⟨.ctrl, fd⟩, some L.nextSid⟩ }

/-- after a connection that was closed at once -/
def refused (fd : Fd) : Ledger :=
  { L with
    sess := Function.update L.sess L.nextSid none
    nextSid := L.nextSid + 1
    desc := Function.update L.desc fd none
    watch := Function.update L.watch fd false
    info := Function.update L.info fd Edata.null }

/-- PASV has stored `sessinfo[fd]` -/
def entered (sid : Sid) (fd : Fd) : Ledger :=
  { L with info := Function.update L.info fd ⟨some ⟨.data, fd⟩, some sid⟩ }

/-- PASV has registered its listener -/
def watched (fd : Fd) : Ledger := { L with watch := Function.update L.watch fd true }

/-- What one step does to the ledger.  New descriptors are free ones. -/
inductive Step : Op → Ledger → Prop
  | stay : Step .stay L
  | enter {fd : Fd} : L.desc fd = none → fd < MAX_SESSIONS → Step (.enter fd) (L.admitted fd)
  | refuse {fd : Fd} : L.desc fd = none → Step (.refuse fd) (L.refused fd)
  | free {sid : Sid} {x : Core} : L.sess sid = some x → Step (.free sid) (L.freed sid x)
  | evict {sid : Sid} {x : Core} : L.sess sid = some x → Step (.evict sid) (L.freed sid x)
  | dataConn {sid : Sid} {x : Core} {fd : Fd} : L.sess sid = some x → x.pasv ≠ none →
      L.desc fd = none → Step (.dataConn sid fd)
        ((L.alloc fd (.data sid)).setSess sid (some { x with data := some fd }))
  | pass {sid : Sid} {x : Core} {fd : Fd} {k : FKind} : L.sess sid = some x → L.desc fd = none →
      Step (.pass sid fd) ((L.alloc fd (.cwd sid k)).setSess sid (some { x with dir := some fd }))
  | noDir {sid : Sid} {x : Core} : L.sess sid = some x →
      Step (.noDir sid) (L.setSess sid (some { x with dir := none }))
  | cwd {sid : Sid} {x : Core} {fd : Fd} {k : FKind} : L.sess sid = some x → L.desc fd = none →
      Step (.cwd sid fd)
        (((L.alloc fd (.cwd sid k)).closeOpt x.dir).setSess sid (some { x with dir := some fd }))
  | pasv {sid : Sid} {x : Core} {fd : Fd} : L.sess sid = some x → L.desc fd = none →
      Step (.pasv sid fd) ((L.alloc fd (.pasv sid)).setSess sid (some { x with pasv := some fd }))
  | entry {sid : Sid} {x : Core} {fd : Fd} : L.sess sid = some x → x.pasv = some fd → fd < MAX_SESSIONS →
      Step (.entry sid fd) (L.entered sid fd)
  | enroll {sid : Sid} {x : Core} {fd : Fd} : L.sess sid = some x → x.pasv = some fd → fd < MAX_SESSIONS →
      isPasv (L.desc fd) = true → Step (.enroll sid fd) (L.watched fd)
  | list {sid : Sid} {x : Core} : L.sess sid = some x → Step (.list sid)
      (((L.closeOpt x.data).closeOpt x.pasv).setSess sid (some { x with data := none, pasv := none }))
  | start {sid : Sid} {x : Core} : L.sess sid = some x → Step (.start sid)
      { L.setWorker L.nextTid (some ⟨sid, .offset, none⟩) with nextTid := L.nextTid + 1 }
  | advance {tid : Tid} {w : Worker} {pc : Pc} : L.workers tid = some w → pc.cleaning = false →
      Step (.advance tid) (L.setWorker tid (some { w with pc := pc }))
  | openFile {tid : Tid} {w : Worker} {fd : Fd} : L.workers tid = some w → L.desc fd = none →
      Step (.openFile tid fd)
        ((L.alloc fd (.file tid)).setWorker tid (some { w with pc := .lock, file := some fd }))
  | rmData {tid : Tid} {w : Worker} {x : Core} : L.workers tid = some w → L.sess w.sess = some x →
      Step (.rmData tid) ((L.closeOpt x.data).setWorker tid (some { w with pc := .rmPasv }))
  | rmPasv {tid : Tid} {w : Worker} {x : Core} : L.workers tid = some w → L.sess w.sess = some x →
      Step (.rmPasv tid) ((L.closeOpt x.pasv).setWorker tid (some { w with pc := .setPasv }))
  | setPasv {tid : Tid} {w : Worker} {x : Core} : L.workers tid = some w → w.pc = .setPasv →
      L.sess w.sess = some x → Step (.setPasv tid)
        ((L.setSess w.sess (some { x with pasv := none })).setWorker tid
          (some { w with pc := .setData }))
  | setData {tid : Tid} {w : Worker} {x : Core} : L.workers tid = some w →
      L.sess w.sess = some x → Step (.setData tid)
        ((L.setSess w.sess (some { x with data := none })).setWorker tid
          (some { w with pc := .closeFile }))
  | closeFile {tid : Tid} {w : Worker} : L.workers tid = some w →
      Step (.closeFile tid) ((L.closeOpt w.file).setWorker tid (some { w with pc := .final }))
  | finish {tid : Tid} {w : Worker} : L.workers tid = some w → Step (.finish tid) (L.setWorker tid none)

/-! ## fields after an update -/

section
variable {L}
variable {sid : Sid} {x : Option Core} {tid : Tid} {w : Option Worker} {fd g : Fd} {d : Desc}
  {o : Option Fd}

@[simp] theorem close_sess : (L.close fd).sess = L.sess := rfl
@[simp] theorem close_info : (L.close fd).info = L.info := rfl
@[simp] theorem close_workers : (L.close fd).workers = L.workers := rfl
@[simp] theorem close_nextSid : (L.close fd).nextSid = L.nextSid := rfl
@[simp] theorem close_nextTid : (L.close fd).nextTid = L.nextTid := rfl

@[simp] theorem closeOpt_sess : (L.closeOpt o).sess = L.sess := by cases o <;> rfl
@[simp] theorem closeOpt_info : (L.closeOpt o).info = L.info := by cases o <;> rfl
@[simp] theorem closeOpt_workers : (L.closeOpt o).workers = L.workers := by cases o <;> rfl
@[simp] theorem closeOpt_nextSid : (L.closeOpt o).nextSid = L.nextSid := by cases o <;> rfl
@[simp] theorem closeOpt_nextTid : (L.closeOpt o).nextTid = L.nextTid := by cases o <;> rfl

theorem close_watch : (L.close fd).watch g = if g = fd then false else L.watch g :=
  Function.update_apply ..

theorem close_desc : (L.close fd).desc g = if g = fd then none else L.desc g :=
  Function.update_apply ..

theorem closeOpt_watch : (L.closeOpt o).watch g = if o = some g then false else L.watch g := by
  cases o with
  | none => rfl
  | some fd =>
    show (L.close fd).watch g = _
    rw [close_watch]
    simp only [Option.some.injEq, eq_comm]

theorem closeOpt_desc : (L.closeOpt o).desc g = if o = some g then none else L.desc g := by
  cases o with
  | none => rfl
  | some fd =>
    show (L.close fd).desc g = _
    rw [close_desc]
    simp only [Option.some.injEq, eq_comm]

variable {y : Core}

theorem freed_sess {j : Sid} :
    (L.freed sid y).sess j = if j = sid then none else L.sess j := by
  show Function.update _ _ _ _ = _
  rw [Function.update_apply, closeOpt_sess, closeOpt_sess, close_sess]

theorem freed_info : (L.freed sid y).info g = if g = y.ctrl then Edata.null else L.info g := by
  show Function.update _ _ _ _ = _
  rw [Function.update_apply, closeOpt_info, closeOpt_info, close_info]

theorem freed_watch : (L.freed sid y).watch g =
    if y.pasv = some g ∨ y.data = some g ∨ g = y.ctrl then false else L.watch g := by
  show (((L.close y.ctrl).closeOpt y.data).closeOpt y.pasv).watch g = _
  rw [closeOpt_watch, closeOpt_watch, close_watch]
  by_cases h1 : y.pasv = some g <;> by_cases h2 : y.data = some g <;> by_cases h3 : g = y.ctrl <;>
    simp [h1, h2, h3]

theorem freed_desc : (L.freed sid y).desc g =
    if y.pasv = some g ∨ y.data = some g ∨ g = y.ctrl then none else L.desc g := by
  show (((L.close y.ctrl).closeOpt y.data).closeOpt y.pasv).desc g = _
  rw [closeOpt_desc, closeOpt_desc, close_desc]
  by_cases h1 : y.pasv = some g <;> by_cases h2 : y.data = some g <;> by_cases h3 : g = y.ctrl <;>
    simp [h1, h2, h3]

@[simp] theorem freed_workers : (L.freed sid y).workers = L.workers := by
  show (((L.close y.ctrl).closeOpt y.data).closeOpt y.pasv).workers = _
  rw [closeOpt_workers, closeOpt_workers, close_workers]

@[simp] theorem freed_nextSid : (L.freed sid y).nextSid = L.nextSid := by
  show (((L.close y.ctrl).closeOpt y.data).closeOpt y.pasv).nextSid = _
  rw [closeOpt_nextSid, closeOpt_nextSid, close_nextSid]

@[simp] theorem freed_nextTid : (L.freed sid y).nextTid = L.nextTid := by
  show (((L.close y.ctrl).closeOpt y.data).closeOpt y.pasv).nextTid = _
  rw [closeOpt_nextTid, closeOpt_nextTid, close_nextTid]

end

end Ledger

namespace Op

/-- the session that is freed -/
def ends : Op → Option Sid
  | .free sid => some sid
  | .evict sid => some sid
  | _ => none

/-- the read of `do_pasv` that the step makes -/
def stage : Op → Option (Sid × PasvPc)
  | .entry sid _ => some (sid, .entry)
  | .enroll sid _ => some (sid, .watch)
  | _ => none

/-- the descriptor numbers that are closed, of those that were open before -/
def closes (L : Ledger) : Op → List Fd
  | .free sid => (L.sess sid).elim [] fun x => x.ctrl :: (x.data.toList ++ x.pasv.toList)
  | .evict sid => (L.sess sid).elim [] fun x => x.ctrl :: (x.data.toList ++ x.pasv.toList)
  | .cwd sid _ => (L.sess sid).elim [] fun x => x.dir.toList
  | .list sid => (L.sess sid).elim [] fun x => x.data.toList ++ x.pasv.toList
  | .rmData tid => ((L.workers tid).bind fun w => L.sess w.sess).elim [] fun x => x.data.toList
  | .rmPasv tid => ((L.workers tid).bind fun w => L.sess w.sess).elim [] fun x => x.pasv.toList
  | .closeFile tid => (L.workers tid).elim [] fun w => w.file.toList
  | _ => []

/-- the session whose record loses its listener while the listener stays open, and the listener -/
def drops (L : Ledger) : Op → Option (Sid × Fd)
  | .pasv sid _ => (L.sess sid).bind fun x => x.pasv.map fun fd => (sid, fd)
  | .setPasv tid => (L.workers tid).bind fun w => (L.sess w.sess).bind fun x =>
      x.pasv.map fun fd => (w.sess, fd)
  | _ => none

end Op

/-! ## what one step can do -/

namespace Ledger

section
variable {L L' : Ledger} {op : Op}

theorem replaced_alive {sid j : Sid} {x y z : Core} (hx : L.sess sid = some x)
    (hj : L.sess j = some z) (hc : y.ctrl = x.ctrl) :
    ∃ z', Function.update L.sess sid (some y) j = some z' ∧ z'.ctrl = z.ctrl := by
  rw [Function.update_apply]
  by_cases h : j = sid
  · subst h
    rw [hx] at hj
    cases hj
    exact ⟨y, if_pos rfl, hc⟩
  · exact ⟨z, (if_neg h).trans hj, rfl⟩

theorem replaced_born {sid j : Sid} {x y z' : Core}
    (hj : Function.update L.sess sid (some y) j = some z') (hx : L.sess sid = some x)
    (hc : y.ctrl = x.ctrl) : ∃ z, L.sess j = some z ∧ z.ctrl = z'.ctrl := by
  rw [Function.update_apply] at hj
  split at hj
  · rename_i h
    subst h
    cases hj
    exact ⟨x, hx, hc.symm⟩
  · exact ⟨z', hj, rfl⟩

/-- **A session stays until it is ended.** -/
theorem Step.alive (h : L.Step op L') {j : Sid} {z : Core} (hj : L.sess j = some z)
    (hlt : j < L.nextSid) (he : op.ends ≠ some j) : ∃ z', L'.sess j = some z' ∧ z'.ctrl = z.ctrl := by
  have hne : j ≠ L.nextSid := Nat.ne_of_lt hlt
  have hsame : L'.sess = L.sess → ∃ z', L'.sess j = some z' ∧ z'.ctrl = z.ctrl :=
    fun e => ⟨z, by rw [e, hj], rfl⟩
  cases h with
  | stay => exact hsame rfl
  | enter _ _ => exact ⟨z, (Function.update_of_ne hne _ _).trans hj, rfl⟩
  | refuse _ => exact ⟨z, (Function.update_of_ne hne _ _).trans hj, rfl⟩
  | free hx =>
    refine ⟨z, ?_, rfl⟩
    rw [freed_sess, if_neg fun e => he (congrArg some e.symm), hj]
  | evict hx =>
    refine ⟨z, ?_, rfl⟩
    rw [freed_sess, if_neg fun e => he (congrArg some e.symm), hj]
  | dataConn hx _ _ => exact replaced_alive hx hj rfl
  | pass hx _ => exact replaced_alive hx hj rfl
  | noDir hx => exact replaced_alive hx hj rfl
  | cwd hx _ =>
    show ∃ z', Function.update (closeOpt _ _).sess _ _ j = some z' ∧ _
    rw [closeOpt_sess]
    exact replaced_alive hx hj rfl
  | pasv hx _ => exact replaced_alive hx hj rfl
  | entry _ _ _ => exact hsame rfl
  | enroll _ _ _ _ => exact hsame rfl
  | list hx =>
    show ∃ z', Function.update (closeOpt (closeOpt L _) _).sess _ _ j = some z' ∧ _
    rw [closeOpt_sess, closeOpt_sess]
    exact replaced_alive hx hj rfl
  | start _ => exact hsame rfl
  | advance _ _ => exact hsame rfl
  | openFile _ _ => exact hsame rfl
  | rmData _ _ => exact hsame closeOpt_sess
  | rmPasv _ _ => exact hsame closeOpt_sess
  | setPasv _ _ hx => exact replaced_alive hx hj rfl
  | setData _ hx => exact replaced_alive hx hj rfl
  | closeFile _ => exact hsame closeOpt_sess
  | finish _ => exact hsame rfl

/-- **A live session was live before, or is admitted in this step.** -/
theorem Step.born (h : L.Step op L') {j : Sid} {z' : Core} (hj : L'.sess j = some z') :
    op.ends ≠ some j ∧ ((∃ z, L.sess j = some z ∧ z.ctrl = z'.ctrl) ∨
      ∃ fd, op = .enter fd ∧ j = L.nextSid ∧ z' = ⟨fd, none, none, none⟩) := by
  have hsame : L'.sess = L.sess → ∃ z, L.sess j = some z ∧ z.ctrl = z'.ctrl :=
    fun e => ⟨z', by rw [← e, hj], rfl⟩
  cases h with
  | stay => exact ⟨nofun, Or.inl (hsame rfl)⟩
  | @enter fd _ _ =>
    refine ⟨nofun, ?_⟩
    change Function.update L.sess L.nextSid _ j = some z' at hj
    by_cases hn : j = L.nextSid
    · rw [hn, Function.update_self] at hj
      exact Or.inr ⟨fd, rfl, hn, (Option.some.inj hj).symm⟩
    · rw [Function.update_of_ne hn] at hj
      exact Or.inl ⟨z', hj, rfl⟩
  | refuse _ =>
    refine ⟨nofun, Or.inl ⟨z', ?_, rfl⟩⟩
    change Function.update L.sess L.nextSid none j = some z' at hj
    rw [Function.update_apply] at hj
    split at hj
    · cases hj
    · exact hj
  | free hx =>
    rw [freed_sess] at hj
    split at hj
    · cases hj
    · rename_i hn
      exact ⟨fun e => hn (Option.some.inj e).symm, Or.inl ⟨z', hj, rfl⟩⟩
  | evict hx =>
    rw [freed_sess] at hj
    split at hj
    · cases hj
    · rename_i hn
      exact ⟨fun e => hn (Option.some.inj e).symm, Or.inl ⟨z', hj, rfl⟩⟩
  | dataConn hx _ _ => exact ⟨nofun, Or.inl (replaced_born hj hx rfl)⟩
  | pass hx _ => exact ⟨nofun, Or.inl (replaced_born hj hx rfl)⟩
  | noDir hx => exact ⟨nofun, Or.inl (replaced_born hj hx rfl)⟩
  | cwd hx _ =>
    change Function.update (closeOpt _ _).sess _ _ j = some z' at hj
    rw [closeOpt_sess] at hj
    exact ⟨nofun, Or.inl (replaced_born hj hx rfl)⟩
  | pasv hx _ => exact ⟨nofun, Or.inl (replaced_born hj hx rfl)⟩
  | entry _ _ _ => exact ⟨nofun, Or.inl (hsame rfl)⟩
  | enroll _ _ _ _ => exact ⟨nofun, Or.inl (hsame rfl)⟩
  | list hx =>
    change Function.update (closeOpt (closeOpt L _) _).sess _ _ j = some z' at hj
    rw [closeOpt_sess, closeOpt_sess] at hj
    exact ⟨nofun, Or.inl (replaced_born hj hx rfl)⟩
  | start _ => exact ⟨nofun, Or.inl (hsame rfl)⟩
  | advance _ _ => exact ⟨nofun, Or.inl (hsame rfl)⟩
  | openFile _ _ => exact ⟨nofun, Or.inl (hsame rfl)⟩
  | rmData _ _ => exact ⟨nofun, Or.inl (hsame closeOpt_sess)⟩
  | rmPasv _ _ => exact ⟨nofun, Or.inl (hsame closeOpt_sess)⟩
  | setPasv _ _ hx => exact ⟨nofun, Or.inl (replaced_born hj hx rfl)⟩
  | setData _ hx => exact ⟨nofun, Or.inl (replaced_born hj hx rfl)⟩
  | closeFile _ => exact ⟨nofun, Or.inl (hsame closeOpt_sess)⟩
  | finish _ => exact ⟨nofun, Or.inl (hsame rfl)⟩

theorem worker_replaced {t tid : Tid} {w u w' : Worker}
    (h : Function.update L.workers t (some u) tid = some w') (hw : L.workers t = some w)
    (hs : u.sess = w.sess) :
    ∃ w, L.workers tid = some w ∧ w.sess = w'.sess := by
  rw [Function.update_apply] at h
  split at h
  · rename_i e
    cases h
    exact ⟨w, by rw [e, hw], hs.symm⟩
  · exact ⟨w', h, rfl⟩

/-- **A thread was there before, or is started in this step for a live session.** -/
theorem Step.worker (h : L.Step op L') {tid : Tid} {w' : Worker} (hw : L'.workers tid = some w') :
    (∃ w, L.workers tid = some w ∧ w.sess = w'.sess) ∨
      tid = L.nextTid ∧ op = .start w'.sess ∧ ∃ x, L.sess w'.sess = some x := by
  have hsame : L'.workers = L.workers → ∃ w, L.workers tid = some w ∧ w.sess = w'.sess :=
    fun e => ⟨w', by rw [← e, hw], rfl⟩
  cases h with
  | stay => exact Or.inl (hsame rfl)
  | enter _ _ => exact Or.inl (hsame rfl)
  | refuse _ => exact Or.inl (hsame rfl)
  | free _ => exact Or.inl (hsame freed_workers)
  | evict _ => exact Or.inl (hsame freed_workers)
  | dataConn _ _ _ => exact Or.inl (hsame rfl)
  | pass _ _ => exact Or.inl (hsame rfl)
  | noDir _ => exact Or.inl (hsame rfl)
  | cwd _ _ => exact Or.inl (hsame (closeOpt_workers ..))
  | pasv _ _ => exact Or.inl (hsame rfl)
  | entry _ _ _ => exact Or.inl (hsame rfl)
  | enroll _ _ _ _ => exact Or.inl (hsame rfl)
  | list _ => exact Or.inl (hsame ((closeOpt_workers ..).trans (closeOpt_workers ..)))
  | @start sid x hx =>
    change Function.update L.workers L.nextTid _ tid = some w' at hw
    rw [Function.update_apply] at hw
    split at hw
    · rename_i e
      cases hw
      exact Or.inr ⟨e, rfl, x, hx⟩
    · exact Or.inl ⟨w', hw, rfl⟩
  | advance h0 _ => exact Or.inl (worker_replaced hw h0 rfl)
  | openFile h0 _ => exact Or.inl (worker_replaced hw h0 rfl)
  | rmData h0 _ =>
    change Function.update (closeOpt L _).workers _ _ tid = some w' at hw
    rw [closeOpt_workers] at hw
    exact Or.inl (worker_replaced hw h0 rfl)
  | rmPasv h0 _ =>
    change Function.update (closeOpt L _).workers _ _ tid = some w' at hw
    rw [closeOpt_workers] at hw
    exact Or.inl (worker_replaced hw h0 rfl)
  | setPasv h0 _ _ => exact Or.inl (worker_replaced hw h0 rfl)
  | setData h0 _ => exact Or.inl (worker_replaced hw h0 rfl)
  | closeFile h0 =>
    change Function.update (closeOpt L _).workers _ _ tid = some w' at hw
    rw [closeOpt_workers] at hw
    exact Or.inl (worker_replaced hw h0 rfl)
  | @finish t w h0 =>
    change Function.update L.workers t none tid = some w' at hw
    rw [Function.update_apply] at hw
    split at hw
    · cases hw
    · exact Or.inl ⟨w', hw, rfl⟩

theorem Step.ended (h : L.Step op L') {sid : Sid} (he : op.ends = some sid) :
    ∃ x, L.sess sid = some x ∧ L' = L.freed sid x := by
  cases h with
  | free hx =>
    cases he
    exact ⟨_, hx, rfl⟩
  | evict hx =>
    cases he
    exact ⟨_, hx, rfl⟩
  | _ => cases he

/-! ## descriptors that one step can touch -/

theorem update_free {fd g : Fd} {d : Option Desc} (hf : L.desc fd = none) :
    Function.update L.desc fd d g = L.desc g ∨ L.desc g = none := by
  rw [Function.update_apply]
  split
  · rename_i e
    exact Or.inr (by rw [e, hf])
  · exact Or.inl rfl

theorem closeOpt_or {o : Option Fd} {g : Fd} :
    (L.closeOpt o).desc g = L.desc g ∨ g ∈ o.toList := by
  rw [closeOpt_desc]
  split
  · rename_i e
    exact Or.inr (Option.mem_toList.mpr e)
  · exact Or.inl rfl

theorem freed_or {sid : Sid} {x : Core} {g : Fd} :
    (L.freed sid x).desc g = L.desc g ∨ g ∈ x.ctrl :: (x.data.toList ++ x.pasv.toList) := by
  rw [freed_desc]
  split
  · rename_i e
    rw [List.mem_cons, List.mem_append, Option.mem_toList, Option.mem_toList]
    rcases e with e | e | e
    exacts [Or.inr (Or.inr (Or.inr e)), Or.inr (Or.inr (Or.inl e)), Or.inr (Or.inl e)]
  · exact Or.inl rfl

theorem closes_free {sid : Sid} {x : Core} (hx : L.sess sid = some x) :
    Op.closes L (.free sid) = x.ctrl :: (x.data.toList ++ x.pasv.toList) := by
  show (L.sess sid).elim [] (fun x => x.ctrl :: (x.data.toList ++ x.pasv.toList)) = _
  rw [hx, Option.elim_some]

theorem closes_evict {sid : Sid} {x : Core} (hx : L.sess sid = some x) :
    Op.closes L (.evict sid) = x.ctrl :: (x.data.toList ++ x.pasv.toList) := closes_free hx

theorem closes_cwd {sid : Sid} {x : Core} {fd : Fd} (hx : L.sess sid = some x) :
    Op.closes L (.cwd sid fd) = x.dir.toList := by
  show (L.sess sid).elim [] (fun x => x.dir.toList) = _
  rw [hx, Option.elim_some]

theorem closes_list {sid : Sid} {x : Core} (hx : L.sess sid = some x) :
    Op.closes L (.list sid) = x.data.toList ++ x.pasv.toList := by
  show (L.sess sid).elim [] (fun x => x.data.toList ++ x.pasv.toList) = _
  rw [hx, Option.elim_some]

theorem closes_rmData {tid : Tid} {w : Worker} {x : Core} (hw : L.workers tid = some w)
    (hx : L.sess w.sess = some x) : Op.closes L (.rmData tid) = x.data.toList := by
  show ((L.workers tid).bind fun w => L.sess w.sess).elim [] (fun x => x.data.toList) = _
  rw [hw, Option.bind_some, hx, Option.elim_some]

theorem closes_rmPasv {tid : Tid} {w : Worker} {x : Core} (hw : L.workers tid = some w)
    (hx : L.sess w.sess = some x) : Op.closes L (.rmPasv tid) = x.pasv.toList := by
  show ((L.workers tid).bind fun w => L.sess w.sess).elim [] (fun x => x.pasv.toList) = _
  rw [hw, Option.bind_some, hx, Option.elim_some]

theorem closes_closeFile {tid : Tid} {w : Worker} (hw : L.workers tid = some w) :
    Op.closes L (.closeFile tid) = w.file.toList := by
  show (L.workers tid).elim [] (fun w => w.file.toList) = _
  rw [hw, Option.elim_some]

/-- the table changes where a descriptor was free, and where one is closed -/
theorem Step.desc (h : L.Step op L') (g : Fd) :
    L'.desc g = L.desc g ∨ L.desc g = none ∨ g ∈ op.closes L := by
  cases h with
  | stay => exact Or.inl rfl
  | enter hf _ => exact (update_free hf).imp_right Or.inl
  | refuse hf => exact (update_free hf).imp_right Or.inl
  | free hx => rw [closes_free hx]; exact freed_or.imp_right Or.inr
  | evict hx => rw [closes_evict hx]; exact freed_or.imp_right Or.inr
  | dataConn _ _ hf => exact (update_free hf).imp_right Or.inl
  | pass _ hf => exact (update_free hf).imp_right Or.inl
  | noDir _ => exact Or.inl rfl
  | @cwd sid x fd k hx hf =>
    rw [closes_cwd hx]
    rcases closeOpt_or (L := L.alloc fd (.cwd sid k)) (o := x.dir) (g := g) with e | e
    · exact (update_free hf).elim (fun e' => Or.inl (e.trans e')) fun e' => Or.inr (Or.inl e')
    · exact Or.inr (Or.inr e)
  | pasv _ hf => exact (update_free hf).imp_right Or.inl
  | entry _ _ _ => exact Or.inl rfl
  | enroll _ _ _ _ => exact Or.inl rfl
  | @list sid x hx =>
    rw [closes_list hx, List.mem_append]
    rcases closeOpt_or (L := L.closeOpt x.data) (o := x.pasv) (g := g) with e | e
    · exact closeOpt_or.elim (fun e' => Or.inl (e.trans e')) fun e' => Or.inr (Or.inr (Or.inl e'))
    · exact Or.inr (Or.inr (Or.inr e))
  | start _ => exact Or.inl rfl
  | advance _ _ => exact Or.inl rfl
  | openFile _ hf => exact (update_free hf).imp_right Or.inl
  | rmData hw hx => rw [closes_rmData hw hx]; exact closeOpt_or.imp_right Or.inr
  | rmPasv hw hx => rw [closes_rmPasv hw hx]; exact closeOpt_or.imp_right Or.inr
  | setPasv _ _ _ => exact Or.inl rfl
  | setData _ _ => exact Or.inl rfl
  | closeFile hw => rw [closes_closeFile hw]; exact closeOpt_or.imp_right Or.inr
  | finish _ => exact Or.inl rfl

/-- a number that is closed is free afterwards, and not watched -/
theorem Step.closed (h : L.Step op L') {g : Fd} (hg : g ∈ op.closes L) :
    L'.desc g = none ∧ L'.watch g = false := by
  have opt : ∀ {L : Ledger} {o : Option Fd}, g ∈ o.toList →
      (L.closeOpt o).desc g = none ∧ (L.closeOpt o).watch g = false := by
    intro L o ho
    have hg : o = some g := Option.mem_toList.mp ho
    rw [closeOpt_desc, closeOpt_watch, if_pos hg, if_pos hg]
    exact ⟨rfl, rfl⟩
  have gone : ∀ {sid : Sid} {x : Core}, g ∈ x.ctrl :: (x.data.toList ++ x.pasv.toList) →
      (L.freed sid x).desc g = none ∧ (L.freed sid x).watch g = false := by
    intro sid x hx
    rw [List.mem_cons, List.mem_append, Option.mem_toList, Option.mem_toList] at hx
    have hin : x.pasv = some g ∨ x.data = some g ∨ g = x.ctrl := by
      rcases hx with e | e | e
      exacts [Or.inr (Or.inr e), Or.inr (Or.inl e), Or.inl e]
    rw [freed_desc, freed_watch, if_pos hin, if_pos hin]
    exact ⟨rfl, rfl⟩
  cases h with
  | free hx => rw [closes_free hx] at hg; exact gone hg
  | evict hx => rw [closes_evict hx] at hg; exact gone hg
  | cwd hx _ => rw [closes_cwd hx] at hg; exact opt hg
  | @list sid x hx =>
    rw [closes_list hx, List.mem_append] at hg
    show ((L.closeOpt x.data).closeOpt x.pasv).desc g = none ∧ ((L.closeOpt x.data).closeOpt x.pasv).watch g = false
    rw [closeOpt_desc, closeOpt_watch]
    split
    · exact ⟨rfl, rfl⟩
    · rename_i hp
      exact opt (hg.resolve_right fun e => hp (Option.mem_toList.mp e))
  | rmData hw hx => rw [closes_rmData hw hx] at hg; exact opt hg
  | rmPasv hw hx => rw [closes_rmPasv hw hx] at hg; exact opt hg
  | closeFile hw => rw [closes_closeFile hw] at hg; exact opt hg
  | _ => exact absurd hg List.not_mem_nil

/-- `sessinfo` changes where a descriptor was free, at the control socket of an ended session, and where
PASV stores its listener -/
theorem Step.info (h : L.Step op L') (g : Fd) : L'.info g = L.info g ∨ L.desc g = none ∨
    (∃ sid x, op.ends = some sid ∧ L.sess sid = some x ∧ x.ctrl = g) ∨
    ∃ sid x, op = .entry sid g ∧ L.sess sid = some x ∧ x.pasv = some g ∧
      L'.info g = ⟨some ⟨.data, g⟩, some sid⟩ := by
  have free : ∀ {fd : Fd} {e : Edata}, L.desc fd = none →
      Function.update L.info fd e g = L.info g ∨ L.desc g = none := by
    intro fd e hf
    rw [Function.update_apply]
    split
    · rename_i h
      exact Or.inr (by rw [h, hf])
    · exact Or.inl rfl
  cases h with
  | stay => exact Or.inl rfl
  | enter hf _ => exact (free hf).imp_right Or.inl
  | refuse hf => exact (free hf).imp_right Or.inl
  | @free sid x hx =>
    rw [freed_info]
    split
    · rename_i e
      exact Or.inr (Or.inr (Or.inl ⟨sid, x, rfl, hx, e.symm⟩))
    · exact Or.inl rfl
  | @evict sid x hx =>
    rw [freed_info]
    split
    · rename_i e
      exact Or.inr (Or.inr (Or.inl ⟨sid, x, rfl, hx, e.symm⟩))
    · exact Or.inl rfl
  | dataConn _ _ _ => exact Or.inl rfl
  | pass _ _ => exact Or.inl rfl
  | noDir _ => exact Or.inl rfl
  | cwd _ _ => exact Or.inl (congrFun (closeOpt_info ..) g)
  | pasv _ _ => exact Or.inl rfl
  | @entry sid x fd hx hp _ =>
    by_cases e : g = fd
    · subst e
      exact Or.inr (Or.inr (Or.inr ⟨sid, x, rfl, hx, hp, Function.update_self ..⟩))
    · exact Or.inl (Function.update_of_ne e ..)
  | enroll _ _ _ _ => exact Or.inl rfl
  | list _ => exact Or.inl (congrFun ((closeOpt_info ..).trans (closeOpt_info ..)) g)
  | start _ => exact Or.inl rfl
  | advance _ _ => exact Or.inl rfl
  | openFile _ _ => exact Or.inl rfl
  | rmData _ _ => exact Or.inl (congrFun (closeOpt_info ..) g)
  | rmPasv _ _ => exact Or.inl (congrFun (closeOpt_info ..) g)
  | setPasv _ _ _ => exact Or.inl rfl
  | setData _ _ => exact Or.inl rfl
  | closeFile _ => exact Or.inl (congrFun (closeOpt_info ..) g)
  | finish _ => exact Or.inl rfl

theorem mem_fds {x : Core} {g : Fd} :
    g ∈ x.fds ↔ x.ctrl = g ∨ x.data = some g ∨ x.pasv = some g ∨ x.dir = some g := by
  unfold Core.fds
  rw [List.mem_cons, List.mem_append, List.mem_append, Option.mem_toList, Option.mem_toList,
    Option.mem_toList, or_assoc, eq_comm]

theorem data_fds {x : Core} {g : Fd} {o : Option Fd} (h : g ∈ ({ x with data := o } : Core).fds) :
    o = some g ∨ g ∈ x.fds := by
  rcases mem_fds.mp h with e | e | e
  · exact Or.inr (mem_fds.mpr (Or.inl e))
  · exact Or.inl e
  · exact Or.inr (mem_fds.mpr (Or.inr (Or.inr e)))

theorem pasv_fds {x : Core} {g : Fd} {o : Option Fd} (h : g ∈ ({ x with pasv := o } : Core).fds) :
    o = some g ∨ g ∈ x.fds := by
  rcases mem_fds.mp h with e | e | e | e
  · exact Or.inr (mem_fds.mpr (Or.inl e))
  · exact Or.inr (mem_fds.mpr (Or.inr (Or.inl e)))
  · exact Or.inl e
  · exact Or.inr (mem_fds.mpr (Or.inr (Or.inr (Or.inr e))))

theorem dir_fds {x : Core} {g : Fd} {o : Option Fd} (h : g ∈ ({ x with dir := o } : Core).fds) :
    o = some g ∨ g ∈ x.fds := by
  rcases mem_fds.mp h with e | e | e | e
  · exact Or.inr (mem_fds.mpr (Or.inl e))
  · exact Or.inr (mem_fds.mpr (Or.inr (Or.inl e)))
  · exact Or.inr (mem_fds.mpr (Or.inr (Or.inr (Or.inl e))))
  · exact Or.inl e

theorem replaced_fds {sid j : Sid} {x y z : Core} {g : Fd} {P : Prop}
    (hj : Function.update L.sess sid (some y) j = some z) (hg : g ∈ z.fds)
    (hx : L.sess sid = some x) (hy : g ∈ y.fds → P ∨ g ∈ x.fds) :
    P ∨ ∃ z, L.sess j = some z ∧ g ∈ z.fds := by
  rw [Function.update_apply] at hj
  split at hj
  · rename_i h
    subst h
    cases hj
    exact (hy hg).imp_right fun e => ⟨x, hx, e⟩
  · exact Or.inr ⟨z, hj, hg⟩

theorem Step.fds (h : L.Step op L') {j : Sid} {z : Core} (hj : L'.sess j = some z) {g : Fd}
    (hg : g ∈ z.fds) : L.desc g = none ∨ ∃ z, L.sess j = some z ∧ g ∈ z.fds := by
  have hsame : L'.sess = L.sess → L.desc g = none ∨ ∃ z, L.sess j = some z ∧ g ∈ z.fds :=
    fun e => Or.inr ⟨z, by rw [← e, hj], hg⟩
  have free : ∀ {fd : Fd}, L.desc fd = none → some fd = some g → L.desc g = none := by
    intro fd hf e
    rw [← Option.some.inj e]
    exact hf
  cases h with
  | stay => exact hsame rfl
  | @enter fd hf _ =>
    change Function.update L.sess L.nextSid _ j = some z at hj
    rw [Function.update_apply] at hj
    split at hj
    · cases hj
      rcases mem_fds.mp hg with rfl | e | e | e
      · exact Or.inl hf
      all_goals cases e
    · exact Or.inr ⟨z, hj, hg⟩
  | refuse _ =>
    change Function.update L.sess L.nextSid none j = some z at hj
    rw [Function.update_apply] at hj
    split at hj
    · cases hj
    · exact Or.inr ⟨z, hj, hg⟩
  | free _ =>
    rw [freed_sess] at hj
    split at hj
    · cases hj
    · exact Or.inr ⟨z, hj, hg⟩
  | evict _ =>
    rw [freed_sess] at hj
    split at hj
    · cases hj
    · exact Or.inr ⟨z, hj, hg⟩
  | dataConn hx _ hf =>
    apply replaced_fds hj hg hx
    intro e
    exact (data_fds e).imp_left (free hf)
  | pass hx hf =>
    apply replaced_fds hj hg hx
    intro e
    exact (dir_fds e).imp_left (free hf)
  | noDir hx =>
    apply replaced_fds hj hg hx
    intro e
    exact Or.inr ((dir_fds e).resolve_left nofun)
  | cwd hx hf =>
    change Function.update (closeOpt _ _).sess _ _ j = some z at hj
    rw [closeOpt_sess] at hj
    apply replaced_fds hj hg hx
    intro e
    exact (dir_fds e).imp_left (free hf)
  | pasv hx hf =>
    apply replaced_fds hj hg hx
    intro e
    exact (pasv_fds e).imp_left (free hf)
  | entry _ _ _ => exact hsame rfl
  | enroll _ _ _ _ => exact hsame rfl
  | @list _ x hx =>
    change Function.update (closeOpt (closeOpt L _) _).sess _ _ j = some z at hj
    rw [closeOpt_sess, closeOpt_sess] at hj
    apply replaced_fds hj hg hx
    intro e
    have e' := (pasv_fds (x := { x with data := none }) (o := none) e).resolve_left nofun
    exact Or.inr ((data_fds e').resolve_left nofun)
  | start _ => exact hsame rfl
  | advance _ _ => exact hsame rfl
  | openFile _ _ => exact hsame rfl
  | rmData _ _ => exact hsame closeOpt_sess
  | rmPasv _ _ => exact hsame closeOpt_sess
  | setPasv _ _ hx =>
    apply replaced_fds hj hg hx
    intro e
    exact Or.inr ((pasv_fds e).resolve_left nofun)
  | setData _ hx =>
    apply replaced_fds hj hg hx
    intro e
    exact Or.inr ((data_fds e).resolve_left nofun)
  | closeFile _ => exact hsame closeOpt_sess
  | finish _ => exact hsame rfl

theorem Step.file (h : L.Step op L') {tid : Tid} {w' : Worker} (hw : L'.workers tid = some w')
    {g : Fd} (hg : w'.file = some g) :
    L.desc g = none ∨ ∃ w, L.workers tid = some w ∧ w.file = some g := by
  have hsame : L'.workers = L.workers → L.desc g = none ∨ ∃ w, L.workers tid = some w ∧ w.file = some g :=
    fun e => Or.inr ⟨w', by rw [← e, hw], hg⟩
  have hrep : ∀ {t : Tid} {w u : Worker}, L.workers t = some w →
      Function.update L.workers t (some u) tid = some w' → (u.file = some g → L.desc g = none ∨ w.file = some g) →
      L.desc g = none ∨ ∃ w, L.workers tid = some w ∧ w.file = some g := by
    intro t w u h0 h1 h2
    rw [Function.update_apply] at h1
    split at h1
    · rename_i e
      cases h1
      exact (h2 hg).imp_right fun e' => ⟨w, by rw [e, h0], e'⟩
    · exact Or.inr ⟨w', h1, hg⟩
  cases h with
  | stay => exact hsame rfl
  | enter _ _ => exact hsame rfl
  | refuse _ => exact hsame rfl
  | free _ => exact hsame freed_workers
  | evict _ => exact hsame freed_workers
  | dataConn _ _ _ => exact hsame rfl
  | pass _ _ => exact hsame rfl
  | noDir _ => exact hsame rfl
  | cwd _ _ => exact hsame (closeOpt_workers ..)
  | pasv _ _ => exact hsame rfl
  | entry _ _ _ => exact hsame rfl
  | enroll _ _ _ _ => exact hsame rfl
  | list _ => exact hsame ((closeOpt_workers ..).trans (closeOpt_workers ..))
  | start _ =>
    change Function.update L.workers L.nextTid _ tid = some w' at hw
    rw [Function.update_apply] at hw
    split at hw
    · cases hw
      cases hg
    · exact Or.inr ⟨w', hw, hg⟩
  | advance h0 _ => exact hrep h0 hw Or.inr
  | openFile h0 hf =>
    apply hrep h0 hw
    intro e
    cases e
    exact Or.inl hf
  | rmData h0 _ =>
    change Function.update (closeOpt L _).workers _ _ tid = some w' at hw
    rw [closeOpt_workers] at hw
    exact hrep h0 hw Or.inr
  | rmPasv h0 _ =>
    change Function.update (closeOpt L _).workers _ _ tid = some w' at hw
    rw [closeOpt_workers] at hw
    exact hrep h0 hw Or.inr
  | setPasv h0 _ _ => exact hrep h0 hw Or.inr
  | setData h0 _ => exact hrep h0 hw Or.inr
  | closeFile h0 =>
    change Function.update (closeOpt L _).workers _ _ tid = some w' at hw
    rw [closeOpt_workers] at hw
    exact hrep h0 hw Or.inr
  | finish _ =>
    change Function.update L.workers _ none tid = some w' at hw
    rw [Function.update_apply] at hw
    split at hw
    · cases hw
    · exact Or.inr ⟨w', hw, hg⟩

/-- a number that is closed stands in a record, or is the file of a thread -/
theorem mem_closes (h : L.Step op L') {g : Fd} (hg : g ∈ op.closes L) :
    (∃ j z, L.sess j = some z ∧ g ∈ z.fds) ∨ ∃ tid w, L.workers tid = some w ∧ w.file = some g := by
  have of : ∀ {j : Sid} {z : Core}, L.sess j = some z →
      (z.ctrl = g ∨ z.data = some g ∨ z.pasv = some g ∨ z.dir = some g) →
      (∃ j z, L.sess j = some z ∧ g ∈ z.fds) ∨ ∃ tid w, L.workers tid = some w ∧ w.file = some g :=
    fun hz e => Or.inl ⟨_, _, hz, mem_fds.mpr e⟩
  have ended : ∀ {j : Sid} {z : Core}, L.sess j = some z →
      g ∈ z.ctrl :: (z.data.toList ++ z.pasv.toList) →
      z.ctrl = g ∨ z.data = some g ∨ z.pasv = some g ∨ z.dir = some g := by
    intro j z _ e
    rw [List.mem_cons, List.mem_append, Option.mem_toList, Option.mem_toList] at e
    rcases e with e | e | e
    exacts [Or.inl e.symm, Or.inr (Or.inl e), Or.inr (Or.inr (Or.inl e))]
  cases h with
  | free hx => rw [closes_free hx] at hg; exact of hx (ended hx hg)
  | evict hx => rw [closes_evict hx] at hg; exact of hx (ended hx hg)
  | cwd hx _ =>
    rw [closes_cwd hx, Option.mem_toList] at hg
    exact of hx (Or.inr (Or.inr (Or.inr hg)))
  | list hx =>
    rw [closes_list hx, List.mem_append, Option.mem_toList, Option.mem_toList] at hg
    exact of hx (hg.elim (fun e => Or.inr (Or.inl e)) fun e => Or.inr (Or.inr (Or.inl e)))
  | rmData hw hx =>
    rw [closes_rmData hw hx, Option.mem_toList] at hg
    exact of hx (Or.inr (Or.inl hg))
  | rmPasv hw hx =>
    rw [closes_rmPasv hw hx, Option.mem_toList] at hg
    exact of hx (Or.inr (Or.inr (Or.inl hg)))
  | closeFile hw =>
    rw [closes_closeFile hw, Option.mem_toList] at hg
    exact Or.inr ⟨_, _, hw, hg⟩
  | _ => exact absurd hg List.not_mem_nil

theorem Step.nextSid_le (h : L.Step op L') : L.nextSid ≤ L'.nextSid := by
  cases h <;> first | exact Nat.le_refl _ | exact Nat.le_succ _ | simp [setSess, setWorker, alloc]

theorem Step.nextTid_le (h : L.Step op L') : L.nextTid ≤ L'.nextTid := by
  cases h <;> first | exact Nat.le_refl _ | exact Nat.le_succ _ | simp [setSess, setWorker, alloc, freed]

end

end Ledger

end Myftpd
