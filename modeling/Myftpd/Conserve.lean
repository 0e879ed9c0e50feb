import Myftpd.Roles
import Myftpd.Live

/-!
# No descriptor is lost

* `Conserved`     what is open when nothing is being transferred;
* `Careful`       the steps that lose no descriptor and close none of others;
* `conserved_of`  the runs of such steps.
-/

namespace Myftpd
open CMem Server Matching

/-- When nothing is being transferred, the descriptors that the server has opened are `listenfd`, `epollfd`
and those of the live sessions. -/
def Conserved (c : Conf) (s : Server) : Prop :=
  (∀ tid, s.threads tid = none) → ∀ fd, (∃ d, s.fds.get fd = some d ∧ d ≠ .std) ↔
    fd = c.listenfd ∨ fd = c.epollfd ∨ ∃ sid x, s.heap sid = some x ∧
      (x.ctrlFd = fd ∨ x.dataFd = some fd ∨ x.pasvListenFd = some fd ∨ x.dirfd = some fd)

/-- a transfer thread is running whose session has been freed -/
def orphaned (s : Server) : Bool :=
  (List.range s.nextTid).any fun tid => (s.threads tid).any fun th => (s.heap th.sess).isNone

/-- a number that is about to be closed: nothing is open under it, or what it is closed for -/
def OwnOrShut (s : Server) (o : Option Fd) (r : Role) : Prop :=
  ∀ fd ∈ o.toList, s.ledger.roles fd = none ∨ s.ledger.roles fd = some r

/-- The handler overwrites no descriptor, and closes none of others: PASS finds `dirfd` -1; PASV finds
`pasv_listen_fd` -1, and no thread that is about to write this field; LIST closes what it means to. -/
def Cmd.careful (c : Conf) (s : Server) (sid : Sid) (x : Session) (h : Cmd) : Prop :=
  (h = .pass → passOk c x = true → x.dirfd = none) ∧
    (h = .pasv → x.pasvListenFd = none ∧ s.ledger.anyAt sid Pc.closing = false) ∧
    (h = .list → getPasvDataFd x ≠ 0 →
      OwnOrShut s x.dataFd (.data sid) ∧ OwnOrShut s x.pasvListenFd (.pasv sid))

/-- the thread is not refused once its file is open, and `removefd` closes what it means to -/
def Thread.careful (s : Server) (th : Thread) (tenv : TEnv) (x : Session) : Prop :=
  (th.refused tenv x = true → th.pc = .open) ∧
    (th.pc = .rmData → OwnOrShut s x.dataFd (.data th.sess)) ∧
    (th.pc = .rmPasv → OwnOrShut s x.pasvListenFd (.pasv th.sess))

/-- the thread that takes the step, and the record of its session -/
def runs (s : Server) : Label → Option (Thread × TEnv × Session)
  | .thread tid tenv => (s.threads tid).bind fun th => (s.heap th.sess).map fun x => (th, tenv, x)
  | _ => none

/-- the step loses no descriptor and closes none of others -/
structure Keeps (c : Conf) (s : Server) (l : Label) : Prop where
  command : ∀ r ∈ (handles s l).toList, r.2.2.careful c s r.1 r.2.1
  accept : ∀ sid ∈ (accepts c s l).toList,
    (s.heap sid).bind Session.dataFd = none ∧ s.ledger.anyAt sid Pc.cleaning = false
  ends : ∀ sid ∈ (ends c s l).toList, busy s sid = false → (s.heap sid).bind Session.dirfd = none
  thread : ∀ r ∈ (runs s l).toList, r.1.careful s r.2.1 r.2.2

/-- a step that keeps the descriptors, or comes too late: a thread runs on without its session, and does
not end any more -/
def Careful (c : Conf) (s : Server) (l : Label) : Prop := orphaned s = true ∨ Keeps c s l

instance (s : Server) (o : Option Fd) (r : Role) : Decidable (OwnOrShut s o r) :=
  inferInstanceAs (Decidable (∀ fd ∈ o.toList, _))

instance (c : Conf) (s : Server) (sid : Sid) (x : Session) (h : Cmd) : Decidable (h.careful c s sid x) :=
  inferInstanceAs (Decidable (_ ∧ _ ∧ _))

instance (s : Server) (th : Thread) (tenv : TEnv) (x : Session) : Decidable (th.careful s tenv x) :=
  inferInstanceAs (Decidable (_ ∧ _))

instance (c : Conf) (s : Server) (l : Label) : Decidable (Keeps c s l) :=
  decidable_of_iff (_ ∧ _ ∧ _ ∧ _) ⟨fun h => ⟨h.1, h.2.1, h.2.2.1, h.2.2.2⟩, fun h => ⟨h.1, h.2, h.3, h.4⟩⟩

instance (c : Conf) (s : Server) (l : Label) : Decidable (Careful c s l) :=
  inferInstanceAs (Decidable (_ ∨ _))

section
variable {c : Conf} {s s' : Server} {l : Label} {sid j : Sid} {x y : Session} {env : Env} {h : Cmd}
  {tid : Tid} {th : Thread} {fd : Fd}

theorem orphaned_iff (hn : s.ledger.Numbered) :
    orphaned s = true ↔ ∃ tid th, s.threads tid = some th ∧ s.heap th.sess = none := by
  unfold orphaned
  rw [List.any_eq_true]
  constructor
  · rintro ⟨tid, -, h⟩
    obtain ⟨th, hth, h⟩ := (Option.any_eq_true _ _).mp h
    exact ⟨tid, th, hth, Option.isNone_iff_eq_none.mp h⟩
  · rintro ⟨tid, th, hth, h⟩
    refine ⟨tid, List.mem_range.mpr (hn.worker tid _ (ledger_worker hth)), ?_⟩
    rw [hth]
    exact Option.isNone_iff_eq_none.mpr h

/-! ## threads without a session -/

theorem orphaned_step (hn : s.ledger.Numbered) (hn' : s'.ledger.Numbered) (hseat : Seated s)
    (hen : enabled s l) (he : exec c s l = .ok s') (h : orphaned s = true) : orphaned s' = true := by
  obtain ⟨tid, th, hth, hx⟩ := (orphaned_iff hn).mp h
  have hx' := heap_stays_none hn hen he (hseat tid th hth) hx
  rw [orphaned_iff hn']
  by_cases hl : ∃ tenv, l = .thread tid tenv
  · obtain ⟨tenv, rfl⟩ := hl
    obtain ⟨o, hr⟩ := thread_ran hth he
    have ho : s'.threads tid = o := by rw [hr.threads, Function.update_self]
    cases o with
    | none => exact absurd ho (thread_orphan hx hth he)
    | some u => exact ⟨tid, u, ho, by rw [(hr.next u rfl).1, hx']⟩
  · exact ⟨tid, th, thread_kept hn hen he hth fun tenv e => hl ⟨tenv, e⟩, hx'⟩

/-! ## the records and threads after a step of the main loop -/

theorem same_work (hn : s.ledger.Numbered) (hn' : s'.ledger.Numbered) (hen : enabled s l)
    (he : exec c s l = .ok s') (hl : ∀ tid tenv, l ≠ .thread tid tenv) :
    Ledger.SameWork s.ledger s'.ledger := by
  cases exec_worked hen he with
  | loop _ _ h =>
    refine .of ?_ h.nextTid
    show (fun tid => (s'.threads tid).map Thread.worker) = fun tid => (s.threads tid).map Thread.worker
    rw [h.threads]
  | @start env i x k hst _ h =>
    have hth : s'.threads = Function.update s.threads s.nextTid (some (newThread i s.cmdNo k)) := h.threads
    have hfree : s.threads s.nextTid = none := by
      cases hw : s.threads s.nextTid with
      | none => rfl
      | some th => exact absurd (hn.worker _ _ (ledger_worker hw)) (Nat.lt_irrefl _)
    have hst : ∀ (sid : Sid) (p : Pc → Bool), p .offset = false →
        s'.ledger.anyAt sid p = s.ledger.anyAt sid p := by
      intro sid p hp
      rw [Bool.eq_iff_iff, Ledger.anyAt_iff hn', Ledger.anyAt_iff hn]
      show (∃ tid w, (s'.threads tid).map Thread.worker = some w ∧ _) ↔
        ∃ tid w, (s.threads tid).map Thread.worker = some w ∧ _
      rw [hth]
      constructor
      · rintro ⟨tid, w, hw, hs, hpc⟩
        rw [Function.update_apply] at hw
        split at hw
        · cases hw
          rw [show (newThread i s.cmdNo k).worker.pc = .offset from rfl, hp] at hpc
          cases hpc
        · exact ⟨tid, w, hw, hs, hpc⟩
      · rintro ⟨tid, w, hw, hs, hpc⟩
        refine ⟨tid, w, ?_, hs, hpc⟩
        rw [Function.update_of_ne, hw]
        rintro rfl
        rw [hfree] at hw
        cases hw
    refine ⟨fun sid => hst sid _ rfl, fun sid => hst sid _ rfl, fun tid => ?_⟩
    show ((s'.threads tid).map Thread.worker).bind _ = ((s.threads tid).map Thread.worker).bind _
    rw [hth, Function.update_apply]
    split
    · rename_i e
      rw [e, hfree]
      rfl
    · rfl
  | thread _ _ => exact absurd rfl (hl _ _)

theorem sess_put (hn : s.ledger.Numbered) (hen : enabled s l) (he : exec c s l = .ok s')
    (hends : ends c s l = none) (hadm : admits c s l = none) (hx : s.heap sid = some x)
    (hr : ∀ j z, j ≠ sid → rewritten c s l j z = z) :
    s'.ledger.sess = Function.update s.ledger.sess sid (some (rewritten c s l sid x).core) := by
  funext j
  show (s'.heap j).map Session.core = _
  rw [exec_heap hn hen he, Function.update_apply]
  unfold heapAfter
  rw [hends, if_neg nofun, hadm]
  by_cases hj : j = sid
  · have hne : sid ≠ s.nextSid := Nat.ne_of_lt (hn.sess sid _ (ledger_sess hx))
    rw [if_pos hj, hj, if_neg hne, hx]
    rfl
  · rw [if_neg hj]
    by_cases hs : j = s.nextSid
    · rw [if_pos hs, hs]
      show _ = (s.heap s.nextSid).map Session.core
      rw [next_unused hn]
      rfl
    · rw [if_neg hs]
      show ((s.heap j).map _).map _ = (s.heap j).map Session.core
      cases hz : s.heap j with
      | none => rfl
      | some z =>
        show some (rewritten c s l j z).core = some z.core
        rw [hr j z hj]

theorem sess_same (hn : s.ledger.Numbered) (hen : enabled s l) (he : exec c s l = .ok s')
    (hends : ends c s l = none) (hadm : admits c s l = none)
    (hr : ∀ j z, s.heap j = some z → (rewritten c s l j z).core = z.core) :
    s'.ledger.sess = s.ledger.sess := by
  funext j
  show (s'.heap j).map Session.core = (s.heap j).map Session.core
  rw [exec_heap hn hen he]
  unfold heapAfter
  rw [hends, if_neg nofun, hadm]
  by_cases hs : j = s.nextSid
  · rw [if_pos hs, hs, next_unused hn]
    rfl
  · rw [if_neg hs]
    cases hz : s.heap j with
    | none => rfl
    | some z => exact congrArg some (hr j z hz)

/-! ## one step of the main loop -/

open Ledger in
theorem exact_accept (h : s.ledger.Exact c) (hw : SameWork s.ledger s'.ledger) (hx : s.heap sid = some x)
    (hd : x.dataFd = none) (hc : s.ledger.anyAt sid Pc.cleaning = false)
    (hf : s'.fds.get = Function.update s.fds.get s.fds.lowest (some (.data sid)))
    (hs : s'.ledger.sess = Function.update s.ledger.sess sid
      (some { x.core with data := some s.fds.lowest })) : s'.ledger.Exact c := by
  obtain ⟨h1, h2⟩ := names_data (c := c) hw (ledger_sess hx) hs
  refine h.opened (d := .data sid) lowest_free hf rfl ?_ h1 ?_
  · rw [named_data (ledger_sess hx), hc]
    exact hd
  · rw [h2, hc]
    rfl

open Ledger in
theorem exact_pasv (h : s.ledger.Exact c) (hw : SameWork s.ledger s'.ledger) (hx : s.heap sid = some x)
    (hp : x.pasvListenFd = none) (hc : s.ledger.anyAt sid Pc.closing = false)
    (hf : s'.fds.get = Function.update s.fds.get s.fds.lowest (some (.pasv sid)))
    (hs : s'.ledger.sess = Function.update s.ledger.sess sid
      (some { x.core with pasv := some s.fds.lowest })) : s'.ledger.Exact c := by
  obtain ⟨h1, h2⟩ := names_pasv (c := c) hw (ledger_sess hx) hs
  refine h.opened (d := .pasv sid) lowest_free hf rfl ?_ h1 ?_
  · rw [named_pasv (ledger_sess hx), hc]
    exact hp
  · rw [h2, hc]
    rfl

open Ledger in
/-- PASS and CWD open a directory; CWD closes the one before -/
theorem exact_dir {k : FKind} (h : s.ledger.Exact c) (hw : SameWork s.ledger s'.ledger)
    (hx : s.heap sid = some x)
    (hf : s'.fds.get = shut x.dirfd (Function.update s.fds.get s.fds.lowest (some (.cwd sid k))))
    (hs : s'.ledger.sess = Function.update s.ledger.sess sid
      (some { x.core with dir := some s.fds.lowest })) : s'.ledger.Exact c := by
  have hxl := ledger_sess hx
  have hold : ∀ fd, x.dirfd = some fd → s.ledger.roles fd = some (.dir sid) := fun fd e =>
    (h fd (.dir sid)).mpr ((named_dir hxl).trans e)
  have hne : x.dirfd ≠ some s.fds.lowest := by
    intro e
    have h1 := hold _ e
    rw [roles_free lowest_free] at h1
    cases h1
  -- first the old directory is closed
  let M : Ledger := { s.ledger with
    desc := shut x.dirfd s.fds.get
    sess := Function.update s.ledger.sess sid (some { x.core with dir := none }) }
  have hwM : SameWork s.ledger M := .of rfl rfl
  have hM : M.Exact c := by
    obtain ⟨h1, h2⟩ := names_dir (c := c) hwM hxl rfl
    exact h.closed rfl (Or.inr (named_dir hxl)) (fun fd e => Or.inr (hold fd e)) h1 h2
  have hMx : M.sess sid = some { x.core with dir := none } := Function.update_self ..
  have hMs : s'.ledger.sess = Function.update M.sess sid (some { x.core with dir := some s.fds.lowest }) := by
    rw [hs]
    exact (Function.update_idem ..).symm
  obtain ⟨h1, h2⟩ := names_dir (c := c) (L := M) ⟨hw.cleaning, hw.closing, hw.file⟩ hMx hMs
  refine hM.opened (d := .cwd sid k) ?_ (hf.trans (shut_update hne)) rfl ?_ h1 h2
  · show shut x.dirfd s.fds.get s.fds.lowest = none
    unfold shut
    rw [if_neg hne]
    exact s.fds.lowest_none
  · exact named_dir hMx

open Ledger in
theorem exact_list (h : s.ledger.Exact c) (hw : SameWork s.ledger s'.ledger) (hx : s.heap sid = some x)
    (hd : OwnOrShut s x.dataFd (.data sid)) (hp : OwnOrShut s x.pasvListenFd (.pasv sid))
    (hf : s'.fds.get = shut x.pasvListenFd (shut x.dataFd s.fds.get))
    (hs : s'.ledger.sess = Function.update s.ledger.sess sid
      (some { x.core with data := none, pasv := none })) : s'.ledger.Exact c := by
  have hxl := ledger_sess hx
  -- first the data connection is closed
  let M : Ledger := { s.ledger with
    desc := shut x.dataFd s.fds.get
    sess := Function.update s.ledger.sess sid (some { x.core with data := none }) }
  have hwM : SameWork s.ledger M := .of rfl rfl
  have hM : M.Exact c := by
    obtain ⟨h1, h2⟩ := names_data (c := c) hwM hxl rfl
    refine h.closed rfl ?_ (fun fd e => hd fd (Option.mem_toList.mpr e)) h1 (h2.trans (ite_self _))
    rw [named_data hxl]
    split
    · exact Or.inl rfl
    · exact Or.inr rfl
  have hMx : M.sess sid = some { x.core with data := none } := Function.update_self ..
  have hMs : s'.ledger.sess = Function.update M.sess sid (some { x.core with data := none, pasv := none }) := by
    rw [hs]
    exact (Function.update_idem ..).symm
  have hroles : M.roles = shut x.dataFd s.ledger.roles := roles_shut rfl
  obtain ⟨h1, h2⟩ := names_pasv (c := c) (L := M) ⟨hw.cleaning, hw.closing, hw.file⟩ hMx hMs
  refine hM.closed hf ?_ (fun fd e => ?_) h1 (h2.trans (ite_self _))
  · rw [named_pasv hMx]
    split
    · exact Or.inl rfl
    · exact Or.inr rfl
  · rw [hroles]
    unfold shut
    split
    · exact Or.inl rfl
    · exact hp fd (Option.mem_toList.mpr e)

theorem fds_kept {f : Fd → Option Desc} (hp : h ≠ .pass) (hc : h ≠ .cwd) (hv : h ≠ .pasv) (hl : h ≠ .list) :
    h.fds c env sid x fd f = f := by
  cases h with
  | pass => exact absurd rfl hp
  | cwd => exact absurd rfl hc
  | pasv => exact absurd rfl hv
  | list => exact absurd rfl hl
  | _ => rfl

open Ledger in
/-- **A command** keeps table and fields in agreement. -/
theorem exact_command (hn : s.ledger.Numbered) (hn' : s'.ledger.Numbered)
    (hen : enabled s (.command env)) (he : exec c s (.command env) = .ok s')
    (hends : ends c s (.command env) = none)
    (hk : ∀ r ∈ (handles s (.command env)).toList, r.2.2.careful c s r.1 r.2.1)
    (h : s.ledger.Exact c) : s'.ledger.Exact c := by
  have hw := same_work hn hn' hen he nofun
  have hf := loop_fds hen he nofun
  unfold fdsAfter at hf
  simp only [hends] at hf
  cases hh : handles s (.command env) with
  | none =>
    rw [hh] at hf
    refine h.same hw (sess_same hn hen he hends rfl fun j z hz => ?_) hf
    unfold rewritten
    simp only [hh]
  | some r =>
    obtain ⟨sid, x, k⟩ := r
    rw [hh] at hf
    have hx : s.heap sid = some x := by
      obtain ⟨evs, -, hx, -⟩ := exec_handles (c := c) hh
      exact hx
    have hcare := hk _ (Option.mem_toList.mpr hh)
    have hrew : rewritten c s (.command env) sid x = k.record c env x s.fds.lowest := by
      unfold rewritten
      simp only [hh, if_true]
    have hs := sess_put hn hen he hends rfl hx fun j z hj => by
      unfold rewritten
      simp only [hh, if_neg hj]
    rw [hrew] at hs
    change s'.fds.get = k.fds c env sid x s.fds.lowest s.fds.get at hf
    have hkeep : (k.record c env x s.fds.lowest).core = x.core →
        k.fds c env sid x s.fds.lowest s.fds.get = s.fds.get → s'.ledger.Exact c := by
      intro h1 h2
      rw [h1, ← ledger_sess hx, Function.update_eq_self] at hs
      exact h.same hw hs (hf.trans h2)
    by_cases hq : k ≠ .pass ∧ k ≠ .cwd ∧ k ≠ .pasv ∧ k ≠ .list
    · obtain ⟨h1, h2, h3, h4⟩ := hq
      exact hkeep (record_core h1 h2 h3 h4) (fds_kept h1 h2 h3 h4)
    · cases k with
      | pass =>
        cases hp : passOk c x with
        | false =>
          apply hkeep
          · unfold Cmd.record
            simp only [hp, Bool.false_eq_true, ↓reduceIte]
          · unfold Cmd.fds
            simp only [hp, Bool.false_eq_true, ↓reduceIte]
        | true =>
          have hdir : x.dirfd = none := hcare.1 rfl hp
          cases ho : env.home with
          | none =>
            apply hkeep
            · unfold Cmd.record
              simp only [hp, ho, ↓reduceIte]
              unfold Session.core
              rw [hdir]
              rfl
            · unfold Cmd.fds
              simp only [hp, ho, ↓reduceIte]
              rfl
          | some kind =>
            apply exact_dir (k := kind) h hw hx
            · rw [hdir, shut_none, hf]
              unfold Cmd.fds
              simp only [hp, ho, ↓reduceIte]
              rfl
            · rw [hs]
              unfold Cmd.record
              simp only [hp, ho, ↓reduceIte]
              rfl
      | cwd =>
        cases ho : openatOk x.dirfd x.arg env.openat with
        | none =>
          apply hkeep
          · unfold Cmd.record
            simp only [ho]
            rfl
          · unfold Cmd.fds
            simp only [ho]
            rfl
        | some kind =>
          apply exact_dir (k := kind) h hw hx
          · rw [hf]
            unfold Cmd.fds
            simp only [ho]
            rfl
          · rw [hs]
            unfold Cmd.record
            simp only [ho]
            rfl
      | pasv =>
        obtain ⟨h1, h2⟩ := hcare.2.1 rfl
        exact exact_pasv h hw hx h1 h2 hf hs
      | list =>
        by_cases h0 : getPasvDataFd x = 0
        · refine hkeep ?_ (if_pos h0)
          unfold Cmd.record
          simp only [if_pos h0]
        · obtain ⟨h1, h2⟩ := hcare.2.2 rfl h0
          apply exact_list h hw hx h1 h2 (hf.trans (if_neg h0))
          rw [hs]
          unfold Cmd.record
          simp only [if_neg h0]
          rfl
      | _ => exact absurd (by decide) hq

theorem exact_ends (hn : s.ledger.Numbered) (hn' : s'.ledger.Numbered) (hen : enabled s l)
    (he : exec c s l = .ok s') (hl : ∀ tid tenv, l ≠ .thread tid tenv) (hends : ends c s l = some sid)
    (hk : busy s sid = false → (s.heap sid).bind Session.dirfd = none) (h : s.ledger.Exact c) :
    orphaned s' = true ∨ s'.ledger.Exact c := by
  obtain ⟨op, ho⟩ := exec_step hen he
  obtain ⟨y, hy, hL⟩ := ho.step.ended (ho.endsEq.trans hends)
  obtain ⟨x, hx, rfl⟩ := Option.map_eq_some_iff.mp hy
  cases hb : busy s sid with
  | true =>
    obtain ⟨tid, th, hth, rfl⟩ := (busy_iff hn).mp hb
    refine Or.inl ((orphaned_iff hn').mpr ⟨tid, th, thread_kept hn hen he hth (fun tenv => hl tid tenv), ?_⟩)
    rw [exec_heap hn hen he]
    exact if_pos hends
  | false =>
    right
    rw [hL]
    refine h.freed hy ?_ fun tid w hw => ?_
    · have hdir := hk hb
      rw [hx] at hdir
      exact hdir
    · obtain ⟨th, hth, rfl⟩ := Option.map_eq_some_iff.mp hw
      exact busy_of hn hth hb

theorem exact_admits {conn : Conn} (hn : s.ledger.Numbered) (hn' : s'.ledger.Numbered)
    (he : exec c s (.acceptOne conn) = .ok s') (hen : enabled s (.acceptOne conn)) (h : s.ledger.Exact c) :
    s'.ledger.Exact c := by
  have hf := loop_fds hen he nofun
  change s'.fds.get = (admits c s (.acceptOne conn)).elim s.fds.get fun _ =>
    Function.update s.fds.get s.fds.lowest (some (.ctrl s.nextSid)) at hf
  cases ha : admits c s (.acceptOne conn) with
  | none =>
    rw [ha] at hf
    exact h.same (same_work hn hn' hen he nofun) (sess_same hn hen he rfl ha fun _ _ _ => rfl) hf
  | some ip =>
    obtain ⟨op, ho⟩ := exec_step hen he
    obtain ⟨fd, rfl⟩ := (enter_iff ho (exec_books hen he)).mpr (by rw [ha]; exact Option.some_ne_none ip)
    have hstep := ho.step
    generalize hL : s'.ledger = L' at hstep
    cases hstep with
    | enter hfree _ =>
      apply h.admitted hfree
      show (s.heap s.nextSid).map _ = none
      rw [next_unused hn]
      rfl

/-- **A step of the main loop** keeps table and fields in agreement, or frees the session of a thread. -/
theorem exact_loop (hn : s.ledger.Numbered) (hn' : s'.ledger.Numbered) (hen : enabled s l)
    (he : exec c s l = .ok s') (hl : ∀ tid tenv, l ≠ .thread tid tenv) (hk : Keeps c s l)
    (h : s.ledger.Exact c) : orphaned s' = true ∨ s'.ledger.Exact c := by
  cases hends : ends c s l with
  | some sid =>
    exact exact_ends hn hn' hen he hl hends (hk.ends sid (Option.mem_toList.mpr hends)) h
  | none =>
    right
    have hw := same_work hn hn' hen he hl
    have hf := loop_fds hen he hl
    unfold fdsAfter at hf
    cases l with
    | command env => exact exact_command hn hn' hen he hends hk.command h
    | acceptOne conn => exact exact_admits hn hn' he hen h
    | dispatch now env =>
      simp only [hends] at hf
      cases ha : accepts c s (.dispatch now env) with
      | none =>
        rw [ha] at hf
        refine h.same hw (sess_same hn hen he hends rfl fun j z _ => ?_) hf
        unfold rewritten
        simp only [ha]
        cases reads c s (.dispatch now env) with
        | none => rfl
        | some r =>
          dsimp only
          split
          · rfl
          · rfl
      | some sid =>
        rw [ha] at hf
        obtain ⟨-, x, p, hx, -⟩ := accepts_listening hen he ha
        obtain ⟨h1, h2⟩ := hk.accept sid (Option.mem_toList.mpr ha)
        rw [hx] at h1
        apply exact_accept h hw hx h1 h2 hf
        rw [sess_put hn hen he hends rfl hx fun j z hj => ?_, rewritten_accepts ha]
        · rfl
        · unfold rewritten
          simp only [reads_accepts ha]
          exact if_neg fun e => hj (Option.some.inj (e.symm.trans ha))
    | thread tid tenv => exact absurd rfl (hl tid tenv)
    | _ =>
      simp only [hends] at hf
      exact h.same hw (sess_same hn hen he hends rfl fun _ _ _ => rfl) hf

/-! ## one step of a thread -/

theorem exact_onward {t : Server} {u : Thread} {pc : Pc} (h : s.ledger.Exact c) (hth : s.threads tid = some th)
    (hL : t.ledger = s.ledger) (hpc : th.pc = pc) (hs : u.sess = th.sess) (hf : u.file = th.file)
    (h1 : u.pc.cleaning = pc.cleaning) (h2 : u.pc.closing = pc.closing) (h3 : u.pc.holding = pc.holding) :
    (setThread tid t u).ledger.Exact c := by
  rw [setThread_ledger, hL]
  apply h.moved (ledger_worker hth)
  · rintro w ⟨rfl⟩
    exact hs
  · show u.pc.cleaning = th.pc.cleaning
    rw [hpc, h1]
  · show u.pc.closing = th.pc.closing
    rw [hpc, h2]
  · show (if u.pc.holding = true then u.file else none) = if th.pc.holding = true then th.file else none
    rw [hpc, h3, hf]

theorem exact_return {t : Server} {pc : Pc} (h : s.ledger.Exact c) (hth : s.threads tid = some th)
    (hL : t.ledger = s.ledger) (hpc : th.pc = pc) (h1 : pc.cleaning = false) (h2 : pc.closing = false)
    (h3 : pc.holding = false) : (endThread tid t).ledger.Exact c := by
  rw [endThread_ledger, hL]
  refine h.moved (ledger_worker hth) nofun ?_ ?_ ?_
  · show false = th.pc.cleaning
    rw [hpc, h1]
  · show false = th.pc.closing
    rw [hpc, h2]
  · show none = if th.pc.holding = true then th.file else none
    rw [hpc, h3]
    rfl

theorem follows_working {k : Kind} {p q : Pc} (hp : p.works = true ∨ p = .opening) (h : p.follows k q) :
    q.cleaning = p.cleaning ∧ q.closing = p.closing ∧ q.holding = p.holding := by
  rcases hp with hp | rfl
  · cases p with
    | lock =>
      cases k with
      | retr =>
        obtain rfl : q = .stat := h
        exact ⟨rfl, rfl, rfl⟩
      | stor a => rcases h with rfl | rfl <;> exact ⟨rfl, rfl, rfl⟩
    | trunc =>
      obtain rfl : q = .seek := h
      exact ⟨rfl, rfl, rfl⟩
    | seek =>
      cases k with
      | retr =>
        obtain rfl : q = .opening := h
        exact ⟨rfl, rfl, rfl⟩
      | stor a =>
        obtain rfl : q = .stat := h
        exact ⟨rfl, rfl, rfl⟩
    | stat =>
      cases k with
      | retr => rcases h with rfl | rfl <;> exact ⟨rfl, rfl, rfl⟩
      | stor a =>
        obtain rfl : q = .opening := h
        exact ⟨rfl, rfl, rfl⟩
    | loop => rcases h with rfl | rfl | ⟨-, n, rfl⟩ <;> exact ⟨rfl, rfl, rfl⟩
    | write n => rcases h with rfl | rfl | ⟨m, rfl⟩ <;> exact ⟨rfl, rfl, rfl⟩
    | _ => cases hp
  · obtain rfl : q = .loop := h
    exact ⟨rfl, rfl, rfl⟩

/-- **A step of a thread** keeps table and fields in agreement. -/
theorem exact_thread {tenv : TEnv} (hn : s.ledger.Numbered) (hth : s.threads tid = some th)
    (hx : s.heap th.sess = some x) (he : threadStep tenv tid s = .ok s') (hk : th.careful s tenv x)
    (h : s.ledger.Exact c) : s'.ledger.Exact c := by
  have hw := ledger_worker hth
  have ht : tid < s.ledger.nextTid := hn.worker tid _ hw
  have hsame : ∀ {y : Session}, s.heap th.sess = some y → y = x := fun hy => Option.some.inj (hy.symm.trans hx)
  have hxl : s.ledger.sess th.worker.sess = some x.core := ledger_sess hx
  have hreturns := thread_returns hth hx he
  have hwork : ∀ {t : Server} {u : Thread}, th.pc.works = true ∨ th.pc = .opening → Onward tenv th u →
      t.ledger = s.ledger → (setThread tid t u).ledger.Exact c := by
    intro t u hp ho hL
    obtain ⟨h1, h2, h3⟩ := follows_working hp ho.follows
    exact exact_onward h hth hL rfl ho.sess ho.file h1 h2 h3
  cases thread_round hth he with
  | refuse hr hy _ =>
    have hret := hreturns.mp (Function.update_self ..)
    have hpc : th.pc = .open := by
      rcases Bool.or_eq_true_iff.mp hret with h1 | h1
      · rw [of_decide_eq_true h1] at hr
        cases hr
      · exact hk.1 h1
    exact exact_return h hth rfl hpc rfl rfl rfl
  | offset hpc _ => exact exact_onward h hth rfl hpc rfl rfl rfl rfl rfl
  | clear hpc hy =>
    exact exact_onward h hth (put_same_ledger hy rfl) hpc rfl rfl rfl rfl rfl
  | openat hpc _ _ _ =>
    rw [setThread_ledger]
    exact h.openFile lowest_free hw hpc
  | on hp ho => exact hwork (Or.inl hp) ho rfl
  | file hp _ ho => exact hwork (Or.inl hp) ho rfl
  | opening hpc _ ho => exact hwork (Or.inr hpc) ho rfl
  | rmData hpc hy =>
    cases hsame hy
    rw [next, setThread_ledger, removefd, closeOpt_ledger]
    exact h.rmData ht hw hpc hxl fun fd e => hk.2.1 hpc fd (Option.mem_toList.mpr e)
  | rmPasv hpc hy =>
    cases hsame hy
    rw [next, setThread_ledger, removefd, closeOpt_ledger]
    exact h.rmPasv ht hw hpc hxl fun fd e => hk.2.2 hpc fd (Option.mem_toList.mpr e)
  | setPasv hpc hy =>
    cases hsame hy
    rw [next, setThread_ledger, put_ledger]
    exact h.setPasv ht hw hpc hxl
  | setData hpc hy =>
    cases hsame hy
    rw [next, setThread_ledger, put_ledger]
    exact h.setData ht hw hpc hxl
  | closeFile hpc =>
    rw [next, setThread_ledger, closeOpt_ledger]
    exact h.closeFile hw hpc
  | final hpc _ _ => exact exact_onward h hth rfl hpc rfl rfl rfl rfl rfl
  | silent hpc _ _ => exact exact_onward h hth rfl hpc rfl rfl rfl rfl rfl
  | aborted hpc hy _ => exact exact_return h hth (put_same_ledger hy rfl) hpc rfl rfl rfl
  | returns hpc _ _ => exact exact_return h hth rfl hpc rfl rfl rfl
  | idle _ => exact h

/-! ## whole runs -/

theorem exact_step (hn : s.ledger.Numbered) (hn' : s'.ledger.Numbered) (hseat : Seated s)
    (hen : enabled s l) (he : exec c s l = .ok s') (hk : Careful c s l)
    (h : orphaned s = true ∨ s.ledger.Exact c) : orphaned s' = true ∨ s'.ledger.Exact c := by
  have horph : orphaned s = true → orphaned s' = true ∨ s'.ledger.Exact c := fun ho =>
    Or.inl (orphaned_step hn hn' hseat hen he ho)
  rcases h with ho | h
  · exact horph ho
  rcases hk with ho | hk
  · exact horph ho
  by_cases hl : ∃ tid tenv, l = .thread tid tenv
  · obtain ⟨tid, tenv, rfl⟩ := hl
    obtain ⟨th, hth⟩ := Option.ne_none_iff_exists'.mp hen
    cases hx : s.heap th.sess with
    | none => exact horph ((orphaned_iff hn).mpr ⟨tid, th, hth, hx⟩)
    | some x =>
      refine Or.inr (exact_thread hn hth hx he (hk.thread (th, tenv, x) (Option.mem_toList.mpr ?_)) h)
      show (s.threads tid).bind _ = _
      rw [hth, Option.bind_some, hx]
      rfl
  · exact exact_loop hn hn' hen he (fun tid tenv e => hl ⟨tid, tenv, e⟩) hk h

theorem exact_boots {fds : Slots Desc} (h : Boots c fds) : (boot c fds).ledger.Exact c := by
  have hroles : (boot c fds).ledger.roles = fun fd => (fds.get fd).bind Desc.role := rfl
  intro fd r
  rw [hroles]
  constructor
  · intro hr
    obtain ⟨d, hd, hr⟩ := Option.bind_eq_some_iff.mp hr
    rcases h.std fd d hd with rfl | rfl | rfl
    · rw [h.listen] at hd
      cases hd
      cases hr
      rfl
    · rw [h.epoll] at hd
      cases hd
      cases hr
      rfl
    · cases hr
  · intro hn
    cases r with
    | listen =>
      cases hn
      show (fds.get c.listenfd).bind _ = _
      rw [h.listen]
      rfl
    | epoll =>
      cases hn
      show (fds.get c.epollfd).bind _ = _
      rw [h.epoll]
      rfl
    | data sid => cases (show none = some fd from hn)
    | pasv sid => cases (show none = some fd from hn)
    | _ => cases hn

theorem exact_reach (h : Reach c (Careful c) s) : orphaned s = true ∨ s.ledger.Exact c := by
  refine Runs.Reach.inv_with (J := fun s => s.ledger.Numbered ∧ Seated s)
    (I := fun s => orphaned s = true ∨ s.ledger.Exact c)
    (fun s hs => ⟨numbered_reach hs, seated_reach hs⟩) ?_ ?_ h
  · rintro s ⟨fds, hb, rfl⟩
    exact Or.inr (exact_boots hb)
  · rintro s l s' ⟨hn, hseat⟩ hi hk ⟨hen, he⟩
    obtain ⟨op, ho⟩ := exec_step hen he
    exact exact_step hn (ho.step.numbered hn) hseat hen he hk hi

theorem conserved_exact (hn : s.ledger.Numbered) (h : orphaned s = true ∨ s.ledger.Exact c) :
    Conserved c s := by
  intro hidle fd
  have hE : s.ledger.Exact c := by
    rcases h with ho | hE
    · obtain ⟨tid, th, hth, -⟩ := (orphaned_iff hn).mp ho
      rw [hidle tid] at hth
      cases hth
    · exact hE
  have hworkers : ∀ tid, s.ledger.workers tid = none := fun tid => by
    show (s.threads tid).map _ = none
    rw [hidle tid]
    rfl
  have hany : ∀ (sid : Sid) (p : Pc → Bool), s.ledger.anyAt sid p = false := fun sid p =>
    Ledger.anyAt_idle fun tid w hw => absurd ((hworkers tid).symm.trans hw) nofun
  have hrole : (∃ d, s.fds.get fd = some d ∧ d ≠ .std) ↔ ∃ r, s.ledger.roles fd = some r := by
    constructor
    · rintro ⟨d, hd, hs⟩
      have hb : s.ledger.roles fd = d.role := congrArg (Option.bind · Desc.role) hd
      rw [hb]
      cases d with
      | std => exact absurd rfl hs
      | _ => exact ⟨_, rfl⟩
    · rintro ⟨r, hr⟩
      obtain ⟨d, hd, hr⟩ := Option.bind_eq_some_iff.mp hr
      refine ⟨d, hd, ?_⟩
      rintro rfl
      cases hr
  rw [hrole]
  constructor
  · rintro ⟨r, hr⟩
    have hn := (hE fd r).mp hr
    cases r with
    | listen => exact Or.inl (Option.some.inj hn).symm
    | epoll => exact Or.inr (Or.inl (Option.some.inj hn).symm)
    | ctrl sid =>
      obtain ⟨y, hy, e⟩ := Option.map_eq_some_iff.mp hn
      obtain ⟨x, hx, rfl⟩ := Option.map_eq_some_iff.mp hy
      exact Or.inr (Or.inr ⟨sid, x, hx, Or.inl e⟩)
    | data sid =>
      obtain ⟨y, hy, e⟩ := Option.bind_eq_some_iff.mp ((if_neg (by rw [hany]; nofun)).symm.trans hn)
      obtain ⟨x, hx, rfl⟩ := Option.map_eq_some_iff.mp hy
      exact Or.inr (Or.inr ⟨sid, x, hx, Or.inr (Or.inl e)⟩)
    | pasv sid =>
      obtain ⟨y, hy, e⟩ := Option.bind_eq_some_iff.mp ((if_neg (by rw [hany]; nofun)).symm.trans hn)
      obtain ⟨x, hx, rfl⟩ := Option.map_eq_some_iff.mp hy
      exact Or.inr (Or.inr ⟨sid, x, hx, Or.inr (Or.inr (Or.inl e))⟩)
    | dir sid =>
      obtain ⟨y, hy, e⟩ := Option.bind_eq_some_iff.mp hn
      obtain ⟨x, hx, rfl⟩ := Option.map_eq_some_iff.mp hy
      exact Or.inr (Or.inr ⟨sid, x, hx, Or.inr (Or.inr (Or.inr e))⟩)
    | file tid =>
      change (s.ledger.workers tid).bind _ = _ at hn
      rw [hworkers tid] at hn
      cases hn
  · rintro (rfl | rfl | ⟨sid, x, hx, h⟩)
    · exact ⟨.listen, (hE _ .listen).mpr rfl⟩
    · exact ⟨.epoll, (hE _ .epoll).mpr rfl⟩
    · have hxl := ledger_sess hx
      rcases h with h | h | h | h
      · refine ⟨.ctrl sid, (hE _ (.ctrl sid)).mpr ?_⟩
        show (s.ledger.sess sid).map _ = _
        rw [hxl]
        exact congrArg some h
      · refine ⟨.data sid, (hE _ (.data sid)).mpr ?_⟩
        rw [Ledger.named_data hxl, hany]
        exact h
      · refine ⟨.pasv sid, (hE _ (.pasv sid)).mpr ?_⟩
        rw [Ledger.named_pasv hxl, hany]
        exact h
      · refine ⟨.dir sid, (hE _ (.dir sid)).mpr ?_⟩
        rw [Ledger.named_dir hxl]
        exact h

end

/-- login, CWD, PASV, and a file is sent to its end -/
def carefulRun : List Label :=
  connects ++ sends 5 "USER u" ++ sends 5 "PASS p" ++ sends 5 "CWD d" ++ sendsPasv 5 ++ dataConnects 6 ++
    sends 5 "RETR f" ++ List.replicate 15 (.thread 0 sampleTEnv)

end Myftpd
