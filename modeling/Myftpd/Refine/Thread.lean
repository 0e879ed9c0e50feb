import Myftpd.Refine.Command
import Myftpd.Rounds

/-!
# The steps of a transfer thread and the ledger
-/

namespace Myftpd
open CMem Server

section
variable {c : Conf} {env : TEnv} {tid : Tid} {th : Thread} {s s' t : Server}

theorem ledger_worker (hth : s.threads tid = some th) : s.ledger.workers tid = some th.worker := by
  show (s.threads tid).map _ = _
  rw [hth]
  rfl

theorem closes_thread (hth : s.threads tid = some th) :
    closes c s (.thread tid env) = threadCloses th (s.heap th.sess) := by
  have he : ends c s (.thread tid env) = none := rfl
  unfold closes
  rw [he]
  simp only [hth]

theorem drops_thread (hth : s.threads tid = some th) :
    drops s (.thread tid env) = threadDrops th (s.heap th.sess) := by
  unfold drops
  simp only [hth]

theorem Outcome.thread {op : Op} (hth : s.threads tid = some th) (hstep : s.ledger.Step op s'.ledger)
    (hends : op.ends = none) (hst : op.stage = none) (hcl : op.closes s.ledger = threadCloses th (s.heap th.sess))
    (hd : op.drops s.ledger = threadDrops th (s.heap th.sess)) (hop : TlAfter s s.tl op) (htl : s'.tl = s.tl)
    (hmain : s'.main = s.main) : Outcome c s (.thread tid env) s' op where
  step := hstep
  endsEq := hends
  notEvict := nofun
  closesEq := by rw [closes_thread hth, hcl]
  dropsEq := by rw [drops_thread hth, hd]
  tl := by rw [htl]; exact hop
  pending := Or.inr fun ev hev => by rwa [hmain] at hev
  handling := fun _ h => Or.inl ⟨hmain ▸ h, hends⟩
  stage := by rw [hst]; exact nofun

/-- the stages that close no descriptor and reset none of the session -/
def Pc.quiet : Pc → Bool
  | .rmData => false
  | .rmPasv => false
  | .setPasv => false
  | .setData => false
  | .closeFile => false
  | _ => true

theorem quiet_closes {x : Option Session} (h : th.pc.quiet = true) : threadCloses th x = [] := by
  unfold threadCloses
  split
  all_goals first | rfl | (rename_i e; rw [e] at h; cases h)

theorem quiet_drops {x : Option Session} (h : th.pc.quiet = true) : threadDrops th x = none := by
  unfold threadDrops
  split
  · rename_i e
    rw [e] at h
    cases h
  · rfl

theorem Outcome.advance {u : Thread} (hth : s.threads tid = some th)
    (hq : th.pc.quiet = true) (hs : Same s t) (hsess : u.sess = th.sess)
    (hfile : u.file = th.file) (hpc : u.pc.cleaning = false) :
    Outcome c s (.thread tid env) (setThread tid t u) (.advance tid) := by
  refine Outcome.thread hth ?_ rfl rfl (quiet_closes hq).symm (quiet_drops hq).symm (Or.inl rfl) hs.tl
    hs.main
  rw [setThread_ledger, hs.ledger]
  have hu : u.worker = { th.worker with pc := u.pc } := by
    unfold Thread.worker
    rw [hsess, hfile]
  rw [hu]
  exact Ledger.Step.advance (ledger_worker hth) hpc

theorem Outcome.finish (hth : s.threads tid = some th)
    (hq : th.pc.quiet = true) (hs : Same s t) :
    Outcome c s (.thread tid env) (endThread tid t) (.finish tid) := by
  refine Outcome.thread hth ?_ rfl rfl (quiet_closes hq).symm (quiet_drops hq).symm (Or.inl rfl) hs.tl
    hs.main
  rw [endThread_ledger, hs.ledger]
  exact Ledger.Step.finish (ledger_worker hth)

theorem Outcome.idle (hth : s.threads tid = some th)
    (hq : th.pc.quiet = true) : Outcome c s (.thread tid env) s .stay :=
  Outcome.thread hth Ledger.Step.stay rfl rfl (quiet_closes hq).symm (quiet_drops hq).symm (Or.inl rfl)
    rfl rfl

theorem refuses_quiet (h : th.pc.refuses = true) : th.pc.quiet = true := by
  cases hpc : th.pc <;> rw [hpc] at h <;> first | rfl | cases h

theorem works_quiet (h : th.pc.works = true) : th.pc.quiet = true := by
  cases hpc : th.pc <;> rw [hpc] at h <;> first | rfl | cases h

theorem works_cleaning {k : Kind} {p q : Pc} (h : p.follows k q) (hp : p.works = true) :
    q.cleaning = false := by
  rcases follows_works h hp with rfl | rfl | hq
  · rfl
  · rfl
  · cases q <;> first | rfl | cases hq

/-- **The step of a transfer thread.** -/
theorem thread_step (hth : s.threads tid = some th) (h : threadStep env tid s = .ok s') :
    ∃ op, Outcome c s (.thread tid env) s' op := by
  have hquiet : ∀ {pc : Pc}, th.pc = pc → pc.quiet = true → th.pc.quiet = true := fun e h => e ▸ h
  cases thread_round hth h with
  | refuse hr hx _ => exact ⟨_, .finish hth (refuses_quiet hr) (Same.emit _ _)⟩
  | offset hpc hx => exact ⟨_, .advance hth (hquiet hpc rfl) (Same.refl _) rfl rfl rfl⟩
  | clear hpc hx => exact ⟨_, .advance hth (hquiet hpc rfl) (Same.put hx rfl) rfl rfl rfl⟩
  | openat hpc hx _ _ =>
    have hq := hquiet hpc rfl
    refine ⟨.openFile tid s.fds.lowest,
      .thread hth ?_ rfl rfl (quiet_closes hq).symm (quiet_drops hq).symm (Or.inl rfl) rfl rfl⟩
    rw [setThread_ledger]
    exact Ledger.Step.openFile (ledger_worker hth) lowest_free
  | on hw ho =>
    exact ⟨_, .advance hth (works_quiet hw) (Same.refl _) ho.sess ho.file
      (works_cleaning ho.follows hw)⟩
  | file hw _ ho =>
    exact ⟨_, .advance hth (works_quiet hw) (Same.emit _ _) ho.sess ho.file
      (works_cleaning ho.follows hw)⟩
  | opening hpc hx ho =>
    refine ⟨_, .advance hth (hquiet hpc rfl) (Same.emit _ _) ho.sess ho.file ?_⟩
    have hf := ho.follows
    rw [hpc] at hf
    rw [show _ = Pc.loop from hf]
    rfl
  | rmData hpc hx =>
    refine ⟨.rmData tid, .thread hth ?_ rfl rfl ?_ ?_ (Or.inl rfl) (closeOpt_tl _) (closeOpt_main _)⟩
    · rw [next, setThread_ledger, removefd, closeOpt_ledger]
      exact Ledger.Step.rmData (ledger_worker hth) (ledger_sess hx)
    · rw [Ledger.closes_rmData (ledger_worker hth) (ledger_sess hx), threadCloses, hpc, hx]
      rfl
    · rw [threadDrops, hpc]
      rfl
  | rmPasv hpc hx =>
    refine ⟨.rmPasv tid, .thread hth ?_ rfl rfl ?_ ?_ (Or.inl rfl) (closeOpt_tl _) (closeOpt_main _)⟩
    · rw [next, setThread_ledger, removefd, closeOpt_ledger]
      exact Ledger.Step.rmPasv (ledger_worker hth) (ledger_sess hx)
    · rw [Ledger.closes_rmPasv (ledger_worker hth) (ledger_sess hx), threadCloses, hpc, hx]
      rfl
    · rw [threadDrops, hpc]
      rfl
  | setPasv hpc hx =>
    refine ⟨.setPasv tid, .thread hth ?_ rfl rfl ?_ ?_ (Or.inl rfl) rfl rfl⟩
    · rw [next, setThread_ledger, put_ledger]
      exact Ledger.Step.setPasv (ledger_worker hth) hpc (ledger_sess hx)
    · rw [threadCloses, hpc]
      rfl
    · show ((s.ledger.workers tid).bind _) = _
      rw [threadDrops, ledger_worker hth, hpc, hx, Option.bind_some]
      show (s.ledger.sess th.sess).bind _ = _
      rw [ledger_sess hx]
      rfl
  | setData hpc hx =>
    refine ⟨.setData tid, .thread hth ?_ rfl rfl ?_ ?_ (Or.inl rfl) rfl rfl⟩
    · rw [next, setThread_ledger, put_ledger]
      exact Ledger.Step.setData (ledger_worker hth) (ledger_sess hx)
    · rw [threadCloses, hpc]
      rfl
    · rw [threadDrops, hpc]
      rfl
  | closeFile hpc =>
    refine ⟨.closeFile tid, .thread hth ?_ rfl rfl ?_ ?_ (Or.inl rfl) (closeOpt_tl _) (closeOpt_main _)⟩
    · rw [next, setThread_ledger, closeOpt_ledger]
      exact Ledger.Step.closeFile (ledger_worker hth)
    · rw [Ledger.closes_closeFile (ledger_worker hth), threadCloses, hpc]
      rfl
    · rw [threadDrops, hpc]
      rfl
  | final hpc hx _ => exact ⟨_, .advance hth (hquiet hpc rfl) (Same.emit _ _) rfl rfl rfl⟩
  | silent hpc hx _ => exact ⟨_, .advance hth (hquiet hpc rfl) (Same.refl _) rfl rfl rfl⟩
  | aborted hpc hx _ => exact ⟨_, .finish hth (hquiet hpc rfl) (Same.put_emit hx rfl)⟩
  | returns hpc hx _ => exact ⟨_, .finish hth (hquiet hpc rfl) (Same.refl _)⟩
  | idle hi => exact ⟨_, .idle hth (works_quiet (idles_works hi))⟩

end

end Myftpd
