import Myftpd.Faults
import Myftpd.Watch

/-!
# The events of one batch

`epoll_wait` returns pointers into `sessinfo`; they are followed one after the other, after whatever the
earlier events of the batch have done.  An event is still good when it is its turn if nobody has closed
its descriptor in between, and if every registration belongs to its session to begin with (`OnePasv`).

* `Ledger.Listening`    the listening socket stays open and in nobody's record;
* `Stop.dangling`       the stops that a stale event leads to;
* `batch_undisturbed`   the runs in which no waiting event goes stale.
-/

namespace Myftpd
open CMem Server

namespace Ledger

section
variable {L L' : Ledger} {op : Op} {lf g : Fd}

/-- the listening socket is open, and in no record of a session or a thread -/
structure Listening (lf : Fd) (L : Ledger) : Prop where
  info : L.info lf = ⟨some ⟨.listen, lf⟩, none⟩
  opened : L.desc lf ≠ none
  sess : ∀ sid x, L.sess sid = some x → lf ∉ x.fds
  file : ∀ tid w, L.workers tid = some w → w.file ≠ some lf

theorem Listening.not_closed (hl : L.Listening lf) (h : L.Step op L') : lf ∉ op.closes L := by
  intro hg
  rcases mem_closes h hg with ⟨j, z, hz, e⟩ | ⟨tid, w, hw, e⟩
  · exact hl.sess j z hz e
  · exact hl.file tid w hw e

theorem Step.listening (h : L.Step op L') (hl : L.Listening lf) : L'.Listening lf where
  info := by
    rcases h.info lf with e | e | ⟨j, x, he, hx, e⟩ | ⟨j, x, -, hx, hp, -⟩
    · exact e.trans hl.info
    · exact absurd e hl.opened
    · exact absurd (mem_fds.mpr (Or.inl e)) (hl.sess j x hx)
    · exact absurd (mem_fds.mpr (Or.inr (Or.inr (Or.inl hp)))) (hl.sess j x hx)
  opened := by
    rcases h.desc lf with e | e | e
    · rw [e]
      exact hl.opened
    · exact absurd e hl.opened
    · exact absurd e (hl.not_closed h)
  sess := by
    intro sid x hx hg
    rcases h.fds hx hg with e | ⟨z, hz, e⟩
    · exact hl.opened e
    · exact hl.sess sid z hz e
  file := by
    intro tid w hw hg
    rcases h.file hw hg with e | ⟨u, hu, e⟩
    · exact hl.opened e
    · exact hl.file tid u hu e

theorem closeOpt_kept {o : Option Fd} (hw : L.watch g = true) (hc : g ∉ o.toList) :
    (L.closeOpt o).watch g = true := by
  rw [closeOpt_watch, if_neg fun e => hc (Option.mem_toList.mpr e)]
  exact hw

theorem freed_kept {sid : Sid} {x : Core} (hw : L.watch g = true)
    (hc : g ∉ x.ctrl :: (x.data.toList ++ x.pasv.toList)) : (L.freed sid x).watch g = true := by
  rw [List.mem_cons, List.mem_append, Option.mem_toList, Option.mem_toList] at hc
  rw [freed_watch, if_neg fun e => hc ?_]
  · exact hw
  · rcases e with e | e | e
    exacts [Or.inr (Or.inr e), Or.inr (Or.inl e), Or.inl e]

/-- **A registration stays as long as the descriptor is open.** -/
theorem Step.watch_kept (h : L.Step op L') (hw : L.watch g = true) (ho : L.WatchOpen)
    (hc : g ∉ op.closes L) : L'.watch g = true := by
  have hset : ∀ {fd : Fd} {b : Bool}, L.desc fd = none →
      Function.update L.watch fd b g = true := by
    intro fd b hf
    rw [Function.update_of_ne (fun e => ho g hw (by rw [e, hf]))]
    exact hw
  cases h with
  | stay => exact hw
  | enter hf _ => exact hset hf
  | refuse hf => exact hset hf
  | free hx => exact freed_kept hw (closes_free hx ▸ hc)
  | evict hx => exact freed_kept hw (closes_evict hx ▸ hc)
  | dataConn _ _ _ => exact hw
  | pass _ _ => exact hw
  | noDir _ => exact hw
  | @cwd sid x fd k hx _ =>
    exact closeOpt_kept (L := L.alloc fd (.cwd sid k)) hw (closes_cwd hx ▸ hc)
  | pasv _ _ => exact hw
  | entry _ _ _ => exact hw
  | @enroll sid x fd _ _ _ _ =>
    show Function.update L.watch fd true g = true
    rw [Function.update_apply]
    split
    · rfl
    · exact hw
  | @list sid x hx =>
    rw [closes_list hx, List.mem_append, not_or] at hc
    exact closeOpt_kept (closeOpt_kept hw hc.1) hc.2
  | start _ => exact hw
  | advance _ _ => exact hw
  | openFile _ _ => exact hw
  | rmData ht hx => exact closeOpt_kept hw (closes_rmData ht hx ▸ hc)
  | rmPasv ht hx => exact closeOpt_kept hw (closes_rmPasv ht hx ▸ hc)
  | setPasv _ _ _ => exact hw
  | setData _ _ => exact hw
  | closeFile ht => exact closeOpt_kept hw (closes_closeFile ht ▸ hc)
  | finish _ => exact hw

end

end Ledger

/-! ## how an event or a command can stop the process -/

/-- the stops that a stale event leads to: a NULL `fd_in` or `sess`, a freed session, and the
`ERR_EXIT` of `processDataRead` -/
def Stop.dangling : Stop → Bool
  | .crash .nullEdata => true
  | .crash .freed => true
  | .exit .pasvListen => true
  | _ => false

section
variable {c : Conf} {env : Env} {s : Server} {sid : Sid} {x : Session} {e : Stop}

theorem closeSess_stop (hx : s.heap sid = some x) (h : s.closeSess sid = .error e) :
    e.dangling = false := by
  by_cases hb : x.ctrlFd < MAX_SESSIONS
  · rw [closeSess_eq hx hb] at h
    cases h
  · unfold closeSess setSessinfo at h
    simp only [hx, if_neg hb] at h
    cases h
    rfl

theorem setSessinfo_stop {fd : Fd} {d : Edata} (h : s.setSessinfo fd d = .error e) :
    e.dangling = false := by
  unfold setSessinfo at h
  split at h
  · cases h
  · cases h
    rfl

theorem doPass_stop (h : doPass c env sid x s = .error e) : e.dangling = false := by
  unfold doPass at h
  split at h
  · cases h
    rfl
  · split at h
    · split at h <;> cases h
    · cases h

theorem doPasv_stop (h : doPasv env sid x s = .error e) : e.dangling = false := by
  unfold doPasv at h
  split at h
  · cases h
    rfl
  · cases h

theorem pasvStep_stop {text : List UInt8} {pc : PasvPc} {evs : List Event} (hx : s.heap sid = some x)
    (h : pasvStep sid text pc evs s = .error e) : e.dangling = false := by
  unfold pasvStep at h
  simp only [hx] at h
  split at h
  · split at h <;> cases h
    rfl
  · cases h
    rfl
  · rename_i fd _
    cases hs : s.setSessinfo fd ⟨some ⟨.data, fd⟩, some sid⟩ with
    | error e' =>
      rw [hs] at h
      cases h
      exact setSessinfo_stop hs
    | ok t =>
      rw [hs] at h
      cases h
  · split at h <;> cases h
    rfl
  · cases h
    rfl

theorem handlerStep_stop {b : Bool} (hx : s.main.serves = some sid) (hl : s.heap sid = some x)
    (h : handlerStep b s = .error e) : e.dangling = false := by
  unfold handlerStep at h
  split at h
  · rename_i hm
    rw [hm] at hx
    cases hx
    exact pasvStep_stop hl h
  · rename_i hm
    rw [hm] at hx
    cases hx
    unfold replyStep at h
    split at h
    · cases h
    · simp only [hl] at h
      split at h
      · cases h
        rfl
      · cases h
  · cases h

theorem doList_stop (h : doList env sid x s = .error e) : e.dangling = false := by
  unfold doList at h
  split at h
  · cases h
  · unfold listCommon at h
    split at h
    · cases h
      rfl
    · split at h <;> cases h

theorem doSiteChmod_stop {a : List UInt8} (h : doSiteChmod env sid x s a = .error e) :
    e.dangling = false := by
  unfold doSiteChmod at h
  split at h
  · cases h
  · split at h
    · cases h
      rfl
    · split at h
      · cases h
      · split at h <;> cases h

theorem doSite_stop (h : doSite c env sid x s = .error e) : e.dangling = false := by
  unfold doSite at h
  split at h
  · cases h
    rfl
  · split at h
    · exact doSiteChmod_stop h
    · split at h
      · cases h
      · split at h <;> cases h

theorem handleCmd_stop (hx : s.heap sid = some x) (h : handleCmd c env sid s = .error e) :
    e.dangling = false := by
  unfold handleCmd at h
  simp only [hx] at h
  split at h
  · cases h
  · cases h
  · rename_i k _
    cases k with
    | pass => exact doPass_stop h
    | quit => exact closeSess_stop (s := answer sid x s FTP_GOODBYE "Goodbye.") hx h
    | pasv => exact doPasv_stop h
    | list => exact doList_stop h
    | nlst =>
      change doNlst env sid x s = _ at h
      unfold doNlst getTransferFd at h
      rw [if_pos rfl] at h
      cases h
    | site => exact doSite_stop h
    | _ => cases h

theorem processCtrlRead_stop {evs : List Event} (hx : s.heap sid = some x)
    (h : processCtrlRead sid evs s = .error e) : e.dangling = false := by
  unfold processCtrlRead at h
  simp only [hx] at h
  cases hr : ctrlRead (s.sock x.ctrlFd) with
  | error e' =>
    simp only [hr] at h
    cases h
    rw [ctrlRead_error hr]
    rfl
  | ok o =>
    rcases o with _ | ⟨m, k⟩
    · simp only [hr] at h
      exact closeSess_stop hx h
    · simp only [hr] at h
      split at h
      · cases h
        rfl
      · cases h

/-- **An event that is still good**: its descriptor is the listening socket, or `sessinfo` names the
live session that owns it. -/
theorem dispatch_stop {now : Int} {ev : Event} {evs : List Event}
    (hl : s.sessinfo c.listenfd = ⟨some ⟨.listen, c.listenfd⟩, none⟩)
    (ho : ev.fd = c.listenfd ∨ s.ledger.Owned ev.fd) (h : dispatch c env now ev evs s = .error e) :
    e.dangling = false := by
  unfold dispatch at h
  rcases ho with hf | ⟨t, sid, y, hi, hy, ho⟩
  · rw [hf, hl] at h
    simp only [↓reduceIte] at h
    cases h
  · obtain ⟨x, hx, rfl⟩ := Option.map_eq_some_iff.mp hy
    change s.sessinfo ev.fd = _ at hi
    rw [hi] at h
    dsimp only at h
    split at h
    · cases h
    · split at h
      · split at h
        · unfold processRead at h
          dsimp only at h
          rcases ho with ⟨rfl, -⟩ | ⟨rfl, e'⟩
          · rw [if_pos rfl] at h
            exact processCtrlRead_stop
              (s := { s.goto (.events evs) with tl := s.tl.refreshTimeout ev.fd now }) hx h
          · rw [if_neg nofun] at h
            unfold processDataRead at h
            change x.pasvListenFd = _ at e'
            simp only [show (s.goto (.events evs)).heap sid = some x from hx, e'] at h
            split at h <;> cases h
        · cases h
          rfl
      · split at h
        · cases h
        · split at h
          · exact closeSess_stop (s := s.goto (.events evs)) hx h
          · cases h

end

/-! ## runs -/

section
variable {c : Conf} {s s' : Server} {l : Label}

theorem listening_reach {C : Server → Label → Prop} (h : Reach c C s) :
    s.ledger.Listening c.listenfd := by
  refine Runs.Reach.inv (I := fun s => s.ledger.Listening c.listenfd) ?_ ?_ h
  · rintro s ⟨fds, hb, rfl⟩
    refine ⟨?_, ?_, nofun, nofun⟩
    · show Function.update (fun _ => Edata.null) c.listenfd _ c.listenfd = _
      exact Function.update_self ..
    · show fds.get c.listenfd ≠ none
      rw [hb.listen]
      exact Option.some_ne_none _
  · rintro s l s' hl - ⟨hen, he⟩
    obtain ⟨op, ho⟩ := exec_step hen he
    exact ho.step.listening hl

/-- the session whose command is being handled is live -/
def Commanding (s : Server) : Prop := ∀ sid, s.main.serves = some sid → ∃ x, s.heap sid = some x

theorem commanding_reach {C : Server → Label → Prop} (h : Reach c C s) : Commanding s := by
  refine Runs.Reach.inv_with (J := fun s => s.ledger.Numbered) (I := Commanding)
    (fun s h => numbered_reach h) ?_ ?_ h
  · rintro s ⟨fds, -, rfl⟩ sid hm
    cases hm
  · rintro s l s' hn hi - ⟨hen, he⟩ sid hm
    obtain ⟨op, ho⟩ := exec_step hen he
    rcases ho.handling sid hm with ⟨h1, h2⟩ | h2
    · obtain ⟨x, hx⟩ := hi sid h1
      have hx' := ledger_sess hx
      obtain ⟨y, hy, -⟩ := ho.step.alive hx' (hn.sess sid _ hx') (by rw [h2]; exact nofun)
      obtain ⟨x', hx', -⟩ := Option.map_eq_some_iff.mp hy
      exact ⟨x', hx'⟩
    · exact h2

/-- No step closes the descriptor of an event that waits in the current batch, and no listener is
forgotten. -/
def Undisturbed (c : Conf) (s : Server) (l : Label) : Prop :=
  OnePasv c s l ∧ ∀ fd ∈ closes c s l, ∀ ev ∈ waiting s l, ev.fd ≠ fd

instance (c : Conf) (s : Server) (l : Label) : Decidable (Undisturbed c s l) :=
  inferInstanceAs (Decidable (_ ∧ ∀ fd ∈ _, ∀ ev ∈ _, _))

theorem pending_reach (h : Reach c (Undisturbed c) s) :
    ∀ ev ∈ s.main.pending, s.watch ev.fd = true := by
  refine Runs.Reach.inv_with (J := fun s => s.ledger.WatchOpen)
    (I := fun s => ∀ ev ∈ s.main.pending, s.watch ev.fd = true) (fun s h => watchOpen_reach h) ?_ ?_ h
  · rintro s ⟨fds, -, rfl⟩
    exact nofun
  · rintro s l s' hw hi hc ⟨hen, he⟩ ev hev
    obtain ⟨op, ho⟩ := exec_step hen he
    rcases ho.pending with ⟨evs, rfl⟩ | hp
    · cases he
      exact hen.2.2.2.2 ev hev
    · have hwait : ev ∈ waiting s l := hp ev hev
      have hpend : ev ∈ s.main.pending := by
        unfold waiting at hwait
        split at hwait
        · exact List.mem_of_mem_tail hwait
        · exact hwait
      apply ho.step.watch_kept (g := ev.fd) (hi ev hpend) hw
      rw [ho.closesEq]
      exact fun hm => hc.2 ev.fd hm ev hwait rfl

/-- no event, no command and no further step of one follows a stale pointer -/
structure BatchSafe (c : Conf) (s : Server) : Prop where
  event : ∀ now env e, exec c s (.dispatch now env) = .error e → e.dangling = false
  command : ∀ env e, exec c s (.command env) = .error e → e.dangling = false
  onward : ∀ b e, enabled s (.onward b) → exec c s (.onward b) = .error e → e.dangling = false

theorem batchSafe_of (hl : s.ledger.Listening c.listenfd) (hr : Registrations c s)
    (hp : ∀ ev ∈ s.main.pending, s.watch ev.fd = true) (hc : Commanding s) : BatchSafe c s where
  event := by
    intro now env e h
    unfold exec at h
    dsimp only at h
    split at h
    · rename_i ev evs hm
      refine dispatch_stop hl.info ?_ h
      by_cases hf : ev.fd = c.listenfd
      · exact Or.inl hf
      · exact Or.inr (registrations_iff.mp hr ev.fd
          (hp ev (by rw [hm]; exact List.mem_cons_self)) hf)
    · cases h
  command := by
    intro env e h
    by_cases hm : ∃ sid evs, s.main = .command sid evs
    · obtain ⟨sid, evs, hm⟩ := hm
      rw [exec_command hm] at h
      obtain ⟨x, hx⟩ := hc sid (by rw [hm]; rfl)
      rcases piped_error h with h | rfl
      · exact handleCmd_stop (s := s.goto (.events evs)) hx h
      · rfl
    · unfold exec at h
      dsimp only at h
      split at h
      · rename_i sid evs hm'
        exact absurd ⟨sid, evs, hm'⟩ hm
      · cases h
  onward := by
    intro b e hen h
    obtain ⟨sid, hs⟩ := Option.ne_none_iff_exists'.mp (show s.main.inside ≠ none from hen)
    have hm : s.main.serves = some sid := serves_inside hs
    obtain ⟨x, hx⟩ := hc sid hm
    exact handlerStep_stop hm hx h

/-- **Events and commands meet only live sessions** in a run that closes no descriptor whose event
still waits, and forgets no listener. -/
theorem batch_undisturbed (h : Reach c (Undisturbed c) s) : BatchSafe c s :=
  batchSafe_of (listening_reach h) (registrations_reach (h.weaken fun _ _ hc => hc.1))
    (pending_reach h) (commanding_reach h)

end

/-- Two clients; in one batch the first quits, the second says NOOP, and a third connects. -/
def mixedRun : List Label :=
  connects ++ connects ++ [.arrive 5 (ascii "QUIT" ++ [CR, LF]), .arrive 6 (ascii "NOOP" ++ [CR, LF]),
    .wait [input 5, input 6, input 3], .dispatch 0 sampleEnv, .command sampleEnv,
    .dispatch 0 sampleEnv, .command sampleEnv]

/-- the batch is still running -/
theorem batch_undisturbed_mixed : ∃ s, Reach sampleConf (Undisturbed sampleConf) s ∧
    s.main = .events [input 3] ∧ BatchSafe sampleConf s := by
  obtain ⟨s, hs, hp⟩ := reach_of_play (p := fun s => decide (s.main = .events [input 3]))
    (sampleReach (Undisturbed sampleConf))
    (show (play sampleConf (Undisturbed sampleConf) sampleBoot mixedRun).any _ = true by
      decide +kernel)
  exact ⟨s, hs, of_decide_eq_true hp, batch_undisturbed hs⟩

/-- QUIT, and in the same batch a connection to the passive listener of the session -/
theorem event_after_quit : ¬ ∀ c s, Reach c Runs.Any s → BatchSafe c s := by
  intro h
  obtain ⟨s, hs, hp⟩ := reach_of_play
    (p := fun s => match exec sampleConf s (.dispatch 0 sampleEnv) with
      | .error (.crash .freed) => true
      | _ => false) (sampleReach Runs.Any)
    (show (play sampleConf Runs.Any sampleBoot (connects ++ sendsPasv 5 ++
      [.arrive 5 (ascii "QUIT" ++ [CR, LF]), .wait [input 5, input 6], .dispatch 0 sampleEnv,
        .command sampleEnv])).any _ = true by decide +kernel)
  cases he : exec sampleConf s (.dispatch 0 sampleEnv) with
  | ok t =>
    rw [he] at hp
    cases hp
  | error e =>
    rw [he] at hp
    split at hp
    · rename_i e' heq
      cases heq
      exact absurd ((h _ s hs).event 0 sampleEnv _ he) (by decide)
    · cases hp

end Myftpd
