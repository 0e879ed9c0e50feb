import Myftpd.Refine.Command

/-!
# Events, connections and evictions, and the ledger
-/

namespace Myftpd
open CMem Server

/-! ## an event -/

section
variable {c : Conf} {env : Env} {now : Int} {s s' : Server} {ev : Event} {evs : List Event}

theorem ends_dispatch (hm : s.main = .events (ev :: evs)) :
    ends c s (.dispatch now env) = eventEnds c s ev := by
  unfold ends
  simp only [hm]

theorem closes_dispatch (he : ends c s (.dispatch now env) = none) :
    closes c s (.dispatch now env) = [] := by
  unfold closes
  rw [he]

theorem Outcome.event {op : Op} (he : ends c s (.dispatch now env) = none)
    (hstep : s.ledger.Step op s'.ledger) (hends : op.ends = none) (hcl : op.closes s.ledger = [])
    (hd : op.drops s.ledger = none) (htl : TlAfter s s'.tl op)
    (hmain : ∀ e ∈ s'.main.pending, e ∈ waiting s (.dispatch now env))
    (hk : ∀ sid, s'.main.serves = some sid → ∃ x, s'.heap sid = some x) (hst : op.stage = none) :
    Outcome c s (.dispatch now env) s' op where
  step := hstep
  endsEq := by rw [he, hends]
  notEvict := nofun
  closesEq := by rw [closes_dispatch he, hcl]
  dropsEq := hd
  tl := htl
  pending := Or.inr hmain
  handling := fun sid e => Or.inr (hk sid e)
  stage := by rw [hst]; exact nofun

theorem Outcome.freed {t : Server} {sid : Sid} (he : ends c s (.dispatch now env) = some sid)
    (ht : t.ledger = s.ledger) (hh : t.heap = s.heap) (htl : TlAfter s t.tl (.free sid))
    (hmain : ∀ e ∈ t.main.pending, e ∈ waiting s (.dispatch now env))
    (hk : t.main.serves = none) (hc : t.closeSess sid = .ok s') :
    Outcome c s (.dispatch now env) s' (.free sid) := by
  obtain ⟨x, hx, -, rfl⟩ := closeSess_inv hc
  have hx' : s.heap sid = some x := hh ▸ hx
  refine ⟨?_, he.symm, nofun, ?_, rfl, ?_, Or.inr ?_, ?_, nofun⟩
  · rw [closed_ledger, ht]
    exact Ledger.Step.free (ledger_sess hx')
  · show (s.ledger.sess sid).elim [] _ = _
    unfold closes
    rw [ledger_sess hx', he]
    simp only [hx']
    rfl
  · rw [closed_tl]
    exact htl
  · rw [closed_main]
    exact hmain
  · rw [closed_main, hk]
    exact nofun

variable {sid : Sid} {f : FdT}

theorem mem_waiting (hm : s.main = .events (ev :: evs)) :
    ∀ e ∈ evs, e ∈ waiting s (.dispatch now env) := by
  unfold waiting
  rw [hm]
  exact fun e he => he

theorem eventEnds_hup (hi : s.sessinfo ev.fd = ⟨some f, some sid⟩) (hl : f.fd ≠ c.listenfd)
    (h1 : ev.epollin = false) (h2 : ev.epollout = false) (h3 : ev.epollhup = true) :
    eventEnds c s ev = some sid := by
  unfold eventEnds
  simp [hi, hl, h1, h2, h3]

theorem eventEnds_ctrl {x : Session} (hi : s.sessinfo ev.fd = ⟨some f, some sid⟩)
    (hl : f.fd ≠ c.listenfd) (h1 : ev.epollin = true) (ht : f.type = .ctrl)
    (hx : s.heap sid = some x) :
    eventEnds c s ev = match ctrlRead (s.sock x.ctrlFd) with
      | .ok none => some sid
      | _ => none := by
  unfold eventEnds
  rw [hi, h1]
  dsimp only
  rw [if_neg hl, if_pos rfl, hx]
  exact if_pos ht

theorem eventEnds_data (hi : s.sessinfo ev.fd = ⟨some f, some sid⟩) (h1 : ev.epollin = true)
    (ht : f.type ≠ .ctrl) : eventEnds c s ev = none := by
  unfold eventEnds
  simp only [hi, h1, if_neg ht, ↓reduceIte]
  split
  · rfl
  · split <;> rfl

theorem eventEnds_quiet (h1 : ev.epollin = false) (h2 : ev.epollout = true ∨ ev.epollhup = false) :
    eventEnds c s ev = none := by
  unfold eventEnds
  split
  · rw [h1]
    rcases h2 with h2 | h2 <;> simp [h2]
  · rfl

theorem eventEnds_listen (hi : (s.sessinfo ev.fd).fdIn = some f) (hl : f.fd = c.listenfd) :
    eventEnds c s ev = none := by
  unfold eventEnds
  split
  · rename_i g sid hg
    rw [hg] at hi
    cases hi
    rw [if_pos hl]
  · rfl

theorem ctrl_step (hm : s.main = .events (ev :: evs))
    (hi : s.sessinfo ev.fd = ⟨some f, some sid⟩) (hl : f.fd ≠ c.listenfd) (h1 : ev.epollin = true)
    (ht : f.type = .ctrl) (he : processCtrlRead sid evs (readied s evs f.fd now) = .ok s') :
    ∃ op, Outcome c s (.dispatch now env) s' op := by
  obtain ⟨x, hx, h⟩ := processCtrlRead_cases he
  have hends : ends c s (.dispatch now env) = _ :=
    (ends_dispatch hm).trans (eventEnds_ctrl hi hl h1 ht hx)
  rcases h with ⟨hk, hc⟩ | ⟨m, k, cmd, arg, hk, -, rfl⟩
  · -- end of file: the session is closed
    rw [show ctrlRead (s.sock x.ctrlFd) = _ from hk] at hends
    exact ⟨_, Outcome.freed (t := readied s evs f.fd now) hends rfl rfl (Or.inr ⟨_, _, rfl⟩)
      (mem_waiting hm) rfl hc⟩
  · rw [show ctrlRead (s.sock x.ctrlFd) = _ from hk] at hends
    refine ⟨.stay, Outcome.event hends ?_ rfl rfl rfl (Or.inr ⟨_, _, rfl⟩) (mem_waiting hm)
      (fun j e => ?_) rfl⟩
    · have hput : (s.put sid { x with cmd := cmd, arg := arg }).ledger = s.ledger :=
        put_same_ledger hx rfl
      exact (congrArg (s.ledger.Step _) hput).mpr Ledger.Step.stay
    · cases e
      exact ⟨_, Function.update_self ..⟩

theorem data_step (hm : s.main = .events (ev :: evs))
    (hi : s.sessinfo ev.fd = ⟨some f, some sid⟩) (h1 : ev.epollin = true) (ht : f.type ≠ .ctrl)
    (he : processDataRead env sid (readied s evs f.fd now) = .ok s') :
    ∃ op, Outcome c s (.dispatch now env) s' op := by
  have hends : ends c s (.dispatch now env) = none := (ends_dispatch hm).trans (eventEnds_data hi h1 ht)
  obtain ⟨x, p, hx, hpv, ⟨-, rfl⟩ | ⟨-, rfl⟩⟩ := processDataRead_cases he
  · refine ⟨.dataConn sid s.fds.lowest, Outcome.event hends ?_ rfl rfl rfl
      (Or.inr ⟨_, _, rfl⟩) (mem_waiting hm) nofun rfl⟩
    have hpc : x.core.pasv ≠ none := by
      show x.pasvListenFd ≠ none
      rw [hpv]
      exact Option.some_ne_none p
    refine (congrArg (s.ledger.Step _) ?_).mpr
      (Ledger.Step.dataConn (ledger_sess hx) hpc lowest_free)
    unfold Server.ledger Ledger.alloc Ledger.setSess
    congr 1
    exact Function.comp_update (Option.map Session.core) s.heap sid _
  · exact ⟨.stay, Outcome.event hends Ledger.Step.stay rfl rfl rfl (Or.inr ⟨_, _, rfl⟩)
      (mem_waiting hm) nofun rfl⟩

/-- **The event step.** -/
theorem dispatch_step (hm : s.main = .events (ev :: evs))
    (he : dispatch c env now ev evs s = .ok s') :
    ∃ op, Outcome c s (.dispatch now env) s' op := by
  have hd : ends c s (.dispatch now env) = eventEnds c s ev := ends_dispatch hm
  cases dispatch_cases he with
  | listen hf hl =>
    exact ⟨.stay, Outcome.event (hd.trans (eventEnds_listen hf hl)) Ledger.Step.stay rfl rfl rfl
      (Or.inl rfl) (mem_waiting hm) nofun rfl⟩
  | ctrl hi hl h1 ht hr => exact ctrl_step hm hi hl h1 ht hr
  | data hi hl h1 ht hr => exact data_step hm hi h1 ht hr
  | hup hi hl h1 h2 h3 hc =>
    exact ⟨_, Outcome.freed (t := s.goto (.events evs)) (hd.trans (eventEnds_hup hi hl h1 h2 h3))
      rfl rfl (Or.inl rfl) (mem_waiting hm) rfl hc⟩
  | quiet h1 h2 =>
    exact ⟨.stay, Outcome.event (hd.trans (eventEnds_quiet h1 h2)) Ledger.Step.stay rfl rfl rfl
      (Or.inl rfl) (mem_waiting hm) nofun rfl⟩

end

/-! ## a new connection, and the eviction loop -/

section
variable {c : Conf} {s s' : Server}

theorem beginConn_ledger : (beginConn s).ledger =
    { (s.ledger.alloc s.fds.lowest (.ctrl s.nextSid)).setSess s.nextSid
        (some ⟨s.fds.lowest, none, none, none⟩) with nextSid := s.nextSid + 1 } := by
  unfold Server.ledger Ledger.alloc Ledger.setSess beginConn
  congr 1
  exact Function.comp_update (Option.map Session.core) s.heap s.nextSid _

/-- **The accept step.** -/
theorem accept_step {conn : Conn} (he : handleNewConn c conn s = .ok s') :
    ∃ op, Outcome c s (.acceptOne conn) s' op := by
  unfold handleNewConn at he
  dsimp only at he
  split at he
  · -- refused: the session lives only inside the step
    obtain ⟨x, hx, -, rfl⟩ := closeSess_inv he
    obtain rfl : newSession s = x := by
      have h : (beginConn s).heap s.nextSid = some x := hx
      unfold beginConn put at h
      dsimp only at h
      rw [Function.update_self] at h
      exact Option.some.inj h
    refine ⟨.refuse s.fds.lowest, ?_, rfl, nofun, rfl, rfl, ?_, Or.inr ?_, ?_, nofun⟩
    · rw [closed_ledger]
      refine (congrArg (s.ledger.Step _) ?_).mpr (Ledger.Step.refuse lowest_free)
      show ((beginConn s).ledger).freed s.nextSid ⟨s.fds.lowest, none, none, none⟩ = _
      rw [beginConn_ledger]
      unfold Ledger.freed Ledger.refused Ledger.alloc Ledger.setSess Ledger.close Ledger.closeOpt
      simp only [Function.update_idem]
      rfl
    · rw [closed_tl]
      exact Or.inl rfl
    · rw [closed_main]
      exact fun ev hev => hev
    · rw [closed_main]
      exact fun _ h => Or.inl ⟨h, rfl⟩
  · obtain ⟨t, ht, he⟩ := bind_ok.mp he
    unfold setSessinfo at ht
    split at ht
    · rename_i hb
      cases ht
      cases he
      refine ⟨.enter s.fds.lowest, ?_, rfl, nofun, rfl, rfl, ⟨conn.now, rfl⟩,
        Or.inr fun ev hev => hev, fun _ h => Or.inl ⟨h, rfl⟩, nofun⟩
      refine (congrArg (s.ledger.Step _) ?_).mpr (Ledger.Step.enter lowest_free hb)
      unfold Server.ledger Ledger.admitted
      congr 1
      refine (Function.comp_update (Option.map Session.core) _ s.nextSid _).trans ?_
      have h2 : Option.map Session.core ∘ (beginConn s).heap = Function.update
          (fun sid => (s.heap sid).map Session.core) s.nextSid ((some (newSession s)).map Session.core) :=
        Function.comp_update (Option.map Session.core) s.heap s.nextSid _
      show Function.update (Option.map Session.core ∘ (beginConn s).heap) _ _ = _
      rw [h2, Function.update_idem]
      rfl
    · cases ht

theorem overdue_none {now : Int} (h : ∀ n, s.tl.pLRU = some n → ∃ node, s.tl.node n = some node ∧
    TimeList.isTimeout node now c.idleSessionTimeout = false) : overdue c now s = none := by
  unfold overdue
  cases hn : s.tl.pLRU with
  | none => rfl
  | some n =>
    obtain ⟨node, hnode, ht⟩ := h n hn
    simp only [hnode, ht, Bool.false_eq_true, ↓reduceIte]

theorem overdue_some {now : Int} {n : Nid} {node : ToNode} (hn : s.tl.pLRU = some n)
    (hnode : s.tl.node n = some node)
    (ht : TimeList.isTimeout node now c.idleSessionTimeout = true) :
    overdue c now s = some node.sess := by
  unfold overdue
  simp only [hn, hnode, if_pos ht]

/-- **The eviction step.** -/
theorem evict_step {now : Int} (hm : s.main = .evict) (he : Myftpd.evictOne c now s = .ok s') :
    ∃ op, Outcome c s (.evictOne now) s' op := by
  rcases evictOne_cases he with ⟨rfl, hstop⟩ | ⟨n, node, x, t, hn, hnode, ht, hx, hc, rfl⟩
  · have hends : ends c s (.evictOne now) = none := overdue_none hstop
    have hp : ∀ ev ∈ (Main.events []).pending, ev ∈ waiting s (.evictOne now) := nofun
    exact ⟨_, Outcome.stay (Same.refl _) hends (by unfold closes; rw [hends]) rfl hp nofun⟩
  · have hends : ends c s (.evictOne now) = some node.sess := overdue_some hn hnode ht
    obtain ⟨y, hy, -, rfl⟩ := closeSess_inv hc
    cases hx.symm.trans hy
    refine ⟨.evict node.sess, ?_, hends.symm, (fun sid h => by cases h), ?_, rfl, ?_, Or.inr ?_, ?_, nofun⟩
    · show s.ledger.Step _ (closed s node.sess x).ledger
      rw [closed_ledger]
      exact Ledger.Step.evict (ledger_sess hx)
    · show (s.ledger.sess node.sess).elim [] _ = _
      unfold closes
      rw [ledger_sess hx, hends]
      simp only [hx]
      rfl
    · exact ⟨n, node, x, hn, hnode, rfl, hx, by rw [closed_tl]⟩
    · show ∀ ev ∈ (closed s node.sess x).main.pending, _
      rw [closed_main]
      exact fun ev hev => hev
    · show ∀ sid, (closed s node.sess x).main.serves = some sid → _
      rw [closed_main, hm]
      exact nofun

/-! ## where the main loop goes -/

theorem dispatch_inside {env : Env} {now : Int} {ev : Event} {evs : List Event}
    (he : dispatch c env now ev evs s = .ok s') : s'.main.inside = none := by
  cases dispatch_cases he with
  | listen => rfl
  | ctrl _ _ _ _ hr =>
    obtain ⟨x, hx, ⟨-, hc⟩ | ⟨m, k, cmd, arg, -, -, rfl⟩⟩ := processCtrlRead_cases hr
    · obtain ⟨y, -, -, rfl⟩ := closeSess_inv hc
      rw [closed_main]
      rfl
    · rfl
  | data _ _ _ _ hr =>
    obtain ⟨x, p, -, -, ⟨-, rfl⟩ | ⟨-, rfl⟩⟩ := processDataRead_cases hr <;> rfl
  | hup _ _ _ _ _ hc =>
    obtain ⟨y, -, -, rfl⟩ := closeSess_inv hc
    rw [closed_main]
    rfl
  | quiet => rfl

theorem accept_main {conn : Conn} (he : handleNewConn c conn s = .ok s') : s'.main = s.main := by
  unfold handleNewConn at he
  dsimp only at he
  split at he
  · obtain ⟨x, hx, -, rfl⟩ := closeSess_inv he
    rw [closed_main]
    rfl
  · obtain ⟨t, ht, he⟩ := bind_ok.mp he
    unfold setSessinfo at ht
    split at ht
    · cases ht
      cases he
      rfl
    · cases ht

end

end Myftpd
