import Myftpd.Eviction
import Myftpd.Fields
import Myftpd.Sequence

/-!
# The idle limit, over whole runs

`epoll_wait_timeout` ends the session whose node is the last of the list.  What the node knows is the
time at which the node was made or refreshed, in an `int`.  The history of a run keeps the time of the last
line that came in on the control connection of a session, or of the connection itself.

* `Times`       the latest reading of the clock, and the last activity of each session;
* `Registered`  a control connection in `sessinfo` has its node in `map_fd_toNode`;
* `Dated`       no node is older than the last activity of its session;
* `idle_iff`    whom the loop evicts.
-/

namespace Myftpd
open CMem Server

/-- the alarm that `start_cmdio_alarm` sets: none when the limit is 0 -/
def startCmdioAlarm (c : Conf) : Option Nat :=
  if c.idleSessionTimeout > 0 then some c.idleSessionTimeout else none

/-! ## the history of a run -/

/-- the latest reading of the clock, and the time of the last activity of every session -/
structure Times where
  clock : Option Int
  last : Sid → Option Int

/-- the session that the step hears of: by its control connection, or by the new connection -/
def active (c : Conf) (s : Server) (l : Label) : Option Sid :=
  match readsFrom c s l with
  | some (.ctrl, sid) => some sid
  | some _ => none
  | none => (admits c s l).map fun _ => s.nextSid

/-- the times after a step -/
def timesAfter (c : Conf) (g : Times) (s : Server) (l : Label) (_ : Server) : Times where
  clock := (clock l).or g.clock
  last := (active c s l).elim g.last fun sid => Function.update g.last sid (clock l)

/-- the server, with the times of the activities -/
def timed (c : Conf) : Runs.System (Server × Times) Label :=
  (sys c).recording ⟨none, fun _ => none⟩ (timesAfter c)

/-- the clock does not go back -/
def Steady (p : Server × Times) (l : Label) : Prop :=
  ∀ now ∈ (clock l).toList, ∀ t ∈ p.2.clock.toList, t ≤ now

instance (p : Server × Times) (l : Label) : Decidable (Steady p l) :=
  inferInstanceAs (Decidable (∀ now ∈ _, ∀ t ∈ _, _))

/-- A live session is evicted only when there is a limit, and at least the limit less `TIMEOUTSEG` has
passed since its last activity. -/
def NotPremature (c : Conf) (p : Server × Times) : Prop :=
  ∀ now sid, enabled p.1 (.evictOne now) → Steady p (.evictOne now) →
    ends c p.1 (.evictOne now) = some sid → (∃ x, p.1.heap sid = some x) →
    ∃ limit t, startCmdioAlarm c = some limit ∧ p.2.last sid = some t ∧ limit - TIMEOUTSEG ≤ now - t

/-- the eviction loop is about to look at the node of a live session -/
def LooksAt (s : Server) : Prop :=
  s.main = .evict ∧ ∃ n node x, s.tl.pLRU = some n ∧ s.tl.node n = some node ∧
    s.heap node.sess = some x

/-! ## the comparison -/

section
variable {x : ToNode} {now t : Int} {idle : Nat}

/-- what `isTimeout` compares with the limit, from the time that went into the node -/
theorem isTimeout_wrapped (ht : x.lastTime = wrapS 32 t) :
    TimeList.isTimeout x now idle = true ↔ (idle : Int) < (now - t + TIMEOUTSEG) % 2^32 := by
  unfold TimeList.isTimeout TimeList.sessTime
  rw [decide_eq_true_eq, ht]
  unfold wrapS wrapU32 TIMEOUTSEG
  omega

theorem isTimeout_late (ht : x.lastTime = wrapS 32 t) (h : t ≤ now)
    (ho : TimeList.isTimeout x now idle = true) : (idle : Int) - TIMEOUTSEG < now - t := by
  rw [isTimeout_wrapped ht] at ho
  have hnn : 0 ≤ now - t + TIMEOUTSEG := by
    unfold TIMEOUTSEG
    omega
  have hle : (now - t + TIMEOUTSEG) % 2^32 ≤ now - t + TIMEOUTSEG := by
    unfold TIMEOUTSEG at hnn ⊢
    omega
  omega

/-- a limit of 0 is passed at once, or one second later -/
theorem isTimeout_zero (ht : x.lastTime = wrapS 32 t) (now : Int) :
    TimeList.isTimeout x now 0 = true ∨ TimeList.isTimeout x (now + 1) 0 = true := by
  rw [isTimeout_wrapped ht, isTimeout_wrapped ht]
  unfold TIMEOUTSEG
  omega

end

theorem startCmdioAlarm_some {c : Conf} {limit : Nat} :
    startCmdioAlarm c = some limit ↔ c.idleSessionTimeout ≠ 0 ∧ c.idleSessionTimeout = limit := by
  unfold startCmdioAlarm
  rw [Option.ite_none_right_eq_some, Option.some.injEq, gt_iff_lt, Nat.pos_iff_ne_zero]

/-! ## control connections -/

namespace Ledger

variable {L L' : Ledger} {op : Op} {g f : Fd} {sid : Sid}

/-- a control connection in `sessinfo` is new, or was there and no session with this socket has ended -/
theorem Step.info_ctrl (h : L.Step op L') (hi : L'.info g = ⟨some ⟨.ctrl, f⟩, some sid⟩) :
    op = .enter g ∧ f = g ∧ sid = L.nextSid ∨
      op ≠ .enter g ∧ L.info g = ⟨some ⟨.ctrl, f⟩, some sid⟩ ∧
        ∀ j, op.ends = some j → L.ctrlOf j ≠ some g := by
  have same : L'.info = L.info → op ≠ .enter g → op.ends = none → op = .enter g ∧ f = g ∧ sid = L.nextSid ∨
      op ≠ .enter g ∧ L.info g = ⟨some ⟨.ctrl, f⟩, some sid⟩ ∧
        ∀ j, op.ends = some j → L.ctrlOf j ≠ some g := by
    intro e h1 h2
    rw [e] at hi
    exact Or.inr ⟨h1, hi, fun j hj => by rw [h2] at hj; cases hj⟩
  -- `sessinfo` has been cleared at the socket of the ended session
  have freed : ∀ {j : Sid} {x : Core}, L.sess j = some x →
      (L.freed j x).info g = ⟨some ⟨.ctrl, f⟩, some sid⟩ →
      L.info g = ⟨some ⟨.ctrl, f⟩, some sid⟩ ∧ ∀ i, some j = some i → L.ctrlOf i ≠ some g := by
    intro j x hx hf
    rw [freed_info] at hf
    split at hf
    · cases hf
    · rename_i hne
      refine ⟨hf, fun i e hc => ?_⟩
      obtain rfl := Option.some.inj e
      obtain ⟨y, hy, rfl⟩ := ctrlOf_some.mp hc
      rw [hx] at hy
      cases hy
      exact hne rfl
  cases h with
  | @enter fd _ _ =>
    change Function.update L.info fd _ g = _ at hi
    rw [Function.update_apply] at hi
    split at hi
    · rename_i e
      cases hi
      exact Or.inl ⟨by rw [e], e.symm, rfl⟩
    · rename_i hne
      exact Or.inr ⟨fun e => hne (Op.enter.inj e).symm, hi, nofun⟩
  | @refuse fd _ =>
    change Function.update L.info fd _ g = _ at hi
    rw [Function.update_apply] at hi
    split at hi
    · cases hi
    · exact Or.inr ⟨nofun, hi, nofun⟩
  | free hx => exact Or.inr ⟨nofun, freed hx hi⟩
  | evict hx => exact Or.inr ⟨nofun, freed hx hi⟩
  | @entry j x fd _ _ _ =>
    change Function.update L.info fd _ g = _ at hi
    rw [Function.update_apply] at hi
    split at hi
    · cases hi
    · exact Or.inr ⟨nofun, hi, nofun⟩
  | cwd _ _ => exact same (closeOpt_info ..) nofun rfl
  | list _ => exact same ((closeOpt_info ..).trans (closeOpt_info ..)) nofun rfl
  | rmData _ _ => exact same (closeOpt_info ..) nofun rfl
  | rmPasv _ _ => exact same (closeOpt_info ..) nofun rfl
  | closeFile _ => exact same (closeOpt_info ..) nofun rfl
  | _ => exact same rfl nofun rfl

theorem Step.nextSid_enter (h : L.Step (.enter g) L') : L'.nextSid = L.nextSid + 1 := by
  cases h with
  | enter _ _ => rfl

end Ledger

/-- A control connection in `sessinfo` names its own descriptor and a live session that has it as control
socket, and `map_fd_toNode` finds the node of this session. -/
def Registered (s : Server) : Prop :=
  ∀ g f sid, s.sessinfo g = ⟨some ⟨.ctrl, f⟩, some sid⟩ → f = g ∧ s.ledger.ctrlOf sid = some g ∧
    ∃ n, s.tl.map g = some n ∧ s.tl.sess n = some sid

section
variable {c : Conf} {s s' : Server} {l : Label} {ns : List Nid}

theorem registered_step {op : Op} (ho : Outcome c s l s' op) (hn : s.ledger.Numbered)
    (hl : s.tl.Linked s.ledger.ctrlOf s.nextSid ns) (h : Registered s) : Registered s' := by
  intro g f sid hi
  have htl := ho.tl
  rcases ho.step.info_ctrl hi with ⟨rfl, rfl, rfl⟩ | ⟨hne, hold, hend⟩
  · obtain ⟨now, e⟩ := htl
    obtain ⟨-, hc⟩ := ho.step.ctrl_enter
    refine ⟨rfl, ?_, s.tl.nextNid, ?_, ?_⟩
    · rw [hc, Function.update_self]
    · rw [e, TimeList.addtoNode_map, if_pos rfl]
    · rw [e, TimeList.addtoNode_sess, if_pos rfl]
      rfl
  obtain ⟨hfg, hc, n, hm, hs⟩ := h g f sid hold
  obtain ⟨x, hx, hxg⟩ := Ledger.ctrlOf_some.mp hc
  have hctrl : s'.ledger.ctrlOf sid = some g := by
    obtain ⟨y, hy, e⟩ := ho.step.alive hx (hn.sess sid x hx) fun e => hend sid e hc
    exact Ledger.ctrlOf_some.mpr ⟨y, hy, e.trans hxg⟩
  refine ⟨hfg, hctrl, n, ?_⟩
  have hsame : (s'.tl = s.tl ∨ ∃ fd now, s'.tl = s.tl.refreshTimeout fd now) →
      s'.tl.map g = some n ∧ s'.tl.sess n = some sid := by
    rintro (e | ⟨fd, now, e⟩)
    · rw [e]
      exact ⟨hm, hs⟩
    · rw [e, TimeList.refresh_map, TimeList.refresh_sess]
      exact ⟨hm, hs⟩
  cases op with
  | enter fd =>
    obtain ⟨now, e⟩ := htl
    have hg : g ≠ fd := fun e => hne (congrArg Op.enter e.symm)
    have hnew : n ≠ s.tl.nextNid := Nat.ne_of_lt (hl.fresh n (hl.map g n hm))
    rw [e, TimeList.addtoNode_map, TimeList.addtoNode_sess, if_neg hg, if_neg hnew]
    exact ⟨hm, hs⟩
  | evict j =>
    obtain ⟨m, node, y, -, hnode, rfl, hy, e⟩ := htl
    have hj := hend node.sess rfl
    have hg : g ≠ y.ctrlFd := fun e => hj (ctrlOf_ledger.mpr ⟨y, hy, e.symm⟩)
    have hnm : n ≠ m := by
      intro e
      unfold TimeList.sess at hs
      rw [e, hnode] at hs
      cases hs
      exact hj hc
    rw [e, TimeList.remove_map, TimeList.remove_sess, if_neg hg, if_neg hnm]
    exact ⟨hm, hs⟩
  | _ => exact hsame htl

theorem ctrl_refreshes {sid : Sid} (h : readsFrom c s l = some (.ctrl, sid)) :
    ∃ g f, s.sessinfo g = ⟨some ⟨.ctrl, f⟩, some sid⟩ ∧ refreshes c s l = some f := by
  unfold readsFrom at h
  split at h
  · split at h
    · rename_i ev evs hm
      split at h
      · rename_i f j hi
        obtain ⟨h1, h2⟩ := Option.ite_none_right_eq_some.mp h
        cases f with
        | mk type fd =>
          cases h2
          refine ⟨ev.fd, fd, hi, ?_⟩
          unfold refreshes
          simp only [hm, hi, Option.bind_some]
          exact if_pos h1
      · cases h
    · cases h
  · cases h

/-! ## the times in the nodes -/

/-- Every node belongs to another session, and holds a time between the last activity of this session and
the latest reading of the clock. -/
structure Dated (s : Server) (g : Times) : Prop where
  fresh : ∀ n x, s.tl.node n = some x → n < s.tl.nextNid ∧ x.sess < s.nextSid
  inj : ∀ m n x y, s.tl.node m = some x → s.tl.node n = some y → x.sess = y.sess → m = n
  dated : ∀ n x, s.tl.node n = some x → ∃ u t now, g.last x.sess = some u ∧ u ≤ t ∧
    x.lastTime = wrapS 32 t ∧ g.clock = some now ∧ t ≤ now

variable {g g' : Times} {env : Env} {now : Int} {conn : Conn}

theorem Steady.reading {p : Server × Times} {t : Int} (h : Steady p l) (hl : clock l = some now)
    (ht : p.2.clock = some t) : t ≤ now := by
  refine h now ?_ t ?_
  · rw [hl]
    exact List.mem_singleton_self now
  · rw [ht]
    exact List.mem_singleton_self t

theorem clock_later (hc : Steady (s, g) l) (t : Int) (ht : g.clock = some t) :
    ∃ t', (timesAfter c g s l s').clock = some t' ∧ t ≤ t' := by
  show ∃ t', (clock l).or g.clock = some t' ∧ _
  cases hl : clock l with
  | none => exact ⟨t, ht, le_refl t⟩
  | some now => exact ⟨now, rfl, hc.reading hl ht⟩

theorem timesAfter_none (h : active c s l = none) : (timesAfter c g s l s').last = g.last := by
  show (active c s l).elim _ _ = _
  rw [h]
  rfl

theorem timesAfter_some {sid : Sid} (h : active c s l = some sid) (j : Sid) :
    (timesAfter c g s l s').last j = if j = sid then clock l else g.last j := by
  unfold timesAfter
  rw [h]
  exact Function.update_apply ..

theorem active_dispatch (c : Conf) (s : Server) (now : Int) (env : Env) :
    active c s (.dispatch now env) = none ∨
    ∃ sid, active c s (.dispatch now env) = some sid ∧
      readsFrom c s (.dispatch now env) = some (.ctrl, sid) := by
  unfold active
  split
  · rename_i sid h
    exact Or.inr ⟨sid, rfl, h⟩
  · exact Or.inl rfl
  · exact Or.inl rfl

theorem refreshed_node {tl : TimeList} {fd : Fd} {m : Nid} {x : ToNode}
    (h : (tl.refreshTimeout fd now).node m = some x) : ∃ y, tl.node m = some y ∧ x.sess = y.sess ∧
      (tl.map fd = some m ∧ x.lastTime = wrapS 32 now ∨ tl.map fd ≠ some m ∧ x = y) := by
  unfold TimeList.refreshTimeout at h
  split at h
  · rename_i hn
    exact ⟨x, h, rfl, Or.inr ⟨by rw [hn]; exact nofun, rfl⟩⟩
  · rename_i n hn
    change Function.update tl.node n _ m = some x at h
    rw [Function.update_apply] at h
    split at h
    · rename_i e
      subst e
      obtain ⟨y, hy, rfl⟩ := Option.map_eq_some_iff.mp h
      exact ⟨y, hy, rfl, Or.inl ⟨hn, rfl⟩⟩
    · rename_i hne
      exact ⟨x, h, rfl, Or.inr ⟨fun e => hne (Option.some.inj (hn.symm.trans e)).symm, rfl⟩⟩

theorem Dated.sub (h : Dated s g) (hnode : ∀ n x, s'.tl.node n = some x → s.tl.node n = some x)
    (hnid : s'.tl.nextNid = s.tl.nextNid) (hsid : s.nextSid ≤ s'.nextSid) (hlast : g'.last = g.last)
    (hclock : ∀ t, g.clock = some t → ∃ t', g'.clock = some t' ∧ t ≤ t') : Dated s' g' where
  fresh := by
    intro n x hx
    obtain ⟨h1, h2⟩ := h.fresh n x (hnode n x hx)
    rw [hnid]
    exact ⟨h1, lt_of_lt_of_le h2 hsid⟩
  inj := fun m n x y hx hy => h.inj m n x y (hnode m x hx) (hnode n y hy)
  dated := by
    intro n x hx
    obtain ⟨u, t, now, hu, hut, ht, hnow, htn⟩ := h.dated n x (hnode n x hx)
    obtain ⟨t', ht', hle⟩ := hclock now hnow
    rw [hlast]
    exact ⟨u, t, t', hu, hut, ht, ht', htn.trans hle⟩

/-- the node of a session that is heard of is the one that is refreshed -/
theorem Dated.active_node (h : Dated s g) (hr : Registered s) {fd : Fd} {sid : Sid} {m : Nid} {y : ToNode}
    (hf : readsFrom c s l = some (.ctrl, sid)) (hfd : refreshes c s l = some fd)
    (hy : s.tl.node m = some y) (hs : y.sess = sid) : s.tl.map fd = some m := by
  obtain ⟨i, f, hi, hf'⟩ := ctrl_refreshes hf
  obtain ⟨rfl, -, n, hn, hsess⟩ := hr i f sid hi
  cases hfd.symm.trans hf'
  obtain ⟨z, hz, hzs⟩ := Option.map_eq_some_iff.mp hsess
  rw [hn, h.inj n m z y hz hy (hzs.trans hs.symm)]

theorem Dated.refresh (h : Dated s g) (hr : Registered s) {fd : Fd}
    (hfd : refreshes c s (.dispatch now env) = some fd) (hc : Steady (s, g) (.dispatch now env))
    (htl : s'.tl = s.tl.refreshTimeout fd now) (hsid : s.nextSid ≤ s'.nextSid) :
    Dated s' (timesAfter c g s (.dispatch now env) s') where
  fresh := by
    intro n x hx
    rw [htl] at hx ⊢
    obtain ⟨y, hy, e, -⟩ := refreshed_node hx
    obtain ⟨h1, h2⟩ := h.fresh n y hy
    rw [TimeList.refresh_nextNid, e]
    exact ⟨h1, lt_of_lt_of_le h2 hsid⟩
  inj := by
    intro m n x y hx hy e
    rw [htl] at hx hy
    obtain ⟨x', hx', ex, -⟩ := refreshed_node hx
    obtain ⟨y', hy', ey, -⟩ := refreshed_node hy
    exact h.inj m n x' y' hx' hy' (ex.symm.trans (e.trans ey))
  dated := by
    intro n x hx
    rw [htl] at hx
    obtain ⟨y, hy, e, hcase⟩ := refreshed_node hx
    obtain ⟨u, t, t₀, hu, hut, ht, ht₀, hle⟩ := h.dated n y hy
    have hnow : t₀ ≤ now := hc.reading rfl ht₀
    have hold : active c s (.dispatch now env) ≠ some y.sess →
        (timesAfter c g s (.dispatch now env) s').last x.sess = some u := by
      intro hne
      rw [e]
      rcases active_dispatch c s now env with ha | ⟨sid, ha, -⟩
      · rw [timesAfter_none ha, hu]
      · rw [timesAfter_some ha, if_neg fun e' => hne (ha.trans (congrArg some e'.symm)), hu]
    rcases hcase with ⟨hm, hx'⟩ | ⟨hm, rfl⟩
    · by_cases ha : active c s (.dispatch now env) = some y.sess
      · refine ⟨now, now, now, ?_, le_refl now, hx', rfl, le_refl now⟩
        rw [timesAfter_some ha, if_pos e]
        rfl
      · exact ⟨u, now, now, hold ha, hut.trans (hle.trans hnow), hx', rfl, le_refl now⟩
    · refine ⟨u, t, now, hold fun ha => hm ?_, hut, ht, rfl, hle.trans hnow⟩
      rcases active_dispatch c s now env with hn | ⟨sid, hs, hf⟩
      · rw [hn] at ha
        cases ha
      · cases hs.symm.trans ha
        exact h.active_node hr hf hfd hy rfl

theorem Dated.admit (h : Dated s g) {fd : Fd} (ha : admits c s (.acceptOne conn) ≠ none)
    (hc : Steady (s, g) (.acceptOne conn)) (htl : s'.tl = s.tl.addtoNode s.nextSid fd conn.now)
    (hsid : s.nextSid < s'.nextSid) : Dated s' (timesAfter c g s (.acceptOne conn) s') := by
  have hact : active c s (.acceptOne conn) = some s.nextSid := by
    obtain ⟨ip, hip⟩ := Option.ne_none_iff_exists'.mp ha
    show (admits c s (.acceptOne conn)).map _ = _
    rw [hip]
    rfl
  have hnode : ∀ n x, s'.tl.node n = some x →
      n = s.tl.nextNid ∧ x = ⟨s.nextSid, wrapS 32 conn.now⟩ ∨ s.tl.node n = some x := by
    intro n x hx
    rw [htl] at hx
    change Function.update s.tl.node s.tl.nextNid _ n = some x at hx
    rw [Function.update_apply] at hx
    split at hx
    · rename_i e
      cases hx
      exact Or.inl ⟨e, rfl⟩
    · exact Or.inr hx
  have hnid : s'.tl.nextNid = s.tl.nextNid + 1 := by
    rw [htl]
    rfl
  refine ⟨fun n x hx => ?_, fun m n x y hx hy e => ?_, fun n x hx => ?_⟩
  · rw [hnid]
    rcases hnode n x hx with ⟨rfl, rfl⟩ | hx
    · exact ⟨Nat.lt_succ_self _, hsid⟩
    · obtain ⟨h1, h2⟩ := h.fresh n x hx
      exact ⟨Nat.lt_succ_of_lt h1, h2.trans hsid⟩
  · rcases hnode m x hx with ⟨rfl, rfl⟩ | hx
    · rcases hnode n y hy with ⟨rfl, rfl⟩ | hy
      · rfl
      · exact absurd (h.fresh n y hy).2 (e ▸ Nat.lt_irrefl _)
    · rcases hnode n y hy with ⟨rfl, rfl⟩ | hy
      · exact absurd (h.fresh m x hx).2 (e ▸ Nat.lt_irrefl _)
      · exact h.inj m n x y hx hy e
  · rw [timesAfter_some hact]
    rcases hnode n x hx with ⟨rfl, rfl⟩ | hx
    · exact ⟨conn.now, conn.now, conn.now, if_pos rfl, le_refl _, rfl, rfl, le_refl _⟩
    · obtain ⟨u, t, t₀, hu, hut, ht, ht₀, hle⟩ := h.dated n x hx
      obtain ⟨t', ht', hle'⟩ : ∃ t', (timesAfter c g s (.acceptOne conn) s').clock = some t' ∧ t₀ ≤ t' :=
        clock_later hc t₀ ht₀
      rw [if_neg (Nat.ne_of_lt (h.fresh n x hx).2)]
      exact ⟨u, t, t', hu, hut, ht, ht', hle.trans hle'⟩

/-- **One step** keeps the times of the nodes in line with the history. -/
theorem dated_step (hen : enabled s l) (he : exec c s l = .ok s') (hr : Registered s) (h : Dated s g)
    (hc : Steady (s, g) l) : Dated s' (timesAfter c g s l s') := by
  obtain ⟨op, ho⟩ := exec_step hen he
  have hsid : s.nextSid ≤ s'.nextSid := ho.step.nextSid_le
  have htl := exec_tl hen he
  have hsame : s'.tl = s.tl → active c s l = none → Dated s' (timesAfter c g s l s') := by
    intro e ha
    exact h.sub (fun n x hx => by rw [e] at hx; exact hx) (by rw [e]) hsid (timesAfter_none ha)
      (clock_later hc)
  cases l with
  | dispatch now env =>
    change s'.tl = (refreshes c s (.dispatch now env)).elim _ _ at htl
    cases hf : refreshes c s (.dispatch now env) with
    | none =>
      rw [hf] at htl
      apply hsame htl
      rcases active_dispatch c s now env with ha | ⟨sid, -, hs⟩
      · exact ha
      · obtain ⟨-, f, -, hf'⟩ := ctrl_refreshes hs
        cases hf.symm.trans hf'
    | some fd =>
      rw [hf] at htl
      exact h.refresh hr hf hc htl hsid
  | acceptOne conn =>
    change s'.tl = (admits c s (.acceptOne conn)).elim _ _ at htl
    cases ha : admits c s (.acceptOne conn) with
    | none =>
      rw [ha] at htl
      apply hsame htl
      show (admits c s (.acceptOne conn)).map _ = _
      rw [ha]
      rfl
    | some ip =>
      rw [ha] at htl
      have hne : admits c s (.acceptOne conn) ≠ none := by
        rw [ha]
        exact Option.some_ne_none ip
      obtain ⟨fd, rfl⟩ := (enter_iff ho (exec_books hen he)).mpr hne
      apply h.admit hne hc htl
      exact Nat.lt_of_lt_of_eq (Nat.lt_succ_self s.nextSid) ho.step.nextSid_enter.symm
  | evictOne now =>
    change s'.tl = (s.tl.pLRU.bind _).getD s.tl at htl
    cases hm : s.tl.pLRU.bind fun n => ((ends c s (.evictOne now)).bind s.heap).map fun x =>
        s.tl.remove n x.ctrlFd with
    | none =>
      rw [hm] at htl
      exact hsame htl rfl
    | some tl =>
      rw [hm] at htl
      obtain ⟨n, -, hn⟩ := Option.bind_eq_some_iff.mp hm
      obtain ⟨x, -, rfl⟩ := Option.map_eq_some_iff.mp hn
      refine h.sub (fun m y hy => ?_) (by rw [htl]; rfl) hsid (timesAfter_none rfl) (clock_later hc)
      rw [htl] at hy
      change Function.update s.tl.node n none m = some y at hy
      rw [Function.update_apply] at hy
      split at hy
      · cases hy
      · exact hy
  | _ => exact hsame htl rfl

theorem dated_reach {p : Server × Times} (h : Runs.Reach (timed c) Steady p) :
    Registered p.1 ∧ Dated p.1 p.2 := by
  refine Runs.Reach.noted (J := fun s => s.ledger.Numbered ∧
      ∃ ns, s.tl.Linked s.ledger.ctrlOf s.nextSid ns)
    (I := fun p => Registered p.1 ∧ Dated p.1 p.2)
    (fun s hs => ⟨numbered_reach hs, linked_reach hs⟩) ?_ ?_ h
  · rintro s ⟨fds, -, rfl⟩
    refine ⟨fun g f sid hi => ?_, nofun, nofun, nofun⟩
    have hb : Function.update (fun _ => Edata.null) c.listenfd ⟨some ⟨.listen, c.listenfd⟩, none⟩ g =
        ⟨some ⟨.ctrl, f⟩, some sid⟩ := hi
    rw [Function.update_apply] at hb
    split at hb
    · cases hb
    · cases hb
  · rintro s g l s' ⟨hn, ns, hl⟩ ⟨hr, hd⟩ hc ⟨hen, he⟩
    obtain ⟨op, ho⟩ := exec_step hen he
    exact ⟨registered_step ho hn hl hr, dated_step hen he hr hd hc⟩

/-! ## whom the loop evicts -/

theorem overdue_of {sid : Sid} (h : overdue c now s = some sid) : ∃ n node, s.tl.pLRU = some n ∧
    s.tl.node n = some node ∧ TimeList.isTimeout node now c.idleSessionTimeout = true ∧
    node.sess = sid := by
  unfold overdue at h
  split at h
  · cases h
  · rename_i n hn
    split at h
    · cases h
    · rename_i node hnode
      obtain ⟨ht, e⟩ := Option.ite_none_right_eq_some.mp h
      exact ⟨n, node, hn, hnode, ht, Option.some.inj e⟩

/-- the loop is about to look at a live session -/
def looksAt (s : Server) : Bool :=
  decide (s.main = .evict) &&
    (s.tl.pLRU.bind fun n => (s.tl.node n).bind fun node => s.heap node.sess).isSome

theorem looksAt_spec {s : Server} (h : looksAt s = true) : LooksAt s := by
  unfold looksAt at h
  rw [Bool.and_eq_true, decide_eq_true_eq] at h
  obtain ⟨hm, h⟩ := h
  obtain ⟨x, hx⟩ := Option.isSome_iff_exists.mp h
  obtain ⟨n, hn, hx⟩ := Option.bind_eq_some_iff.mp hx
  obtain ⟨node, hnode, hx⟩ := Option.bind_eq_some_iff.mp hx
  exact ⟨hm, n, node, x, hn, hnode, hx⟩

/-- a client connects and sends nothing, and the wait runs out -/
def idleRun : List Label := connects ++ [.timeout]

/-- the sample server without an idle limit -/
def limitless : Conf := { sampleConf with idleSessionTimeout := 0 }

end

end Myftpd
