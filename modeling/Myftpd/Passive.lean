import Myftpd.Fields
import Myftpd.Transfers

/-!
# Passive listeners and their data connections

PASV writes `pasv_listen_fd` and leaves `data_fd` alone, an accepted connection writes `data_fd`, and a
transfer resets both when it cleans up, but not when it returns early.

* `DataConn`     the listeners of a session, and where the connection in `data_fd` came from;
* `Belongs`      it is the first one of the current listener;
* `LinksAfter`   the two fields after a step;
* `belongs_iff`  the runs in which this holds, and the steps that keep it.
-/

namespace Myftpd
open CMem Server

/-- the listeners that PASV has opened for a session, the connections accepted on the last of them, and
the origin of `data_fd`: the number of its listener, and its own number among the connections of this
listener; `late` when it was not the first of them, or PASV has come after it -/
structure DataConn where
  listeners : Nat
  accepted : Nat
  origin : Option (Nat × Nat)
  late : Bool

def noConns (_ : Sid) : DataConn := ⟨0, 0, none, true⟩

/-- the session that has PASV handled in the step -/
def listens (s : Server) : Label → Option Sid
  | .command env =>
    match handles s (.command env) with
    | some (sid, _, .pasv) => some sid
    | _ => none
  | _ => none

def connsAfter (c : Conf) (g : Sid → DataConn) (s : Server) (l : Label) (_ : Server) (j : Sid) : DataConn :=
  if listens s l = some j then
    { g j with listeners := (g j).listeners + 1, accepted := 0, late := true }
  else if accepts c s l = some j then
    { g j with
      accepted := (g j).accepted + 1
      origin := some ((g j).listeners, (g j).accepted + 1)
      late := decide ((g j).accepted ≠ 0) }
  else g j

/-- the server, with the data connections of its sessions -/
abbrev conns (c : Conf) : Runs.System (Server × (Sid → DataConn)) Label :=
  (sys c).recording noConns (connsAfter c)

/-- In a session with no transfer in progress, `data_fd` is the first connection that was accepted on the
current listener. -/
def Belongs (p : Server × (Sid → DataConn)) : Prop :=
  ∀ sid x, p.1.heap sid = some x → busy p.1 sid = false → x.dataFd ≠ none →
    x.pasvListenFd ≠ none ∧ (p.2 sid).origin = some ((p.2 sid).listeners, 1)

/-- the session whose only transfer thread returns in the step -/
def lastReturns (s : Server) : Label → Option Sid
  | .thread tid env => (s.threads tid).bind fun th => (s.heap th.sess).bind fun x =>
    if th.returns env x = true ∧ ∀ u ∈ List.range s.nextTid, u ≠ tid →
        (s.threads u).any (fun w => w.sess == th.sess) = false then some th.sess else none
  | _ => none

/-- the step leaves the data connection of every idle session the first one of its listener: PASV finds
no connection, no second one is accepted, and where the last transfer returns there is none, or no PASV and
no other connection has come since it was accepted as the first one -/
def KeepsFirst (c : Conf) (p : Server × (Sid → DataConn)) (l : Label) : Prop :=
  (∀ sid ∈ (listens p.1 l).toList, busy p.1 sid = false → (p.1.heap sid).bind Session.dataFd = none) ∧
    (∀ sid ∈ (accepts c p.1 l).toList, busy p.1 sid = false → (p.2 sid).accepted = 0) ∧
    ∀ sid ∈ (lastReturns p.1 l).toList, (p.1.heap sid).bind Session.dataFd = none ∨ (p.2 sid).late = false

instance (c : Conf) (p : Server × (Sid → DataConn)) (l : Label) : Decidable (KeepsFirst c p l) :=
  inferInstanceAs (Decidable ((∀ sid ∈ _, _ → _) ∧ (∀ sid ∈ _, _ → _) ∧ ∀ sid ∈ _, _ ∨ _))

section
variable {c : Conf} {s s' : Server} {l : Label} {env : Env} {sid j : Sid} {x y : Session} {fd : Fd}
  {g : Sid → DataConn}

theorem listens_handles (h : listens s l = some sid) : ∃ x, handles s l = some (sid, x, .pasv) := by
  unfold listens at h
  split at h
  · split at h
    · rename_i x e
      cases h
      exact ⟨_, e⟩
    · cases h
  · cases h

theorem listens_of (h : handles s (.command env) = some (sid, x, .pasv)) :
    listens s (.command env) = some sid := by
  unfold listens
  simp only [h]

/-! ## the two fields after a step -/

/-- `data_fd` and `pasv_listen_fd` of the session `j` after the step, which is `y` then -/
inductive LinksAfter (c : Conf) (s : Server) (l : Label) (j : Sid) (y : Session) : Prop where
  | cleared : y.dataFd = none → LinksAfter c s l j y
  | pasv {x : Session} : listens s l = some j → accepts c s l ≠ some j → s.heap j = some x →
      y.dataFd = x.dataFd → y.pasvListenFd ≠ none → LinksAfter c s l j y
  | accepted {x : Session} : listens s l ≠ some j → accepts c s l = some j → s.heap j = some x →
      y.dataFd ≠ none → y.pasvListenFd ≠ none → LinksAfter c s l j y
  | closing {x : Session} {tid : Tid} {tenv : TEnv} {th : Thread} : l = .thread tid tenv →
      s.threads tid = some th → th.sess = j → th.pc = .setPasv → s.heap j = some x →
      y.dataFd = x.dataFd → LinksAfter c s l j y
  | same {x : Session} : listens s l ≠ some j → accepts c s l ≠ some j → s.heap j = some x →
      y.dataFd = x.dataFd → y.pasvListenFd = x.pasvListenFd → LinksAfter c s l j y

theorem record_links (c : Conf) (env : Env) (x : Session) (fd : Fd) (h : Cmd) :
    (h.record c env x fd).dataFd = none ∨
    (h.record c env x fd).dataFd = x.dataFd ∧ (h = .pasv ∧ (h.record c env x fd).pasvListenFd = some fd ∨
      h ≠ .pasv ∧ (h.record c env x fd).pasvListenFd = x.pasvListenFd) := by
  have hw : h.Writes x fd (h.record c env x fd) := record_writes
  generalize h.record c env x fd = y at hw
  cases hw with
  | pasv => exact Or.inr ⟨rfl, Or.inl ⟨rfl, rfl⟩⟩
  | list => exact Or.inl rfl
  | keeps hne => exact Or.inr ⟨rfl, Or.inr ⟨hne, rfl⟩⟩
  | dir d hh => exact Or.inr ⟨rfl, Or.inr ⟨by rcases hh with rfl | rfl <;> nofun, rfl⟩⟩
  | rename o hh => exact Or.inr ⟨rfl, Or.inr ⟨by rcases hh with rfl | rfl <;> nofun, rfl⟩⟩
  | _ => exact Or.inr ⟨rfl, Or.inr ⟨nofun, rfl⟩⟩

/-- a connection is accepted for a live session that has a listener -/
theorem accepts_listening (hen : enabled s l) (he : exec c s l = .ok s') (h : accepts c s l = some j) :
    ends c s l = none ∧ ∃ x p, s.heap j = some x ∧ x.pasvListenFd = some p := by
  unfold accepts at h
  split at h
  · rename_i type sid now env hr
    obtain ⟨⟨ht, -⟩, e⟩ := Option.ite_none_right_eq_some.mp h
    obtain rfl := Option.some.inj e
    obtain ⟨ev, evs, hm⟩ := hen
    unfold exec at he
    simp only [hm] at he
    cases dispatch_cases he with
    | listen hf hl =>
      rw [readsFrom_none hm fun g i hi => Or.inl (by rw [hi] at hf; cases hf; exact hl)] at hr
      cases hr
    | ctrl hi hl h1 hc _ =>
      rw [readsFrom_input hm hi hl h1] at hr
      cases hr
      exact absurd hc ht
    | data hi hl h1 _ hp =>
      rw [readsFrom_input hm hi hl h1] at hr
      cases hr
      obtain ⟨x, p, hx, hp, -⟩ := processDataRead_cases hp
      exact ⟨(ends_dispatch hm).trans (eventEnds_data hi h1 ht), x, p, hx, hp⟩
    | hup _ _ h1 _ _ _ =>
      rw [readsFrom_none hm fun g i hi => Or.inr h1] at hr
      cases hr
    | quiet h1 _ =>
      rw [readsFrom_none hm fun g i hi => Or.inr h1] at hr
      cases hr
  · cases h

theorem accepts_dispatch (h : accepts c s l = some j) : ∃ now env, l = .dispatch now env := by
  unfold accepts at h
  split at h
  · rename_i now env _
    exact ⟨now, env, rfl⟩
  · cases h

theorem reads_accepts (h : accepts c s l = some j) : reads c s l = none :=
  reads_none fun sid hs => by
    rw [accepts_none fun sid' type e => by rw [hs] at e; cases e; rfl] at h
    cases h

theorem rewritten_accepts (h : accepts c s l = some j) :
    rewritten c s l j x = { x with dataFd := some s.fds.lowest } := by
  obtain ⟨now, env, rfl⟩ := accepts_dispatch h
  unfold rewritten
  simp only [reads_accepts h, if_pos h]

/-- **The two fields after a step.** -/
theorem links_after (hn : s.ledger.Numbered) (hen : enabled s l) (he : exec c s l = .ok s')
    (hy : s'.heap j = some y) : LinksAfter c s l j y := by
  obtain ⟨-, ⟨-, ha⟩ | ⟨-, x, hx, rfl⟩⟩ := exec_record hn hen he hy
  · obtain ⟨ip, -, rfl⟩ := Option.map_eq_some_iff.mp ha
    exact .cleared rfl
  have hlisten := accepts_listening (j := j) hen he
  cases l with
  | dispatch now env =>
    by_cases ha : accepts c s (.dispatch now env) = some j
    · obtain ⟨-, x', p, hx', hp⟩ := hlisten ha
      cases hx.symm.trans hx'
      rw [rewritten_accepts ha]
      exact .accepted nofun ha hx (Option.some_ne_none _) (by rw [hp]; exact Option.some_ne_none p)
    · unfold rewritten
      dsimp only
      refine .same nofun ha hx ?_ ?_
      · split
        · split <;> rfl
        · rw [if_neg ha]
      · split
        · split <;> rfl
        · rw [if_neg ha]
  | command env =>
    have hacc : accepts c s (.command env) ≠ some j := by
      unfold accepts
      split
      · rename_i e
        cases e
      · exact nofun
    unfold rewritten
    dsimp only
    split
    · rename_i sid z h hh
      by_cases hj : j = sid
      · rw [if_pos hj]
        subst hj
        rcases record_links c env x s.fds.lowest h with
          e | ⟨e, ⟨rfl, e'⟩ | ⟨hp, e'⟩⟩
        · exact .cleared e
        · exact .pasv (listens_of hh) hacc hx e (by rw [e']; exact Option.some_ne_none _)
        · refine .same (fun e => ?_) hacc hx e e'
          obtain ⟨x', hx'⟩ := listens_handles e
          cases hh.symm.trans hx'
          exact hp rfl
      · rw [if_neg hj]
        refine .same (fun e => ?_) hacc hx rfl rfl
        obtain ⟨x', hx'⟩ := listens_handles e
        cases hh.symm.trans hx'
        exact hj rfl
    · rename_i hh
      refine .same (fun e => ?_) hacc hx rfl rfl
      obtain ⟨x', hx'⟩ := listens_handles e
      cases hh.symm.trans hx'
  | thread tid tenv =>
    unfold rewritten
    dsimp only
    split
    · rename_i th hth
      by_cases hj : j = th.sess
      · rw [if_pos hj]
        cases hpc : th.pc with
        | setPasv => exact .closing rfl hth hj.symm hpc hx rfl
        | setData => exact .cleared rfl
        | _ => exact .same nofun nofun hx rfl rfl
      · rw [if_neg hj]
        exact .same nofun nofun hx rfl rfl
    · exact .same nofun nofun hx rfl rfl
  | _ => exact .same nofun nofun hx rfl rfl

/-! ## what holds in every run -/

/-- the flag says where `data_fd` came from -/
def Traced (d : DataConn) : Prop :=
  (d.late = false ↔ d.origin = some (d.listeners, 1)) ∧ ∀ o, d.origin = some o → o.1 ≤ d.listeners

theorem traced_after (h : Traced (g j)) : Traced (connsAfter c g s l s' j) := by
  obtain ⟨h1, h2⟩ := h
  unfold connsAfter
  split
  · refine ⟨⟨nofun, fun e => ?_⟩, fun o e => Nat.le_succ_of_le (h2 o e)⟩
    have hle := h2 _ e
    exact absurd hle (Nat.not_succ_le_self _)
  · split
    · refine ⟨?_, fun o e => ?_⟩
      · simp
      · cases e
        exact Nat.le_refl _
    · exact ⟨h1, h2⟩

/-- a record without a listener has no connection either, unless a transfer thread is between the two
assignments -/
def Cleaning (s : Server) : Prop :=
  ∀ sid x, s.heap sid = some x → x.pasvListenFd = none → x.dataFd ≠ none →
    ∃ tid th, s.threads tid = some th ∧ th.sess = sid ∧ th.pc = .setData

theorem cleaning_step (hn : s.ledger.Numbered) (hen : enabled s l) (he : exec c s l = .ok s')
    (h : Cleaning s) : Cleaning s' := by
  intro j y hy hp hd
  have ha := links_after hn hen he hy
  cases ha with
  | cleared e => exact absurd e hd
  | pasv _ _ _ _ e => exact absurd hp e
  | accepted _ _ _ _ e => exact absurd hp e
  | @closing x tid tenv th hl hth hs hpc hx _ =>
    subst hl hs
    obtain ⟨o, hr⟩ := thread_ran hth he
    have ho : s'.threads tid = o := by rw [hr.threads, Function.update_self]
    cases o with
    | none =>
      have hret := (thread_returns hth hx he).mp ho
      unfold Thread.returns Thread.refused at hret
      simp [hpc] at hret
    | some u =>
      obtain ⟨hs, -, -, ⟨-, hi⟩ | hf⟩ := hr.next u rfl
      · rw [hpc] at hi
        cases hi
      · rw [hpc] at hf
        exact ⟨tid, u, ho, hs, hf⟩
  | same _ _ hx hd' hp' =>
    obtain ⟨tid, th, hth, hs, hpc⟩ := h j _ hx (hp'.symm.trans hp) (hd' ▸ hd)
    refine ⟨tid, th, thread_kept hn hen he hth fun env e => ?_, hs, hpc⟩
    subst e
    obtain ⟨o, hr⟩ := thread_ran hth he
    rw [hr.beside, if_pos hs.symm, hx, hpc] at hy
    cases hy
    exact hd rfl

theorem conns_reach {D : Server × (Sid → DataConn) → Label → Prop} {p : Server × (Sid → DataConn)}
    (h : Runs.Reach (conns c) D p) : Cleaning p.1 ∧ ∀ sid, Traced (p.2 sid) := by
  refine Runs.Reach.noted (J := fun s => s.ledger.Numbered)
    (I := fun p : Server × (Sid → DataConn) => Cleaning p.1 ∧ ∀ sid, Traced (p.2 sid)) (fun s hs => numbered_reach hs) ?_ ?_ h
  · rintro s ⟨fds, -, rfl⟩
    exact ⟨nofun, fun sid => ⟨⟨nofun, nofun⟩, nofun⟩⟩
  · rintro s g l s' hn ⟨h1, h2⟩ - ⟨hen, he⟩
    refine ⟨cleaning_step hn hen he h1, fun sid => ?_⟩
    show Traced (connsAfter c g s l s' sid)
    exact traced_after (h2 sid)

/-! ## the last transfer of a session -/

theorem idle_of (h : ∀ tid th, s.threads tid = some th → th.sess ≠ sid) : busy s sid = false := by
  unfold busy
  rw [List.any_eq_false]
  intro tid _ hb
  obtain ⟨th, hth, hs⟩ := (Option.any_eq_true _ _).mp hb
  exact h tid th hth (beq_iff_eq.mp hs)

theorem lastReturns_iff {tid : Tid} {tenv : TEnv} (hn : s.ledger.Numbered) :
    lastReturns s (.thread tid tenv) = some j ↔ ∃ th x, s.threads tid = some th ∧ th.sess = j ∧
      s.heap j = some x ∧ th.returns tenv x = true ∧
      ∀ u w, s.threads u = some w → u ≠ tid → w.sess ≠ j := by
  constructor
  · intro h
    obtain ⟨th, hth, h⟩ := Option.bind_eq_some_iff.mp (h : (s.threads tid).bind _ = _)
    obtain ⟨x, hx, h⟩ := Option.bind_eq_some_iff.mp h
    obtain ⟨⟨hr, ho⟩, e⟩ := Option.ite_none_right_eq_some.mp h
    obtain rfl := Option.some.inj e
    refine ⟨th, x, hth, rfl, hx, hr, fun u w hw hne hs => ?_⟩
    have := ho u (List.mem_range.mpr (hn.worker u _ (ledger_worker hw))) hne
    rw [hw] at this
    simp [hs] at this
  · rintro ⟨th, x, hth, rfl, hx, hr, ho⟩
    show (s.threads tid).bind _ = _
    rw [hth, Option.bind_some, hx, Option.bind_some]
    refine if_pos ⟨hr, fun u _ hne => ?_⟩
    cases hw : s.threads u with
    | none => rfl
    | some w => exact beq_eq_false_iff_ne.mpr (ho u w hw hne)

/-- **A session becomes idle when its last transfer returns**, and not otherwise. -/
theorem idle_after (hn : s.ledger.Numbered) (hn' : s'.ledger.Numbered) (hen : enabled s l)
    (he : exec c s l = .ok s') (hb : busy s j = true) (hx : s.heap j = some x) :
    busy s' j = false ↔ lastReturns s l = some j := by
  have hstay : (∀ tid th, s.threads tid = some th → th.sess = j → ∃ u, s'.threads tid = some u ∧ u.sess = j) →
      busy s' j = true := by
    intro h
    obtain ⟨tid, th, hth, hs⟩ := (busy_iff hn).mp hb
    obtain ⟨u, hu, hs'⟩ := h tid th hth hs
    exact (busy_iff hn').mpr ⟨tid, u, hu, hs'⟩
  by_cases hl : ∃ tid tenv, l = .thread tid tenv
  · obtain ⟨tid, tenv, rfl⟩ := hl
    obtain ⟨th, hth⟩ := Option.ne_none_iff_exists'.mp hen
    obtain ⟨o, hr⟩ := thread_ran hth he
    rw [lastReturns_iff hn]
    constructor
    · intro hidle
      obtain ⟨t, w, hw, hs⟩ := (busy_iff hn).mp hb
      have hgone : ∀ u v, s.threads u = some v → u ≠ tid → v.sess ≠ j := by
        intro u v hv hne
        have hv' : s'.threads u = some v := by rw [hr.threads, Function.update_of_ne hne, hv]
        exact busy_of hn' hv' hidle
      have ht : t = tid := by
        by_contra hne
        exact hgone t w hw hne hs
      rw [ht, hth] at hw
      cases hw
      have ho : s'.threads tid = o := by rw [hr.threads, Function.update_self]
      have hnone : o = none := by
        cases o with
        | none => rfl
        | some u => exact absurd ((hr.next u rfl).1.trans hs) (busy_of hn' ho hidle)
      rw [hnone] at ho
      subst hs
      exact ⟨th, x, hth, rfl, hx, (thread_returns hth hx he).mp ho, hgone⟩
    · rintro ⟨th', x', hth', hs, hx', hret, ho⟩
      cases hth.symm.trans hth'
      subst hs
      have hnone := (thread_returns hth hx' he).mpr hret
      apply idle_of
      intro u w hw
      by_cases hu : u = tid
      · rw [hu, hnone] at hw
        cases hw
      · rw [hr.threads, Function.update_of_ne hu] at hw
        exact ho u w hw hu
  · have hb' : busy s' j = true := hstay fun tid th hth hs =>
      ⟨th, thread_kept hn hen he hth fun env e => hl ⟨tid, env, e⟩, hs⟩
    rw [hb']
    refine ⟨nofun, fun h => ?_⟩
    cases l with
    | thread tid tenv => exact absurd ⟨tid, tenv, rfl⟩ hl
    | _ => cases h

theorem idle_stays (hn : s.ledger.Numbered) (hen : enabled s l) (he : exec c s l = .ok s')
    (hb : busy s j = false) (hs : ∀ x k, starts s l ≠ some (j, x, k)) : busy s' j = false := by
  apply idle_of
  intro tid th hth
  cases exec_worked hen he with
  | loop _ _ h => exact busy_of hn (h.threads ▸ hth) hb
  | @start env sid x k hst _ h =>
    rw [h.threads] at hth
    change Function.update s.threads s.nextTid _ tid = _ at hth
    rw [Function.update_apply] at hth
    split at hth
    · cases hth
      exact fun e => hs x k (e ▸ hst)
    · exact busy_of hn hth hb
  | @thread t env w o hw h =>
    rw [h.threads, Function.update_apply] at hth
    split at hth
    · rw [(h.next th hth).1]
      exact busy_of hn hw hb
    · exact busy_of hn hth hb

/-! ## one step -/

theorem listens_same (h : listens s l = some j) : ends c s l = none ∧ (∀ x k, starts s l ≠ some (j, x, k)) ∧
    ∃ x, s.heap j = some x ∧ ∀ c, (rewritten c s l j x).dataFd = x.dataFd := by
  obtain ⟨x, hh⟩ := listens_handles h
  cases l with
  | command env =>
    obtain ⟨evs, hm, hx, -⟩ := exec_handles (c := c) hh
    refine ⟨?_, fun y k hs => ?_, x, hx, fun c => ?_⟩
    · rw [ends_command hh]
      rfl
    · obtain ⟨k', hk, e⟩ := starts_handles hs
      cases hh.symm.trans hk
      rcases e with e | e <;> cases e
    · unfold rewritten
      simp only [hh, if_true]
      rfl
  | _ => cases h

/-- **One step** keeps what `Belongs` says of the session, if it meets the condition. -/
theorem belongs_kept (hn : s.ledger.Numbered) (hn' : s'.ledger.Numbered) (hcl : Cleaning s)
    (ht : ∀ sid, Traced (g sid)) (hen : enabled s l) (he : exec c s l = .ok s') (hb : Belongs (s, g))
    (hk : KeepsFirst c (s, g) l) : Belongs (s', connsAfter c g s l s') := by
  intro j y hy hidle hd
  obtain ⟨hk1, hk2, hk3⟩ := hk
  -- only the return of a thread makes a session idle
  have hbefore : ∀ {x}, s.heap j = some x → lastReturns s l ≠ some j → busy s j = false := by
    intro x hx hne
    by_contra hbusy
    exact hne ((idle_after hn hn' hen he (Bool.not_eq_false _ ▸ hbusy) hx).mp hidle)
  cases links_after hn hen he hy with
  | cleared e => exact absurd e hd
  | @pasv x hl hacc hx hxd hp =>
    exfalso
    have hne : lastReturns s l ≠ some j := by
      cases l with
      | thread tid tenv => cases hl
      | _ => exact nofun
    have h0 := hk1 j (Option.mem_toList.mpr hl) (hbefore hx hne)
    rw [show (s.heap j).bind Session.dataFd = x.dataFd by rw [hx]; rfl] at h0
    exact hd (hxd.trans h0)
  | @accepted x hl hacc hx _ hp =>
    have hne : lastReturns s l ≠ some j := by
      cases l with
      | thread tid tenv =>
        unfold accepts at hacc
        split at hacc
        · rename_i e
          cases e
        · cases hacc
      | _ => exact nofun
    have h0 := hk2 j (Option.mem_toList.mpr hacc) (hbefore hx hne)
    refine ⟨hp, ?_⟩
    show (connsAfter c g s l s' j).origin = some ((connsAfter c g s l s' j).listeners, 1)
    unfold connsAfter
    rw [if_neg hl, if_pos hacc]
    show some ((g j).listeners, (g j).accepted + 1) = _
    rw [h0]
  | @closing x tid tenv th hl hth hs hpc hx hxd =>
    exfalso
    subst hl
    have hbusy : busy s j = true := (busy_iff hn).mpr ⟨tid, th, hth, hs⟩
    obtain ⟨th', x', hth', -, -, hret, -⟩ :=
      (lastReturns_iff hn).mp ((idle_after hn hn' hen he hbusy hx).mp hidle)
    cases hth.symm.trans hth'
    unfold Thread.returns Thread.refused at hret
    simp [hpc] at hret
  | @same x hl hacc hx hxd hxp =>
    have hg : connsAfter c g s l s' j = g j := by
      unfold connsAfter
      rw [if_neg hl, if_neg hacc]
    show y.pasvListenFd ≠ none ∧ (connsAfter c g s l s' j).origin = some ((connsAfter c g s l s' j).listeners, 1)
    rw [hg, hxp]
    rw [hxd] at hd
    by_cases hlast : lastReturns s l = some j
    · have hlate : (g j).late = false := by
        rcases hk3 j (Option.mem_toList.mpr hlast) with h0 | h0
        · rw [show (s.heap j).bind Session.dataFd = x.dataFd by rw [hx]; rfl] at h0
          exact absurd h0 hd
        · exact h0
      refine ⟨fun hp => ?_, (ht j).1.mp hlate⟩
      obtain ⟨tid, th, hth, hs, hpc⟩ := hcl j x hx hp hd
      cases l with
      | thread t tenv =>
        obtain ⟨th', x', hth', hs', -, hret, hothers⟩ := (lastReturns_iff hn).mp hlast
        have ht : tid = t := by
          by_contra hne
          exact hothers tid th hth hne hs
        rw [ht, hth'] at hth
        cases hth
        unfold Thread.returns Thread.refused at hret
        simp [hpc] at hret
      | _ => cases hlast
    · exact hb j x hx (hbefore hx hlast) hd

/-- and if it does not, the session whose step it is shows it -/
theorem belongs_only (hn : s.ledger.Numbered) (hn' : s'.ledger.Numbered)
    (ht : ∀ sid, Traced (g sid)) (hen : enabled s l) (he : exec c s l = .ok s')
    (hb : Belongs (s', connsAfter c g s l s')) : KeepsFirst c (s, g) l := by
  -- a session that stays, is idle afterwards and has a connection: this one is not late
  have hlate : ∀ {j x}, s.heap j = some x → ends c s l ≠ some j → busy s' j = false →
      (rewritten c s l j x).dataFd ≠ none → (connsAfter c g s l s' j).late = false := by
    intro j x hx hends hidle hd
    have hy : s'.heap j = some (rewritten c s l j x) := exec_stays hn hen he hx hends
    exact (traced_after (ht j)).1.mpr (hb j _ hy hidle hd).2
  refine ⟨fun j hj hidle => ?_, fun j hj hidle => ?_, fun j hj => ?_⟩
  · have hl := Option.mem_toList.mp hj
    obtain ⟨hends, hst, x, hx, hd⟩ := listens_same (c := c) hl
    by_contra hne
    change (s.heap j).bind Session.dataFd ≠ none at hne
    rw [hx, Option.bind_some] at hne
    have := hlate hx (by rw [hends]; exact nofun) (idle_stays hn hen he hidle hst) (by rw [hd]; exact hne)
    unfold connsAfter at this
    rw [if_pos hl] at this
    cases this
  · have hacc := Option.mem_toList.mp hj
    obtain ⟨hends, x, p, hx, -⟩ := accepts_listening hen he hacc
    have hr : rewritten c s l j x = { x with dataFd := some s.fds.lowest } := rewritten_accepts hacc
    have hl : listens s l ≠ some j ∧ ∀ x k, starts s l ≠ some (j, x, k) := by
      obtain ⟨now, env, rfl⟩ := accepts_dispatch hacc
      exact ⟨nofun, nofun⟩
    have := hlate hx (by rw [hends]; exact nofun) (idle_stays hn hen he hidle hl.2)
      (by rw [hr]; exact Option.some_ne_none _)
    unfold connsAfter at this
    rw [if_neg hl.1, if_pos hacc] at this
    exact not_not.mp (of_decide_eq_false this)
  · have hlast := Option.mem_toList.mp hj
    cases l with
    | thread tid tenv =>
      obtain ⟨th, x, hth, hs, hx, hret, -⟩ := (lastReturns_iff hn).mp hlast
      have hidle := (idle_after hn hn' hen he ((busy_iff hn).mpr ⟨tid, th, hth, hs⟩) hx).mpr hlast
      have hrec : (rewritten c s (.thread tid tenv) j x).dataFd = x.dataFd := by
        unfold rewritten
        simp only [hth, if_pos hs.symm]
        cases hpc : th.pc with
        | setData =>
          unfold Thread.returns Thread.refused at hret
          simp [hpc] at hret
        | _ => rfl
      by_cases hd : x.dataFd = none
      · left
        show (s.heap j).bind Session.dataFd = none
        rw [hx]
        exact hd
      · have := hlate hx nofun hidle (by rw [hrec]; exact hd)
        unfold connsAfter at this
        exact Or.inr this
    | _ => cases hlast

/-! ## runs -/

/-- **`data_fd` is the first connection of the current listener** in every session without a transfer, in a
run whose steps all keep it so; and every next step that does not shows a session in which it is not. -/
theorem belongs_iff {p : Server × (Sid → DataConn)} (h : Runs.Reach (conns c) (KeepsFirst c) p) :
    Belongs p ∧ ∀ l q, (conns c).step l p q → (Belongs q ↔ KeepsFirst c p l) := by
  have hany : ∀ {p}, Runs.Reach (conns c) (KeepsFirst c) p → Reach c Runs.Any p.1 :=
    fun h => h.forget fun _ _ _ => trivial
  have hstep : ∀ {p l q}, Runs.Reach (conns c) (KeepsFirst c) p → Belongs p → (conns c).step l p q →
      (Belongs q ↔ KeepsFirst c p l) := by
    rintro ⟨s, g⟩ l ⟨s', g'⟩ hr hb ⟨⟨hen, he⟩, hg⟩
    obtain rfl : g' = connsAfter c g s l s' := hg
    obtain ⟨hcl, ht⟩ := conns_reach hr
    have hn := numbered_reach (hany hr)
    have hn' := numbered_reach ((hany hr).step trivial ⟨hen, he⟩)
    exact ⟨belongs_only hn hn' ht hen he, belongs_kept hn hn' hcl ht hen he hb⟩
  have hb : Belongs p := by
    induction h with
    | init hi =>
      obtain ⟨⟨fds, -, e⟩, -⟩ := hi
      intro sid x hx
      rw [e] at hx
      cases hx
    | step hr hc hs ih => exact (hstep hr ih hs).mpr hc
  exact ⟨hb, fun l q hs => hstep h hb hs⟩

end

/-- PASV, and a connection to the listener -/
def passiveRun : List Label := connects ++ sendsPasv 5 ++ dataConnects 6

/-- the connection belongs to the listener -/
theorem belongs_iff_connected : ∃ p, Runs.Reach (conns sampleConf) (KeepsFirst sampleConf) p ∧
    (p.1.heap 0).bind Session.dataFd = some 7 ∧ Belongs p := by
  obtain ⟨p, hp, ht⟩ := noted_of_play
    (t := fun p : Server × (Sid → DataConn) => decide ((p.1.heap 0).bind Session.dataFd = some 7))
    (sampleNoted noConns (connsAfter sampleConf) (KeepsFirst sampleConf))
    (by decide +kernel : (playNoted sampleConf (connsAfter sampleConf) (KeepsFirst sampleConf)
      (sampleBoot, noConns) passiveRun).any _ = true)
  exact ⟨p, hp, of_decide_eq_true ht, (belongs_iff hp).1⟩

/-- **PASV after the connection**: `data_fd` is one of the listener before. -/
theorem pasv_stale : ¬ ∀ c p, Runs.Reach (conns c) Runs.Any p → Belongs p := by
  intro h
  obtain ⟨p, hp, ht⟩ := noted_of_play
    (t := fun p : Server × (Sid → DataConn) => (p.1.heap 0).any (fun x => x.dataFd.isSome) &&
      decide (busy p.1 0 = false ∧ (p.2 0).origin = some (1, 1) ∧ (p.2 0).listeners = 2))
    (sampleNoted noConns (connsAfter sampleConf) Runs.Any)
    (by decide +kernel : (playNoted sampleConf (connsAfter sampleConf) Runs.Any
      (sampleBoot, noConns) (passiveRun ++ sendsPasv 5)).any _ = true)
  rw [Bool.and_eq_true, decide_eq_true_eq] at ht
  obtain ⟨hx, hidle, ho, hl⟩ := ht
  obtain ⟨x, hx, hd⟩ := (Option.any_eq_true _ _).mp hx
  have hne : x.dataFd ≠ none := Option.isSome_iff_ne_none.mp hd
  have := (h sampleConf p hp 0 x hx hidle hne).2
  rw [ho, hl] at this
  cases this

end Myftpd
