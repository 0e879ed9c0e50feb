import Myftpd.Lifetime

/-!
# Registrations in epollfd and the sessions they belong to

Every registered descriptor but the listening socket should be the control socket or the passive
listener of the live session that `sessinfo` names.  Closing a descriptor takes it out of `epollfd`,
so only a step that forgets a listener without closing it can go wrong: a PASV while the session
still has a registered listener, and the reset of `pasv_listen_fd` at the end of a transfer when a
PASV has come in between.

* `Ledger.Step.watch`     where the registrations after a step come from;
* `Ledger.Step.owned`     they belong to somebody, if no listener is forgotten;
* `Staged`                while PASV is under way its listener is not registered yet;
* `registrations_owned`   the runs in which no listener is forgotten.
-/

namespace Myftpd
open CMem Server

namespace Ledger

section
variable {L L' : Ledger} {op : Op} {g : Fd}

/-- `sessinfo[g]` names a live session, and `g` is its control socket or its passive listener -/
def Owned (L : Ledger) (g : Fd) : Prop := ∃ t sid x, L.info g = ⟨some ⟨t, g⟩, some sid⟩ ∧
  L.sess sid = some x ∧ (t = .ctrl ∧ x.ctrl = g ∨ t = .data ∧ x.pasv = some g)

/-- only open descriptors are registered -/
def WatchOpen (L : Ledger) : Prop := ∀ g, L.watch g = true → L.desc g ≠ none

/-! ## where registrations come from -/

theorem closeOpt_watched {o : Option Fd} (h : (L.closeOpt o).watch g = true) :
    L.watch g = true ∧ g ∉ o.toList := by
  rw [closeOpt_watch] at h
  split at h
  · cases h
  · rename_i hne
    exact ⟨h, fun hm => hne (Option.mem_toList.mp hm)⟩

theorem freed_watched {sid : Sid} {x : Core} (h : (L.freed sid x).watch g = true) :
    L.watch g = true ∧ g ∉ x.ctrl :: (x.data.toList ++ x.pasv.toList) := by
  rw [freed_watch] at h
  split at h
  · cases h
  · rename_i hne
    refine ⟨h, fun hm => hne ?_⟩
    rw [List.mem_cons, List.mem_append, Option.mem_toList, Option.mem_toList] at hm
    rcases hm with e | e | e
    exacts [Or.inr (Or.inr e), Or.inr (Or.inl e), Or.inl e]

/-- **A registration stays until the descriptor is closed**; a new one is that of a connection, which has its
owner, or of the listener in the record of a session. -/
theorem Step.watch (h : L.Step op L') (hw : L'.watch g = true) :
    L.watch g = true ∧ g ∉ op.closes L ∨ L.desc g = none ∧ L'.desc g ≠ none ∧ L'.Owned g ∨
      ∃ sid x, op = .enroll sid g ∧ L' = L.watched g ∧ isPasv (L.desc g) = true ∧ L.sess sid = some x ∧
        x.pasv = some g := by
  have keep : ∀ {M : Ledger}, M.watch g = true → M.watch = L.watch → op.closes L = [] →
      L.watch g = true ∧ g ∉ op.closes L := by
    intro M h0 h1 h2
    rw [h1] at h0
    exact ⟨h0, by rw [h2]; exact List.not_mem_nil⟩
  cases h with
  | stay => exact Or.inl (keep hw rfl rfl)
  | @enter fd hf _ =>
    change Function.update L.watch fd true g = true at hw
    rw [Function.update_apply] at hw
    split at hw
    · rename_i e
      subst e
      refine Or.inr (Or.inl ⟨hf, ?_, .ctrl, L.nextSid, _, Function.update_self .., Function.update_self ..,
        Or.inl ⟨rfl, rfl⟩⟩)
      show Function.update L.desc _ _ _ ≠ none
      rw [Function.update_self]
      exact Option.some_ne_none _
    · exact Or.inl (keep hw rfl rfl)
  | refuse _ =>
    change Function.update L.watch _ false g = true at hw
    rw [Function.update_apply] at hw
    split at hw
    · cases hw
    · exact Or.inl (keep hw rfl rfl)
  | free hx =>
    rw [closes_free hx]
    exact Or.inl (freed_watched hw)
  | evict hx =>
    rw [closes_evict hx]
    exact Or.inl (freed_watched hw)
  | dataConn _ _ _ => exact Or.inl (keep hw rfl rfl)
  | pass _ _ => exact Or.inl (keep hw rfl rfl)
  | noDir _ => exact Or.inl (keep hw rfl rfl)
  | @cwd sid x fd k hx _ =>
    rw [closes_cwd hx]
    exact Or.inl (closeOpt_watched (L := L.alloc fd (.cwd sid k)) hw)
  | pasv _ _ => exact Or.inl (keep hw rfl rfl)
  | entry _ _ _ => exact Or.inl (keep hw rfl rfl)
  | @enroll sid x fd hx hp _ hd =>
    by_cases e : g = fd
    · subst e
      exact Or.inr (Or.inr ⟨sid, x, rfl, rfl, hd, hx, hp⟩)
    · change Function.update L.watch fd true g = true at hw
      rw [Function.update_of_ne e] at hw
      exact Or.inl (keep hw rfl rfl)
  | @list sid x hx =>
    obtain ⟨h1, h2⟩ := closeOpt_watched (L := L.closeOpt x.data) hw
    obtain ⟨h3, h4⟩ := closeOpt_watched h1
    rw [closes_list hx, List.mem_append]
    exact Or.inl ⟨h3, fun e => e.elim h4 h2⟩
  | start _ => exact Or.inl (keep hw rfl rfl)
  | advance _ _ => exact Or.inl (keep hw rfl rfl)
  | openFile _ _ => exact Or.inl (keep hw rfl rfl)
  | rmData ht hx =>
    rw [closes_rmData ht hx]
    exact Or.inl (closeOpt_watched hw)
  | rmPasv ht hx =>
    rw [closes_rmPasv ht hx]
    exact Or.inl (closeOpt_watched hw)
  | setPasv _ _ _ => exact Or.inl (keep hw rfl rfl)
  | setData _ _ => exact Or.inl (keep hw rfl rfl)
  | closeFile ht =>
    rw [closes_closeFile ht]
    exact Or.inl (closeOpt_watched hw)
  | finish _ => exact Or.inl (keep hw rfl rfl)

theorem Step.watchOpen (h : L.Step op L') (ho : L.WatchOpen) : L'.WatchOpen := by
  intro g hw
  rcases h.watch hw with ⟨h1, h2⟩ | ⟨-, h2, -⟩ | ⟨sid, x, -, rfl, hd, -⟩
  · rcases h.desc g with e | e | e
    · rw [e]
      exact ho g h1
    · exact absurd e (ho g h1)
    · exact absurd e h2
  · exact h2
  · show L.desc g ≠ none
    intro e
    rw [e] at hd
    cases hd

/-! ## what becomes of a listener -/

/-- a listener stays in the record of its session, is closed or is forgotten -/
theorem Step.pasv_kept (h : L.Step op L') {sid : Sid} {x : Core} (hx : L.sess sid = some x)
    (hlt : sid < L.nextSid) (he : op.ends ≠ some sid) (hg : x.pasv = some g) :
    (∃ x', L'.sess sid = some x' ∧ x'.pasv = some g) ∨ g ∈ op.closes L ∨
      op.drops L = some (sid, g) := by
  have hne : sid ≠ L.nextSid := Nat.ne_of_lt hlt
  have hsame : L'.sess = L.sess → (∃ x', L'.sess sid = some x' ∧ x'.pasv = some g) ∨
      g ∈ op.closes L ∨ op.drops L = some (sid, g) := fun e => Or.inl ⟨x, by rw [e, hx], hg⟩
  have hrep : ∀ {j : Sid} {z y : Core} {P : Prop}, L.sess j = some z →
      (j = sid → z = x → y.pasv = some g ∨ P) →
      (∃ x', Function.update L.sess j (some y) sid = some x' ∧ x'.pasv = some g) ∨ P := by
    intro j z y P hz hy
    rw [Function.update_apply]
    split
    · rename_i e
      subst e
      exact (hy rfl (Option.some.inj (hz.symm.trans hx))).imp_left fun e => ⟨y, rfl, e⟩
    · exact Or.inl ⟨x, hx, hg⟩
  cases h with
  | stay => exact hsame rfl
  | enter _ _ => exact Or.inl ⟨x, (Function.update_of_ne hne _ _).trans hx, hg⟩
  | refuse _ => exact Or.inl ⟨x, (Function.update_of_ne hne _ _).trans hx, hg⟩
  | free _ =>
    refine Or.inl ⟨x, ?_, hg⟩
    rw [freed_sess, if_neg fun e => he (congrArg some e.symm), hx]
  | evict _ =>
    refine Or.inl ⟨x, ?_, hg⟩
    rw [freed_sess, if_neg fun e => he (congrArg some e.symm), hx]
  | dataConn hz _ _ => exact hrep hz fun _ e => Or.inl (by rw [e]; exact hg)
  | pass hz _ => exact hrep hz fun _ e => Or.inl (by rw [e]; exact hg)
  | noDir hz => exact hrep hz fun _ e => Or.inl (by rw [e]; exact hg)
  | cwd hz _ =>
    show (∃ x', Function.update (closeOpt _ _).sess _ _ sid = some x' ∧ _) ∨ _
    rw [closeOpt_sess]
    exact hrep hz fun _ e => Or.inl (by rw [e]; exact hg)
  | pasv hz _ =>
    refine hrep hz fun ej ez => Or.inr (Or.inr ?_)
    subst ej ez
    simp only [Op.drops, hx, hg, Option.bind_some, Option.map_some]
  | entry _ _ _ => exact hsame rfl
  | enroll _ _ _ _ => exact hsame rfl
  | list hz =>
    show (∃ x', Function.update (closeOpt (closeOpt L _) _).sess _ _ sid = some x' ∧ _) ∨ _
    rw [closeOpt_sess, closeOpt_sess]
    refine hrep hz fun ej ez => Or.inr (Or.inl ?_)
    subst ej ez
    rw [closes_list hx, List.mem_append, Option.mem_toList, Option.mem_toList]
    exact Or.inr hg
  | start _ => exact hsame rfl
  | advance _ _ => exact hsame rfl
  | openFile _ _ => exact hsame rfl
  | rmData _ _ => exact hsame closeOpt_sess
  | rmPasv _ _ => exact hsame closeOpt_sess
  | @setPasv tid w z ht _ hz =>
    refine hrep hz fun ej ez => Or.inr (Or.inr ?_)
    subst ej ez
    simp only [Op.drops, ht, hx, hg, Option.bind_some, Option.map_some]
  | setData _ hz => exact hrep hz fun _ e => Or.inl (by rw [e]; exact hg)
  | closeFile _ => exact hsame closeOpt_sess
  | finish _ => exact hsame rfl

theorem Step.listener {sid : Sid} (h : L.Step op L') (hop : op = .entry sid g ∨ op = .enroll sid g) :
    ∃ x, L.sess sid = some x ∧ x.pasv = some g := by
  cases h with
  | entry hx hp _ =>
    rcases hop with e | e <;> cases e
    exact ⟨_, hx, hp⟩
  | enroll hx hp _ _ =>
    rcases hop with e | e <;> cases e
    exact ⟨_, hx, hp⟩
  | _ => rcases hop with e | e <;> cases e

/-- a forgotten listener stays registered under the name of its session -/
theorem Step.dropped (h : L.Step op L') {sid : Sid} (hd : op.drops L = some (sid, g))
    (hg : L.desc g ≠ none) : L'.watch g = L.watch g ∧ L'.info g = L.info g ∧
      ∀ x, L'.sess sid = some x → x.pasv ≠ some g := by
  cases h with
  | @pasv j x fd hx hf =>
    have hne : g ≠ fd := by
      rintro rfl
      exact hg hf
    simp only [Op.drops, hx, Option.bind_some, Option.map_eq_some_iff, Prod.mk.injEq] at hd
    obtain ⟨_, -, rfl, -⟩ := hd
    refine ⟨rfl, rfl, ?_⟩
    intro y hy
    change Function.update L.sess j _ j = some y at hy
    rw [Function.update_self] at hy
    cases hy
    exact fun e => hne (Option.some.inj e).symm
  | @setPasv tid w x hw _ hx =>
    simp only [Op.drops, hw, hx, Option.bind_some, Option.map_eq_some_iff, Prod.mk.injEq] at hd
    obtain ⟨_, -, rfl, -⟩ := hd
    refine ⟨rfl, rfl, ?_⟩
    intro y hy
    change Function.update L.sess w.sess _ w.sess = some y at hy
    rw [Function.update_self] at hy
    cases hy
    exact nofun
  | _ => cases hd

/-! ## the invariant -/

/-- all registrations but that of `lf` belong to somebody -/
def AllOwned (lf : Fd) (L : Ledger) : Prop := ∀ g, L.watch g = true → g ≠ lf → L.Owned g

/-- `g` is registered as the passive listener of `sid` -/
def Listens (lf : Fd) (L : Ledger) (sid : Sid) (g : Fd) : Prop :=
  g ≠ lf ∧ L.watch g = true ∧ L.info g = ⟨some ⟨.data, g⟩, some sid⟩

variable {lf : Fd}

theorem ends_closes {sid : Sid} {x : Core} (hx : L.sess sid = some x) (he : op.ends = some sid) :
    op.closes L = x.ctrl :: (x.data.toList ++ x.pasv.toList) := by
  cases op with
  | free j =>
    cases he
    exact closes_free hx
  | evict j =>
    cases he
    exact closes_evict hx
  | _ => cases he

theorem Step.owned (h : L.Step op L') (hn : L.Numbered) (ho : L.WatchOpen) (hi : L.AllOwned lf)
    (hd : ∀ sid g, op.drops L = some (sid, g) → ¬ L.Listens lf sid g)
    (hent : ∀ sid g, op = .entry sid g → L.watch g = false)
    (henr : ∀ sid g, op = .enroll sid g → L.info g = ⟨some ⟨.data, g⟩, some sid⟩) : L'.AllOwned lf := by
  intro g hw hne
  rcases h.watch hw with ⟨hg, hc⟩ | ⟨-, -, ht⟩ | ⟨sid, x, hop, rfl, -, hx, hp⟩
  swap
  · exact ht
  swap
  · exact ⟨.data, sid, x, henr sid g hop, hx, Or.inr ⟨rfl, hp⟩⟩
  obtain ⟨t, sid, x, hinfo, hx, hown⟩ := hi g hg hne
  have hends : op.ends ≠ some sid := by
    intro he
    rw [ends_closes hx he, List.mem_cons, List.mem_append, Option.mem_toList,
      Option.mem_toList] at hc
    rcases hown with ⟨-, e⟩ | ⟨-, e⟩
    · exact hc (Or.inl e.symm)
    · exact hc (Or.inr (Or.inr e))
  have hinfo' : L'.info g = ⟨some ⟨t, g⟩, some sid⟩ := by
    rcases h.info g with e | e | ⟨j, y, he, hy, e⟩ | ⟨j, y, he, -⟩
    · exact e.trans hinfo
    · exact absurd e (ho g hg)
    · refine absurd ?_ hc
      rw [ends_closes hy he, e]
      exact List.mem_cons_self
    · exact absurd (hg.symm.trans (hent j g he)) nofun
  rcases hown with ⟨rfl, e⟩ | ⟨rfl, e⟩
  · obtain ⟨x', hx', e'⟩ := h.alive hx (hn.sess sid x hx) hends
    exact ⟨.ctrl, sid, x', hinfo', hx', Or.inl ⟨rfl, e'.trans e⟩⟩
  · rcases h.pasv_kept hx (hn.sess sid x hx) hends e with ⟨x', hx', e'⟩ | e' | e'
    · exact ⟨.data, sid, x', hinfo', hx', Or.inr ⟨rfl, e'⟩⟩
    · exact absurd e' hc
    · exact absurd ⟨hne, hg, hinfo⟩ (hd sid g e')

theorem Step.orphaned (h : L.Step op L') (ho : L.WatchOpen) {sid : Sid}
    (hd : op.drops L = some (sid, g)) (hl : L.Listens lf sid g) : ¬ L'.AllOwned lf := by
  obtain ⟨hne, hw, hinfo⟩ := hl
  obtain ⟨h1, h2, h3⟩ := h.dropped hd (ho g hw)
  intro hall
  obtain ⟨t, j, x, hi, hx, hown⟩ := hall g (h1.trans hw) hne
  have e := hi.symm.trans (h2.trans hinfo)
  cases e
  rcases hown with ⟨e, -⟩ | ⟨-, e⟩
  · cases e
  · exact h3 x hx e

end

end Ledger

/-! ## runs -/

section
variable {c : Conf} {s s' : Server} {l : Label}

theorem watchOpen_reach {C : Server → Label → Prop} (h : Reach c C s) : s.ledger.WatchOpen := by
  refine Runs.Reach.inv (I := fun s => s.ledger.WatchOpen) ?_ ?_ h
  · rintro s ⟨fds, hb, rfl⟩ g hg
    change Function.update (fun _ => false) c.listenfd true g = true at hg
    rw [Function.update_apply] at hg
    split at hg
    · rename_i e
      show fds.get g ≠ none
      rw [e, hb.listen]
      exact Option.some_ne_none _
    · cases hg
  · rintro s l s' ho - ⟨hen, he⟩
    obtain ⟨op, ho'⟩ := exec_step hen he
    exact ho'.step.watchOpen ho

/-! ## PASV under way -/

/-- While PASV is under way the listener in the record is not registered; `sessinfo` has it once it is stored. -/
def Staged (s : Server) : Prop := ∀ sid pc x p, s.main.stage = some (sid, pc) → s.heap sid = some x →
  x.pasvListenFd = some p → s.watch p = false ∧ (pc = .watch → s.sessinfo p = ⟨some ⟨.data, p⟩, some sid⟩)

/-- a step that registers nothing, and takes a listener from a record at most -/
structure Deaf (s s' : Server) : Prop where
  main : s'.main = s.main
  sessinfo : s'.sessinfo = s.sessinfo
  watch : ∀ g, s.watch g = false → s'.watch g = false
  heap : ∀ sid x', s'.heap sid = some x' →
    ∃ x, s.heap sid = some x ∧ (x'.pasvListenFd = x.pasvListenFd ∨ x'.pasvListenFd = none)

theorem Deaf.same (hm : s'.main = s.main) (hi : s'.sessinfo = s.sessinfo) (hw : s'.watch = s.watch)
    (hh : s'.heap = s.heap) : Deaf s s' :=
  ⟨hm, hi, fun _ h => by rw [hw, h], fun _ x' h => ⟨x', hh ▸ h, Or.inl rfl⟩⟩

theorem Deaf.put {sid : Sid} {x y : Session} (hx : s.heap sid = some x) (hh : s'.heap = (s.put sid y).heap)
    (hy : y.pasvListenFd = x.pasvListenFd ∨ y.pasvListenFd = none) (hm : s'.main = s.main)
    (hi : s'.sessinfo = s.sessinfo) (hw : s'.watch = s.watch) : Deaf s s' := by
  refine ⟨hm, hi, fun _ h => by rw [hw, h], fun j x' h => ?_⟩
  rw [hh] at h
  change Function.update s.heap sid (some y) j = some x' at h
  by_cases e : j = sid
  · subst e
    rw [Function.update_self] at h
    cases h
    exact ⟨x, hx, hy⟩
  · rw [Function.update_of_ne e] at h
    exact ⟨x', h, Or.inl rfl⟩

theorem Deaf.closeOpt {o : Option Fd} (hm : s'.main = s.main) (hi : s'.sessinfo = s.sessinfo)
    (hw : s'.watch = (s.closeOpt o).watch) (hh : s'.heap = s.heap) : Deaf s s' := by
  refine ⟨hm, hi, fun g h => ?_, fun _ x' h => ⟨x', hh ▸ h, Or.inl rfl⟩⟩
  rw [hw]
  show ((s.closeOpt o).ledger).watch g = false
  rw [closeOpt_ledger, Ledger.closeOpt_watch]
  split
  · rfl
  · exact h

theorem Deaf.thread {tid : Tid} {th : Thread} {env : TEnv} (hth : s.threads tid = some th)
    (he : threadStep env tid s = .ok s') : Deaf s s' := by
  cases thread_round hth he with
  | clear _ hx => exact .put hx rfl (Or.inl rfl) rfl rfl rfl
  | rmData _ _ => exact .closeOpt (closeOpt_main _) (closeOpt_sessinfo _) rfl (closeOpt_heap _)
  | rmPasv _ _ => exact .closeOpt (closeOpt_main _) (closeOpt_sessinfo _) rfl (closeOpt_heap _)
  | setPasv _ hx => exact .put hx rfl (Or.inr rfl) rfl rfl rfl
  | setData _ hx => exact .put hx rfl (Or.inl rfl) rfl rfl rfl
  | closeFile _ => exact .closeOpt (closeOpt_main _) (closeOpt_sessinfo _) rfl (closeOpt_heap _)
  | aborted _ hx _ => exact .put hx rfl (Or.inl rfl) rfl rfl rfl
  | _ => exact .same rfl rfl rfl rfl

theorem Deaf.staged (h : Deaf s s') (hs : Staged s) : Staged s' := by
  intro sid pc x' p hm hx' hp
  obtain ⟨x, hx, e | e⟩ := h.heap sid x' hx'
  · obtain ⟨h1, h2⟩ := hs sid pc x p (by rw [← h.main, hm]) hx (e ▸ hp)
    exact ⟨h.watch p h1, fun e => by rw [h.sessinfo, h2 e]⟩
  · rw [e] at hp
    cases hp

theorem Staged.of_stage (h : s.main.stage = none) : Staged s := by
  intro sid pc x p hm
  rw [h] at hm
  cases hm

theorem Staged.outside (h : s.main.inside = none) : Staged s := .of_stage (stage_outside h)

theorem command_staged {env : Env} {sid : Sid} {evs : List Event} (ho : s.ledger.WatchOpen)
    (he : handleCmd c env sid (s.goto (.events evs)) = .ok s') : Staged s' := by
  unfold handleCmd at he
  split at he
  · cases he
  · rename_i x hx
    split at he
    · cases he
      exact .outside rfl
    · cases he
      exact .outside rfl
    · rename_i h _
      by_cases hq : h = .quit
      · subst hq
        obtain ⟨-, rfl⟩ := runCmd_quit hx he
        refine .outside ?_
        rw [closed_main]
        rfl
      · have hy := runCmd_yields hx hq he
        by_cases hp : h = .pasv
        · subst hp
          intro j pc y p hm hj hf
          have hm' : s'.main.stage = some (sid, .name) := congrArg Main.stage hy.main
          cases hm.symm.trans hm'
          rw [hy.heap, Function.update_self] at hj
          cases hj
          cases hf
          refine ⟨?_, nofun⟩
          have hk : s'.watch = s.watch := congrArg (fun k => k.2.1) hy.kernel
          rw [hk]
          exact Bool.eq_false_iff.mpr fun h => ho _ h s.fds.lowest_none
        · refine .of_stage ?_
          rw [hy.main]
          cases h <;> first | rfl | exact absurd rfl hp

theorem HandlerStep.staged (h : HandlerStep s s') (hs : Staged s) : Staged s' := by
  cases h with
  | name hm hx hf _ =>
    intro j pc y p hj hy hp
    cases hj
    exact ⟨(hs _ _ y p (congrArg Main.stage hm) hy hp).1, nofun⟩
  | @entry sid text evs x fd hm hx hf _ =>
    intro j pc y p hj hy hp
    cases hj
    refine ⟨(hs _ _ y p (congrArg Main.stage hm) hy hp).1, fun _ => ?_⟩
    cases hx.symm.trans hy
    cases hf.symm.trans hp
    exact Function.update_self ..
  | watch => exact .of_stage rfl
  | deaf => exact .of_stage rfl
  | write => exact .of_stage rfl
  | back => exact .outside rfl

theorem staged_step (ho : s.ledger.WatchOpen) (hs : Staged s) (hen : enabled s l) (he : exec c s l = .ok s') :
    Staged s' := by
  cases l with
  | arrive fd bs => cases he; exact hs
  | hangup fd => cases he; exact hs
  | faults fd es => cases he; exact hs
  | wait evs => cases he; exact .outside rfl
  | timeout => cases he; exact .outside rfl
  | waitErr e => cases he
  | evictOne now =>
    have hm : s.main = .evict := hen
    rcases evictOne_cases he with ⟨rfl, -⟩ | ⟨n, node, x, t, -, -, -, -, hc, rfl⟩
    · exact .outside rfl
    · obtain ⟨y, -, -, rfl⟩ := closeSess_inv hc
      refine .outside ?_
      show (closed s node.sess y).main.inside = _
      rw [closed_main, hm]
      rfl
  | dispatch now env =>
    obtain ⟨ev, evs, hm⟩ := hen
    unfold exec at he
    simp only [hm] at he
    exact .outside (dispatch_inside he)
  | command env =>
    obtain ⟨sid, evs, hm⟩ := hen
    exact command_staged ho (exec_command_ok hm he)
  | onward b => exact (handlerStep_cases hen he).staged hs
  | acceptOne conn =>
    obtain ⟨evs, hm⟩ := hen
    refine .outside ?_
    rw [accept_main he, hm]
    rfl
  | acceptErr e =>
    obtain ⟨evs, hm⟩ := hen
    unfold exec at he
    simp only [hm] at he
    split at he
    · cases he
      exact .outside rfl
    · cases he
  | thread tid env =>
    obtain ⟨th, hth⟩ := Option.ne_none_iff_exists'.mp hen
    exact (Deaf.thread hth he).staged hs

theorem staged_reach {C : Server → Label → Prop} (h : Reach c C s) : Staged s := by
  refine Runs.Reach.inv_with (J := fun s => s.ledger.WatchOpen) (I := Staged) (fun s => watchOpen_reach) ?_ ?_ h
  · rintro s ⟨fds, -, rfl⟩
    exact .outside rfl
  · rintro s l s' ho hs - ⟨hen, he⟩
    exact staged_step ho hs hen he

theorem Outcome.entry_unwatched {op : Op} {sid : Sid} {g : Fd} (ho : Outcome c s l s' op) (hs : Staged s)
    (e : op = .entry sid g) : s.watch g = false := by
  subst e
  obtain ⟨x, hx, hp⟩ := ho.step.listener (Or.inl rfl)
  obtain ⟨y, hy, rfl⟩ := Option.map_eq_some_iff.mp hx
  exact (hs sid .entry y g (ho.stage _ rfl) hy hp).1

theorem Outcome.enroll_info {op : Op} {sid : Sid} {g : Fd} (ho : Outcome c s l s' op) (hs : Staged s)
    (e : op = .enroll sid g) : s.sessinfo g = ⟨some ⟨.data, g⟩, some sid⟩ := by
  subst e
  obtain ⟨x, hx, hp⟩ := ho.step.listener (Or.inr rfl)
  obtain ⟨y, hy, rfl⟩ := Option.map_eq_some_iff.mp hx
  exact (hs sid .watch y g (ho.stage _ rfl) hy hp).2 rfl

/-! ## the runs in which no listener is forgotten -/

/-- every registered descriptor but `listenfd` is the control socket or the passive listener of the
live session that `sessinfo` names -/
def Registrations (c : Conf) (s : Server) : Prop :=
  ∀ fd, s.watch fd = true → fd ≠ c.listenfd → ∃ t sid x,
    s.sessinfo fd = ⟨some ⟨t, fd⟩, some sid⟩ ∧ s.heap sid = some x ∧
      (t = .ctrl ∧ x.ctrlFd = fd ∨ t = .data ∧ x.pasvListenFd = some fd)

/-- no step takes from a session's record a listener that is registered for this session -/
def OnePasv (c : Conf) (s : Server) (l : Label) : Prop :=
  ∀ p ∈ (drops s l).toList, p.2 = c.listenfd ∨ s.watch p.2 = false ∨
    s.sessinfo p.2 ≠ ⟨some ⟨.data, p.2⟩, some p.1⟩

instance (c : Conf) (s : Server) (l : Label) : Decidable (OnePasv c s l) :=
  inferInstanceAs (Decidable (∀ p ∈ _, _))

theorem registrations_iff : Registrations c s ↔ s.ledger.AllOwned c.listenfd := by
  refine forall_congr' fun g => imp_congr_right fun _ => imp_congr_right fun _ => ?_
  constructor
  · rintro ⟨t, sid, x, hi, hx, ho⟩
    exact ⟨t, sid, x.core, hi, ledger_sess hx, ho⟩
  · rintro ⟨t, sid, y, hi, hy, ho⟩
    obtain ⟨x, hx, rfl⟩ := Option.map_eq_some_iff.mp hy
    exact ⟨t, sid, x, hi, hx, ho⟩

theorem onePasv_iff : OnePasv c s l ↔
    ∀ sid g, drops s l = some (sid, g) → ¬ s.ledger.Listens c.listenfd sid g := by
  unfold OnePasv
  simp only [Option.mem_toList, Prod.forall]
  refine forall_congr' fun sid => forall_congr' fun g => imp_congr_right fun _ => ?_
  constructor
  · rintro (h | h | h) ⟨h1, h2, h3⟩
    · exact h1 h
    · exact Bool.false_ne_true (h.symm.trans h2)
    · exact h h3
  · intro h
    by_cases h1 : g = c.listenfd
    · exact Or.inl h1
    · cases h2 : s.watch g with
      | false => exact Or.inr (Or.inl rfl)
      | true => exact Or.inr (Or.inr fun h3 => h ⟨h1, h2, h3⟩)

theorem registrations_step (hn : s.ledger.Numbered) (ho : s.ledger.WatchOpen) (hs : Staged s)
    (hr : Registrations c s) (hen : enabled s l) (he : exec c s l = .ok s') :
    Registrations c s' ↔ OnePasv c s l := by
  obtain ⟨op, ho'⟩ := exec_step hen he
  rw [onePasv_iff, registrations_iff, ← ho'.dropsEq]
  constructor
  · intro h sid g hd hl
    exact ho'.step.orphaned ho hd hl h
  · exact fun hd => ho'.step.owned hn ho (registrations_iff.mp hr) hd (fun _ _ => ho'.entry_unwatched hs)
      fun _ _ => ho'.enroll_info hs

theorem registrations_reach (h : Reach c (OnePasv c) s) : Registrations c s := by
  refine Runs.Reach.inv_with (J := fun s => s.ledger.Numbered ∧ s.ledger.WatchOpen ∧ Staged s)
    (I := Registrations c) (fun s h => ⟨numbered_reach h, watchOpen_reach h, staged_reach h⟩) ?_ ?_ h
  · rintro s ⟨fds, -, rfl⟩ g hg hne
    exact absurd hg (by show ¬ Function.update (fun _ => false) c.listenfd true g = true
                        rw [Function.update_of_ne hne]
                        exact Bool.false_ne_true)
  · rintro s l s' ⟨hn, ho, hs⟩ hr hc ⟨hen, he⟩
    exact (registrations_step hn ho hs hr hen he).mpr hc

/-- **Registrations belong to their sessions** in a run that forgets no listener, and the first step
that forgets one leaves a registration nobody owns. -/
theorem registrations_owned (h : Reach c (OnePasv c) s) : Registrations c s ∧
    ∀ l s', enabled s l → exec c s l = .ok s' → (Registrations c s' ↔ OnePasv c s l) :=
  ⟨registrations_reach h, fun _ _ hen he =>
    registrations_step (numbered_reach h) (watchOpen_reach h) (staged_reach h) (registrations_reach h) hen he⟩

end

/-- a login, PASV, a data connection and LIST, and another PASV -/
def listRun : List Label :=
  connects ++ sends 5 "USER u" ++ sends 5 "PASS p" ++ sendsPasv 5 ++ dataConnects 7
    ++ sends 5 "LIST" ++ sendsPasv 5

/-- the second listener is registered for the session -/
theorem registrations_owned_list : ∃ s, Reach sampleConf (OnePasv sampleConf) s ∧
    s.watch 7 = true ∧ Registrations sampleConf s := by
  obtain ⟨s, hs, hp⟩ := reach_of_play (p := fun s => s.watch 7) (sampleReach (OnePasv sampleConf))
    (show (play sampleConf (OnePasv sampleConf) sampleBoot listRun).any _ = true by decide +kernel)
  exact ⟨s, hs, hp, (registrations_owned hs).1⟩

/-- PASV twice: the first listener stays registered -/
theorem listener_forgotten : ¬ ∀ c s, Reach c Runs.Any s → s.main = .events [] →
    Registrations c s := by
  intro h
  obtain ⟨s, hs, hp⟩ := reach_of_play
    (p := fun s => decide (s.main = .events []) && s.watch 6 &&
      decide ((s.sessinfo 6).sess = some 0) && (s.heap 0).all fun x : Session =>
        decide (x.ctrlFd = 5) && decide (x.pasvListenFd = some 7)) (sampleReach Runs.Any)
    (show (play sampleConf Runs.Any sampleBoot (connects ++ sendsPasv 5 ++ sendsPasv 5)).any _
      = true by decide +kernel)
  simp only [Bool.and_eq_true, decide_eq_true_eq] at hp
  obtain ⟨⟨⟨hm, hw⟩, hi⟩, hx⟩ := hp
  obtain ⟨t, sid, x, hi', hx', ho⟩ := h _ s hs hm 6 hw (by decide)
  rw [hi'] at hi
  cases hi
  rw [hx', Option.all_some, Bool.and_eq_true, decide_eq_true_eq, decide_eq_true_eq] at hx
  rcases ho with ⟨-, e⟩ | ⟨-, e⟩
  · rw [hx.1] at e
    cases e
  · rw [hx.2] at e
    cases e

end Myftpd
