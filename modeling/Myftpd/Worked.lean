import Myftpd.Records

/-!
# The records and the threads after a step

* `Turned`       the state after a step between commands;
* `exec_cases`   every step is one of these, or a command, or one of a transfer thread;
* `exec_books`   the timeout list and the counts after a step;
* `exec_params`  the four fields of a record after a step.
-/

namespace Myftpd
open CMem Server

section
variable {c : Conf} {env : Env} {now : Int} {sid j : Sid} {x y : Session} {s s' t : Server} {l : Label}
  {ev : Event} {evs : List Event} {f : FdT} {q : Params} {u : Server}

theorem readsFrom_input (hm : s.main = .events (ev :: evs))
    (hi : s.sessinfo ev.fd = ⟨some f, some sid⟩) (hl : f.fd ≠ c.listenfd) (h1 : ev.epollin = true) :
    readsFrom c s (.dispatch now env) = some (f.type, sid) := by
  unfold readsFrom
  simp only [hm, hi]
  exact if_pos ⟨hl, h1⟩

theorem readsFrom_none (hm : s.main = .events (ev :: evs))
    (h : ∀ f sid, s.sessinfo ev.fd = ⟨some f, some sid⟩ → f.fd = c.listenfd ∨ ev.epollin = false) :
    readsFrom c s (.dispatch now env) = none := by
  unfold readsFrom
  simp only [hm]
  split
  · rename_i f sid hi
    refine if_neg fun ⟨h1, h2⟩ => ?_
    rcases h f sid hi with h3 | h3
    · exact h1 h3
    · rw [h2] at h3
      cases h3
  · rfl

theorem reads_none (h : ∀ sid, readsFrom c s l ≠ some (.ctrl, sid)) : reads c s l = none := by
  unfold reads
  split
  · rename_i sid hr
    exact absurd hr (h sid)
  · rfl

theorem accepts_none (h : ∀ sid type, readsFrom c s l = some (type, sid) → type = .ctrl) :
    accepts c s l = none := by
  unfold accepts
  split
  · rename_i type sid now env hr
    exact if_neg fun ⟨h1, _⟩ => h1 (h sid type hr)
  · rfl

theorem revised_unread (h : readsFrom c s (.dispatch now env) = none) :
    revised c s (.dispatch now env) j q = q := by
  unfold revised
  simp only [reads_none (c := c) fun sid e => absurd (h.symm.trans e) nofun,
    accepts_none (c := c) fun sid type e => absurd (h.symm.trans e) nofun]
  exact if_neg nofun

theorem revised_other (h : ∀ p, handles s (.command env) = some p → j ≠ p.1) :
    revised c s (.command env) j q = q := by
  unfold revised
  dsimp only
  split
  · rename_i p hn
    exact if_neg (h _ hn)
  · rfl

theorem starts_handles {k : Kind} (hs : starts s (.command env) = some (sid, x, k)) :
    ∃ h, handles s (.command env) = some (sid, x, h) ∧ (h = .retr ∨ h = .stor) := by
  obtain ⟨⟨i, z, h⟩, hn, hp⟩ :=
    Option.bind_eq_some_iff.mp (hs : (handles s (.command env)).bind _ = _)
  obtain ⟨k', hk, e⟩ := Option.map_eq_some_iff.mp hp
  cases e
  refine ⟨h, hn, ?_⟩
  cases h with
  | retr => exact Or.inl rfl
  | stor => exact Or.inr rfl
  | _ => cases hk

/-- the records and threads after a step of the main loop that is not a command -/
structure Looped (c : Conf) (s : Server) (l : Label) (s' : Server) : Prop where
  record : ∀ j y, s'.heap j = some y →
    (∃ x, s.heap j = some x ∧ y.params = revised c s l j x.params) ∨ j = s.nextSid
  threads : s'.threads = s.threads
  nextTid : s'.nextTid = s.nextTid

/-- a further step of a handler -/
def Label.further : Label → Bool
  | .onward _ => true
  | _ => false

/-- The state after a step of the main loop that is not a command.  A new record has no directory, and in
the others neither the directory nor the flag of ABOR changes; only a handler that is under way sends a reply. -/
structure Turned (c : Conf) (s : Server) (l : Label) (s' : Server) : Prop extends Looped c s l s' where
  fresh : ∀ j y, s'.heap j = some y → (∃ x, s.heap j = some x ∧ y.dirfd = x.dirfd ∧
    y.aborReceived = x.aborReceived) ∨ y.dirfd = none ∧ y.aborReceived = false
  log : Adds (fun a => a.touches = none ∧ (l.further = false → a.toReply = none)) s s'
  past : ∀ n, Past s n → Past s' n
  books : Booked c s l s'.books

/-- `t` differs from `s` in the batch, the lists and the descriptors only. -/
structure Alike (s t : Server) : Prop where
  heap : t.heap = s.heap
  threads : t.threads = s.threads
  nextTid : t.nextTid = s.nextTid
  cmdNo : t.cmdNo = s.cmdNo
  main : isCommand t.main = true → isCommand s.main = true
  log : t.log = s.log

theorem Alike.refl (s : Server) : Alike s s := ⟨rfl, rfl, rfl, rfl, id, rfl⟩

theorem Alike.past (h : Alike s t) : ∀ n, Past s n → Past t n := by
  intro n hn
  unfold Past
  rw [h.cmdNo]
  refine hn.imp_right fun ⟨e, hf⟩ => ⟨e, ?_⟩
  by_contra hc
  rw [h.main (Bool.not_eq_false _ ▸ hc)] at hf
  cases hf

theorem Turned.same (h : Alike s s') (hq : ∀ j q, revised c s l j q = q) (hb : Booked c s l s'.books) :
    Turned c s l s' where
  record := fun j y hy => Or.inl ⟨y, by rw [← h.heap, hy], (hq j _).symm⟩
  threads := h.threads
  nextTid := h.nextTid
  fresh := fun j y hy => Or.inl ⟨y, by rw [← h.heap, hy], rfl, rfl⟩
  log := .of h.log
  past := h.past
  books := hb

theorem Turned.put (f : Params → Params) (hx : s.heap sid = some x)
    (h : s'.heap = Function.update s.heap sid (some y)) (hd : y.dirfd = x.dirfd)
    (ha : y.aborReceived = x.aborReceived) (hp : y.params = f x.params)
    (hq : ∀ j q, revised c s l j q = if j = sid then f q else q) (h1 : s'.threads = s.threads)
    (h2 : s'.nextTid = s.nextTid) (h3 : Adds (fun a => a.touches = none ∧ (l.further = false → a.toReply = none)) s s')
    (h4 : ∀ n, Past s n → Past s' n) (hb : Booked c s l s'.books) : Turned c s l s' := by
  have hrec : ∀ j z, s'.heap j = some z → j = sid ∧ z = y ∨ j ≠ sid ∧ s.heap j = some z := by
    intro j z hz
    rw [h, Function.update_apply] at hz
    split at hz
    · rename_i e
      cases hz
      exact Or.inl ⟨e, rfl⟩
    · rename_i e
      exact Or.inr ⟨e, hz⟩
  refine ⟨⟨fun j z hz => Or.inl ?_, h1, h2⟩, fun j z hz => Or.inl ?_, h3, h4, hb⟩
  · rcases hrec j z hz with ⟨rfl, rfl⟩ | ⟨hj, hz⟩
    · exact ⟨x, hx, by rw [hq, if_pos rfl, hp]⟩
    · exact ⟨z, hz, by rw [hq, if_neg hj]⟩
  · rcases hrec j z hz with ⟨rfl, rfl⟩ | ⟨-, hz⟩
    · exact ⟨x, hx, hd, ha⟩
    · exact ⟨z, hz, rfl, rfl⟩

theorem Turned.close (h : Alike s t) (hc : t.closeSess sid = .ok u) (h' : Alike u s')
    (hq : ∀ j q, revised c s l j q = q) (hb : Booked c s l s'.books) : Turned c s l s' := by
  obtain ⟨x, -, -, rfl⟩ := closeSess_inv hc
  have hh : ∀ j y, s'.heap j = some y → s.heap j = some y := by
    intro j y hy
    rw [h'.heap, closed_heap, h.heap, Function.update_apply] at hy
    split at hy
    · cases hy
    · exact hy
  refine ⟨⟨fun j y hy => Or.inl ⟨y, hh j y hy, (hq j _).symm⟩, ?_, ?_⟩,
    fun j y hy => Or.inl ⟨y, hh j y hy, rfl, rfl⟩, .of ?_, fun n hn => h'.past n ?_, hb⟩
  · rw [h'.threads, closed_threads, h.threads]
  · rw [h'.nextTid, closed_nextTid, h.nextTid]
  · rw [h'.log, closed_log, h.log]
  · unfold Past
    rw [closed_cmdNo, closed_main]
    exact h.past n hn

theorem processCtrlRead_turned (hr : readsFrom c s (.dispatch now env) = some (.ctrl, sid))
    (h : Alike s t) (hsock : t.sock = s.sock) (hb : Booked c s (.dispatch now env) t.books)
    (he : processCtrlRead sid evs t = .ok s') : Turned c s (.dispatch now env) s' := by
  have hacc : accepts c s (.dispatch now env) = none := accepts_none fun _ _ e => by
    cases hr.symm.trans e
    rfl
  obtain ⟨x, hx, h'⟩ := processCtrlRead_cases he
  rw [h.heap] at hx
  rw [hsock] at h'
  rcases h' with ⟨hk, hc⟩ | ⟨m, k, cmd, arg, hk, hp, rfl⟩
  · have hreads : reads c s (.dispatch now env) = none := by
      unfold reads
      simp only [hr, hx, Option.bind_some, hk]
    refine .close h hc (.refl s') (fun j q => ?_) (by rw [closeSess_books hc]; exact hb)
    unfold revised
    simp only [hreads, hacc]
    exact if_neg (by rintro ⟨⟩)
  · have hreads : reads c s (.dispatch now env) = some (sid, cmd, arg) := by
      unfold reads
      simp only [hr, hx, Option.bind_some, hk, hp, Option.map_some]
    refine .put (fun q => { q with arg := arg }) hx (congrArg (Function.update · sid _) h.heap) rfl rfl
      rfl (fun j q => ?_) h.threads h.nextTid (.emit h.log ⟨rfl, fun _ => rfl⟩) (fun n hn => Or.inl ?_) hb
    · unfold revised
      simp only [hreads]
    · show n < t.cmdNo + 1
      rw [h.cmdNo]
      exact Nat.lt_succ_of_le (hn.elim Nat.le_of_lt fun h => h.1.le)

theorem processDataRead_turned {type : FdType} (ht : type ≠ .ctrl)
    (hr : readsFrom c s (.dispatch now env) = some (type, sid)) (h : Alike s t) (hfds : t.fds = s.fds)
    (hb : Booked c s (.dispatch now env) t.books) (he : processDataRead env sid t = .ok s') :
    Turned c s (.dispatch now env) s' := by
  have hreads : reads c s (.dispatch now env) = none := reads_none fun j e => by
    cases hr.symm.trans e
    exact ht rfl
  have hacc : accepts c s (.dispatch now env) = if env.accept = true then some sid else none := by
    unfold accepts
    simp only [hr, ne_eq, ht, not_false_eq_true, true_and]
  obtain ⟨x, p, hx, -, ⟨ha, rfl⟩ | ⟨ha, rfl⟩⟩ := processDataRead_cases he
  · rw [h.heap] at hx
    rw [if_pos ha] at hacc
    refine .put (fun q => { q with dataFd := some t.fds.lowest }) hx
      (congrArg (Function.update · sid _) h.heap) rfl rfl rfl (fun j q => ?_) h.threads
      h.nextTid (.of h.log) h.past hb
    unfold revised
    simp only [hreads, hacc, Option.some.injEq, hfds, eq_comm]
  · rw [if_neg (Bool.eq_false_iff.mp ha)] at hacc
    refine .same h (fun j q => ?_) hb
    unfold revised
    simp only [hreads, hacc]
    exact if_neg nofun

theorem dispatch_turned (hm : s.main = .events (ev :: evs))
    (he : dispatch c env now ev evs s = .ok s') : Turned c s (.dispatch now env) s' := by
  have hgo : ∀ m, isCommand m = false → Alike s (s.goto m) := fun m hc =>
    ⟨rfl, rfl, rfl, rfl, fun e => absurd (hc.symm.trans e) Bool.false_ne_true, rfl⟩
  have ha : ∀ fd, Alike s (readied s evs fd now) := fun fd => ⟨rfl, rfl, rfl, rfl, by rintro ⟨⟩, rfl⟩
  have hb : ∀ fd, Booked c s (.dispatch now env) (readied s evs fd now).books := .refresh now env
  have hunread : ∀ f, (s.sessinfo ev.fd).fdIn = some f → f.fd = c.listenfd ∨ ev.epollin = false →
      ∀ j q, revised c s (.dispatch now env) j q = q := by
    intro f hf h j q
    refine revised_unread (readsFrom_none hm fun g sid hi => ?_)
    rw [hi] at hf
    cases hf
    exact h
  cases dispatch_cases he with
  | listen hf hl => exact .same (hgo (.accepting evs) rfl) (hunread _ hf (Or.inl hl)) (.same rfl)
  | ctrl hi hl h1 ht hr =>
    refine processCtrlRead_turned ?_ (ha _) rfl (hb _) hr
    rw [readsFrom_input hm hi hl h1, ht]
  | data hi hl h1 ht hr =>
    exact processDataRead_turned ht (readsFrom_input hm hi hl h1) (ha _) rfl (hb _) hr
  | hup hi hl h1 h2 h3 hc =>
    exact .close (hgo (.events evs) rfl) hc (.refl s') (hunread _ (by rw [hi]) (Or.inr h1))
      (.of_same rfl ((closeSess_books hc).trans (goto_books _)))
  | quiet h1 h2 =>
    refine .same (hgo (.events evs) rfl) (fun j q => ?_) (.same rfl)
    exact revised_unread (readsFrom_none hm fun g sid hi => Or.inr h1)

theorem handleNewConn_turned {conn : Conn} (he : handleNewConn c conn s = .ok s') :
    Turned c s (.acceptOne conn) s' := by
  have hput : ∀ (z : Session) j y, Function.update s.heap s.nextSid (some z) j = some y →
      s.heap j = some y ∨ j = s.nextSid ∧ y = z := by
    intro z j y hy
    rw [Function.update_apply] at hy
    split at hy
    · rename_i e
      cases hy
      exact Or.inr ⟨e, rfl⟩
    · exact Or.inl hy
  unfold handleNewConn at he
  dsimp only at he
  split at he
  · rename_i code text hv
    obtain ⟨rfl, -⟩ := Prod.mk.inj (isValid_code hv)
    have hb := closeSess_books he
    obtain ⟨x, -, -, rfl⟩ := closeSess_inv he
    have hh : ∀ j y, (closed ((beginConn s).ftpReply s.nextSid (newSession s) none FTP_TOO_MANY_USERS
        (ascii text)) s.nextSid x).heap j = some y → s.heap j = some y := by
      intro j y hy
      rw [closed_heap, Function.update_apply] at hy
      split at hy
      · cases hy
      · rename_i hj
        exact (hput _ j y hy).resolve_right fun h => hj h.1
    refine ⟨⟨fun j y hy => Or.inl ⟨y, hh j y hy, rfl⟩, closed_threads, closed_nextTid⟩,
      fun j y hy => Or.inl ⟨y, hh j y hy, rfl, rfl⟩, ?_, fun n hn => ?_, ?_⟩
    · refine ⟨[_], closed_log, fun a ha => ?_⟩
      rw [List.mem_singleton.mp ha]
      exact ⟨rfl, fun _ => rfl⟩
    · unfold Past
      rw [closed_cmdNo, closed_main]
      exact hn
    · rw [hb]
      exact .refused conn _ hv
  · rename_i hv
    obtain ⟨t, ht, he⟩ := bind_ok.mp he
    unfold setSessinfo at ht
    split at ht
    · cases ht
      cases he
      have hh : ∀ j y, Function.update (Function.update s.heap s.nextSid (some (newSession s))) s.nextSid
          (some { newSession s with numThisIp := handleIpCount s conn.ip }) j = some y →
          s.heap j = some y ∨ j = s.nextSid ∧
            y = { newSession s with numThisIp := handleIpCount s conn.ip } := by
        intro j y hy
        rw [Function.update_idem] at hy
        exact hput _ j y hy
      refine ⟨⟨fun j y hy => (hh j y hy).imp (fun h => ⟨y, h, rfl⟩) And.left, rfl, rfl⟩,
        fun j y hy => (hh j y hy).imp (fun h => ⟨y, h, rfl, rfl⟩) ?_, .emit rfl ⟨rfl, fun _ => rfl⟩,
        fun n hn => hn, .admitted conn hv⟩
      rintro ⟨-, rfl⟩
      exact ⟨rfl, rfl⟩
    · cases ht

theorem evictOne_turned (he : Myftpd.evictOne c now s = .ok s') : Turned c s (.evictOne now) s' := by
  rcases evictOne_cases he with ⟨rfl, -⟩ | ⟨n, node, x, t, hn, hnode, ht, hx, hc, rfl⟩
  · have hgo : Alike s (s.goto (.events [])) := ⟨rfl, rfl, rfl, rfl, by rintro ⟨⟩, rfl⟩
    exact .same hgo (fun _ _ => rfl) (.same rfl)
  · have hb : t.books = s.books := closeSess_books hc
    refine .close (.refl s) hc ⟨rfl, rfl, rfl, rfl, id, rfl⟩ (fun _ _ => rfl) ?_
    have h1 : t.tl = s.tl := congrArg Books.tl hb
    show Booked c s (.evictOne now) { t.books with tl := t.tl.remove n x.ctrlFd }
    rw [hb, h1]
    exact .evicted now n node x hn hnode ht hx

theorem handlerStep_turned {b : Bool} (h : HandlerStep s s') : Turned c s (.onward b) s' := by
  have hgo : ∀ m, isCommand m = false → Alike s (s.goto m) := fun m hc =>
    ⟨rfl, rfl, rfl, rfl, fun e => absurd (hc.symm.trans e) Bool.false_ne_true, rfl⟩
  cases h with
  | name => exact .same (hgo _ rfl) (fun _ _ => rfl) (.same rfl)
  | entry => exact .same ⟨rfl, rfl, rfl, rfl, nofun, rfl⟩ (fun _ _ => rfl) (.same rfl)
  | watch => exact .same ⟨rfl, rfl, rfl, rfl, nofun, rfl⟩ (fun _ _ => rfl) (.same rfl)
  | deaf => exact .same (hgo _ rfl) (fun _ _ => rfl) (.same rfl)
  | @write sid w ws evs x hm hx =>
    have hact : ∀ w : Write, (w.act sid x (some s.cmdNo)).touches = none := fun w => by cases w <;> rfl
    refine ⟨⟨fun j y hy => Or.inl ⟨y, hy, rfl⟩, rfl, rfl⟩, fun j y hy => Or.inl ⟨y, hy, rfl, rfl⟩,
      .emit rfl ⟨hact w, nofun⟩, fun n hn => ?_, .same rfl⟩
    exact hn.imp_right fun ⟨e, _⟩ => ⟨e, rfl⟩
  | back => exact .same (hgo _ rfl) (fun _ _ => rfl) (.same rfl)

/-- the steps of the main loop and of the network that are not commands -/
def Label.between : Label → Bool
  | .command _ => false
  | .thread _ _ => false
  | _ => true

theorem between_starts (h : l.between = true) : starts s l = none := by
  cases l with
  | command env => cases h
  | _ => rfl

/-- **Every step** is one between commands, or a command, or one of a transfer thread. -/
theorem exec_cases (hen : enabled s l) (he : exec c s l = .ok s') :
    (l.between = true ∧ Turned c s l s') ∨
    (∃ env sid evs, l = .command env ∧ s.main = .command sid evs ∧
      handleCmd c env sid (s.goto (.events evs)) = .ok s') ∨
    ∃ tid env th, l = .thread tid env ∧ s.threads tid = some th ∧ threadStep env tid s = .ok s' := by
  cases l with
  | arrive fd bs =>
    cases he
    exact Or.inl ⟨rfl, .same ⟨rfl, rfl, rfl, rfl, id, rfl⟩ (fun _ _ => rfl) (.same rfl)⟩
  | hangup fd =>
    cases he
    exact Or.inl ⟨rfl, .same ⟨rfl, rfl, rfl, rfl, id, rfl⟩ (fun _ _ => rfl) (.same rfl)⟩
  | faults fd es =>
    cases he
    exact Or.inl ⟨rfl, .same ⟨rfl, rfl, rfl, rfl, id, rfl⟩ (fun _ _ => rfl) (.same rfl)⟩
  | wait evs =>
    cases he
    exact Or.inl ⟨rfl, .same ⟨rfl, rfl, rfl, rfl, by rintro ⟨⟩, rfl⟩ (fun _ _ => rfl) (.same rfl)⟩
  | timeout =>
    cases he
    exact Or.inl ⟨rfl, .same ⟨rfl, rfl, rfl, rfl, by rintro ⟨⟩, rfl⟩ (fun _ _ => rfl) (.same rfl)⟩
  | waitErr e => cases he
  | evictOne now => exact Or.inl ⟨rfl, evictOne_turned he⟩
  | dispatch now env =>
    obtain ⟨ev, evs, hm⟩ := hen
    unfold exec at he
    simp only [hm] at he
    exact Or.inl ⟨rfl, dispatch_turned hm he⟩
  | command env =>
    obtain ⟨sid, evs, hm⟩ := hen
    exact Or.inr (Or.inl ⟨env, sid, evs, rfl, hm, exec_command_ok hm he⟩)
  | onward b => exact Or.inl ⟨rfl, handlerStep_turned (handlerStep_cases hen he)⟩
  | acceptOne conn => exact Or.inl ⟨rfl, handleNewConn_turned he⟩
  | acceptErr e =>
    obtain ⟨evs, hm⟩ := hen
    unfold exec at he
    simp only [hm] at he
    split at he
    · cases he
      exact Or.inl ⟨rfl, .same ⟨rfl, rfl, rfl, rfl, by rintro ⟨⟩, rfl⟩ (fun _ _ => rfl) (.same rfl)⟩
    · cases he
  | thread tid env =>
    obtain ⟨th, hth⟩ := Option.ne_none_iff_exists'.mp hen
    exact Or.inr (Or.inr ⟨tid, env, th, rfl, hth, he⟩)

/-- **What every step does to the lists and the counts.** -/
theorem exec_books (hen : enabled s l) (he : exec c s l = .ok s') : Booked c s l s'.books := by
  rcases exec_cases hen he with ⟨-, h⟩ | ⟨env, sid, evs, rfl, hm, he⟩ | ⟨tid, env, th, rfl, hth, he⟩
  · exact h.books
  · exact .of_same rfl ((handleCmd_books he).trans (goto_books _))
  · obtain ⟨o, h⟩ := thread_ran hth he
    exact .of_same rfl h.books

/-- What a step does to the records and the threads. -/
inductive Worked (c : Conf) (s : Server) (s' : Server) : Label → Prop where
  | loop {l : Label} : starts s l = none → (∀ tid env, l ≠ .thread tid env) → Looped c s l s' →
      Worked c s s' l
  | start {env : Env} {sid : Sid} {x : Session} {k : Kind} :
      starts s (.command env) = some (sid, x, k) → s.heap sid = some x →
      Handled (fun q => revised c s (.command env) sid q) (some k) sid s s' →
      Worked c s s' (.command env)
  | thread {tid : Tid} {env : TEnv} {th : Thread} {o : Option Thread} : s.threads tid = some th →
      Ran env tid th s s' o → Worked c s s' (.thread tid env)

/-- **Every step.** -/
theorem exec_worked (hen : enabled s l) (he : exec c s l = .ok s') : Worked c s s' l := by
  have hcmd := he
  rcases exec_cases hen he with ⟨hl, h⟩ | ⟨env, sid, evs, rfl, hm, -⟩ | ⟨tid, env, th, rfl, hth, he⟩
  · refine .loop (between_starts hl) ?_ h.toLooped
    rintro tid env rfl
    cases hl
  · obtain ⟨x, hx, hh, hp⟩ := command_handled hm hcmd
    cases hs : starts s (.command env) with
    | none =>
      rw [hs] at hh
      refine .loop hs (by rintro _ _ ⟨⟩) ⟨fun j y hy => Or.inl ?_, hh.threads, hh.nextTid⟩
      by_cases hj : j = sid
      · subst hj
        exact hh.record y hy
      · refine ⟨y, by rw [← hh.others j hj, hy], ?_⟩
        rw [revised_other fun p hn e => hj (e.trans (handles_sid hm hn))]
    | some p =>
      obtain ⟨h1, h2⟩ := hp p hs
      rw [hs] at hh
      obtain ⟨sid', x', k⟩ := p
      cases h1
      cases h2
      exact .start hs hx hh
  · obtain ⟨o, h⟩ := thread_ran hth he
    exact .thread hth h

/-- **The four fields after a step.** -/
theorem exec_params (h : Worked c s s' l) (hy : s'.heap j = some y) :
    (∃ x, s.heap j = some x ∧ y.params = revised c s l j x.params) ∨ j = s.nextSid := by
  cases h with
  | loop _ _ h => exact h.record j y hy
  | @start env sid x k hs hx h =>
    by_cases hj : j = sid
    · subst hj
      exact Or.inl (h.record y hy)
    · refine Or.inl ⟨y, by rw [← h.others j hj, hy], ?_⟩
      obtain ⟨k', hk, -⟩ := starts_handles hs
      rw [revised_other fun p hn e => hj ?_]
      rw [e, ← Option.some.inj (hk.symm.trans hn)]
  | @thread tid env th o hth h =>
    rw [h.beside j] at hy
    unfold revised
    simp only [hth]
    left
    split at hy
    · rename_i hj
      obtain ⟨x, hx, rfl⟩ := Option.map_eq_some_iff.mp hy
      refine ⟨x, hx, ?_⟩
      rw [if_pos hj]
      cases th.pc <;> rfl
    · rename_i hj
      exact ⟨y, hy, by rw [if_neg hj]⟩

end

end Myftpd
