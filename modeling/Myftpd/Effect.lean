import Myftpd.Worked

/-!
# What every step sends

`Past s n`: the handler of line `n` has begun.  A step of the main loop that is not one of a handler
sends no reply to a line; a handler answers its line, at once or in further steps, or starts a transfer, or
does neither; a transfer thread answers the line that started it.

* `Effect`        a step between commands;
* `runCmd_sends`  a handler;
* `Further`       a further step of a handler;
* `thread_sends`  what a transfer thread has sent at each of its stages;
* `exec_sends`    every step.
-/

namespace Myftpd
open CMem Server

theorem NoAbor.of {s s' : Server} (h : NoAbor s) (h1 : s'.heap = s.heap) : NoAbor s' := by
  unfold NoAbor
  rw [h1]
  exact h

/-! ## the steps of the main loop -/

/-- what a step sends and what it does to the flags of ABOR and to the count of lines -/
structure Effect (s s' : Server) (rs : List Reply) : Prop where
  sent : sent s'.log = Myftpd.sent s.log ++ rs
  abor : NoAbor s → NoAbor s'
  past : ∀ n, Past s n → Past s' n

section
variable {c : Conf} {env : Env} {s s' : Server} {sid : Sid} {x : Session} {rs : List Reply}

/-- a new thread for the line in hand -/
structure Started (s s' : Server) (sid : Sid) : Prop where
  sent : sent s'.log = Myftpd.sent s.log
  abor : NoAbor s → NoAbor s'
  cmdNo : s'.cmdNo = s.cmdNo
  main : s'.main = s.main
  threads : ∃ kind, s'.threads = Function.update s.threads s.nextTid
    (some ⟨sid, s.cmdNo, kind, .offset, 0, none, 0, 0, 0⟩)

section
variable {o : Option Session} {k : Option Kind} {as : List Act}

theorem Did.noAbor (hd : Did sid o k as s s') (hx : s.heap sid = some x)
    (ha : ∀ y, o = some y → y.aborReceived = x.aborReceived) (h : NoAbor s) : NoAbor s' := by
  intro j z hz
  rw [hd.heap, Function.update_apply] at hz
  split at hz
  · rw [ha z hz]
    exact h sid x hx
  · exact h j z hz

theorem Did.tellsReplies {cs : List Nat} (hd : Did sid o none as s s') (hx : s.heap sid = some x)
    (ha : ∀ y, o = some y → y.aborReceived = x.aborReceived)
    (hr : as.filterMap Act.toReply = cs.map fun code => ⟨s.cmdNo, sid, x.ctrlFd, code⟩) : Says sid x s s' cs where
  sent := by
    unfold sent
    rw [hd.log, List.filterMap_append, hr]
  abor := hd.noAbor hx ha
  threads := hd.threads
  cmdNo := hd.cmdNo
  main := hd.main

theorem Did.started {kind : Kind} (hd : Did sid o (some kind) as s s') (hx : s.heap sid = some x)
    (ha : ∀ y, o = some y → y.aborReceived = x.aborReceived) (hr : as.filterMap Act.toReply = [])
    (hm : s'.main = s.main) : Started s s' sid where
  sent := by
    unfold sent
    rw [hd.log, List.filterMap_append, hr, List.append_nil]
  abor := hd.noAbor hx ha
  cmdNo := hd.cmdNo
  main := hm
  threads := ⟨kind, hd.threads⟩

end

/-- the handler has sent nothing and has returned -/
structure Wordless (s s' : Server) : Prop where
  sent : sent s'.log = Myftpd.sent s.log
  abor : NoAbor s → NoAbor s'
  threads : s'.threads = s.threads
  cmdNo : s'.cmdNo = s.cmdNo
  main : s'.main = s.main

/-- **What a handler sends**: the answer, nothing, or nothing but a transfer that will answer. -/
theorem runCmd_sends {h : Cmd} (hm : s.main.owed = []) (hx : s.heap sid = some x)
    (he : runCmd c env sid x s h = .ok s') :
    speaks x h = true ∧ Answers sid x s s' ∨
      speaks x h = false ∧ h.starts env x = none ∧ Wordless s s' ∨
      h.starts env x ≠ none ∧ Started s s' sid := by
  obtain ⟨o, as, hd, hp⟩ := runCmd_did hx he
  have hmain := runCmd_main hx he
  obtain ⟨cs, hcs, hr⟩ := hp.replied hm
  cases hk : h.starts env x with
  | none =>
    rw [hk] at hd
    have hsays := hd.tellsReplies hx hp.abor hcs
    cases hs : speaks x h with
    | true =>
      rw [if_pos hs, ← hmain] at hr
      exact Or.inl ⟨rfl, cs, hsays, hr⟩
    | false =>
      rw [if_neg (by rw [hs]; exact Bool.false_ne_true)] at hr
      subst hr
      refine Or.inr (Or.inl ⟨rfl, rfl, ?_, hsays.abor, hsays.threads, hsays.cmdNo, hmain.trans (leads_silent hs)⟩)
      exact hsays.sent.trans (List.append_nil _)
  | some kind =>
    have hs : speaks x h = false := by
      rcases (starts_iff.mp (by rw [hk]; exact Option.some_ne_none kind)).1 with rfl | rfl
      · rfl
      · rfl
    rw [if_neg (by rw [hs]; exact Bool.false_ne_true)] at hr
    rw [hr] at hcs
    rw [hk] at hd
    exact Or.inr (Or.inr ⟨Option.some_ne_none kind, hd.started hx hp.abor hcs (hmain.trans (leads_silent hs))⟩)

theorem handleCmd_sends (hm : s.main.owed = []) (he : handleCmd c env sid s = .ok s') : ∃ x, s.heap sid = some x ∧
    ((∃ cs, Says sid x s s' cs) ∨ Started s s' sid) := by
  obtain ⟨x, hx, ⟨-, code, text, -, rfl⟩ | ⟨h, -, he⟩⟩ := handleCmd_cases he
  · exact ⟨x, hx, Or.inl ⟨[code], (Moves.reply ..).tellsReplies⟩⟩
  · rcases runCmd_sends hm hx he with ⟨-, cs, h, -⟩ | ⟨-, -, h⟩ | ⟨-, h⟩
    · exact ⟨x, hx, Or.inl ⟨cs, h⟩⟩
    · exact ⟨x, hx, Or.inl ⟨[], h.sent.trans (List.append_nil _).symm, h.abor, h.threads, h.cmdNo,
        by rw [h.main]; exact .returned⟩⟩
    · exact ⟨x, hx, Or.inr h⟩

theorem Turned.effect {l : Label} (h : Turned c s l s') (hl : l.further = false) : Effect s s' [] where
  sent := by
    obtain ⟨as, e, has⟩ := h.log
    unfold sent
    rw [e, List.filterMap_append, List.filterMap_eq_nil_iff.mpr fun a ha => (has a ha).2 hl]
  abor := by
    intro hn j y hy
    rcases h.fresh j y hy with ⟨x, hx, -, e⟩ | ⟨-, e⟩
    · rw [e]
      exact hn j x hx
    · exact e
  past := h.past

/-- A further step of the handler of the line in hand, which sends `cs` of what it owes. -/
structure Further (sid : Sid) (s s' : Server) (cs : List Nat) : Prop where
  inside : s.main.inside = some sid
  still : s'.main.inside = some sid ∨ ∃ evs, s'.main = .events evs
  sent : ∀ fd, (∀ x, s.heap sid = some x → x.ctrlFd = fd) →
    sent s'.log = Myftpd.sent s.log ++ cs.map fun code => ⟨s.cmdNo, sid, fd, code⟩
  owed : s.main.owed = cs ++ s'.main.owed
  heap : s'.heap = s.heap
  threads : s'.threads = s.threads
  cmdNo : s'.cmdNo = s.cmdNo

theorem Further.command {cs : List Nat} (h : Further sid s s' cs) : isCommand s'.main = false := by
  rcases h.still with h | ⟨evs, h⟩
  · cases hm : s'.main <;> rw [hm] at h <;> first | rfl | cases h
  · rw [h]
    rfl

theorem Further.quiet {m : Main} (hm : s.main = m) (hi : m.inside = some sid)
    (hs : s'.main.inside = some sid ∨ ∃ evs, s'.main = .events evs) (hl : Myftpd.sent s'.log = Myftpd.sent s.log)
    (ho : s'.main.owed = m.owed) (hh : s'.heap = s.heap) (ht : s'.threads = s.threads)
    (hn : s'.cmdNo = s.cmdNo) : Further sid s s' [] :=
  ⟨by rw [hm, hi], hs, fun _ _ => by rw [hl]; exact (List.append_nil _).symm, by rw [hm, ho]; rfl, hh, ht, hn⟩

theorem handlerStep_further (h : HandlerStep s s') : ∃ sid cs, Further sid s s' cs := by
  cases h with
  | name hm => exact ⟨_, [], .quiet hm rfl (Or.inl rfl) rfl rfl rfl rfl rfl⟩
  | entry hm => exact ⟨_, [], .quiet hm rfl (Or.inl rfl) rfl rfl rfl rfl rfl⟩
  | watch hm => exact ⟨_, [], .quiet hm rfl (Or.inl rfl) rfl rfl rfl rfl rfl⟩
  | deaf hm => exact ⟨_, [], .quiet hm rfl (Or.inl rfl) rfl rfl rfl rfl rfl⟩
  | @write sid w ws evs x hm hx =>
    cases w with
    | raw text =>
      refine ⟨sid, [], .quiet hm rfl (Or.inl rfl) ?_ rfl rfl rfl rfl⟩
      exact List.filterMap_append.trans (List.append_nil _)
    | reply code text =>
      refine ⟨sid, [code], by rw [hm]; rfl, Or.inl rfl, fun fd hfd => ?_, by rw [hm]; rfl, rfl, rfl, rfl⟩
      rw [← hfd x hx]
      exact List.filterMap_append
  | @back sid evs hm => exact ⟨sid, [], .quiet hm rfl (Or.inr ⟨evs, rfl⟩) rfl rfl rfl rfl rfl⟩

end

/-! ## a transfer thread -/

/-- the number of replies that a thread has sent before the stage -/
def Pc.said : Pc → Nat
  | .offset => 0
  | .clear => 0
  | .open => 0
  | .lock => 0
  | .trunc => 0
  | .seek => 0
  | .stat => 0
  | .opening => 0
  | .checkAbor => 2
  | _ => 1

/-- the replies `codes` are those that the thread has sent so far -/
structure Stage (th : Thread) (codes : List Nat) : Prop where
  flag : th.flag ≤ 2
  zero : th.pc.said = 0 → codes = []
  one : th.pc.said = 1 → codes = [FTP_DATACONN]
  two : th.pc.said = 2 → Once codes

/-- the state after a step of the thread, and what the thread has sent by then -/
inductive Stepped (tid : Tid) (th : Thread) (fd : Fd) (codes : List Nat) (s s' : Server) : Prop where
  | on (t : Server) (u : Thread) (cs : List Nat) :
      Moves s t (cs.map fun code => ⟨th.cmd, th.sess, fd, code⟩) → s' = setThread tid t u →
      u.cmd = th.cmd → u.sess = th.sess → Stage u (codes ++ cs) → Stepped tid th fd codes s s'
  | done (t : Server) (cs : List Nat) :
      Moves s t (cs.map fun code => ⟨th.cmd, th.sess, fd, code⟩) → s' = endThread tid t →
      Once (codes ++ cs) → Stepped tid th fd codes s s'
  | idle : s' = s → Stepped tid th fd codes s s'

section
variable {env : TEnv} {tid : Tid} {th u : Thread} {s s' t : Server} {fd : Fd} {codes : List Nat}

theorem Stepped.quiet (h : Stage th codes) (hm : Moves s t []) (hc : u.cmd = th.cmd)
    (hs : u.sess = th.sess) (hf : u.flag ≤ 2) (hp : u.pc.said = th.pc.said) :
    Stepped tid th fd codes s (setThread tid t u) := by
  refine .on t u [] hm rfl hc hs ⟨hf, ?_, ?_, ?_⟩
  · rw [hp, List.append_nil]
    exact h.zero
  · rw [hp, List.append_nil]
    exact h.one
  · rw [hp, List.append_nil]
    exact h.two

theorem sends_thread {x : Session} (hx : x.ctrlFd = fd) (code : Nat) (text : List UInt8) :
    Moves s (s.ftpReply th.sess x (some th.cmd) code text)
      ([code].map fun code => ⟨th.cmd, th.sess, fd, code⟩) := by
  subst hx
  exact Moves.reply s th.sess x th.cmd code text

theorem failReply_final (k : Kind) : 200 ≤ (failReply k).1 ∧ (failReply k).1 < 600 := by
  cases k with
  | retr => decide
  | stor a => exact (by decide : 200 ≤ FTP_UPLOADFAIL ∧ FTP_UPLOADFAIL < 600)

theorem refuses_said {pc : Pc} (h : pc.refuses = true) : pc.said = 0 := by
  cases pc <;> first | rfl | cases h

theorem works_said {k : Kind} {p q : Pc} (h : p.follows k q) (hp : p.works = true) : q.said = p.said := by
  cases p with
  | lock =>
    cases k with
    | retr => cases h; rfl
    | stor a => rcases h with rfl | rfl <;> rfl
  | trunc => cases h; rfl
  | seek =>
    cases k with
    | retr => cases h; rfl
    | stor a => cases h; rfl
  | stat =>
    cases k with
    | retr => rcases h with rfl | rfl <;> rfl
    | stor a => cases h; rfl
  | loop => rcases h with rfl | rfl | ⟨-, n, rfl⟩ <;> rfl
  | write n => rcases h with rfl | rfl | ⟨m, rfl⟩ <;> rfl
  | _ => cases hp

/-- **What a transfer thread has sent** at each of its stages, and when it returns. -/
theorem thread_sends (hfd : ∀ x, s.heap th.sess = some x → x.ctrlFd = fd)
    (hth : s.threads tid = some th) (h : Stage th codes) (ha : NoAbor s)
    (he : threadStep env tid s = .ok s') : Stepped tid th fd codes s s' := by
  cases thread_round hth he with
  | refuse hr hx _ =>
    refine .done _ [(failReply th.kind).1] (sends_thread (hfd _ hx) _ _) rfl ?_
    rw [h.zero (refuses_said hr)]
    exact once_one (failReply_final th.kind)
  | offset hpc hx => exact .quiet h (Moves.refl s) rfl rfl h.flag (by rw [hpc]; rfl)
  | clear hpc hx => exact .quiet h (Moves.put hx (Or.inl rfl)) rfl rfl h.flag (by rw [hpc]; rfl)
  | openat hpc hx _ _ =>
    have h1 : Moves s { s with fds := s.fds.alloc (.file tid) } [] := Moves.of rfl rfl rfl rfl rfl rfl
    exact .quiet h (h1.trans (Moves.emit _ rfl)) rfl rfl h.flag (by rw [hpc]; rfl)
  | on hw ho =>
    exact .quiet h (Moves.refl s) ho.cmd ho.sess (ho.flag.elim (fun e => e ▸ h.flag) id)
      (works_said ho.follows hw)
  | file hw _ ho =>
    exact .quiet h (Moves.emit s rfl) ho.cmd ho.sess (ho.flag.elim (fun e => e ▸ h.flag) id)
      (works_said ho.follows hw)
  | @opening x text u hpc hx ho =>
    have hf := ho.follows
    rw [hpc] at hf
    have hu : u.pc = .loop := hf
    refine .on _ u [FTP_DATACONN] (sends_thread (hfd x hx) _ _) rfl ho.cmd ho.sess
      ⟨ho.flag.elim (fun e => e ▸ h.flag) id, ?_, ?_, ?_⟩
    · rw [hu]
      rintro ⟨⟩
    · rw [h.zero (by rw [hpc]; rfl)]
      exact fun _ => rfl
    · rw [hu]
      rintro ⟨⟩
  | rmData hpc hx => exact .quiet h (Moves.closeOpt s _) rfl rfl h.flag (by rw [hpc]; rfl)
  | rmPasv hpc hx => exact .quiet h (Moves.closeOpt s _) rfl rfl h.flag (by rw [hpc]; rfl)
  | setPasv hpc hx => exact .quiet h (Moves.put hx (Or.inl rfl)) rfl rfl h.flag (by rw [hpc]; rfl)
  | setData hpc hx => exact .quiet h (Moves.put hx (Or.inl rfl)) rfl rfl h.flag (by rw [hpc]; rfl)
  | closeFile hpc => exact .quiet h (Moves.closeOpt s _) rfl rfl h.flag (by rw [hpc]; rfl)
  | @final x code text hpc hx hc =>
    refine .on _ _ [code] (sends_thread (hfd x hx) _ _) rfl rfl rfl
      ⟨h.flag, by rintro ⟨⟩, by rintro ⟨⟩, fun _ => ?_⟩
    rw [h.one (by rw [hpc]; rfl)]
    exact once_two (by decide) hc
  | silent hpc hx hn =>
    -- the flag of ABOR is off, so there is a final reply
    exact absurd ((ha _ _ hx).symm.trans (hn h.flag)) Bool.false_ne_true
  | aborted hpc hx hab => exact absurd ((ha _ _ hx).symm.trans hab) Bool.false_ne_true
  | returns hpc hx _ =>
    refine .done s [] (Moves.refl s) rfl ?_
    rw [List.append_nil]
    exact h.two (by rw [hpc]; rfl)
  | idle _ => exact .idle rfl

end

/-! ## every step -/

/-- the handler that is under way, and what it owes, are as they were -/
def Lingers (s s' : Server) : Prop :=
  s'.main = s.main ∧ s'.cmdNo = s.cmdNo ∨ s.main.inside = none ∧ s'.main.inside = none

/-- what a step of the server is for its replies: quiet, the answer to a line, the start of a
transfer, a further step of a handler, or a step of a transfer thread -/
inductive Sends (s s' : Server) : Prop where
  | quiet : Effect s s' [] → s'.threads = s.threads → Lingers s s' → Sends s s'
  | command {sid : Sid} {evs : List Event} {x : Session} {cs : List Nat} :
      s.main = .command sid evs → s.heap sid = some x → Says sid x (s.goto (.events evs)) s' cs →
      Sends s s'
  | start {sid : Sid} {evs : List Event} : s.main = .command sid evs →
      Started (s.goto (.events evs)) s' sid → Sends s s'
  | further {sid : Sid} {cs : List Nat} : Further sid s s' cs → Sends s s'
  | thread {tid : Tid} {th : Thread} : s.threads tid = some th →
      (∀ fd codes, (∀ x, s.heap th.sess = some x → x.ctrlFd = fd) → Stage th codes → NoAbor s →
        Stepped tid th fd codes s s') → Sends s s'

variable {c : Conf} {s s' : Server} {l : Label}

/-- between commands the handler that is under way stays where it is -/
theorem between_stays (hen : enabled s l) (he : exec c s l = .ok s') (hl : l.between = true)
    (hf : l.further = false) : Lingers s s' := by
  have hout : ∀ {m m' : Main}, s.main = m → m.inside = none → s'.main = m' → m'.inside = none → Lingers s s' :=
    fun e h e' h' => Or.inr ⟨by rw [e, h], by rw [e', h']⟩
  cases l with
  | arrive fd bs => cases he; exact Or.inl ⟨rfl, rfl⟩
  | hangup fd => cases he; exact Or.inl ⟨rfl, rfl⟩
  | faults fd es => cases he; exact Or.inl ⟨rfl, rfl⟩
  | wait evs => cases he; exact hout hen.1 rfl rfl rfl
  | timeout => cases he; exact hout hen.1 rfl rfl rfl
  | waitErr e => cases he
  | evictOne now =>
    have hm : s.main = .evict := hen
    rcases evictOne_cases he with ⟨rfl, -⟩ | ⟨n, node, x, t, -, -, -, -, hc, rfl⟩
    · exact hout hm rfl rfl rfl
    · obtain ⟨y, -, -, rfl⟩ := closeSess_inv hc
      refine Or.inr ⟨by rw [hm]; rfl, ?_⟩
      show (closed s node.sess y).main.inside = none
      rw [closed_main, hm]
      rfl
  | dispatch now env =>
    obtain ⟨ev, evs, hm⟩ := hen
    unfold exec at he
    simp only [hm] at he
    exact hout hm rfl rfl (dispatch_inside he)
  | command env => cases hl
  | onward b => cases hf
  | acceptOne conn =>
    obtain ⟨evs, hm⟩ := hen
    exact hout hm rfl ((accept_main he).trans hm) rfl
  | acceptErr e =>
    obtain ⟨evs, hm⟩ := hen
    unfold exec at he
    simp only [hm] at he
    split at he
    · cases he
      exact hout hm rfl rfl rfl
    · cases he
  | thread tid env => cases hl

theorem exec_sends (hen : enabled s l) (he : exec c s l = .ok s') : Sends s s' := by
  cases hf : l.further with
  | true =>
    cases l with
    | onward b =>
      obtain ⟨sid, cs, h⟩ := handlerStep_further (handlerStep_cases hen he)
      exact .further h
    | _ => cases hf
  | false =>
    rcases exec_cases hen he with ⟨hl, h⟩ | ⟨env, sid, evs, rfl, hm, he⟩ | ⟨tid, env, th, rfl, hth, he⟩
    · exact .quiet (h.effect hf) h.threads (between_stays hen he hl hf)
    · obtain ⟨x, hx, ⟨cs, h⟩ | h⟩ := handleCmd_sends rfl he
      · exact .command hm hx h
      · exact .start hm h
    · exact .thread hth fun fd codes hfd h ha => thread_sends hfd hth h ha he

end Myftpd
