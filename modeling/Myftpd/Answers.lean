import Myftpd.Batch
import Myftpd.Effect
import Myftpd.Isolation

/-!
# Every control line and its replies

Once the handler of a line has begun, the line is answered by the further steps of the handler or by the
transfer that it has started (`Serving`), and when these have come to their end the line has got its replies.
The lines for which nothing is sent, or for which the process ends, are those that are not `Answerable`; a
PASV also ends the process when a transfer takes its listener away while it is under way (`Kept`).

* `Fresh`         replies and threads belong to lines whose handler has begun;
* `Serving`       what holds of a line from its handler to the end of its transfer;
* `Held`          the listener of a PASV that is under way;
* `answered_iff`  the lines that are answered exactly once.
-/

namespace Myftpd
open CMem Server

section
variable {c : Conf} {s s' : Server}

/-! ## lines that have been handled -/

/-- a thread with a sound flag is at some point of its replies -/
theorem stage_exists {th : Thread} (h : th.flag ≤ 2) : ∃ codes, Stage th codes := by
  have hlt : th.pc.said ≤ 2 := by unfold Pc.said; split <;> decide
  have hcases : th.pc.said = 0 ∨ th.pc.said = 1 ∨ th.pc.said = 2 := by omega
  rcases hcases with e | e | e
  · exact ⟨[], h, fun _ => rfl, fun e' => absurd (e.symm.trans e') (by decide),
      fun e' => absurd (e.symm.trans e') (by decide)⟩
  · exact ⟨[FTP_DATACONN], h, fun e' => absurd (e.symm.trans e') (by decide), fun _ => rfl,
      fun e' => absurd (e.symm.trans e') (by decide)⟩
  · exact ⟨[FTP_NOOPOK], h, fun e' => absurd (e.symm.trans e') (by decide),
      fun e' => absurd (e.symm.trans e') (by decide), fun _ => once_one (by decide)⟩

theorem Stepped.cases {tid : Tid} {th : Thread} {fd : Fd} {codes : List Nat}
    (h : Stepped tid th fd codes s s') : ∃ rs o, sent s'.log = sent s.log ++ rs ∧
      (∀ r ∈ rs, r.cmd = th.cmd) ∧ (NoAbor s → NoAbor s') ∧ (∀ n, Past s n → Past s' n) ∧
      (s'.main = s.main ∧ s'.cmdNo = s.cmdNo) ∧
      (s'.threads = Function.update s.threads tid o ∧ (∀ u, o = some u → u.cmd = th.cmd ∧ u.flag ≤ 2) ∨
        s' = s) := by
  have hmap : ∀ cs : List Nat, ∀ r ∈ cs.map fun code => (⟨th.cmd, th.sess, fd, code⟩ : Reply),
      r.cmd = th.cmd := by
    intro cs r hr
    obtain ⟨code, -, rfl⟩ := List.mem_map.mp hr
    rfl
  cases h with
  | on t u cs hm he hc _ hs =>
    subst he
    refine ⟨_, some u, ?_, hmap cs, ?_, ?_, ⟨hm.main, hm.cmdNo⟩, Or.inl ⟨?_, ?_⟩⟩
    · exact hm.sent
    · exact fun h => (hm.abor h).of rfl
    · exact fun n hn => hn.of hm.cmdNo hm.main
    · rw [← hm.threads]
      rfl
    · rintro v ⟨rfl⟩
      exact ⟨hc, hs.flag⟩
  | done t cs hm he _ =>
    subst he
    refine ⟨_, none, ?_, hmap cs, ?_, ?_, ⟨hm.main, hm.cmdNo⟩, Or.inl ⟨?_, ?_⟩⟩
    · exact hm.sent
    · exact fun h => (hm.abor h).of rfl
    · exact fun n hn => hn.of hm.cmdNo hm.main
    · rw [← hm.threads]
      rfl
    · rintro v ⟨⟩
  | idle he =>
    subst he
    exact ⟨[], none, (List.append_nil _).symm, nofun, id, fun _ h => h, ⟨rfl, rfl⟩, Or.inr rfl⟩

/-- Replies and threads belong to lines that have been handled. -/
structure Fresh (s : Server) : Prop where
  sent : ∀ r ∈ sent s.log, Past s r.cmd
  threads : ∀ tid th, s.threads tid = some th → Past s th.cmd ∧ th.flag ≤ 2
  abor : NoAbor s

theorem ctrl_of (s : Server) (sid : Sid) : ∃ fd, ∀ x, s.heap sid = some x → x.ctrlFd = fd := by
  cases hx : s.heap sid with
  | none => exact ⟨0, nofun⟩
  | some x => exact ⟨x.ctrlFd, fun y e => by rw [Option.some.inj e]⟩

theorem Fresh.thread {tid : Tid} {th : Thread} (h : Fresh s) (hth : s.threads tid = some th)
    (hs : ∀ fd codes, (∀ x, s.heap th.sess = some x → x.ctrlFd = fd) → Stage th codes → NoAbor s →
      Stepped tid th fd codes s s') : ∃ fd codes, Stepped tid th fd codes s s' := by
  obtain ⟨codes, hst⟩ := stage_exists (h.threads tid th hth).2
  obtain ⟨fd, hfd⟩ := ctrl_of s th.sess
  exact ⟨fd, codes, hs fd codes hfd hst h.abor⟩

theorem past_command (h1 : s'.cmdNo = s.cmdNo) (h2 : isCommand s'.main = false) : Past s' s.cmdNo ∧
      ∀ n, Past s n → Past s' n := by
  unfold Past
  rw [h1, h2]
  refine ⟨Or.inr ⟨rfl, rfl⟩, fun n hn => hn.imp_right fun ⟨e, _⟩ => ⟨e, rfl⟩⟩

/-- where a handler leaves the main loop, its line is not waiting for it any more -/
theorem Main.Leaves.begun {sid : Sid} {evs : List Event} {m : Main} (h : (Main.events evs).Leaves sid m) :
    isCommand m = false := by
  cases h <;> rfl

theorem Fresh.step (h : Fresh s) (hs : Sends s s') : Fresh s' := by
  cases hs with
  | quiet he ht _ =>
    refine ⟨fun r hr => ?_, fun tid th hth => ?_, he.abor h.abor⟩
    · rw [he.sent, List.append_nil] at hr
      exact he.past _ (h.sent r hr)
    · rw [ht] at hth
      exact ⟨he.past _ (h.threads tid th hth).1, (h.threads tid th hth).2⟩
  | @command sid evs x cs hm hx hs =>
    obtain ⟨hnow, hpast⟩ := past_command (s := s) hs.cmdNo hs.main.begun
    refine ⟨fun r hr => ?_, fun tid th hth => ?_, hs.abor h.abor⟩
    · rw [hs.sent, List.mem_append] at hr
      rcases hr with hr | hr
      · exact hpast _ (h.sent r hr)
      · obtain ⟨code, -, rfl⟩ := List.mem_map.mp hr
        exact hnow
    · rw [hs.threads] at hth
      exact ⟨hpast _ (h.threads tid th hth).1, (h.threads tid th hth).2⟩
  | @start sid evs hm hs =>
    obtain ⟨hnow, hpast⟩ := past_command (s := s) hs.cmdNo (by rw [hs.main]; rfl)
    obtain ⟨kind, hk⟩ := hs.threads
    refine ⟨fun r hr => ?_, fun tid th hth => ?_, hs.abor h.abor⟩
    · rw [hs.sent] at hr
      exact hpast _ (h.sent r hr)
    · rw [hk, Function.update_apply] at hth
      split at hth
      · cases hth
        exact ⟨hnow, Nat.zero_le 2⟩
      · exact ⟨hpast _ (h.threads tid th hth).1, (h.threads tid th hth).2⟩
  | @further sid cs hs =>
    obtain ⟨hnow, hpast⟩ := past_command (s := s) hs.cmdNo hs.command
    refine ⟨fun r hr => ?_, fun tid th hth => ?_, h.abor.of hs.heap⟩
    · obtain ⟨fd, hfd⟩ := ctrl_of s sid
      rw [hs.sent fd hfd, List.mem_append] at hr
      rcases hr with hr | hr
      · exact hpast _ (h.sent r hr)
      · obtain ⟨code, -, rfl⟩ := List.mem_map.mp hr
        exact hnow
    · rw [hs.threads] at hth
      exact ⟨hpast _ (h.threads tid th hth).1, (h.threads tid th hth).2⟩
  | @thread tid th hth hs =>
    obtain ⟨fd, codes, hst⟩ := h.thread hth hs
    obtain ⟨rs, o, h1, h2, h3, h4, -, h5⟩ := hst.cases
    refine ⟨fun r hr => ?_, fun t u hu => ?_, h3 h.abor⟩
    · rw [h1, List.mem_append] at hr
      rcases hr with hr | hr
      · exact h4 _ (h.sent r hr)
      · rw [h2 r hr]
        exact h4 _ (h.threads tid th hth).1
    · rcases h5 with ⟨h5, h6⟩ | rfl
      · rw [h5, Function.update_apply] at hu
        split at hu
        · obtain ⟨e1, e2⟩ := h6 u hu
          exact ⟨e1 ▸ h4 _ (h.threads tid th hth).1, e2⟩
        · exact ⟨h4 _ (h.threads t u hu).1, (h.threads t u hu).2⟩
      · exact h.threads t u hu

theorem fresh_reach {C : Server → Label → Prop} (h : Reach c C s) : Fresh s := by
  refine Runs.Reach.inv (I := Fresh) ?_ ?_ h
  · rintro s ⟨fds, -, rfl⟩
    refine ⟨fun r hr => ?_, fun tid th hth => ?_, fun sid x hx => ?_⟩
    · exact absurd hr List.not_mem_nil
    · cases hth
    · cases hx
  · rintro s l s' hf - ⟨hen, he⟩
    exact hf.step (exec_sends hen he)

/-! ## one line -/

/-- the replies to line `n` -/
def replies (log : List Act) (n : Nat) : List Reply := (sent log).filter fun r => decide (r.cmd = n)

/-- line `n` has been answered once, on the descriptor `fd` of the session `sid` -/
def Answered (s : Server) (n : Nat) (sid : Sid) (fd : Fd) : Prop :=
  ∃ cs, replies s.log n = cs.map (fun code => ⟨n, sid, fd, code⟩) ∧ Once cs

/-- the handler of line `n` is not under way -/
def Returned (s : Server) (n : Nat) : Prop := s.cmdNo = n → s.main.inside = none

/-- the line is still being answered by its handler or by a thread, which has sent `cs`, or it has been answered
by `cs` -/
inductive Progress (n : Nat) (sid : Sid) (s : Server) (cs : List Nat) : Prop where
  | handling : s.cmdNo = n → s.main.inside = some sid → (∀ t u, s.threads t = some u → u.cmd ≠ n) →
      Once (cs ++ s.main.owed) → Progress n sid s cs
  | running (tid : Tid) (th : Thread) : Returned s n → s.threads tid = some th → th.cmd = n → th.sess = sid →
      Stage th cs → (∀ t u, s.threads t = some u → u.cmd = n → t = tid) → Progress n sid s cs
  | done : Returned s n → (∀ t u, s.threads t = some u → u.cmd ≠ n) → Once cs → Progress n sid s cs

variable {n : Nat} {sid : Sid} {fd : Fd} {cs : List Nat} {rs : List Reply}

theorem replies_add (h : sent s'.log = sent s.log ++ rs) : replies s'.log n =
    replies s.log n ++ rs.filter fun r => decide (r.cmd = n) := by
  unfold replies
  rw [h, List.filter_append]

theorem replies_same (h : sent s'.log = sent s.log ++ rs) (hr : ∀ r ∈ rs, r.cmd ≠ n) :
    replies s'.log n = replies s.log n := by
  rw [replies_add h, List.filter_eq_nil_iff.mpr, List.append_nil]
  exact fun r hm => by simpa using hr r hm

theorem replies_line (h : sent s'.log =
      sent s.log ++ cs.map fun code => (⟨n, sid, fd, code⟩ : Reply)) :
    replies s'.log n = replies s.log n ++ cs.map fun code => (⟨n, sid, fd, code⟩ : Reply) := by
  rw [replies_add h, List.filter_eq_self.mpr]
  intro r hr
  obtain ⟨code, -, rfl⟩ := List.mem_map.mp hr
  exact decide_eq_true rfl

/-- the handler stays where it is, or it is not that of line `n` before and after -/
theorem Progress.congr (h : Progress n sid s cs) (ht : s'.threads = s.threads)
    (hs : s'.main = s.main ∧ s'.cmdNo = s.cmdNo ∨ Returned s n ∧ Returned s' n) : Progress n sid s' cs := by
  have hback : Returned s n → Returned s' n := by
    rcases hs with ⟨h1, h2⟩ | ⟨-, h2⟩
    · intro h e
      rw [h1]
      exact h (h2.symm.trans e)
    · exact fun _ => h2
  cases h with
  | handling h1 h2 h3 h4 =>
    rcases hs with ⟨e1, e2⟩ | ⟨e, -⟩
    · rw [← ht] at h3
      exact .handling (e2.trans h1) (by rw [e1, h2]) h3 (by rw [e1]; exact h4)
    · rw [e h1] at h2
      cases h2
  | running tid th h0 h1 h2 h3 h4 h5 =>
    rw [← ht] at h1 h5
    exact .running tid th (hback h0) h1 h2 h3 h4 h5
  | done h0 h1 h2 =>
    rw [← ht] at h1
    exact .done (hback h0) h1 h2

theorem Progress.other {tid : Tid} {o : Option Thread} (h : Progress n sid s cs)
    (ht : s'.threads = Function.update s.threads tid o)
    (h0 : ∀ u, s.threads tid = some u → u.cmd ≠ n) (ho : ∀ u, o = some u → u.cmd ≠ n)
    (hs : s'.main = s.main ∧ s'.cmdNo = s.cmdNo ∨ Returned s n ∧ Returned s' n) : Progress n sid s' cs := by
  have hback : ∀ t u, s'.threads t = some u → u.cmd = n → s.threads t = some u := by
    intro t u hu hc
    rw [ht, Function.update_apply] at hu
    split at hu
    · exact absurd hc (ho u hu)
    · exact hu
  have hret : Returned s n → Returned s' n := by
    rcases hs with ⟨h1, h2⟩ | ⟨-, h2⟩
    · intro h e
      rw [h1]
      exact h (h2.symm.trans e)
    · exact fun _ => h2
  cases h with
  | handling h1 h2 h3 h4 =>
    rcases hs with ⟨e1, e2⟩ | ⟨e, -⟩
    · exact .handling (e2.trans h1) (by rw [e1, h2]) (fun t u hu hc => h3 t u (hback t u hu hc) hc)
        (by rw [e1]; exact h4)
    · rw [e h1] at h2
      cases h2
  | running t th hr h1 h2 h3 h4 h5 =>
    refine .running t th (hret hr) ?_ h2 h3 h4 fun t' u hu hc => h5 t' u (hback t' u hu hc) hc
    rw [ht, Function.update_of_ne]
    · exact h1
    · rintro rfl
      exact h0 th h1 h2
  | done hr h1 h2 => exact .done (hret hr) (fun t u hu hc => h1 t u (hback t u hu hc) hc) h2

/-- What holds of line `n` once its handler has begun. -/
structure Serving (n : Nat) (sid : Sid) (fd : Fd) (s : Server) : Prop where
  past : Past s n
  ctrl : ∀ x, s.heap sid = some x → x.ctrlFd = fd
  old : sid < s.nextSid
  said : ∃ cs, replies s.log n = cs.map (fun code => ⟨n, sid, fd, code⟩) ∧ Progress n sid s cs

theorem Serving.answered (h : Serving n sid fd s) (hr : Returned s n)
    (hd : ∀ t u, s.threads t = some u → u.cmd ≠ n) : Answered s n sid fd := by
  obtain ⟨cs, h1, h2⟩ := h.said
  cases h2 with
  | handling e hi =>
    rw [hr e] at hi
    cases hi
  | running tid th _ hth hc => exact absurd hc (hd tid th hth)
  | done _ _ ho => exact ⟨cs, h1, ho⟩

theorem ctrl_kept {l : Label} (hen : enabled s l) (he : exec c s l = .ok s') (ho : sid < s.nextSid)
    (h : ∀ x, s.heap sid = some x → x.ctrlFd = fd) :
    (∀ x, s'.heap sid = some x → x.ctrlFd = fd) ∧ sid < s'.nextSid := by
  obtain ⟨op, hop⟩ := exec_step hen he
  refine ⟨fun y hy => ?_, lt_of_lt_of_le ho hop.step.nextSid_le⟩
  rcases (hop.step.born (ledger_sess hy)).2 with ⟨z, hz, e⟩ | ⟨fd, -, e, -⟩
  · obtain ⟨x, hx, rfl⟩ := Option.map_eq_some_iff.mp hz
    exact e.symm.trans (h x hx)
  · exact absurd ho (by rw [e]; exact lt_irrefl _)

theorem past_ne {sid : Sid} {evs : List Event} (h : Past s n) (hm : s.main = .command sid evs) :
    s.cmdNo ≠ n := by
  rintro rfl
  rcases h with h | ⟨-, h⟩
  · exact lt_irrefl _ h
  · rw [hm] at h
    cases h

theorem returned_of_ne (h : s.cmdNo ≠ n) : Returned s n := fun e => absurd e h

theorem Lingers.returned (h : Lingers s s') :
    s'.main = s.main ∧ s'.cmdNo = s.cmdNo ∨ Returned s n ∧ Returned s' n :=
  h.imp_right fun ⟨h1, h2⟩ => ⟨fun _ => h1, fun _ => h2⟩

/-- **One step** of the server, seen from a line whose handler has begun. -/
theorem Serving.step {l : Label} (hn : s.ledger.Numbered) (hf : Fresh s) (h : Serving n sid fd s)
    (hen : enabled s l) (he : exec c s l = .ok s') : Serving n sid fd s' := by
  obtain ⟨hctrl, hold⟩ := ctrl_kept hen he h.old h.ctrl
  obtain ⟨cs, hrs, hp⟩ := h.said
  cases exec_sends hen he with
  | quiet he ht hs =>
    refine ⟨he.past n h.past, hctrl, hold, cs, ?_, hp.congr ht hs.returned⟩
    rw [replies_same he.sent nofun, hrs]
  | @command j evs x ds hm hx hs =>
    have hne : s.cmdNo ≠ n := past_ne h.past hm
    have hret : Returned s n ∧ Returned s' n :=
      ⟨returned_of_ne hne, returned_of_ne (by rw [hs.cmdNo]; exact hne)⟩
    refine ⟨(past_command (s := s) hs.cmdNo hs.main.begun).2 n h.past, hctrl, hold, cs, ?_,
      hp.congr hs.threads (Or.inr hret)⟩
    rw [replies_same hs.sent, ← hrs]
    · rfl
    · intro r hr
      obtain ⟨code, -, rfl⟩ := List.mem_map.mp hr
      exact hne
  | @start j evs hm hs =>
    have hne : s.cmdNo ≠ n := past_ne h.past hm
    have hret : Returned s n ∧ Returned s' n :=
      ⟨returned_of_ne hne, returned_of_ne (by rw [hs.cmdNo]; exact hne)⟩
    obtain ⟨kind, hk⟩ := hs.threads
    refine ⟨(past_command (s := s) hs.cmdNo (by rw [hs.main]; rfl)).2 n h.past, hctrl, hold, cs, ?_, ?_⟩
    · unfold replies
      rw [hs.sent]
      exact hrs
    · refine hp.other hk (fun u hu => ?_) (fun u hu => ?_) (Or.inr hret)
      · exact absurd (hn.worker _ _ (ledger_worker hu)) (lt_irrefl _)
      · cases hu
        exact hne
  | @further j ds hs =>
    have hpast := (past_command (s := s) hs.cmdNo hs.command).2 n h.past
    by_cases hc : s.cmdNo = n
    · -- the line in hand: the handler sends `ds` of what it owes
      subst hc
      cases hp with
      | running tid th h0 => exact absurd ((h0 rfl).symm.trans hs.inside) nofun
      | done h0 => exact absurd ((h0 rfl).symm.trans hs.inside) nofun
      | handling _ hi hd ho =>
        cases hi.symm.trans hs.inside
        refine ⟨hpast, hctrl, hold, cs ++ ds, ?_, ?_⟩
        · rw [List.map_append, ← hrs]
          exact replies_line (hs.sent fd h.ctrl)
        · rw [hs.owed, ← List.append_assoc] at ho
          rw [← hs.threads] at hd
          rcases hs.still with hi' | ⟨evs, hm⟩
          · exact .handling hs.cmdNo hi' hd ho
          · rw [hm] at ho
            exact .done (fun _ => by rw [hm]; rfl) hd (List.append_nil (cs ++ ds) ▸ ho)
    · obtain ⟨fd', hfd'⟩ := ctrl_of s j
      refine ⟨hpast, hctrl, hold, cs, ?_, hp.congr hs.threads (Or.inr
        ⟨returned_of_ne hc, returned_of_ne (by rw [hs.cmdNo]; exact hc)⟩)⟩
      rw [replies_same (hs.sent fd' hfd'), hrs]
      intro r hr
      obtain ⟨code, -, rfl⟩ := List.mem_map.mp hr
      exact hc
  | @thread tid th hth hs =>
    by_cases hc : th.cmd = n
    · subst hc
      cases hp with
      | handling _ _ hd _ => exact absurd rfl (hd tid th hth)
      | done _ hd _ => exact absurd rfl (hd tid th hth)
      | running t u h0 h1 h2 h3 h4 h5 =>
        obtain rfl := h5 tid th hth rfl
        cases h1.symm.trans hth
        subst h3
        cases hs fd cs h.ctrl h4 hf.abor with
        | on t u ds hm e hc hu hst =>
          subst e
          refine ⟨h.past.of hm.cmdNo hm.main, hctrl, hold, cs ++ ds, ?_, ?_⟩
          · rw [List.map_append, ← hrs]
            exact replies_line hm.sent
          · refine .running tid u ?_ (Function.update_self ..) hc hu hst fun j v hv hcv => ?_
            · intro e
              exact (congrArg Main.inside hm.main).trans (h0 (hm.cmdNo.symm.trans e))
            change Function.update t.threads tid (some u) j = some v at hv
            rw [Function.update_apply, hm.threads] at hv
            split at hv
            · assumption
            · exact h5 j v hv hcv
        | done t ds hm e ho =>
          subst e
          refine ⟨h.past.of hm.cmdNo hm.main, hctrl, hold, cs ++ ds, ?_, ?_⟩
          · rw [List.map_append, ← hrs]
            exact replies_line hm.sent
          · refine .done (fun e => ?_) (fun j v hv hcv => ?_) ho
            · exact (congrArg Main.inside hm.main).trans (h0 (hm.cmdNo.symm.trans e))
            change Function.update t.threads tid none j = some v at hv
            rw [Function.update_apply, hm.threads] at hv
            split at hv
            · cases hv
            · rename_i hj
              exact hj (h5 j v hv hcv)
        | idle e =>
          subst e
          exact h
    · obtain ⟨fd', codes, hst⟩ := hf.thread hth hs
      obtain ⟨rs, o, h1, h2, -, h4, ⟨hmain, hno⟩, h5⟩ := hst.cases
      refine ⟨h4 n h.past, hctrl, hold, cs, ?_, ?_⟩
      · rw [replies_same h1 fun r hr => by rw [h2 r hr]; exact hc, hrs]
      · rcases h5 with ⟨h5, h6⟩ | rfl
        · refine hp.other h5 (fun u hu => ?_) (fun u hu => ?_) (Or.inl ⟨hmain, hno⟩)
          · cases hu.symm.trans hth
            exact hc
          · rw [(h6 u hu).1]
            exact hc
        · exact hp

/-- the start: the handler has begun to answer, or has started a transfer -/
theorem Serving.start {l : Label} {evs : List Event} {x : Session} (hr : Reach c Runs.Any s)
    (hm : s.main = .command sid evs) (hx : s.heap sid = some x) (hen : enabled s l)
    (he : exec c s l = .ok s')
    (h : Answers sid x (s.goto (.events evs)) s' ∨ Started (s.goto (.events evs)) s' sid) :
    Serving s.cmdNo sid x.ctrlFd s' := by
  have hf : Fresh s := fresh_reach hr
  have hold : sid < s.nextSid := (numbered_reach hr).sess sid _ (ledger_sess hx)
  have hfd : ∀ y, s.heap sid = some y → y.ctrlFd = x.ctrlFd := fun y hy => by
    rw [Option.some.inj (hx.symm.trans hy)]
  obtain ⟨hctrl, hold⟩ := ctrl_kept hen he hold hfd
  have hnil : replies s.log s.cmdNo = [] :=
    List.filter_eq_nil_iff.mpr fun r hr => by simpa using (past_ne (hf.sent r hr) hm).symm
  have hnone : ∀ t u, s.threads t = some u → u.cmd ≠ s.cmdNo := fun t u hu =>
    (past_ne (hf.threads t u hu).1 hm).symm
  rcases h with ⟨cs, hs, ho⟩ | hs
  · refine ⟨(past_command hs.cmdNo hs.main.begun).1, hctrl, hold, cs, ?_, ?_⟩
    · rw [← List.nil_append (cs.map _), ← hnil]
      exact replies_line hs.sent
    · have hnone' : ∀ t u, s'.threads t = some u → u.cmd ≠ s.cmdNo := by
        rw [hs.threads]
        exact hnone
      have hsaid := hs.main
      generalize hm' : s'.main = m' at hsaid ho
      cases hsaid with
      | returned => exact .done (fun _ => by rw [hm']; rfl) hnone' (List.append_nil cs ▸ ho)
      | writes ws => exact .handling hs.cmdNo (by rw [hm']; rfl) hnone' (by rw [hm']; exact ho)
      | listens text => exact .handling hs.cmdNo (by rw [hm']; rfl) hnone' (by rw [hm']; exact ho)
  · obtain ⟨kind, hk⟩ := hs.threads
    refine ⟨(past_command hs.cmdNo (by rw [hs.main]; rfl)).1, hctrl, hold, [], ?_, ?_⟩
    · unfold replies
      rw [hs.sent]
      exact hnil
    · refine .running s.nextTid ⟨sid, s.cmdNo, kind, .offset, 0, none, 0, 0, 0⟩
        (fun _ => by rw [hs.main]; rfl) ?_ rfl rfl
        ⟨Nat.zero_le 2, fun _ => rfl, nofun, nofun⟩ fun j u hu hc => ?_
      · rw [hk]
        exact Function.update_self ..
      rw [hk, Function.update_apply] at hu
      split at hu
      · assumption
      · exact absurd hc (hnone j u hu)

theorem serving_path {t : Server} (hr : Reach c Runs.Any s) (h : Serving n sid fd s)
    (hp : Path c Runs.Any s t) : Serving n sid fd t := by
  refine (Runs.Path.inv (I := fun t => Reach c Runs.Any t ∧ Serving n sid fd t) ?_ hp ⟨hr, h⟩).2
  rintro s l s' ⟨hr, h⟩ hc ⟨hen, he⟩
  exact ⟨hr.step hc ⟨hen, he⟩, h.step (numbered_reach hr) (fresh_reach hr) hen he⟩

/-! ## the listener of a PASV that is under way -/

/-- no step takes the listener of a PASV that is under way from the record, or closes it before its name is asked -/
def Kept (c : Conf) (s : Server) (l : Label) : Prop := ∀ sid pc x p, s.main.stage = some (sid, pc) →
  s.heap sid = some x → x.pasvListenFd = some p → drops s l ≠ some (sid, p) ∧ (pc = .name → p ∉ closes c s l)

/-- the listener of a PASV that is under way is in the record, and open until its name is asked -/
def Held (s : Server) : Prop := ∀ sid pc, s.main.stage = some (sid, pc) → ∃ x p, s.heap sid = some x ∧
  x.pasvListenFd = some p ∧ p < MAX_SESSIONS ∧ (pc = .name → isPasv (s.fds.get p) = true)

theorem Held.outside (h : s.main.inside = none) : Held s := fun sid pc e => by
  rw [stage_outside h] at e
  cases e

/-- a transfer thread leaves a listener in the record unless it drops it -/
theorem thread_listener {tid : Tid} {env : TEnv} {th : Thread} {sid : Sid} {x : Session} {p : Fd}
    (hth : s.threads tid = some th) (he : threadStep env tid s = .ok s') (hx : s.heap sid = some x)
    (hp : x.pasvListenFd = some p) : ∃ x', s'.heap sid = some x' ∧
      (drops s (.thread tid env) = some (sid, p) ∧ x'.pasvListenFd = none ∨
        drops s (.thread tid env) ≠ some (sid, p) ∧ x'.pasvListenFd = some p) := by
  obtain ⟨o, hran⟩ := thread_ran hth he
  have hheap := hran.beside sid
  rw [drops_thread hth]
  unfold threadDrops
  by_cases hj : sid = th.sess
  · subst hj
    rw [if_pos rfl, hx, Option.map_some] at hheap
    refine ⟨_, hheap, ?_⟩
    cases hpc : th.pc with
    | setPasv => exact Or.inl ⟨by simp only [hx, Option.bind_some, hp, Option.map_some], rfl⟩
    | _ => exact Or.inr ⟨nofun, hp⟩
  · rw [if_neg hj] at hheap
    refine ⟨x, hheap.trans hx, Or.inr ⟨fun e => ?_, hp⟩⟩
    cases hpc : th.pc with
    | setPasv =>
      simp only [hpc, Option.bind_eq_some_iff, Option.map_eq_some_iff, Prod.mk.injEq] at e
      obtain ⟨-, -, -, -, e, -⟩ := e
      exact hj e.symm
    | _ => simp only [hpc] at e; cases e

theorem held_step {l : Label} (h : Held s) (hk : Kept c s l) (hl : isCommand s.main = false) (hen : enabled s l)
    (he : exec c s l = .ok s') : Held s' := by
  have hout : ∀ {m : Main}, s.main = m → m.inside = none → l.between = true → l.further = false → Held s' := by
    rintro m rfl h0 hb hf
    rcases between_stays hen he hb hf with ⟨e, -⟩ | ⟨-, e⟩
    · exact .outside (by rw [e, h0])
    · exact .outside e
  cases l with
  | arrive fd bs => cases he; exact h
  | hangup fd => cases he; exact h
  | faults fd es => cases he; exact h
  | wait evs => exact hout hen.1 rfl rfl rfl
  | timeout => exact hout hen.1 rfl rfl rfl
  | waitErr e => cases he
  | evictOne now => exact hout hen rfl rfl rfl
  | dispatch now env =>
    obtain ⟨ev, evs, hm⟩ := hen
    exact hout hm rfl rfl rfl
  | command env =>
    obtain ⟨sid, evs, hm⟩ := hen
    rw [hm] at hl
    cases hl
  | onward b =>
    cases handlerStep_cases hen he with
    | name hm hx hp hd =>
      rintro j pc ⟨⟩
      obtain ⟨x, p, h1, h2, h3, -⟩ := h _ _ (congrArg Main.stage hm)
      exact ⟨x, p, h1, h2, h3, nofun⟩
    | entry hm hx hp hb =>
      rintro j pc ⟨⟩
      obtain ⟨x, p, h1, h2, h3, -⟩ := h _ _ (congrArg Main.stage hm)
      exact ⟨x, p, h1, h2, h3, nofun⟩
    | watch => exact nofun
    | deaf => exact nofun
    | write => exact nofun
    | back => exact nofun
  | acceptOne conn =>
    obtain ⟨evs, hm⟩ := hen
    exact hout hm rfl rfl rfl
  | acceptErr e =>
    obtain ⟨evs, hm⟩ := hen
    exact hout hm rfl rfl rfl
  | thread tid env =>
    obtain ⟨th, hth⟩ := Option.ne_none_iff_exists'.mp hen
    obtain ⟨o, hran⟩ := thread_ran hth he
    intro sid pc hs
    rw [hran.main] at hs
    obtain ⟨x, p, hx, hp, hlt, hd⟩ := h sid pc hs
    obtain ⟨hdrop, hclose⟩ := hk sid pc x p hs hx hp
    obtain ⟨x', hx', ⟨e, -⟩ | ⟨-, hp'⟩⟩ := thread_listener hth he hx hp
    · exact absurd e hdrop
    · refine ⟨x', p, hx', hp', hlt, fun e => ?_⟩
      obtain ⟨op, ho⟩ := exec_step hen he
      have hopen := hd e
      rcases ho.step.desc p with e' | e' | e'
      · show isPasv (s'.ledger.desc p) = true
        rw [e']
        exact hopen
      · rw [show s.fds.get p = none from e'] at hopen
        cases hopen
      · rw [ho.closesEq] at e'
        exact absurd e' (hclose e)

/-- **A torn PASV**: when its listener has been taken away, the next step of the handler ends the process. -/
theorem torn {l : Label} (hen : enabled s l) (hk : ¬ Kept c s l) (he : exec c s l = .ok s') (b : Bool) :
    ∃ e, exec c s' (.onward b) = .error e := by
  unfold Kept at hk
  push Not at hk
  obtain ⟨sid, pc, x, p, hs, hx, hp, hk⟩ := hk
  obtain ⟨text, evs, hm⟩ : ∃ text evs, s.main = .pasv sid text pc evs := by
    cases hm : s.main <;> rw [hm] at hs <;> cases hs
    exact ⟨_, _, rfl⟩
  -- only a thread can come in between
  have hthread : ∃ tid env, l = .thread tid env := by
    cases l with
    | thread tid env => exact ⟨tid, env, rfl⟩
    | wait evs => exact absurd (hm.symm.trans hen.1) nofun
    | timeout => exact absurd (hm.symm.trans hen.1) nofun
    | evictOne now => exact absurd (hm.symm.trans hen) nofun
    | dispatch now env =>
      obtain ⟨ev, evs, hm'⟩ := hen
      exact absurd (hm.symm.trans hm') nofun
    | command env =>
      obtain ⟨j, evs, hm'⟩ := hen
      exact absurd (hm.symm.trans hm') nofun
    | acceptOne conn =>
      obtain ⟨evs, hm'⟩ := hen
      exact absurd (hm.symm.trans hm') nofun
    | acceptErr e =>
      obtain ⟨evs, hm'⟩ := hen
      exact absurd (hm.symm.trans hm') nofun
    | _ => exact absurd (hk nofun).2 List.not_mem_nil
  obtain ⟨tid, env, rfl⟩ := hthread
  obtain ⟨th, hth⟩ := Option.ne_none_iff_exists'.mp hen
  obtain ⟨o, hran⟩ := thread_ran hth he
  have hm' : s'.main = .pasv sid text pc evs := hran.main.trans hm
  have hstep : exec c s' (.onward b) = pasvStep sid text pc evs s' := by
    show handlerStep b s' = _
    unfold handlerStep
    rw [hm']
  rw [hstep]
  unfold pasvStep
  obtain ⟨x', hx', ⟨-, hp'⟩ | ⟨hdrop, hp'⟩⟩ := thread_listener hth he hx hp
  · simp only [hx', hp']
    cases pc <;> exact ⟨_, rfl⟩
  · obtain ⟨rfl, hmem⟩ := hk hdrop
    obtain ⟨op, ho⟩ := exec_step hen he
    have hfree : s'.fds.get p = none := (ho.step.closed (ho.closesEq ▸ hmem)).1
    simp only [hx', hp', hfree]
    exact ⟨_, rfl⟩

theorem goes_on (hc : Commanding s) (hh : Held s) (hi : s.main.inside ≠ none) :
    ∃ s', exec c s (.onward false) = .ok s' := by
  obtain ⟨sid, hs⟩ := Option.ne_none_iff_exists'.mp hi
  obtain ⟨x, hx⟩ := hc sid (serves_inside hs)
  show ∃ s', handlerStep false s = .ok s'
  unfold handlerStep
  cases hm : s.main with
  | pasv j text pc evs =>
    obtain ⟨y, p, hy, hp, hlt, hd⟩ := hh j pc (by rw [hm]; rfl)
    dsimp only
    unfold pasvStep setSessinfo
    simp only [hy, hp]
    cases pc with
    | name => exact ⟨_, if_pos (hd rfl)⟩
    | entry =>
      dsimp only
      rw [if_pos hlt]
      exact ⟨_, rfl⟩
    | watch => exact ⟨_, if_pos hlt⟩
  | reply j ws evs =>
    rw [hm] at hs
    cases hs
    dsimp only
    unfold replyStep
    cases ws with
    | nil => exact ⟨_, rfl⟩
    | cons w ws =>
      simp only [hx]
      exact ⟨_, rfl⟩
  | _ =>
    rw [hm] at hi
    exact absurd rfl hi

/-! ## the lines that are answered -/

/-- what the handler of the line needs to answer it -/
def Answerable (c : Conf) (s : Server) (x : Session) (env : Env) : Prop :=
  match handlerOf x with
  | some .retr => getPasvDataFd x ≠ 0 ∧ env.pthreadCreate = true
  | some .stor => getPasvDataFd x ≠ 0 ∧ env.pthreadCreate = true
  | some .appe => False
  | some .nlst => False
  | some .pasv => env.tcpServer ≠ none ∧ s.fds.lowest < MAX_SESSIONS
  | some .list => env.sigpipe = false ∧ getPasvDataFd x ≠ 0 ∧ getFileName env x.dirfd ≠ none
  | some .pass => env.sigpipe = false ∧ cryptNull c x = false
  | some .site => env.sigpipe = false ∧ ∃ cmd arg, split100 x.arg = some (cmd, arg) ∧
      (cmd = ascii "CHMOD" → arg ≠ [] → split100 arg ≠ none)
  | _ => env.sigpipe = false

/-- The handler begins, on every run from there that keeps the listener of PASV it can go on until it returns, and once
it has returned and no transfer for the line is running the line has been answered once. -/
def AnsweredOnce (c : Conf) (s : Server) (env : Env) (sid : Sid) (fd : Fd) : Prop :=
  ∃ s', exec c s (.command env) = .ok s' ∧ ∀ t, Path c (Kept c) s' t →
    (t.cmdNo = s.cmdNo → t.main.inside ≠ none → ∃ t', exec c t (.onward false) = .ok t') ∧
    (Returned t s.cmdNo → (∀ tid th, t.threads tid = some th → th.cmd ≠ s.cmdNo) → Answered t s.cmdNo sid fd)

/-- the line at the head of the queue is handed to its handler -/
def Handed (c : Conf) (s : Server) (now : Int) (env : Env) (sid : Sid) : Prop :=
  ∃ s' evs, exec c s (.dispatch now env) = .ok s' ∧ s'.main = .command sid evs

/-- no call that reads the line fails, and the line can be taken apart -/
def Readable (k : Sock) : Prop :=
  fails (calls k.queue) k.script = false ∧ parseCmdline (peeked k.queue) ≠ none

variable {env : Env} {x : Session}

theorem doPass_runs_iff : (∃ s', doPass c env sid x s = .ok s') ↔ cryptNull c x = false := by
  unfold doPass
  cases hn : cryptNull c x with
  | true => exact ⟨nofun, nofun⟩
  | false =>
    refine ⟨fun _ => rfl, fun _ => ?_⟩
    rw [if_neg Bool.false_ne_true]
    split
    · cases env.home with
      | none => exact ⟨_, rfl⟩
      | some k => exact ⟨_, rfl⟩
    · exact ⟨_, rfl⟩

theorem doPasv_runs_iff : (∃ s', doPasv env sid x s = .ok s') ↔ env.tcpServer ≠ none := by
  unfold doPasv
  cases env.tcpServer with
  | none => exact ⟨nofun, fun h => absurd rfl h⟩
  | some port => exact ⟨fun _ => Option.some_ne_none port, fun _ => ⟨_, rfl⟩⟩

/-- SITE comes to its end when its argument, and that of CHMOD, can be taken apart. -/
theorem doSite_runs_iff : (∃ s', doSite c env sid x s = .ok s') ↔
    ∃ cmd arg, split100 x.arg = some (cmd, arg) ∧
      (cmd = ascii "CHMOD" → arg ≠ [] → split100 arg ≠ none) := by
  unfold doSite
  cases hs : split100 x.arg with
  | none => exact ⟨nofun, nofun⟩
  | some r =>
    obtain ⟨cmd, arg⟩ := r
    dsimp only
    by_cases hc : cmd = ascii "CHMOD"
    · rw [if_pos hc]
      unfold doSiteChmod
      by_cases ha : arg = []
      · rw [if_pos ha]
        exact ⟨fun _ => ⟨cmd, arg, rfl, fun _ h => absurd ha h⟩, fun _ => ⟨_, rfl⟩⟩
      · rw [if_neg ha]
        cases h2 : split100 arg with
        | none =>
          refine ⟨nofun, ?_⟩
          rintro ⟨cmd', arg', he, h⟩
          cases he
          exact absurd h2 (h hc ha)
        | some r =>
          refine ⟨fun _ => ⟨cmd, arg, rfl, fun _ _ => ?_⟩, fun _ => ?_⟩
          · rw [h2]
            exact Option.some_ne_none r
          · dsimp only
            split
            · exact ⟨_, rfl⟩
            · split
              · exact ⟨_, rfl⟩
              · exact ⟨_, rfl⟩
    · rw [if_neg hc]
      refine ⟨fun _ => ⟨cmd, arg, rfl, fun h => absurd h hc⟩, fun _ => ?_⟩
      split
      · exact ⟨_, rfl⟩
      · split
        · exact ⟨_, rfl⟩
        · exact ⟨_, rfl⟩

/-- a handler that comes to its end, and answers or starts a transfer -/
theorem runCmd_answered {k : Cmd} (hm : s.main.owed = []) (hx : s.heap sid = some x)
    (hk : speaks x k = true ∨ k.starts env x ≠ none) (hrun : ∃ s', runCmd c env sid x s k = .ok s')
    (hp : env.sigpipe = false ∨ k.logs c env sid s.cmdNo x = [] ∧ k ≠ .quit) :
    ∃ s', piped env s (runCmd c env sid x s k) = .ok s' ∧ (Answers sid x s s' ∨ Started s s' sid) := by
  obtain ⟨s', he⟩ := hrun
  refine ⟨s', ?_, ?_⟩
  · rcases hp with hp | ⟨hl, hq⟩
    · rw [piped_quiet hp, he]
    · rw [he]
      refine piped_silent ((runCmd_yields hx hq he).log.trans ?_)
      rw [show (k.yield c env sid x s).logs = [] from hl, List.append_nil]
  · rcases runCmd_sends hm hx he with ⟨-, h1⟩ | ⟨h1, h2, -⟩ | ⟨-, h1⟩
    · exact Or.inl h1
    · rw [h1, h2] at hk
      exact absurd hk (by simp)
    · exact Or.inr h1

/-- a line that can be answered is answered, or its transfer has been started -/
theorem handleCmd_answered (hm : s.main.owed = []) (hx : s.heap sid = some x) (hb : x.ctrlFd < MAX_SESSIONS)
    (h : Answerable c s x env) : ∃ s', piped env s (handleCmd c env sid s) = .ok s' ∧
      (Answers sid x s s' ∨ Started s s' sid) := by
  have honce : ∀ {code : Nat} {text : String}, env.sigpipe = false → 200 ≤ code ∧ code < 600 →
      ∃ s', piped env s (.ok (answer sid x s code text)) = .ok s' ∧ (Answers sid x s s' ∨ Started s s' sid) := by
    intro code text hp hc
    refine ⟨_, piped_quiet hp, Or.inl ⟨[code], (Moves.reply ..).tellsReplies, ?_⟩⟩
    show Once ([code] ++ s.main.owed)
    rw [hm]
    exact once_one hc
  unfold handleCmd
  unfold Answerable handlerOf at h
  simp only [hx]
  cases hl : lookupCmd x.cmd with
  | none =>
    rw [hl] at h
    exact honce h (by decide)
  | some o =>
    cases o with
    | none =>
      rw [hl] at h
      exact honce h (by decide)
    | some k =>
      rw [hl] at h
      dsimp only
      cases k with
      | retr => exact runCmd_answered hm hx (Or.inr (starts_iff.mpr ⟨Or.inl rfl, h⟩)) ⟨_, rfl⟩ (Or.inr ⟨rfl, nofun⟩)
      | stor => exact runCmd_answered hm hx (Or.inr (starts_iff.mpr ⟨Or.inr rfl, h⟩)) ⟨_, rfl⟩ (Or.inr ⟨rfl, nofun⟩)
      | appe => exact h.elim
      | nlst => exact h.elim
      | list => exact runCmd_answered hm hx (Or.inl (decide_eq_true h.2.1)) (doList_runs h.2.1 h.2.2) (Or.inl h.1)
      | pass => exact runCmd_answered hm hx (Or.inl rfl) (doPass_runs_iff.mpr h.2) (Or.inl h.1)
      | pasv => exact runCmd_answered hm hx (Or.inl rfl) (doPasv_runs_iff.mpr h.1) (Or.inr ⟨rfl, nofun⟩)
      | site => exact runCmd_answered hm hx (Or.inl rfl) (doSite_runs_iff.mpr h.2) (Or.inl h.1)
      | quit => exact runCmd_answered hm hx (Or.inl rfl) ⟨_, closeSess_eq hx hb⟩ (Or.inl h)
      | _ => exact runCmd_answered hm hx (Or.inl rfl) ⟨_, rfl⟩ (Or.inl h)

/-- a handler that has answered has met no `SIGPIPE` -/
theorem runCmd_unpiped {k : Cmd} (hm : s.main.owed = []) (hx : s.heap sid = some x)
    (he : piped env s (runCmd c env sid x s k) = .ok s') (hs : speaks x k = true) (hp : k ≠ .pasv) :
    env.sigpipe = false := by
  have hrun := piped_ok he
  have hne := logs_ne hm hrun hs hp
  by_cases hq : k = .quit
  · subst hq
    have hdid : Did sid none none (Cmd.quit.logs c env sid s.cmdNo x) s s' := quit_did hx hrun
    exact piped_log he hdid.log hne
  · exact piped_log he (runCmd_yields hx hq hrun).log hne

/-- For any other line the process ends, or nothing is sent, or PASV has got a descriptor that is out of bounds. -/
theorem handleCmd_unanswered (hm : s.main.owed = []) (hx : s.heap sid = some x) (h : ¬ Answerable c s x env)
    (he : piped env s (handleCmd c env sid s) = .ok s') : Wordless s s' ∨
      handlerOf x = some .pasv ∧ MAX_SESSIONS ≤ s.fds.lowest := by
  have hone : ∀ {code : Nat} {text : String}, piped env s (.ok (answer sid x s code text)) = .ok s' →
      env.sigpipe = false := by
    intro code text he
    cases piped_ok he
    exact piped_log he rfl (List.cons_ne_nil _ _)
  unfold handleCmd at he
  unfold Answerable handlerOf at h
  unfold handlerOf
  simp only [hx] at he
  cases hl : lookupCmd x.cmd with
  | none =>
    rw [hl] at h he
    exact absurd (hone he) h
  | some o =>
    cases o with
    | none =>
      rw [hl] at h he
      exact absurd (hone he) h
    | some k =>
      rw [hl] at h he
      dsimp only at he
      have hrun := piped_ok he
      have hsilent : speaks x k = false → k.starts env x = none → Wordless s s' := by
        intro h1 h2
        rcases runCmd_sends hm hx hrun with ⟨h3, -⟩ | ⟨-, -, h3⟩ | ⟨h3, -⟩
        · exact absurd (h1.symm.trans h3) Bool.false_ne_true
        · exact h3
        · exact absurd h2 h3
      have hpipe := runCmd_unpiped hm hx he
      cases k with
      | retr => exact Or.inl (hsilent rfl (if_neg h))
      | stor => exact Or.inl (hsilent rfl (if_neg h))
      | appe => exact Or.inl (hsilent rfl rfl)
      | nlst => exact Or.inl (hsilent rfl rfl)
      | list =>
        cases hk : speaks x .list with
        | false => exact Or.inl (hsilent hk rfl)
        | true =>
          have h0 : getPasvDataFd x ≠ 0 := of_decide_eq_true hk
          exact absurd ⟨hpipe hk nofun, h0, doList_named hrun h0⟩ h
      | pass => exact absurd ⟨hpipe rfl nofun, doPass_runs_iff.mp ⟨s', hrun⟩⟩ h
      | pasv =>
        refine Or.inr ⟨rfl, ?_⟩
        by_contra hlt
        exact h ⟨doPasv_runs_iff.mp ⟨s', hrun⟩, Nat.lt_of_not_le hlt⟩
      | site => exact absurd ⟨hpipe rfl nofun, doSite_runs_iff.mp ⟨s', hrun⟩⟩ h
      | _ => exact absurd (hpipe rfl nofun) h

theorem command_cmdNo {evs : List Event} {env : Env} (hm : s.main = .command sid evs)
    (he : exec c s (.command env) = .ok s') : s'.cmdNo = s.cmdNo := by
  obtain ⟨x, -, ⟨cs, h⟩ | h⟩ := handleCmd_sends (s := s.goto (.events evs)) rfl (exec_command_ok hm he)
  · exact h.cmdNo
  · exact h.cmdNo

theorem inside_cmdNo {l : Label} (hen : enabled s l) (he : exec c s l = .ok s') (hi : s'.main.inside ≠ none) :
    s'.cmdNo = s.cmdNo := by
  have hno := he
  rcases exec_cases hen he with ⟨hb, -⟩ | ⟨env, sid, evs, rfl, hm, -⟩ | ⟨tid, env, th, rfl, hth, he⟩
  · cases hf : l.further with
    | true =>
      cases l with
      | onward b =>
        obtain ⟨sid, cs, h⟩ := handlerStep_further (handlerStep_cases hen he)
        exact h.cmdNo
      | _ => cases hf
    | false =>
      rcases between_stays hen he hb hf with ⟨-, e⟩ | ⟨-, e⟩
      · exact e
      · exact absurd e hi
  · exact command_cmdNo hm hno
  · exact (thread_ran hth he).choose_spec.cmdNo

/-- a handler that leaves the main loop in `do_pasv` has made the listener -/
theorem command_stage {evs : List Event} {j : Sid} {pc : PasvPc} (hm : s.main = .command sid evs)
    (hx : s.heap sid = some x) (he : exec c s (.command env) = .ok s') (hs : s'.main.stage = some (j, pc)) :
    handlerOf x = some .pasv ∧ j = sid ∧ pc = .name ∧
      s'.heap sid = some { x with pasvListenFd := some s.fds.lowest } ∧ s'.fds = s.fds.alloc (.pasv sid) := by
  obtain ⟨y, hy, ⟨-, code, text, -, rfl⟩ | ⟨k, hk, he⟩⟩ := handleCmd_cases (exec_command_ok hm he)
  · cases hs
  · cases hx.symm.trans hy
    cases k with
    | pasv =>
      obtain ⟨port, hport⟩ := Option.ne_none_iff_exists'.mp (doPasv_runs_iff.mp ⟨s', he⟩)
      change doPasv env sid x _ = _ at he
      unfold doPasv at he
      rw [hport] at he
      cases he
      cases hs
      exact ⟨hk, rfl, rfl, Function.update_self .., rfl⟩
    | quit =>
      rw [(runCmd_quit hy he).2, closed_main] at hs
      cases hs
    | _ =>
      have hyields := fun hq => runCmd_yields hy hq he
      rw [(hyields nofun).main] at hs
      cases hs

theorem command_held {evs : List Event} (hm : s.main = .command sid evs) (hx : s.heap sid = some x)
    (he : exec c s (.command env) = .ok s') (ha : Answerable c s x env) : Held s' := by
  intro j pc hs
  obtain ⟨hk, rfl, rfl, h1, h2⟩ := command_stage hm hx he hs
  unfold Answerable at ha
  rw [hk] at ha
  refine ⟨_, _, h1, rfl, ha.2, fun _ => ?_⟩
  rw [h2, Slots.alloc_get, if_pos rfl]
  rfl

/-- a PASV whose descriptor is out of bounds ends the process at its entry of `sessinfo` -/
theorem pasv_stuck {evs : List Event} (hm : s.main = .command sid evs) (hx : s.heap sid = some x)
    (hk : handlerOf x = some .pasv) (hlow : MAX_SESSIONS ≤ s.fds.lowest) (he : exec c s (.command env) = .ok s') :
    ∃ t, Path c (Kept c) s' t ∧ t.cmdNo = s.cmdNo ∧ t.main.inside ≠ none ∧
      ∀ b, ∃ e, exec c t (.onward b) = .error e := by
  obtain ⟨text, hs⟩ : ∃ text, s'.main = .pasv sid text .name evs := by
    obtain ⟨y, hy, ⟨h0, -⟩ | ⟨k, hk', he⟩⟩ := handleCmd_cases (exec_command_ok hm he)
    · cases hx.symm.trans hy
      rw [hk] at h0
      cases h0
    · cases hx.symm.trans hy
      cases hk.symm.trans hk'
      have hyields := fun hq => runCmd_yields hy hq he
      exact ⟨_, (hyields nofun).main⟩
  obtain ⟨-, -, -, h1, h2⟩ := command_stage hm hx he (congrArg Main.stage hs)
  have hopen : isPasv (s'.fds.get s.fds.lowest) = true := by
    rw [h2, Slots.alloc_get, if_pos rfl]
    rfl
  have hname : exec c s' (.onward false) = .ok (s'.goto (.pasv sid text .entry evs)) := by
    show handlerStep false s' = _
    unfold handlerStep pasvStep
    simp only [hs, h1, hopen, if_true]
  have hgoes : enabled s' (.onward false) := by
    show s'.main.inside ≠ none
    rw [hs]
    exact nofun
  have hkept : Kept c s' (.onward false) := fun _ _ _ _ _ _ _ => ⟨nofun, fun _ => List.not_mem_nil⟩
  refine ⟨s'.goto (.pasv sid text .entry evs), .step .refl hkept ⟨hgoes, hname⟩, ?_, nofun,
    fun b => ⟨.crash .bounds, ?_⟩⟩
  · show s'.cmdNo = s.cmdNo
    exact command_cmdNo hm he
  · show pasvStep sid text .entry evs _ = _
    unfold pasvStep setSessinfo
    rw [show (s'.goto (.pasv sid text .entry evs)).heap sid = _ from h1]
    dsimp only
    rw [if_neg (Nat.not_lt.mpr hlow)]
    rfl

/-- the line in hand, after its handler has begun: it can go on, and is answered once -/
theorem answered_path {evs : List Event} {t : Server} (hr : Reach c Runs.Any s) (hm : s.main = .command sid evs)
    (hx : s.heap sid = some x) (he : exec c s (.command env) = .ok s')
    (h : Answers sid x (s.goto (.events evs)) s' ∨ Started (s.goto (.events evs)) s' sid) (hh : Held s')
    (hp : Path c (Kept c) s' t) : (t.cmdNo = s.cmdNo → t.main.inside ≠ none → ∃ t', exec c t (.onward false) = .ok t') ∧
      (Returned t s.cmdNo → (∀ tid th, t.threads tid = some th → th.cmd ≠ s.cmdNo) →
        Answered t s.cmdNo sid x.ctrlFd) := by
  have hen : enabled s (.command env) := ⟨sid, evs, hm⟩
  have hr' : Reach c Runs.Any s' := hr.step trivial ⟨hen, he⟩
  have hserve := Serving.start hr hm hx hen he h
  have hstep : ∀ t l t', (Reach c Runs.Any t ∧ Serving s.cmdNo sid x.ctrlFd t ∧ (t.cmdNo = s.cmdNo → Held t)) →
      Kept c t l → (sys c).step l t t' →
      Reach c Runs.Any t' ∧ Serving s.cmdNo sid x.ctrlFd t' ∧ (t'.cmdNo = s.cmdNo → Held t') := by
    rintro t l t' ⟨hrt, hst, hht⟩ hk ⟨hen, he⟩
    refine ⟨hrt.step trivial ⟨hen, he⟩, hst.step (numbered_reach hrt) (fresh_reach hrt) hen he, fun e => ?_⟩
    by_cases hi : t'.main.inside = none
    · exact .outside hi
    · have hno : t.cmdNo = s.cmdNo := (inside_cmdNo hen he hi).symm.trans e
      refine held_step (hht hno) hk ?_ hen he
      -- the line in hand is not waiting for its handler any more
      by_contra hc
      obtain ⟨j, evs', hm'⟩ := (isCommand_iff _).mp (by simpa using hc)
      exact past_ne hst.past hm' hno
  obtain ⟨hrt, hst, hht⟩ := Runs.Path.inv hstep hp ⟨hr', hserve, fun _ => hh⟩
  exact ⟨fun e hi => goes_on (commanding_reach hrt) (hht e) hi, fun hret hd => hst.answered hret hd⟩

theorem answeredOnce_iff {evs : List Event} (hr : Reach c Runs.Any s)
    (hm : s.main = .command sid evs) (hx : s.heap sid = some x) :
    AnsweredOnce c s env sid x.ctrlFd ↔ Answerable c s x env := by
  have hen : enabled s (.command env) := ⟨sid, evs, hm⟩
  constructor
  · rintro ⟨s', he, h⟩
    by_contra hn
    have he' := he
    rw [exec_command hm] at he'
    rcases handleCmd_unanswered (s := s.goto (.events evs)) rfl hx hn he' with hs | ⟨hk, hlow⟩
    · have hnone : ∀ t u, s'.threads t = some u → u.cmd ≠ s.cmdNo := by
        intro t u hu
        rw [hs.threads] at hu
        exact (past_ne ((fresh_reach hr).threads t u hu).1 hm).symm
      obtain ⟨cs, h1, h2⟩ := (h s' .refl).2 (fun _ => by rw [hs.main]; rfl) hnone
      have hnil : replies s'.log s.cmdNo = [] := by
        rw [replies_same (s := s) (hs.sent.trans (List.append_nil _).symm) nofun]
        exact List.filter_eq_nil_iff.mpr fun r hr' => by
          simpa using (past_ne ((fresh_reach hr).sent r hr') hm).symm
      rw [hnil] at h1
      rw [List.map_eq_nil_iff.mp h1.symm] at h2
      exact not_once_nil h2
    · obtain ⟨t, hp, hno, hi, hstop⟩ := pasv_stuck hm hx hk hlow he
      obtain ⟨t', ht⟩ := (h t hp).1 hno hi
      obtain ⟨e, hstop⟩ := hstop false
      rw [hstop] at ht
      cases ht
  · intro ha
    obtain ⟨s', he, h⟩ := handleCmd_answered (c := c) (s := s.goto (.events evs)) rfl hx
      ((bounded_reach hr).ctrl sid _ (ledger_sess hx)) ha
    have he : exec c s (.command env) = .ok s' := (exec_command hm).trans he
    exact ⟨s', he, fun t hp => answered_path hr hm hx he h (command_held hm hx he ha) hp⟩

theorem handed_iff {ev : Event} {evs : List Event} {now : Int} (hr : Reach c Runs.Any s)
    (h : InputFor c s ev evs ⟨.ctrl, fd⟩ sid x) (hl : HasLine (s.sock x.ctrlFd).queue) :
    Handed c s now env sid ↔ Readable (s.sock x.ctrlFd) := by
  unfold Handed Readable
  rw [h.exec (bounded_reach hr)]
  show (∃ s' evs', processCtrlRead sid evs _ = _ ∧ _) ↔ _
  rcases hk : s.sock x.ctrlFd with ⟨q, fin, es⟩
  rw [hk] at hl
  unfold processCtrlRead
  simp only [show (s.goto (.events evs)).heap sid = some x from h.live,
    show (s.goto (.events evs)).sock x.ctrlFd = ⟨q, fin, es⟩ from hk]
  cases hf : fails (calls q) es with
  | true =>
    rw [ctrlRead_fails hf]
    exact ⟨nofun, nofun⟩
  | false =>
    obtain ⟨es', hr⟩ := @ctrlRead_retried q fin es hf
    rw [if_pos hl] at hr
    simp only [hr]
    cases hp : parseCmdline (peeked q) with
    | none => exact ⟨nofun, fun h => absurd rfl h.2⟩
    | some r => exact ⟨fun _ => ⟨trivial, Option.some_ne_none r⟩, fun _ => ⟨_, evs, rfl, rfl⟩⟩

end

/-- a login, PASV, a data connection, and RETR up to its handler -/
def retrLine : List Label :=
  connects ++ sends 5 "USER u" ++ sends 5 "PASS p" ++ sendsPasv 5 ++ dataConnects 7
    ++ (sends 5 "RETR f").dropLast

end Myftpd
