import Myftpd.Worked
import Myftpd.Noted
import Myftpd.Lifetime

/-!
# One transfer, one data connection

A transfer thread reads `data_fd` from the record of its session in every round, and nothing keeps the
main loop from starting a second transfer, listing a directory or accepting another connection in the
meantime.

* `dataAtStart`   for every transfer, `data_fd` when its command was handled;
* `carries`       the descriptor that a step sends to or receives from;
* `one_transfer`  the runs in which no session has two transfers at a time, and every transfer keeps to
                  its data connection.
-/

namespace Myftpd
open CMem Server

/-- the session for which the step lists a directory -/
def lists (s : Server) : Label → Option Sid
  | .command env =>
    match handles s (.command env) with
    | some (sid, x, .list) => if getPasvDataFd x = 0 then none else some sid
    | _ => none
  | _ => none

/-- the thread has bytes to send or receive in its next step -/
def Thread.carries (th : Thread) (env : TEnv) : Bool :=
  match th.pc, th.kind, env.sendfile, env.read with
  | .loop, .retr, some (_ + 1), _ => decide (0 < th.left)
  | .loop, .stor _, _, .ok (_ + 1) => true
  | _, _, _, _ => false

/-- the transfer that sends or receives bytes in the step, and the descriptor that it uses -/
def carries (s : Server) : Label → Option (Tid × Fd)
  | .thread tid env => (s.threads tid).bind fun th => (s.heap th.sess).bind fun x =>
      if th.carries env = true then x.dataFd.map fun fd => (tid, fd) else none
  | _ => none

/-- for every transfer, `data_fd` when its command was handled -/
def dataAtStart (g : Tid → Option Fd) (s : Server) (l : Label) (_ : Server) : Tid → Option Fd :=
  match starts s l with
  | some (_, x, _) => Function.update g s.nextTid x.dataFd
  | none => g

/-- the server, with the data connections of its transfers -/
abbrev carried (c : Conf) : Runs.System (Server × (Tid → Option Fd)) Label :=
  (sys c).recording (fun _ => none) dataAtStart

def Pc.early : Pc → Bool
  | .rmData => false
  | .rmPasv => false
  | .setPasv => false
  | .setData => false
  | .closeFile => false
  | .final => false
  | .checkAbor => false
  | _ => true

/-- a transfer of the session has not left its loop -/
def looping (s : Server) (sid : Sid) : Bool :=
  (List.range s.nextTid).any fun tid => (s.threads tid).any fun th => th.sess == sid && th.pc.early

/-- at most one transfer of every session is in progress -/
def Single (s : Server) : Prop := ∀ t u th th', s.threads t = some th → s.threads u = some th' →
  th.sess = th'.sess → t = u

/-- no directory is listed while a transfer of the session is in progress, and bytes go through the
descriptor that was `data_fd` at the command -/
def KeepsTo (p : Server × (Tid → Option Fd)) (l : Label) : Prop :=
  (∀ sid, lists p.1 l = some sid → busy p.1 sid = false) ∧
    ∀ tid fd, carries p.1 l = some (tid, fd) → p.2 tid = some fd

/-- No transfer or listing is started while a transfer of the session is in progress, and no data
connection is accepted for a session with a transfer up to its loop. -/
def Unmixed (c : Conf) (s : Server) (l : Label) : Prop :=
  (∀ p ∈ (starts s l).toList, busy s p.1 = false) ∧ (∀ sid ∈ (lists s l).toList, busy s sid = false) ∧
    ∀ sid ∈ (accepts c s l).toList, looping s sid = false

instance (c : Conf) (s : Server) (l : Label) : Decidable (Unmixed c s l) :=
  inferInstanceAs (Decidable ((∀ p ∈ _, _) ∧ (∀ sid ∈ _, _) ∧ ∀ sid ∈ _, _))

section
variable {c : Conf} {s s' : Server} {l : Label} {g : Tid → Option Fd} {tid : Tid} {th : Thread}
  {sid j : Sid} {q : Params}

theorem looping_of (hn : s.ledger.Numbered) (hth : s.threads tid = some th) (he : th.pc.early = true)
    (hl : looping s sid = false) : th.sess ≠ sid := by
  intro hs
  refine Bool.false_ne_true (hl.symm.trans ?_)
  unfold looping
  rw [List.any_eq_true]
  refine ⟨tid, List.mem_range.mpr (hn.worker tid _ (ledger_worker hth)), ?_⟩
  rw [hth]
  simp [hs, he]

theorem busy_of (hn : s.ledger.Numbered) (hth : s.threads tid = some th) (hb : busy s sid = false) :
    th.sess ≠ sid := by
  intro hs
  exact Bool.false_ne_true (hb.symm.trans ((busy_iff hn).mpr ⟨tid, th, hth, hs⟩))

/-- the sessions of threads have had their numbers -/
def Seated (s : Server) : Prop := ∀ tid th, s.threads tid = some th → th.sess < s.nextSid

theorem seated_reach {C : Server → Label → Prop} (h : Reach c C s) : Seated s := by
  refine Runs.Reach.inv_with (J := fun s => s.ledger.Numbered) (I := Seated)
    (fun s hs => numbered_reach hs) ?_ ?_ h
  · rintro s ⟨fds, -, rfl⟩ tid th hth
    cases hth
  · intro s l s' hn hi _ ht tid th hth
    obtain ⟨hen, he⟩ := ht
    obtain ⟨op, ho⟩ := exec_step hen he
    rcases ho.step.worker (ledger_worker hth) with ⟨w, hw, hs⟩ | ⟨-, -, x, hx⟩
    · obtain ⟨u, hu, rfl⟩ := Option.map_eq_some_iff.mp hw
      have hlt : u.sess < s.nextSid := hi tid u hu
      have hs' : u.sess = th.sess := hs
      rw [← hs']
      exact lt_of_lt_of_le hlt ho.step.nextSid_le
    · exact lt_of_lt_of_le (hn.sess _ x hx) ho.step.nextSid_le

/-! ## the data connection in a record -/

/-- in the main loop only LIST and `accept` change `data_fd` -/
theorem revised_dataFd (h1 : accepts c s l ≠ some j) (h2 : lists s l ≠ some j)
    (h3 : ∀ tid env, l ≠ .thread tid env) : (revised c s l j q).dataFd = q.dataFd := by
  unfold revised
  split
  · split
    · split <;> rfl
    · rw [if_neg h1]
  · rename_i env
    cases hn : handles s (.command env) with
    | none => rfl
    | some p =>
      obtain ⟨sid, x, k⟩ := p
      dsimp only
      split
      · rename_i hj
        subst hj
        unfold lists at h2
        simp only [hn] at h2
        unfold Cmd.params
        cases k with
        | pass =>
          dsimp only
          split <;> rfl
        | cwd =>
          dsimp only
          split <;> rfl
        | list =>
          dsimp only at h2 ⊢
          split
          · rfl
          · rename_i h0
            rw [if_neg h0] at h2
            exact absurd rfl h2
        | _ => rfl
      · rfl
  · exact absurd rfl (h3 _ _)
  · rfl

theorem starts_lists {env : Env} {x : Session} {k : Kind}
    (h : starts s (.command env) = some (sid, x, k)) : lists s (.command env) = none := by
  obtain ⟨k', hn, hk⟩ := starts_handles h
  unfold lists
  simp only [hn]
  rcases hk with rfl | rfl <;> rfl

theorem early_follows {k : Kind} {pc pc' : Pc} (h : pc.follows k pc') (he : pc'.early = true) :
    pc.early = true := by
  cases pc with
  | rmData => cases h; cases he
  | rmPasv => cases h; cases he
  | setPasv => cases h; cases he
  | setData => cases h; cases he
  | closeFile => cases h; cases he
  | final => cases h; cases he
  | checkAbor => cases h
  | _ => rfl

theorem early_record {pc : Pc} (x : Session) (he : pc.early = true) : (pc.record x).dataFd = x.dataFd := by
  cases pc with
  | setData => cases he
  | _ => rfl

/-! ## the invariant -/

/-- A session has at most one transfer, and up to its loop the record names the data connection that it
began with. -/
structure Devoted (s : Server) (g : Tid → Option Fd) : Prop where
  single : Single s
  data : ∀ tid th x, s.threads tid = some th → th.pc.early = true → s.heap th.sess = some x →
    x.dataFd = g tid

/-- **One step** keeps the transfers apart. -/
theorem devoted_step (hn : s.ledger.Numbered) (hs : Seated s) (hi : Devoted s g) (hc : Unmixed c s l)
    (hen : enabled s l) (he : exec c s l = .ok s') : Devoted s' (dataAtStart g s l s') := by
  have hw := exec_worked hen he
  have hpar := fun {j y} (hy : s'.heap j = some y) => exec_params hw hy
  obtain ⟨hstart, hlist, hacc⟩ := hc
  -- the record of a session with a transfer up to its loop, after a step of the main loop
  have hkeep : (∀ tid env, l ≠ .thread tid env) → ∀ tid th y, s.threads tid = some th →
      th.pc.early = true → s'.heap th.sess = some y → y.dataFd = g tid := by
    intro hl tid th y hth hearly hy
    rcases hpar hy with ⟨x, hx, hq⟩ | hnew
    · have h1 : y.dataFd = (revised c s l th.sess x.params).dataFd := congrArg Params.dataFd hq
      rw [revised_dataFd ?_ ?_ hl] at h1
      · exact h1.trans (hi.data tid th x hth hearly hx)
      · intro e
        exact looping_of hn hth hearly (hacc _ (Option.mem_toList.mpr e)) rfl
      · intro e
        exact busy_of hn hth (hlist _ (Option.mem_toList.mpr e)) rfl
    · exact absurd (hs tid th hth) (by rw [hnew]; exact Nat.lt_irrefl _)
  cases hw with
  | loop h0 hl h =>
    have hg : dataAtStart g s l s' = g := by
      unfold dataAtStart
      rw [h0]
    rw [hg]
    refine ⟨?_, ?_⟩
    · unfold Single
      rw [h.threads]
      exact hi.single
    · rw [h.threads]
      exact hkeep hl
  | @start env sid x k h0 hx h =>
    have hg : dataAtStart g s (.command env) s' = Function.update g s.nextTid x.dataFd := by
      unfold dataAtStart
      rw [h0]
    have hfree := hstart _ (Option.mem_toList.mpr h0)
    have hthreads : ∀ t u, s'.threads t = some u → (t = s.nextTid ∧ u = newThread sid s.cmdNo k) ∨
        t ≠ s.nextTid ∧ s.threads t = some u := by
      intro t u hu
      rw [h.threads] at hu
      change Function.update s.threads s.nextTid _ t = some u at hu
      rw [Function.update_apply] at hu
      split at hu
      · rename_i e
        exact Or.inl ⟨e, (Option.some.inj hu).symm⟩
      · rename_i e
        exact Or.inr ⟨e, hu⟩
    rw [hg]
    refine ⟨?_, ?_⟩
    · intro t u th th' ht hu hsess
      rcases hthreads t th ht with ⟨rfl, rfl⟩ | ⟨h1, h2⟩
      · rcases hthreads u th' hu with ⟨rfl, -⟩ | ⟨-, h4⟩
        · rfl
        · exact absurd hsess.symm (busy_of hn h4 hfree)
      · rcases hthreads u th' hu with ⟨rfl, rfl⟩ | ⟨-, h4⟩
        · exact absurd hsess (busy_of hn h2 hfree)
        · exact hi.single t u th th' h2 h4 hsess
    · intro t th y ht hearly hy
      rcases hthreads t th ht with ⟨rfl, rfl⟩ | ⟨h1, h2⟩
      · rw [Function.update_self]
        obtain ⟨x', hx', hq⟩ := h.record y hy
        cases hx.symm.trans hx'
        refine (congrArg Params.dataFd hq).trans (revised_dataFd nofun ?_ nofun)
        rw [starts_lists h0]
        exact nofun
      · rw [Function.update_of_ne h1]
        exact hkeep (fun _ _ e => by cases e) t th y h2 hearly hy
  | @thread tid env th o hth h =>
    have hg : dataAtStart g s (.thread tid env) s' = g := rfl
    rw [hg]
    refine ⟨?_, ?_⟩
    · intro t u v w ht hu hsess
      have hold : ∀ t v, s'.threads t = some v → ∃ v', s.threads t = some v' ∧ v'.sess = v.sess := by
        intro t v hv
        by_cases e : t = tid
        · subst e
          exact ⟨th, hth, (h.next v (h.self hv)).1.symm⟩
        · exact ⟨v, h.other hv e, rfl⟩
      obtain ⟨v', hv, ev⟩ := hold t v ht
      obtain ⟨w', hw', ew⟩ := hold u w hu
      exact hi.single t u v' w' hv hw' (by rw [ev, ew, hsess])
    · intro t u y ht hearly hy
      rw [h.beside u.sess] at hy
      by_cases e : t = tid
      · subst e
        obtain ⟨h1, -, -, h4⟩ := h.next u (h.self ht)
        have hpe : th.pc.early = true := by
          rcases h4 with ⟨rfl, -⟩ | h4
          · exact hearly
          · exact early_follows h4 hearly
        rw [if_pos h1, h1] at hy
        obtain ⟨x, hx, rfl⟩ := Option.map_eq_some_iff.mp hy
        rw [early_record x hpe]
        exact hi.data t th x hth hpe hx
      · have hu := h.other ht e
        rw [if_neg fun e' => e (hi.single t tid u th hu hth e')] at hy
        exact hi.data t u y hu hearly hy

end

/-! ## runs -/

theorem carries_some {s : Server} {l : Label} {tid : Tid} {fd : Fd} (h : carries s l = some (tid, fd)) :
    ∃ th x, s.threads tid = some th ∧ th.pc = .loop ∧ s.heap th.sess = some x ∧ x.dataFd = some fd := by
  unfold carries at h
  split at h
  · rename_i t env
    obtain ⟨th, hth, h⟩ := Option.bind_eq_some_iff.mp h
    obtain ⟨x, hx, h⟩ := Option.bind_eq_some_iff.mp h
    split at h
    · rename_i hc
      obtain ⟨fd', hfd, e⟩ := Option.map_eq_some_iff.mp h
      cases e
      refine ⟨th, x, hth, ?_, hx, hfd⟩
      unfold Thread.carries at hc
      split at hc
      · assumption
      · assumption
      · cases hc
    · cases h
  · cases h

theorem devoted_reach {c : Conf} {p : Server × (Tid → Option Fd)}
    (h : Runs.Reach (carried c) (fun p l => Unmixed c p.1 l) p) : Devoted p.1 p.2 := by
  refine Runs.Reach.noted (J := fun s => s.ledger.Numbered ∧ Seated s)
    (I := fun p => Devoted p.1 p.2) (fun s hs => ⟨numbered_reach hs, seated_reach hs⟩) ?_ ?_ h
  · rintro s ⟨fds, -, rfl⟩
    refine ⟨?_, ?_⟩
    · rintro t u th th' ⟨⟩
    · rintro tid th x ⟨⟩
  · rintro s g l s' ⟨hn, hs⟩ hi hc ⟨hen, he⟩
    exact devoted_step hn hs hi hc hen he

/-- **A session has at most one transfer at a time, and its bytes go through the data connection that it
had at the command**, in a run that starts no transfer and lists no directory while a transfer of the
session is in progress, and accepts no data connection for a session with a transfer up to its loop. -/
theorem one_transfer {c : Conf} {p : Server × (Tid → Option Fd)}
    (h : Runs.Reach (carried c) (fun p l => Unmixed c p.1 l) p) :
    Single p.1 ∧ ∀ l, Unmixed c p.1 l → KeepsTo p l := by
  have hd := devoted_reach h
  refine ⟨hd.single, fun l hc => ⟨fun sid hl => hc.2.1 sid (Option.mem_toList.mpr hl), ?_⟩⟩
  intro tid fd hl
  obtain ⟨th, x, hth, hpc, hx, hfd⟩ := carries_some hl
  rw [← hd.data tid th x hth (by rw [hpc]; rfl) hx, hfd]

/-- a login and a data connection; `fd` is the control socket, the next numbers are free -/
def dataReady (fd : Fd) : List Label :=
  connects ++ sends fd "USER u" ++ sends fd "PASS p" ++ sendsPasv fd ++ dataConnects (fd + 2)

/-- a transfer thread takes `n` steps -/
def threadSteps (tid : Tid) (n : Nat) : List Label := List.replicate n (.thread tid sampleTEnv)

/-- the transfer sends through the connection that it began with -/
theorem one_transfer_retr : ∃ p,
    Runs.Reach (carried sampleConf) (fun p l => Unmixed sampleConf p.1 l) p ∧
    carries p.1 (.thread 0 sampleTEnv) = some (0, 8) ∧ p.2 0 = some 8 := by
  obtain ⟨p, hp, ht⟩ := noted_of_play (c := sampleConf) (D := fun p l => Unmixed sampleConf p.1 l)
    (t := fun p => decide (carries p.1 (.thread 0 sampleTEnv) = some (0, 8)) &&
      decide (Unmixed sampleConf p.1 (.thread 0 sampleTEnv)))
    (sampleNoted (fun _ => none) dataAtStart fun p l => Unmixed sampleConf p.1 l)
    (by decide +kernel : (playNoted sampleConf dataAtStart (fun p l => Unmixed sampleConf p.1 l)
      (sampleBoot, fun _ => none) (retrRun ++ threadSteps 0 6)).any _ = true)
  simp only [Bool.and_eq_true, decide_eq_true_eq] at ht
  exact ⟨p, hp, ht.1, ((one_transfer hp).2 _ ht.2).2 0 8 ht.1⟩

/-- RETR twice on one data connection -/
theorem two_transfers : ¬ ∀ c p, Runs.Reach (carried c) Runs.Any p →
    Single p.1 ∧ ∀ l, enabled p.1 l → KeepsTo p l := by
  intro h
  obtain ⟨p, hp, ht⟩ := noted_of_play (c := sampleConf) (D := Runs.Any)
    (t := fun p => decide ((p.1.threads 0).map Thread.sess = some 0) &&
      decide ((p.1.threads 1).map Thread.sess = some 0))
    (sampleNoted (fun _ => none) dataAtStart Runs.Any)
    (by decide +kernel : (playNoted sampleConf dataAtStart Runs.Any (sampleBoot, fun _ => none)
      (retrRun ++ sends 5 "RETR g")).any _ = true)
  simp only [Bool.and_eq_true, decide_eq_true_eq] at ht
  obtain ⟨th, h0, e0⟩ := Option.map_eq_some_iff.mp ht.1
  obtain ⟨th', h1, e1⟩ := Option.map_eq_some_iff.mp ht.2
  exact absurd ((h _ p hp).1 0 1 th th' h0 h1 (e0.trans e1.symm)) (by decide)

end Myftpd
