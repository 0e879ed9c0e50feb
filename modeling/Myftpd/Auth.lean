import Myftpd.Worked

/-!
# Logins, and the accesses to the file system

The log must not show an access to the file system for a session before a 230 reply to it (`Gate`).  A
session that has not logged in has no directory, so relative paths cannot be opened for it and LIST does
not get anywhere.  Nothing stops an absolute path, and seven of the handlers do not look at the
directory at all (`reaches`).

* `Guarded`     what the state knows about logins;
* `gate_kept`   the runs in which nobody gets at the file system before a login.
-/

namespace Myftpd
open CMem Server

/-- the session whose PASS was answered 230 -/
def Act.login : Act → Option Sid
  | .reply sid _ _ code _ => if code = FTP_LOGINOK then some sid else none
  | _ => none

def loggedIn (log : List Act) (sid : Sid) : Bool := log.any fun a => a.login == some sid

/-- before every access to the file system there is the login of its session -/
def Gate (log : List Act) : Prop :=
  ∀ pre a post, log = pre ++ a :: post → ∀ sid, a.touches = some sid → loggedIn pre sid = true

theorem loggedIn_append {log log' : List Act} {sid : Sid} (h : loggedIn log sid = true) :
    loggedIn (log ++ log') sid = true := by
  unfold loggedIn
  rw [List.any_append, Bool.or_eq_true]
  exact Or.inl h

theorem gate_snoc {log : List Act} {a : Act} (h : Gate log)
    (ha : ∀ sid, a.touches = some sid → loggedIn log sid = true) : Gate (log ++ [a]) := by
  intro pre b post e sid hb
  rcases List.eq_nil_or_concat post with rfl | ⟨post', z, rfl⟩
  · obtain ⟨rfl, e'⟩ := List.append_inj' e rfl
    cases e'
    exact ha sid hb
  · rw [List.concat_eq_append, ← List.cons_append, ← List.append_assoc] at e
    exact h pre b post' (List.append_inj' e rfl).1 sid hb

theorem gate_append {log as : List Act} (h : Gate log)
    (ha : ∀ a ∈ as, ∀ sid, a.touches = some sid → loggedIn log sid = true) : Gate (log ++ as) := by
  induction as generalizing log with
  | nil =>
    rw [List.append_nil]
    exact h
  | cons a as ih =>
    rw [List.append_cons]
    apply ih (gate_snoc h (ha a List.mem_cons_self))
    intro b hb sid hs
    exact loggedIn_append (ha b (List.mem_cons_of_mem a hb) sid hs)

theorem gate_broken {log post : List Act} {sid : Sid} {op : FsOp} (h : loggedIn log sid = false) :
    ¬ Gate (log ++ [.fs sid op] ++ post) := by
  intro hg
  have := hg log (.fs sid op) post (by rw [List.append_assoc]; rfl) sid rfl
  rw [h] at this
  cases this

/-! ## what the state knows about logins -/

/-- A session with a directory has logged in, and so has the session of a thread that has opened its
file. -/
structure Guarded (s : Server) : Prop where
  gate : Gate s.log
  dir : ∀ sid x, s.heap sid = some x → x.dirfd ≠ none → loggedIn s.log sid = true
  file : ∀ tid th, s.threads tid = some th → th.pc.opened = true → loggedIn s.log th.sess = true

namespace Guarded

variable {s s' : Server} {sid : Sid} {x y : Session} {tid : Tid} {th : Thread}

theorem of (h : Guarded s) (h1 : s'.heap = s.heap) (h2 : s'.threads = s.threads)
    (h3 : s'.log = s.log) : Guarded s' where
  gate := h3 ▸ h.gate
  dir := by
    rw [h1, h3]
    exact h.dir
  file := by
    rw [h2, h3]
    exact h.file

theorem emit (h : Guarded s) {a : Act} (ha : ∀ sid, a.touches = some sid → loggedIn s.log sid = true) :
    Guarded (s.emit a) where
  gate := gate_snoc h.gate ha
  dir := fun sid x hx hd => loggedIn_append (h.dir sid x hx hd)
  file := fun tid th ht hp => loggedIn_append (h.file tid th ht hp)

theorem emit_quiet (h : Guarded s) {a : Act} (ha : a.touches = none) : Guarded (s.emit a) :=
  h.emit fun _ e => absurd (ha.symm.trans e) nofun

end Guarded

/-! ## commands -/

section
variable {c : Conf} {env : Env} {sid : Sid} {x : Session} {s s' : Server}

theorem loggedIn_of {k : Cmd} (hr : loggedIn s.log sid = false → reaches env x k = false)
    (ht : reaches env x k = true) : loggedIn s.log sid = true := by
  cases hl : loggedIn s.log sid with
  | true => rfl
  | false =>
    rw [hr hl] at ht
    cases ht

/-- PASS answers 230 when it gives the session a directory -/
theorem doPass_login {k : FKind} (hp : passOk c x = true) (hh : env.home = some k)
    (he : doPass c env sid x s = .ok s') : loggedIn s'.log sid = true := by
  unfold doPass at he
  rw [if_pos hp, hh] at he
  split at he
  · cases he
  · cases he
    unfold loggedIn
    rw [List.any_eq_true]
    exact ⟨_, List.mem_append_right _ (List.mem_singleton_self _), by simp [Act.login]⟩

/-- a session that has a directory after the handler had one before, or the handler can do without, or it
is PASS -/
theorem dirfd_given {k : Cmd} {fd : Fd} {q : Params} (hq : q.dirfd = x.dirfd)
    (h : (k.params c env x fd q).dirfd ≠ none) : x.dirfd ≠ none ∨ reaches env x k = true ∨
      k = .pass ∧ passOk c x = true ∧ env.home ≠ none := by
  cases k with
  | pass =>
    unfold Cmd.params at h
    dsimp only at h
    split at h
    · rename_i hp
      refine Or.inr (Or.inr ⟨rfl, hp, fun hh => h ?_⟩)
      show env.home.map _ = none
      rw [hh]
      rfl
    · exact Or.inl (hq ▸ h)
  | cwd =>
    unfold Cmd.params at h
    dsimp only at h
    split at h
    · rename_i ho
      obtain ⟨k, ho⟩ := Option.isSome_iff_exists.mp ho
      rcases openatOk_some ho with hd | ⟨h1, h2⟩
      · exact Or.inl hd
      · exact Or.inr (Or.inl (Bool.and_eq_true_iff.mpr ⟨h1, h2⟩))
    · exact Or.inl (hq ▸ h)
  | list =>
    unfold Cmd.params at h
    dsimp only at h
    split at h
    · exact Or.inl (hq ▸ h)
    · exact Or.inl (hq ▸ h)
  | _ => exact Or.inl (hq ▸ h)

/-- **A command** that does not get at the file system before the login. -/
theorem runCmd_guarded {k : Cmd} (h : Guarded s) (hx : s.heap sid = some x)
    (hr : loggedIn s.log sid = false → reaches env x k = false)
    (he : runCmd c env sid x s k = .ok s') : Guarded s' := by
  obtain ⟨o, as, hd, hp⟩ := runCmd_did hx he
  have hl : x.dirfd ≠ none ∨ reaches env x k = true → loggedIn s.log sid = true :=
    fun h1 => h1.elim (h.dir sid x hx) (loggedIn_of hr)
  refine ⟨?_, ?_, ?_⟩
  · rw [hd.log]
    apply gate_append h.gate
    intro a ha j hj
    obtain ⟨rfl, h1⟩ := (hp.entries a ha).touch j hj
    exact hl h1
  · intro j y hy hdir
    rw [hd.heap, Function.update_apply] at hy
    split at hy
    · rename_i e
      subst e
      have h1 : (k.params c env x s.fds.lowest x.params).dirfd ≠ none := by
        rw [← hp.params y hy]
        exact hdir
      rcases dirfd_given rfl h1 with h2 | h2 | ⟨rfl, h2, h3⟩
      · rw [hd.log]
        exact loggedIn_append (hl (Or.inl h2))
      · rw [hd.log]
        exact loggedIn_append (hl (Or.inr h2))
      · obtain ⟨home, hh⟩ := Option.ne_none_iff_exists'.mp h3
        exact doPass_login h2 hh he
    · rw [hd.log]
      exact loggedIn_append (h.dir j y hy hdir)
  · intro t u hu ho
    rw [hd.log]
    apply loggedIn_append
    rw [hd.threads] at hu
    cases hk : k.starts env x with
    | none =>
      rw [hk] at hu
      exact h.file t u hu ho
    | some kind =>
      rw [hk] at hu
      change Function.update s.threads s.nextTid _ t = some u at hu
      rw [Function.update_apply] at hu
      split at hu
      · cases hu
        cases ho
      · exact h.file t u hu ho

end

/-! ## events and threads -/

section
variable {c : Conf} {env : Env} {s s' : Server}

/-- **A step between commands.** -/
theorem Turned.guarded {l : Label} (ht : Turned c s l s') (h : Guarded s) : Guarded s' := by
  obtain ⟨as, e, has⟩ := ht.log
  refine ⟨?_, ?_, ?_⟩
  · rw [e]
    apply gate_append h.gate
    intro a ha j hj
    rw [(has a ha).1] at hj
    cases hj
  · intro j y hy hd
    rw [e]
    rcases ht.fresh j y hy with ⟨x, hx, h1, -⟩ | ⟨h1, -⟩
    · exact loggedIn_append (h.dir j x hx (h1 ▸ hd))
    · exact absurd h1 hd
  · intro t u hu ho
    rw [e]
    rw [ht.threads] at hu
    exact loggedIn_append (h.file t u hu ho)

variable {tid : Tid} {th : Thread} {x : Session} {tenv : TEnv}

/-- the file is opened only for a session that has logged in, or with a relative path -/
def OpensLate (s : Server) (tenv : TEnv) (th : Thread) : Prop :=
  th.pc = .open → ∀ x, s.heap th.sess = some x → loggedIn s.log th.sess = false →
    (absolute x.arg && tenv.openat) = false

theorem follows_opened {k : Kind} {p q : Pc} (h : p.follows k q) (hq : q.opened = true) :
    p.opened = true ∨ p = .open := by
  cases p with
  | offset =>
    rw [show q = .clear from h] at hq
    cases hq
  | clear =>
    rw [show q = .open from h] at hq
    cases hq
  | «open» => exact Or.inr rfl
  | _ => exact Or.inl rfl

/-- the file is opened for a session that has logged in -/
theorem opens_loggedIn (h : Guarded s) (hr : OpensLate s tenv th) (hpc : th.pc = .open)
    (ho : Openable tenv th s) : loggedIn s.log th.sess = true := by
  obtain ⟨x, hx, ho⟩ := ho
  rcases openatOk_some ho with hd | ⟨h1, h2⟩
  · exact h.dir _ x hx hd
  · by_contra hb
    have := hr hpc x hx (Bool.eq_false_iff.mpr hb)
    rw [h1] at this
    change tenv.openat = false at this
    rw [this] at h2
    cases h2

/-- a transfer works for a session that has logged in, once it has opened its file -/
theorem thread_guarded (h : Guarded s) (hth : s.threads tid = some th) (hr : OpensLate s tenv th)
    (he : threadStep tenv tid s = .ok s') : Guarded s' := by
  obtain ⟨o, hran⟩ := thread_ran hth he
  obtain ⟨as, hlog, has⟩ := hran.log
  refine ⟨?_, ?_, ?_⟩
  · rw [hlog]
    apply gate_append h.gate
    intro a ha j hj
    obtain ⟨rfl, ho | ⟨hpc, ho⟩⟩ := (has a ha).touch j hj
    · exact h.file tid th hth ho
    · exact opens_loggedIn h hr hpc ho
  · intro j y hy hd
    rw [hlog]
    rw [hran.beside j] at hy
    split at hy
    · obtain ⟨x, hx, rfl⟩ := Option.map_eq_some_iff.mp hy
      exact loggedIn_append (h.dir j x hx (record_dirfd th.pc x ▸ hd))
    · exact loggedIn_append (h.dir j y hy hd)
  · intro t u hu ho
    rw [hlog]
    rw [hran.threads, Function.update_apply] at hu
    split at hu
    · obtain ⟨hs, -, -, hpc⟩ := hran.next u hu
      rw [hs]
      apply loggedIn_append
      rcases hpc with ⟨rfl, -⟩ | hf
      · exact h.file tid u hth ho
      · rcases follows_opened hf ho with ho' | hpc
        · exact h.file tid th hth ho'
        · exact opens_loggedIn h hr hpc ((hran.granted u hu).opens hpc)
    · exact loggedIn_append (h.file t u hu ho)

end

/-! ## runs -/

section
variable {c : Conf} {s s' : Server} {l : Label}

/-- Before its login a session sends no command that gets at the file system without a directory, and no
transfer opens an absolute path for it. -/
def Gated (s : Server) : Label → Prop
  | .command env => ∀ p ∈ (handles s (.command env)).toList, loggedIn s.log p.1 = false →
      reaches env p.2.1 p.2.2 = false
  | .thread tid env => ∀ th ∈ (s.threads tid).toList, th.pc = .open →
      ∀ x ∈ (s.heap th.sess).toList, loggedIn s.log th.sess = false →
        (absolute x.arg && env.openat) = false
  | _ => True

instance (s : Server) : (l : Label) → Decidable (Gated s l)
  | .command _ => inferInstanceAs (Decidable (∀ p ∈ _, _))
  | .thread _ _ => inferInstanceAs (Decidable (∀ th ∈ _, _))
  | .arrive _ _ | .hangup _ | .faults _ _ | .wait _ | .timeout | .waitErr _ | .evictOne _
  | .dispatch _ _ | .onward _ | .acceptOne _ | .acceptErr _ => inferInstanceAs (Decidable True)

theorem command_guarded {env : Env} {sid : Sid} {evs : List Event} (h : Guarded s)
    (hm : s.main = .command sid evs) (hc : Gated s (.command env))
    (he : handleCmd c env sid (s.goto (.events evs)) = .ok s') : Guarded s' := by
  have h0 : Guarded (s.goto (.events evs)) := h.of rfl rfl rfl
  obtain ⟨x, hx, ⟨-, code, text, -, rfl⟩ | ⟨k, hk, he⟩⟩ := handleCmd_cases he
  · exact h0.emit_quiet rfl
  · exact runCmd_guarded h0 hx (hc (sid, x, k) (Option.mem_toList.mpr (handles_some hm hx hk))) he

/-- **One step.** -/
theorem exec_guarded (h : Guarded s) (hc : Gated s l) (hen : enabled s l)
    (he : exec c s l = .ok s') : Guarded s' := by
  rcases exec_cases hen he with ⟨-, ht⟩ | ⟨env, sid, evs, rfl, hm, he⟩ | ⟨tid, env, th, rfl, hth, he⟩
  · exact ht.guarded h
  · exact command_guarded h hm hc he
  · have hr : OpensLate s env th := fun hpc x hx =>
      hc th (Option.mem_toList.mpr hth) hpc x (Option.mem_toList.mpr hx)
    exact thread_guarded h hth hr he

theorem guarded_reach (h : Reach c Gated s) : Guarded s := by
  refine Runs.Reach.inv (I := Guarded) ?_ ?_ h
  · rintro s ⟨fds, -, rfl⟩
    refine ⟨?_, ?_, ?_⟩
    · intro pre a post e
      cases pre <;> cases e
    · rintro sid x ⟨⟩
    · rintro tid th ⟨⟩
  · rintro s l s' hg hc ⟨hen, he⟩
    exact exec_guarded hg hc hen he

/-! ## the steps that get at the file system too early -/

theorem doSite_reaches {env : Env} {sid : Sid} {x : Session} (ht : reaches env x .site = true)
    (he : doSite c env sid x s = .ok s') : ∃ op post, s'.log = s.log ++ [.fs sid op] ++ post := by
  unfold reaches chmodCalled at ht
  unfold doSite at he
  split at he
  · cases he
  · rename_i cmd arg hs
    rw [hs] at ht
    simp only [Bool.and_eq_true, decide_eq_true_eq, Option.any_eq_true] at ht
    obtain ⟨⟨⟨hc, ha⟩, ⟨perm, file⟩, hs', hf⟩, hm⟩ := ht
    rw [if_pos hc] at he
    unfold doSiteChmod at he
    rw [if_neg ha, hs'] at he
    dsimp only at he
    rw [if_neg hf, if_pos hm] at he
    cases he
    exact ⟨_, _, rfl⟩

theorem runCmd_reaches {env : Env} {sid : Sid} {x : Session} {k : Cmd} (ht : reaches env x k = true)
    (he : runCmd c env sid x s k = .ok s') : ∃ op post, s'.log = s.log ++ [.fs sid op] ++ post := by
  cases k with
  | cwd =>
    cases he
    unfold reaches at ht
    obtain ⟨h1, h2⟩ := (Bool.and_eq_true _ _).mp ht
    obtain ⟨k, hk⟩ := Option.isSome_iff_exists.mp h2
    have ho : openatOk x.dirfd x.arg env.openat = some k := by
      unfold openatOk
      rw [h1, hk]
      rfl
    unfold doCwd
    rw [ho]
    cases x.dirfd <;> exact ⟨_, _, rfl⟩
  | mkd =>
    cases he
    change env.mkdir = true at ht
    unfold doMkd
    rw [if_pos ht]
    exact ⟨_, _, rfl⟩
  | rmd =>
    cases he
    change env.rmdir = true at ht
    unfold doRmd
    rw [if_pos ht]
    exact ⟨_, _, rfl⟩
  | dele =>
    cases he
    change env.unlink = true at ht
    unfold doDele
    rw [if_pos ht]
    exact ⟨_, _, rfl⟩
  | rnto =>
    cases he
    unfold reaches at ht
    obtain ⟨h1, h2⟩ := (Bool.and_eq_true _ _).mp ht
    obtain ⟨old, ho⟩ := Option.isSome_iff_exists.mp h1
    unfold doRnto
    rw [ho]
    dsimp only
    rw [if_pos h2]
    exact ⟨_, _, rfl⟩
  | size =>
    cases he
    obtain ⟨⟨reg, size⟩, hs⟩ := Option.isSome_iff_exists.mp ht
    unfold doSize
    rw [hs]
    dsimp only
    split
    · exact ⟨_, _, rfl⟩
    · exact ⟨_, _, rfl⟩
  | site => exact doSite_reaches ht he
  | _ => cases ht

theorem thread_reaches {tenv : TEnv} {tid : Tid} {th : Thread} {x : Session} (hth : s.threads tid = some th)
    (hpc : th.pc = .open) (hx : s.heap th.sess = some x) (ht : (absolute x.arg && tenv.openat) = true)
    (he : threadStep tenv tid s = .ok s') : ∃ op, s'.log = s.log ++ [.fs th.sess op] := by
  obtain ⟨h1, h2⟩ := (Bool.and_eq_true _ _).mp ht
  have ho : x.openFile tenv = some () := by
    unfold Session.openFile openatOk
    rw [h1, h2]
    rfl
  have hlog := thread_logs hth he
  rw [seen_of hx] at hlog
  unfold Thread.logs Thread.refused Thread.acts at hlog
  simp only [hpc, ho] at hlog
  cases hk : th.kind with
  | retr =>
    rw [hk] at hlog
    exact ⟨_, hlog⟩
  | stor a =>
    rw [hk] at hlog
    exact ⟨_, hlog⟩

/-- **A step that is not gated** shows in the log before the login. -/
theorem ungated_step (hc : ¬ Gated s l) (hen : enabled s l) (he : exec c s l = .ok s') :
    ¬ Gate s'.log := by
  cases l with
  | command env =>
    unfold Gated at hc
    simp only [not_forall, Option.mem_toList] at hc
    obtain ⟨⟨sid, x, k⟩, hh, hl, ht⟩ := hc
    rw [Bool.not_eq_false] at ht
    obtain ⟨evs, -, -, hrun⟩ := exec_handles_ok hh he
    obtain ⟨op, post, e⟩ := runCmd_reaches ht hrun
    rw [e]
    exact gate_broken hl
  | thread tid env =>
    obtain ⟨th, hth⟩ := Option.ne_none_iff_exists'.mp hen
    unfold Gated at hc
    simp only [not_forall, Option.mem_toList] at hc
    obtain ⟨u, hu, hpc, x, hx, hl, ht⟩ := hc
    cases hth.symm.trans hu
    rw [Bool.not_eq_false] at ht
    obtain ⟨op, e⟩ := thread_reaches hth hpc hx ht he
    rw [e, ← List.append_nil (s.log ++ _)]
    exact gate_broken hl
  | _ => exact absurd trivial hc

/-- **Nobody gets at the file system before a login** in a run of gated steps, and the first step that
is not gated does. -/
theorem gate_kept (h : Reach c Gated s) : Gate s.log ∧
    ∀ l s', enabled s l → exec c s l = .ok s' → (Gate s'.log ↔ Gated s l) := by
  have hg := guarded_reach h
  refine ⟨hg.gate, fun l s' hen he => ⟨fun hl => ?_, fun hc => (exec_guarded hg hc hen he).gate⟩⟩
  by_contra hc
  exact ungated_step hc hen he hl

end

/-- a directory is changed without a login, then a file removed with one -/
def loginRun : List Label :=
  connects ++ sends 5 "CWD d" ++ sends 5 "USER u" ++ sends 5 "PASS p" ++ sends 5 "DELE f"

theorem gate_kept_login : ∃ s, Reach sampleConf Gated s ∧
    .fs 0 (.unlink (ascii "f")) ∈ s.log ∧ Gate s.log := by
  obtain ⟨s, hs, hp⟩ := reach_of_play (p := fun s => decide (.fs 0 (.unlink (ascii "f")) ∈ s.log))
    (sampleReach Gated)
    (show (play sampleConf Gated sampleBoot loginRun).any _ = true by decide +kernel)
  exact ⟨s, hs, of_decide_eq_true hp, (gate_kept hs).1⟩

/-- DELE on a new connection -/
theorem removed_without_login : ¬ ∀ c s, Reach c Runs.Any s → Gate s.log := by
  intro h
  obtain ⟨s, hs, hp⟩ := reach_of_play
    (p := fun s => decide (.fs 0 (.unlink (ascii "f")) ∈ s.log) && !loggedIn s.log 0)
    (sampleReach Runs.Any)
    (show (play sampleConf Runs.Any sampleBoot (connects ++ sends 5 "DELE f")).any _ = true by
      decide +kernel)
  rw [Bool.and_eq_true, decide_eq_true_eq, Bool.not_eq_true'] at hp
  obtain ⟨pre, post, e⟩ := List.append_of_mem hp.1
  have hl := h _ s hs pre _ post e 0 rfl
  rw [e, loggedIn_append hl] at hp
  cases hp.2

end Myftpd
