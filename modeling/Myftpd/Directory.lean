import Myftpd.Requests
import Myftpd.Paths

/-!
# The directory of a session

PWD, CWD, LIST, RETR and STOR go by the descriptor in the record of the session.  CDUP, MKD, RMD, DELE,
RNTO, SIZE and SITE CHMOD go by the working directory of the process, which all sessions share.

* `OneDirectory`  the next step resolves its paths in the directory that PWD reports;
* `AtHome`        the paths that the handler resolves in the directory of the process lead to the same;
* `one_directory` the states in which the two agree.
-/

namespace Myftpd
open CMem Server

section
variable {δ : Type} (T : Tree δ) (c : Conf)

/-- the relative paths of an entry are resolved in the directory `d` -/
def ResolvedIn (g : Places δ) (d : δ) (a : Act) : Prop :=
  ∀ q ∈ a.paths, absolute q.2 = false → q.1.place g = some d

/-- the session that the step works for -/
def worksFor (s : Server) : Label → Option Sid
  | .command env => (handles s (.command env)).map Prod.fst
  | .thread tid _ => (s.threads tid).map Thread.sess
  | _ => none

def ClimbedTo (s : Server) (l : Label) (s' : Server) : Prop :=
  ∃ sid x, handles s l = some (sid, x, .cdup) ∧ ∃ as text, s'.log = s.log ++ as ∧
    .reply sid x.ctrlFd (some s.cmdNo) FTP_CWDOK text ∈ as

/-- The next step resolves relative paths in the directory that PWD reports for the session, if it has
one, and when it answers CDUP with 250, then PWD reports the parent of that directory. -/
def OneDirectory (p : Server × Places δ) : Prop :=
  ∀ l q, (placed T c).step l p q → ∀ sid x d, worksFor p.1 l = some sid → p.1.heap sid = some x →
    p.2.pwd x = some d → Adds (ResolvedIn p.2 d) p.1 q.1 ∧
      (ClimbedTo p.1 l q.1 → ∀ y, q.1.heap sid = some y → q.2.pwd y = some (T.parent p.1 d))

/-- The paths that the handler resolves in the directory of the process are absolute, or that directory is
`d`, the one of the session; for CDUP it is its own parent. -/
def AtHome (p : Server × Places δ) (d : δ) (x : Session) (k : Cmd) : Prop :=
  (∀ path ∈ processPaths x k, absolute path = false → p.2.cwd = d) ∧ (k = .cdup → T.parent p.1 d = d)

instance [DecidableEq δ] (p : Server × Places δ) (d : δ) (x : Session) (k : Cmd) :
    Decidable (AtHome T p d x k) := inferInstanceAs (Decidable ((∀ path ∈ _, _ → _) ∧ (_ → _)))

end

section
variable {δ : Type} {T : Tree δ} {c : Conf} {g : Places δ} {s s' : Server} {l : Label} {env : Env}
  {sid : Sid} {x y : Session} {d : δ} {k : Cmd} {p : Server × Places δ} {a : Act}

/-! ## what the steps resolve -/

theorem within_resolved (hd : g.pwd x = some d)
    (h : ∀ path ∈ processPaths x k, absolute path = false → g.cwd = d)
    (ha : Within x (processPaths x k) a) : ResolvedIn g d a := by
  intro q hq hrel
  rcases ha q hq with e | ⟨e, hp⟩
  · rw [e]
    exact hd
  · rw [e]
    exact congrArg some (h q.2 hp hrel)

theorem thread_resolved {tenv : TEnv} {th : Thread} (hx : s.heap th.sess = some x)
    (hd : g.pwd x = some d) (ha : FromThread tenv th s a) : ResolvedIn g d a := by
  intro q hq _
  obtain ⟨-, y, hy, e⟩ := ha.path q hq
  cases hx.symm.trans hy
  rw [e]
  exact hd

theorem cdup_stays (hh : handles s (.command env) = some (sid, x, .cdup)) :
    Stays T c g s (.command env) sid x := by
  have hen : enters T c g s (.command env) = none := by
    show (handles s (.command env)).bind _ = none
    rw [hh]
    rfl
  have hclose : closes c s (.command env) = [] := closes_command hh nofun
  unfold Stays
  rw [hen, hclose]
  exact ⟨nofun, nofun⟩

theorem cdup_pwd (hh : handles s (.command env) = some (sid, x, .cdup))
    (he : exec c s (.command env) = .ok s') (hy : s'.heap sid = some y) :
    (moved T c g s (.command env) s').pwd y = g.pwd x := by
  obtain ⟨evs, hm, hx, -⟩ := exec_handles (c := c) hh
  obtain ⟨z, hz, hd, -⟩ := command_handled hm he
  obtain ⟨w, hw, hq⟩ := hd.record y hy
  cases hx.symm.trans hw
  exact pwd_kept hq (cdup_stays hh)

theorem doCdup_log (h : env.chdirUp = true) : (doCdup env sid x s).log = s.log ++
    [.chdirUp, .reply sid x.ctrlFd (some s.cmdNo) FTP_CWDOK
      (ascii "Directory successfully changed.")] := by
  unfold doCdup
  rw [if_pos h]
  exact List.append_assoc ..

theorem command_resolved (hh : handles s (.command env) = some (sid, x, k)) (hd : g.pwd x = some d)
    (h : ∀ path ∈ processPaths x k, absolute path = false → g.cwd = d)
    (he : exec c s (.command env) = .ok s') : Adds (ResolvedIn g d) s s' := by
  obtain ⟨evs, hm, hx, hrun⟩ := exec_handles_ok hh he
  obtain ⟨o, as, hdid, hp⟩ := runCmd_did (s := s.goto (.events evs)) hx hrun
  exact ⟨as, hdid.log, fun a ha => within_resolved hd h (hp.entries a ha).path⟩

/-! ## when they agree -/

theorem oneDirectory_of (h : ∀ env sid x k d, handles p.1 (.command env) = some (sid, x, k) →
    p.2.pwd x = some d → AtHome T p d x k) : OneDirectory T c p := by
  rintro l q ⟨⟨hen, he⟩, hq⟩ sid x d hw hx hd
  cases l with
  | command env =>
    obtain ⟨⟨i, z, k⟩, hh, rfl⟩ := Option.map_eq_some_iff.mp hw
    obtain ⟨evs, -, hz, -⟩ := exec_handles (c := c) hh
    cases hx.symm.trans hz
    obtain ⟨h1, h2⟩ := h env i x k d hh hd
    refine ⟨command_resolved hh hd h1 he, ?_⟩
    rintro ⟨i', x', hh', -⟩ y hy
    cases hh.symm.trans hh'
    rw [hq, h2 rfl, ← hd]
    exact cdup_pwd hh he hy
  | thread tid env =>
    obtain ⟨th, hth, rfl⟩ := Option.map_eq_some_iff.mp hw
    obtain ⟨o, hr⟩ := thread_ran hth he
    refine ⟨hr.log.mono fun a ha => thread_resolved hx hd ha, ?_⟩
    rintro ⟨i', x', hh', -⟩
    cases hh'
  | _ => cases hw

theorem atHome_of (h : OneDirectory T c p) (hh : handles p.1 (.command env) = some (sid, x, k))
    (hd : p.2.pwd x = some d) : AtHome T p d x k := by
  have hh' : handles p.1 (.command sampleEnv) = some (sid, x, k) := hh
  obtain ⟨evs, hm, hx, hrun⟩ := exec_handles (c := c) hh'
  have hw : worksFor p.1 (.command sampleEnv) = some sid :=
    Option.map_eq_some_iff.mpr ⟨(sid, x, k), hh', rfl⟩
  have hstep : ∀ {s'}, runCmd c sampleEnv sid x (p.1.goto (.events evs)) k = .ok s' →
      (placed T c).step (.command sampleEnv) p (s', moved T c p.2 p.1 (.command sampleEnv) s') :=
    fun e => ⟨⟨⟨sid, evs, hm⟩, by rw [hrun, e]; exact piped_quiet rfl⟩, rfl⟩
  refine ⟨fun path hp hrel => ?_, ?_⟩
  · obtain ⟨s', he, hs⟩ := runCmd_process c sid (p.1.goto (.events evs)) hp
    obtain ⟨h1, -⟩ := h _ _ (hstep he) sid x d hw hx hd
    obtain ⟨a, ha, hq⟩ := h1.shows hs
    exact Option.some.inj (ha _ hq hrel)
  · rintro rfl
    have he : runCmd c sampleEnv sid x (p.1.goto (.events evs)) .cdup =
        .ok (doCdup sampleEnv sid x (p.1.goto (.events evs))) := rfl
    obtain ⟨-, h2⟩ := h _ _ (hstep he) sid x d hw hx hd
    have hclimb : ClimbedTo p.1 (.command sampleEnv)
        (doCdup sampleEnv sid x (p.1.goto (.events evs))) :=
      ⟨sid, x, hh', _, _, doCdup_log rfl, List.mem_cons_of_mem _ (List.mem_singleton_self _)⟩
    have hpwd := (h2 hclimb x hx).symm.trans ((cdup_pwd hh' (hrun.trans he) hx).trans hd)
    exact Option.some.inj hpwd

/-- **The commands of a session agree on its directory** in a state unless the command that is handled
takes relative paths to the directory of the process, and that is another one; and CDUP agrees with PWD
only where the parent of the directory is the directory itself. -/
theorem one_directory (T : Tree δ) (c : Conf) (p : Server × Places δ) : OneDirectory T c p ↔
    ∀ env sid x k d, handles p.1 (.command env) = some (sid, x, k) → p.2.pwd x = some d →
      AtHome T p d x k :=
  ⟨fun h _ _ _ _ _ hh hd => atHome_of h hh hd, oneDirectory_of⟩

end

/-- MKD after a login: the directory is made where the server was started, not in the home directory -/
theorem made_elsewhere : ¬ ∀ (δ : Type) (T : Tree δ) c p, Runs.Reach (placed T c) Runs.Any p →
    OneDirectory T c p := by
  intro h
  obtain ⟨p, hp, ht⟩ := noted_of_play (c := sampleConf) (D := Runs.Any)
    (t := fun p : Server × Places Nat => (handles p.1 (.command sampleEnv)).any fun r =>
      (p.2.pwd r.2.1).any fun d => decide (¬ AtHome sampleTree p d r.2.1 r.2.2))
    (sampleNoted sampleTree.start (moved sampleTree sampleConf) Runs.Any)
    (by decide +kernel : (playNoted sampleConf (moved sampleTree sampleConf) Runs.Any
      (sampleBoot, sampleTree.start) (connects ++ sends 5 "USER u" ++ sends 5 "PASS p" ++
        [.arrive 5 (ascii "MKD a" ++ [CR, LF]), .wait [input 5], .dispatch 0 sampleEnv])).any _ = true)
  obtain ⟨⟨sid, x, k⟩, hh, ht⟩ := (Option.any_eq_true _ _).mp ht
  obtain ⟨d, hd, ht⟩ := (Option.any_eq_true _ _).mp ht
  exact of_decide_eq_true ht (atHome_of (h Nat sampleTree sampleConf p hp) hh hd)

end Myftpd
