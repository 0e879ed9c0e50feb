import Myftpd.Fields
import Myftpd.Noted

/-!
# The account that PASS checks

USER leaves a uid in the record, and PASS checks the password of the account with that uid.  A USER that
names no account leaves the uid of an earlier one, and before the first the uid is that of root.

* `Users`      the arguments of the USER lines of a session;
* `uidLeft`    the uid that they leave in the record;
* `Bound`      PASS is answered 230 only with the password of the account that the last USER named;
* `bound_iff`  the states in which it is.
-/

namespace Myftpd
open CMem Server

/-- the arguments of the USER lines that have been handled for each session -/
abbrev Users : Type := Sid → List (List UInt8)

def noteUser (g : Users) (s : Server) (l : Label) (_ : Server) : Users :=
  match handles s l with
  | some (sid, x, .user) => Function.update g sid (g sid ++ [x.arg])
  | _ => g

/-- the server, with the USER lines of its sessions -/
abbrev named (c : Conf) : Runs.System (Server × Users) Label :=
  (sys c).recording (fun _ => []) noteUser

/-- the account that the last USER named -/
def lastUser (c : Conf) (us : List (List UInt8)) : Option Passwd := us.getLast?.bind c.getpwnam

/-- the uid of the last account that a USER named, 0 if none did -/
def uidLeft (c : Conf) (us : List (List UInt8)) : Nat :=
  us.foldl (fun uid a => (c.getpwnam a).elim uid Passwd.uid) 0

/-- the password verifies against the shadow entry of the account -/
def Verifies (c : Conf) (pw : Passwd) (pass : List UInt8) : Prop :=
  ∃ sp, c.getspnam pw.name = some sp ∧ c.crypt pass sp = some sp

/-- If PASS is handled next and answered 230, the last USER of the session named an account, and the
password verifies against its shadow entry. -/
def Bound (c : Conf) (p : Server × Users) : Prop :=
  ∀ env s' sid x, handles p.1 (.command env) = some (sid, x, .pass) →
    exec c p.1 (.command env) = .ok s' → AnsweredWith FTP_LOGINOK p.1 sid x s' →
    ∃ pw, lastUser c (p.2 sid) = some pw ∧ Verifies c pw x.arg

/-- the account with the uid that the USER lines have left does not have the password -/
def Rejected (c : Conf) (us : List (List UInt8)) (pass : List UInt8) : Prop :=
  ∀ pw, c.getpwuid (uidLeft c us) = some pw → ¬ Verifies c pw pass

/-- the account is the one that its uid leads to, as far as the shadow file goes -/
def OwnUid (c : Conf) (pw : Passwd) : Prop :=
  ∀ pw', c.getpwuid pw.uid = some pw' → c.getspnam pw'.name = c.getspnam pw.name

section
variable {c : Conf} {env : Env} {sid j : Sid} {x y : Session} {s s' : Server} {l : Label} {fd : Fd}
  {g : Users} {us : List (List UInt8)} {a : List UInt8} {h : Cmd} {p : Server × Users}

theorem uidLeft_snoc : uidLeft c (us ++ [a]) = (c.getpwnam a).elim (uidLeft c us) Passwd.uid := by
  unfold uidLeft
  rw [List.foldl_append]
  rfl

/-- the uid that is left is that of the account that the last USER named -/
theorem uidLeft_last {pw : Passwd} (hl : lastUser c us = some pw) : uidLeft c us = pw.uid := by
  obtain ⟨a, ha, hpw⟩ := Option.bind_eq_some_iff.mp hl
  obtain ⟨us', rfl⟩ := List.getLast?_eq_some_iff.mp ha
  rw [uidLeft_snoc, hpw]
  rfl

/-! ## the uid in the record -/

theorem record_uid (hu : h ≠ .user) : (h.record c env x fd).uid = x.uid := by
  have hw : h.Writes x fd (h.record c env x fd) := record_writes
  generalize h.record c env x fd = y at hw
  cases hw with
  | user uid => exact absurd rfl hu
  | _ => rfl

theorem noteUser_other (hu : ∀ sid x, handles s l ≠ some (sid, x, .user)) : noteUser g s l s' = g := by
  unfold noteUser
  split
  · rename_i sid x hh
    exact absurd hh (hu sid x)
  · rfl

theorem noteUser_user (hh : handles s l = some (sid, x, .user)) :
    noteUser g s l s' = Function.update g sid (g sid ++ [x.arg]) := by
  unfold noteUser
  rw [hh]

/-- a step leaves the uid that its USER line leaves -/
theorem rewritten_uid (hx : s.heap j = some x) (hg : x.uid = uidLeft c (g j)) :
    (rewritten c s l j x).uid = uidLeft c (noteUser g s l s' j) := by
  cases l with
  | command env =>
    unfold rewritten
    dsimp only
    cases hh : handles s (.command env) with
    | none =>
      rw [noteUser_other fun sid x e => absurd (hh.symm.trans e) nofun]
      exact hg
    | some r =>
      obtain ⟨sid, z, h⟩ := r
      dsimp only
      by_cases hu : h = .user
      · subst hu
        rw [noteUser_user hh]
        by_cases hj : j = sid
        · subst hj
          cases hx.symm.trans (handles_heap hh)
          rw [if_pos rfl, Function.update_self, uidLeft_snoc, ← hg]
          show ((c.getpwnam x.arg).elim x _).uid = _
          cases c.getpwnam x.arg <;> rfl
        · rw [if_neg hj, Function.update_of_ne hj, hg]
      · rw [noteUser_other fun sid x e => ?_]
        · split
          · rw [record_uid hu, hg]
          · exact hg
        · cases hh.symm.trans e
          exact hu rfl
  | _ =>
    rw [noteUser_other (by rintro sid z ⟨⟩), ← hg]
    exact rewritten_field Session.uid (by rintro env ⟨⟩) (fun _ _ => rfl) (fun _ => rfl)
      fun pc => by cases pc <;> rfl

/-- the records hold the uids that the USER lines have left -/
structure Left (c : Conf) (p : Server × Users) : Prop where
  uid : ∀ sid x, p.1.heap sid = some x → x.uid = uidLeft c (p.2 sid)
  next : ∀ sid, p.1.nextSid ≤ sid → p.2 sid = []

theorem left_step (hn : s.ledger.Numbered) (hl : Left c (s, g)) (hen : enabled s l)
    (he : exec c s l = .ok s') : Left c (s', noteUser g s l s') where
  uid := by
    intro j y hy
    obtain ⟨-, ⟨rfl, e⟩ | ⟨-, x, hx, rfl⟩⟩ := exec_record hn hen he hy
    · obtain ⟨ip, ha, rfl⟩ := Option.map_eq_some_iff.mp e
      have hh : ∀ sid x, handles s l ≠ some (sid, x, .user) := by
        cases l with
        | acceptOne conn => rintro sid z ⟨⟩
        | _ => cases ha
      have hnil : g s.nextSid = [] := hl.next s.nextSid (Nat.le_refl _)
      show 0 = uidLeft c (noteUser g s l s' s.nextSid)
      rw [noteUser_other hh, hnil]
      rfl
    · have hu : _ = uidLeft c (noteUser g s l s' j) := rewritten_uid hx (hl.uid j x hx)
      exact hu
  next := by
    intro j hj
    obtain ⟨op, ho⟩ := exec_step hen he
    have hle : s.nextSid ≤ j := Nat.le_trans ho.step.nextSid_le hj
    show noteUser g s l s' j = []
    by_cases hu : ∃ sid x, handles s l = some (sid, x, .user)
    · obtain ⟨sid, x, hh⟩ := hu
      have hlt : sid < s.nextSid := hn.sess _ _ (ledger_sess (handles_heap hh))
      rw [noteUser_user hh, Function.update_of_ne (Nat.ne_of_gt (Nat.lt_of_lt_of_le hlt hle))]
      exact hl.next j hle
    · rw [noteUser_other fun sid x e => hu ⟨sid, x, e⟩]
      exact hl.next j hle

theorem left_reach (h : Runs.Reach (named c) Runs.Any p) : Left c p :=
  Runs.Reach.noted (J := fun s => s.ledger.Numbered) (I := Left c) (fun _ h => numbered_reach h)
    (by
      rintro s ⟨fds, -, rfl⟩
      exact ⟨nofun, fun _ _ => rfl⟩)
    (fun _ _ _ _ hn hl _ ht => left_step hn hl ht.1 ht.2) h

/-! ## the answer to PASS -/

theorem passOk_iff : passOk c x = true ↔ ∃ pw, c.getpwuid x.uid = some pw ∧ Verifies c pw x.arg := by
  unfold passOk shadow Verifies
  constructor
  · intro h
    obtain ⟨sp, hs, hc⟩ := (Option.any_eq_true _ _).mp h
    obtain ⟨pw, hpw, hsp⟩ := Option.bind_eq_some_iff.mp hs
    exact ⟨pw, hpw, sp, hsp, beq_iff_eq.mp hc⟩
  · rintro ⟨pw, hpw, sp, hsp, hc⟩
    rw [hpw, Option.bind_some, hsp]
    exact beq_iff_eq.mpr hc

theorem passOk_crypt (h : passOk c x = true) : cryptNull c x = false := by
  obtain ⟨sp, hs, hc⟩ := (Option.any_eq_true _ _).mp h
  unfold cryptNull
  rw [hs]
  show (c.crypt x.arg sp == none) = false
  rw [beq_iff_eq.mp hc]
  rfl

/-- PASS is answered 230 when the password is right and the home directory can be opened -/
theorem loginOk_iff {evs : List Event} (he : doPass c env sid x (s.goto (.events evs)) = .ok s') :
    AnsweredWith FTP_LOGINOK s sid x s' ↔ passOk c x = true ∧ env.home ≠ none := by
  have hne : FTP_LOGINERR ≠ FTP_LOGINOK := by decide
  unfold doPass at he
  split at he
  · cases he
  · cases hp : passOk c x with
    | false =>
      rw [hp, if_neg Bool.false_ne_true] at he
      cases he
      exact (answeredWith_one rfl).trans ⟨fun e => absurd e hne, fun e => absurd e.1 Bool.false_ne_true⟩
    | true =>
      rw [hp, if_pos rfl] at he
      cases hh : env.home with
      | none =>
        rw [hh] at he
        cases he
        exact (answeredWith_one rfl).trans ⟨fun e => absurd e hne, fun e => absurd rfl e.2⟩
      | some k =>
        rw [hh] at he
        cases he
        exact (answeredWith_one rfl).trans ⟨fun _ => ⟨rfl, nofun⟩, fun _ => rfl⟩

theorem pass_admits (hok : passOk c x = true) (h : handles s (.command sampleEnv) = some (sid, x, .pass)) :
    ∃ s', exec c s (.command sampleEnv) = .ok s' ∧ AnsweredWith FTP_LOGINOK s sid x s' := by
  obtain ⟨evs, -, -, hrun⟩ := exec_handles (c := c) h
  rw [piped_quiet rfl] at hrun
  obtain ⟨s', he⟩ : ∃ s', doPass c sampleEnv sid x (s.goto (.events evs)) = .ok s' := by
    unfold doPass
    rw [if_neg (Bool.eq_false_iff.mp (passOk_crypt hok)), if_pos hok]
    exact ⟨_, rfl⟩
  exact ⟨s', hrun.trans he, (loginOk_iff he).mpr ⟨hok, nofun⟩⟩

/-- **PASS is bound to the named user** in a state unless it is about to check a password that is right for
the account of the uid that the USER lines have left, while the last of them named no account, or one with
another shadow entry and another password. -/
theorem bound_iff (hr : Runs.Reach (named c) Runs.Any p) : Bound c p ↔
    ∀ env sid x, handles p.1 (.command env) = some (sid, x, .pass) → Rejected c (p.2 sid) x.arg ∨
      ∃ pw, lastUser c (p.2 sid) = some pw ∧ (OwnUid c pw ∨ Verifies c pw x.arg) := by
  have hleft := left_reach hr
  constructor
  · intro hb env sid x hh
    by_contra hcon
    obtain ⟨h1, h2⟩ := not_or.mp hcon
    have hh' : handles p.1 (.command sampleEnv) = some (sid, x, .pass) := hh
    obtain ⟨-, -, hx, -⟩ := exec_handles (c := c) hh'
    have hok : passOk c x = true := by
      rw [passOk_iff, hleft.uid sid x hx]
      by_contra hno
      exact h1 fun pw hpw hv => hno ⟨pw, hpw, hv⟩
    obtain ⟨s', he, hans⟩ := pass_admits hok hh'
    obtain ⟨pw, hl, hv⟩ := hb sampleEnv s' sid x hh' he hans
    exact h2 ⟨pw, hl, Or.inr hv⟩
  · intro hc env s' sid x hh he hok
    obtain ⟨evs, -, hx, hrun⟩ := exec_handles_ok hh he
    obtain ⟨pw', hpw', hv⟩ := passOk_iff.mp ((loginOk_iff hrun).mp hok).1
    rw [hleft.uid sid x hx] at hpw'
    rcases hc env sid x hh with h1 | ⟨pw, hl, h2⟩
    · exact absurd hv (h1 pw' hpw')
    · refine ⟨pw, hl, h2.elim (fun ho => ?_) id⟩
      rw [uidLeft_last hl] at hpw'
      obtain ⟨sp, hsp, hcr⟩ := hv
      exact ⟨sp, (ho pw' hpw').symm.trans hsp, hcr⟩

end

/-- PASS with the password of the account that the only USER line has named -/
theorem bound_iff_named : ∃ p, Runs.Reach (named sampleConf) Runs.Any p ∧
    (handles p.1 (.command sampleEnv)).map (fun r => r.2.2) = some .pass ∧ Bound sampleConf p := by
  obtain ⟨p, hp, ht⟩ := noted_of_play (c := sampleConf) (D := Runs.Any)
    (t := fun p : Server × Users => (handles p.1 (.command sampleEnv)).any fun r : Sid × Session × Cmd =>
      decide (r.2.2 = .pass) && (lastUser sampleConf (p.2 r.1)).any fun pw =>
        (sampleConf.getspnam pw.name).any fun sp => decide (sampleConf.crypt r.2.1.arg sp = some sp))
    (sampleNoted (fun _ => []) noteUser Runs.Any)
    (by decide +kernel : (playNoted sampleConf noteUser Runs.Any (sampleBoot, fun _ => [])
      (connects ++ sends 5 "USER u" ++
        [.arrive 5 (ascii "PASS p" ++ [CR, LF]), .wait [input 5], .dispatch 0 sampleEnv])).any _ = true)
  obtain ⟨⟨sid, x, h⟩, hh, ht⟩ := (Option.any_eq_true _ _).mp ht
  obtain ⟨hpass, ht⟩ := Bool.and_eq_true_iff.mp ht
  obtain ⟨pw, hl, ht⟩ := (Option.any_eq_true _ _).mp ht
  obtain ⟨sp, hsp, hc⟩ := (Option.any_eq_true _ _).mp ht
  refine ⟨p, hp, by rw [hh, Option.map_some, of_decide_eq_true hpass], (bound_iff hp).mpr ?_⟩
  intro env sid' x' hh'
  cases hh.symm.trans hh'
  exact Or.inr ⟨pw, hl, Or.inr ⟨sp, hsp, of_decide_eq_true hc⟩⟩

/-- USER with a name that does not exist, after USER with one that does: the password of the first is
answered 230 -/
theorem stale_user : ¬ ∀ c p, Runs.Reach (named c) Runs.Any p → Bound c p := by
  intro h
  obtain ⟨p, hp, ht⟩ := noted_of_play (c := sampleConf) (D := Runs.Any)
    (t := fun p : Server × Users => (handles p.1 (.command sampleEnv)).any fun r : Sid × Session × Cmd =>
      decide (r.2.2 = .pass) && (passOk sampleConf r.2.1 && decide (lastUser sampleConf (p.2 r.1) = none)))
    (sampleNoted (fun _ => []) noteUser Runs.Any)
    (by decide +kernel : (playNoted sampleConf noteUser Runs.Any (sampleBoot, fun _ => [])
      (connects ++ sends 5 "USER u" ++ sends 5 "USER nobody" ++
        [.arrive 5 (ascii "PASS p" ++ [CR, LF]), .wait [input 5], .dispatch 0 sampleEnv])).any _ = true)
  obtain ⟨⟨sid, x, h'⟩, hh, ht⟩ := (Option.any_eq_true _ _).mp ht
  obtain ⟨hpass, ht⟩ := Bool.and_eq_true_iff.mp ht
  obtain ⟨hok, hl⟩ := Bool.and_eq_true_iff.mp ht
  cases of_decide_eq_true hpass
  obtain ⟨s', he, hans⟩ := pass_admits hok hh
  obtain ⟨pw, hl', -⟩ := h sampleConf p hp sampleEnv s' sid x hh he hans
  cases (of_decide_eq_true hl).symm.trans hl'

end Myftpd
