import Myftpd.Login

/-!
# RNFR and RNTO

RNFR leaves a name in the record and RNTO takes it out again.

* `Pending`     the names that RNFR has left for RNTO, one for each session;
* `RenameLaw`   the answer to RNTO, and what it leaves behind;
* `rename_iff`  the steps that keep the law.
-/

namespace Myftpd
open CMem Server

theorem answeredWith_iff {code : Nat} {s s' : Server} {sid : Sid} {x : Session} : AnsweredWith code s sid x s' ↔
    s.log <+: s'.log ∧ ⟨s.cmdNo, sid, x.ctrlFd, code⟩ ∈ sent (s'.log.drop s.log.length) := by
  constructor
  · rintro ⟨as, text, has, hmem⟩
    rw [has, List.drop_left]
    exact ⟨List.prefix_append _ _, List.mem_filterMap.mpr ⟨_, hmem, rfl⟩⟩
  · rintro ⟨⟨as, has⟩, hmem⟩
    rw [← has, List.drop_left] at hmem
    obtain ⟨a, ha, hr⟩ := List.mem_filterMap.mp hmem
    cases a with
    | reply j fd n code' text =>
      cases n with
      | none => cases hr
      | some n =>
        cases hr
        exact ⟨as, text, has.symm, ha⟩
    | _ => cases hr

instance {code : Nat} {s s' : Server} {sid : Sid} {x : Session} : Decidable (AnsweredWith code s sid x s') :=
  decidable_of_iff _ answeredWith_iff.symm

/-- the argument of the RNFR that a session has sent since its last RNTO, the last one if there are several -/
abbrev Pending : Type := Sid → Option (List UInt8)

/-- An RNTO that is answered 503 does not count. -/
def noteRnfr (g : Pending) (s : Server) (l : Label) (s' : Server) : Pending :=
  match handles s l with
  | some (sid, x, .rnfr) => if AnsweredWith FTP_RNFROK s sid x s' then Function.update g sid (some x.arg) else g
  | some (sid, x, .rnto) => if AnsweredWith FTP_NEEDRNFR s sid x s' then g else Function.update g sid none
  | _ => g

/-- the server, with the names that wait for RNTO -/
abbrev renames (c : Conf) : Runs.System (Server × Pending) Label := (sys c).recording (fun _ => none) noteRnfr

/-- the step has renamed `old` to `new` for the session -/
def Renamed (s s' : Server) (sid : Sid) (old new : List UInt8) : Prop :=
  .fs sid (.rename old new) ∈ s'.log.drop s.log.length

/-- The answer to RNTO of the session `sid` with the record `x`, when `o` is the name that waits: 250 exactly when
there is one and the file has been renamed, 503 exactly when there is none, and any other answer is an error and
nothing has happened to the file system; no name waits afterwards. -/
structure RenameLaw (o : Option (List UInt8)) (s : Server) (sid : Sid) (x : Session) (s' : Server) : Prop where
  ok : AnsweredWith FTP_RENAMEOK s sid x s' ↔ ∃ old, o = some old ∧ Renamed s s' sid old x.arg
  need : AnsweredWith FTP_NEEDRNFR s sid x s' ↔ o = none
  other : ¬ AnsweredWith FTP_RENAMEOK s sid x s' → ¬ AnsweredWith FTP_NEEDRNFR s sid x s' →
    (∃ code, (500 ≤ code ∧ code < 600) ∧ AnsweredWith code s sid x s') ∧ Adds (fun a => a.touches = none) s s'
  cleared : ∀ y, s'.heap sid = some y → y.rnfrName = none

section
variable {c : Conf} {env : Env} {sid j : Sid} {x y : Session} {s s' : Server} {l : Label} {fd : Fd}
  {g : Pending} {h : Cmd} {p : Server × Pending}

/-! ## the handlers -/

theorem answeredWith_of {code : Nat} {as : List Act} (h : s'.log = s.log ++ as) : AnsweredWith code s sid x s' ↔
    ∃ text, .reply sid x.ctrlFd (some s.cmdNo) code text ∈ as := by
  constructor
  · rintro ⟨bs, text, hbs, hmem⟩
    rw [h] at hbs
    rw [← List.append_cancel_left hbs] at hmem
    exact ⟨text, hmem⟩
  · rintro ⟨text, hmem⟩
    exact ⟨as, text, h, hmem⟩

/-- the file that RNTO renames, if the call succeeds -/
def renameCall (env : Env) (sid : Sid) (x : Session) : List Act :=
  (x.rnfrName.filter fun _ => env.rename).toList.map fun old => .fs sid (.rename old x.arg)

theorem rnto_log (env : Env) (sid : Sid) (x : Session) (s : Server) : ∃ text, (doRnto env sid x s).log = s.log ++ (renameCall env sid x ++
    [.reply sid x.ctrlFd (some s.cmdNo) (if x.rnfrName = none then FTP_NEEDRNFR else FTP_RENAMEOK) text]) := by
  unfold doRnto renameCall
  cases x.rnfrName with
  | none => exact ⟨_, rfl⟩
  | some old =>
    refine ⟨ascii "Rename successful.", ?_⟩
    cases env.rename with
    | true => exact List.append_assoc ..
    | false => rfl

theorem mem_renameCall {a : Act} : a ∈ renameCall env sid x ↔
    ∃ old, x.rnfrName = some old ∧ env.rename = true ∧ a = .fs sid (.rename old x.arg) := by
  unfold renameCall
  rw [List.mem_map]
  constructor
  · rintro ⟨old, hold, rfl⟩
    obtain ⟨ho, hr⟩ := Option.filter_eq_some_iff.mp (Option.mem_toList.mp hold)
    exact ⟨old, ho, hr, rfl⟩
  · rintro ⟨old, ho, hr, rfl⟩
    exact ⟨old, Option.mem_toList.mpr (Option.filter_eq_some_iff.mpr ⟨ho, hr⟩), rfl⟩

/-- 503 without a name, and 250 with one whatever `rename` says -/
theorem rnto_answered (code : Nat) : AnsweredWith code s sid x (doRnto env sid x s) ↔
    code = if x.rnfrName = none then FTP_NEEDRNFR else FTP_RENAMEOK := by
  obtain ⟨text, hlog⟩ := rnto_log env sid x s
  rw [answeredWith_of hlog]
  constructor
  · rintro ⟨text', hmem⟩
    rcases List.mem_append.mp hmem with hmem | hmem
    · obtain ⟨old, -, -, e⟩ := mem_renameCall.mp hmem
      cases e
    · cases List.mem_singleton.mp hmem
      rfl
  · rintro rfl
    exact ⟨text, List.mem_append_right _ (List.mem_singleton_self _)⟩

theorem rnto_renamed {old : List UInt8} : Renamed s (doRnto env sid x s) sid old x.arg ↔
    x.rnfrName = some old ∧ env.rename = true := by
  obtain ⟨text, hlog⟩ := rnto_log env sid x s
  unfold Renamed
  rw [hlog, List.drop_left, List.mem_append, mem_renameCall]
  constructor
  · rintro (⟨old', ho, hr, e⟩ | hmem)
    · cases e
      exact ⟨ho, hr⟩
    · cases List.mem_singleton.mp hmem
  · rintro ⟨ho, hr⟩
    exact Or.inl ⟨old, ho, hr, rfl⟩

theorem rnto_cleared (hx : s.heap sid = some x) (hy : (doRnto env sid x s).heap sid = some y) :
    y.rnfrName = none := by
  unfold doRnto at hy
  cases ho : x.rnfrName with
  | none =>
    rw [ho] at hy
    cases hx.symm.trans hy
    exact ho
  | some old =>
    rw [ho] at hy
    cases (put_self _).symm.trans hy
    rfl

/-- **RNTO** keeps the law exactly when the file that it is about to rename can be renamed. -/
theorem rnto_law {m : Main} (hx : s.heap sid = some x) :
    RenameLaw x.rnfrName s sid x (doRnto env sid x (s.goto m)) ↔ (x.rnfrName ≠ none → env.rename = true) := by
  have hne : FTP_RENAMEOK ≠ FTP_NEEDRNFR := by decide
  have hans : ∀ code, AnsweredWith code s sid x (doRnto env sid x (s.goto m)) ↔
      code = if x.rnfrName = none then FTP_NEEDRNFR else FTP_RENAMEOK := rnto_answered (s := s.goto m)
  have hren : ∀ old, Renamed s (doRnto env sid x (s.goto m)) sid old x.arg ↔
      x.rnfrName = some old ∧ env.rename = true := fun old => rnto_renamed (s := s.goto m)
  constructor
  · intro h ho
    have hok : AnsweredWith FTP_RENAMEOK s sid x (doRnto env sid x (s.goto m)) := by
      rw [hans, if_neg ho]
    obtain ⟨old, -, hr⟩ := h.ok.mp hok
    exact ((hren old).mp hr).2
  · intro h
    refine ⟨?_, ?_, ?_, fun y hy => rnto_cleared (s := s.goto m) hx hy⟩
    · rw [hans]
      cases ho : x.rnfrName with
      | none =>
        rw [if_pos rfl]
        exact iff_of_false hne fun ⟨old, e, _⟩ => absurd e nofun
      | some old =>
        rw [if_neg nofun]
        exact iff_of_true rfl ⟨old, rfl, (hren old).mpr ⟨ho, h (by rw [ho]; exact nofun)⟩⟩
    · rw [hans]
      split
      · rename_i ho
        exact iff_of_true rfl ho
      · rename_i ho
        exact iff_of_false hne.symm ho
    · intro h1 h2
      rw [hans] at h1 h2
      split at h2
      · exact absurd rfl h2
      · rename_i ho
        rw [if_neg ho] at h1
        exact absurd rfl h1

/-! ## the name in the record -/

theorem record_rnfr (h1 : h ≠ .rnfr) (h2 : h ≠ .rnto) : (h.record c env x fd).rnfrName = x.rnfrName := by
  have hw : h.Writes x fd (h.record c env x fd) := record_writes
  generalize h.record c env x fd = y at hw
  cases hw with
  | rename o hh => exact absurd hh (not_or.mpr ⟨h1, h2⟩)
  | _ => rfl

theorem noteRnfr_other (h1 : ∀ sid x, handles s l ≠ some (sid, x, .rnfr))
    (h2 : ∀ sid x, handles s l ≠ some (sid, x, .rnto)) : noteRnfr g s l s' = g := by
  unfold noteRnfr
  split
  · rename_i sid x hh
    exact absurd hh (h1 sid x)
  · rename_i sid x hh
    exact absurd hh (h2 sid x)
  · rfl

theorem noteRnfr_rnfr (hh : handles s (.command env) = some (sid, x, .rnfr))
    (he : exec c s (.command env) = .ok s') : noteRnfr g s (.command env) s' = Function.update g sid (some x.arg) := by
  obtain ⟨evs, -, -, hrun⟩ := exec_handles_ok hh he
  cases hrun
  have hacc : AnsweredWith FTP_RNFROK s sid x (doRnfr sid x (s.goto (.events evs))) :=
    ⟨_, _, rfl, List.mem_singleton_self _⟩
  unfold noteRnfr
  rw [hh]
  exact if_pos hacc

theorem noteRnfr_rnto (hh : handles s (.command env) = some (sid, x, .rnto))
    (he : exec c s (.command env) = .ok s') (hg : x.rnfrName = g sid) :
    noteRnfr g s (.command env) s' = Function.update g sid none := by
  obtain ⟨evs, -, hx, hrun⟩ := exec_handles_ok hh he
  cases hrun
  have hneed : AnsweredWith FTP_NEEDRNFR (s.goto (.events evs)) sid x (doRnto env sid x (s.goto (.events evs))) ↔
      _ := rnto_answered FTP_NEEDRNFR
  unfold noteRnfr
  rw [hh]
  dsimp only
  split
  · rename_i h503
    -- answered 503: there was no name
    have ho : x.rnfrName = none := by
      by_contra ho
      have hcode : FTP_NEEDRNFR = _ := hneed.mp h503
      rw [if_neg ho] at hcode
      exact absurd hcode (by decide)
    rw [← hg.symm.trans ho, Function.update_eq_self]
  · rfl

theorem noteRnfr_at (hj : ∀ sid x h, handles s l = some (sid, x, h) → j ≠ sid) : noteRnfr g s l s' j = g j := by
  generalize hr : noteRnfr g s l s' = r
  unfold noteRnfr at hr
  split at hr
  · rename_i sid x hh
    split at hr
    · rw [← hr, Function.update_of_ne (hj _ _ _ hh)]
    · rw [← hr]
  · rename_i sid x hh
    split at hr
    · rw [← hr]
    · rw [← hr, Function.update_of_ne (hj _ _ _ hh)]
  · rw [← hr]

theorem rewritten_rnfr (hx : s.heap j = some x) (hg : x.rnfrName = g j) (he : exec c s l = .ok s') :
    (rewritten c s l j x).rnfrName = noteRnfr g s l s' j := by
  cases l with
  | command env =>
    unfold rewritten
    dsimp only
    cases hh : handles s (.command env) with
    | none =>
      rw [noteRnfr_other (fun sid x e => absurd (hh.symm.trans e) nofun)
        fun sid x e => absurd (hh.symm.trans e) nofun]
      exact hg
    | some r =>
      obtain ⟨sid, z, h⟩ := r
      dsimp only
      have hsid : j = sid → x = z := by
        rintro rfl
        exact Option.some.inj (hx.symm.trans (handles_heap hh))
      by_cases h1 : h = .rnfr
      · subst h1
        rw [noteRnfr_rnfr hh he]
        by_cases hj : j = sid
        · rw [if_pos hj, hj, Function.update_self, hsid hj]
          rfl
        · rw [if_neg hj, Function.update_of_ne hj, hg]
      by_cases h2 : h = .rnto
      · subst h2
        by_cases hj : j = sid
        · cases hsid hj
          subst hj
          rw [noteRnfr_rnto hh he hg, if_pos rfl, Function.update_self]
          rfl
        · rw [if_neg hj, hg, noteRnfr_at fun i z k e => ?_]
          cases hh.symm.trans e
          exact hj
      · rw [noteRnfr_other (fun sid x e => ?_) fun sid x e => ?_]
        · split
          · rw [record_rnfr h1 h2, hg]
          · exact hg
        · cases hh.symm.trans e
          exact h1 rfl
        · cases hh.symm.trans e
          exact h2 rfl
  | _ =>
    rw [noteRnfr_other (by rintro sid z ⟨⟩) (by rintro sid z ⟨⟩), ← hg]
    exact rewritten_field Session.rnfrName (by rintro env ⟨⟩) (fun _ _ => rfl) (fun _ => rfl)
      fun pc => by cases pc <;> rfl

/-- the records hold the names that wait -/
structure Waits (p : Server × Pending) : Prop where
  name : ∀ sid x, p.1.heap sid = some x → x.rnfrName = p.2 sid
  next : ∀ sid, p.1.nextSid ≤ sid → p.2 sid = none

theorem waits_step (hn : s.ledger.Numbered) (hw : Waits (s, g)) (hen : enabled s l)
    (he : exec c s l = .ok s') : Waits (s', noteRnfr g s l s') where
  name := by
    intro j y hy
    obtain ⟨-, ⟨rfl, e⟩ | ⟨-, x, hx, rfl⟩⟩ := exec_record hn hen he hy
    · obtain ⟨ip, ha, rfl⟩ := Option.map_eq_some_iff.mp e
      have hh : ∀ r, handles s l ≠ some r := by
        cases l with
        | acceptOne conn => rintro r ⟨⟩
        | _ => cases ha
      have hnone : g s.nextSid = none := hw.next s.nextSid (Nat.le_refl _)
      show none = noteRnfr g s l s' s.nextSid
      rw [noteRnfr_other (fun _ _ => hh _) fun _ _ => hh _, hnone]
    · have hname : _ = noteRnfr g s l s' j := rewritten_rnfr hx (hw.name j x hx) he
      exact hname
  next := by
    intro j hj
    obtain ⟨op, ho⟩ := exec_step hen he
    have hle : s.nextSid ≤ j := Nat.le_trans ho.step.nextSid_le hj
    show noteRnfr g s l s' j = none
    rw [noteRnfr_at fun sid x h hh e => ?_]
    · exact hw.next j hle
    · have hlt : sid < s.nextSid := hn.sess _ _ (ledger_sess (handles_heap hh))
      exact absurd (Nat.lt_of_lt_of_le hlt hle) (by rw [e]; exact Nat.lt_irrefl sid)

theorem waits_reach (h : Runs.Reach (renames c) Runs.Any p) : Waits p :=
  Runs.Reach.noted (J := fun s => s.ledger.Numbered) (I := Waits) (fun _ h => numbered_reach h)
    (by
      rintro s ⟨fds, -, rfl⟩
      exact ⟨nofun, fun _ _ => rfl⟩)
    (fun _ _ _ _ hn hw _ ht => waits_step hn hw ht.1 ht.2) h

/-- **RNTO keeps the rename protocol**, in every run, exactly when `rename` succeeds or no name waits; and RNTO goes
through, unless its reply meets a closed connection. -/
theorem rename_iff (hr : Runs.Reach (renames c) Runs.Any p)
    (hh : handles p.1 (.command env) = some (sid, x, .rnto)) :
    (env.sigpipe = false → ∃ s', exec c p.1 (.command env) = .ok s') ∧
      ∀ s', exec c p.1 (.command env) = .ok s' →
        (RenameLaw (p.2 sid) p.1 sid x s' ↔ (p.2 sid ≠ none → env.rename = true)) := by
  constructor
  · intro hp
    obtain ⟨evs, -, -, hrun⟩ := exec_handles (c := c) hh
    rw [piped_quiet hp] at hrun
    exact ⟨_, hrun⟩
  · intro s' he
    obtain ⟨evs, -, hx, hrun⟩ := exec_handles_ok hh he
    cases hrun
    rw [← (waits_reach hr).name sid x hx]
    exact rnto_law hx

end

theorem rename_iff_done : ∃ p x s', Runs.Reach (renames sampleConf) Runs.Any p ∧
    handles p.1 (.command sampleEnv) = some (0, x, .rnto) ∧ p.2 0 = some (ascii "a") ∧
    exec sampleConf p.1 (.command sampleEnv) = .ok s' ∧ RenameLaw (p.2 0) p.1 0 x s' := by
  obtain ⟨p, hp, ht⟩ := noted_of_play (c := sampleConf) (D := Runs.Any)
    (t := fun p : Server × Pending => (handles p.1 (.command sampleEnv)).any fun r : Sid × Session × Cmd =>
      decide ((r.1 = 0 ∧ r.2.2 = .rnto) ∧ p.2 0 = some (ascii "a")))
    (sampleNoted (fun _ => none) noteRnfr Runs.Any)
    (by decide +kernel : (playNoted sampleConf noteRnfr Runs.Any (sampleBoot, fun _ => none)
      (connects ++ sends 5 "RNFR a" ++
        [.arrive 5 (ascii "RNTO b" ++ [CR, LF]), .wait [input 5], .dispatch 0 sampleEnv])).any _ = true)
  obtain ⟨⟨sid, x, h⟩, hh, ht⟩ := (Option.any_eq_true _ _).mp ht
  obtain ⟨⟨rfl, rfl⟩, hw⟩ : (sid = 0 ∧ h = .rnto) ∧ p.2 0 = some (ascii "a") := of_decide_eq_true ht
  obtain ⟨hruns, hiff⟩ := rename_iff hp hh
  obtain ⟨s', he⟩ := hruns rfl
  exact ⟨p, x, s', hp, hh, hw, he, (hiff s' he).mpr fun _ => rfl⟩

/-- **A rename that fails** is answered 250. -/
theorem rename_unchecked : ¬ ∀ c p env sid x s', Runs.Reach (renames c) Runs.Any p →
    handles p.1 (.command env) = some (sid, x, .rnto) → exec c p.1 (.command env) = .ok s' →
    RenameLaw (p.2 sid) p.1 sid x s' := by
  intro h
  obtain ⟨p, hp, ht⟩ := noted_of_play (c := sampleConf) (D := Runs.Any)
    (t := fun p : Server × Pending => (handles p.1 (.command { sampleEnv with rename := false })).any
      fun r : Sid × Session × Cmd => decide (r.2.2 = .rnto ∧ r.2.1.rnfrName ≠ none))
    (sampleNoted (fun _ => none) noteRnfr Runs.Any)
    (by decide +kernel : (playNoted sampleConf noteRnfr Runs.Any (sampleBoot, fun _ => none)
      (connects ++ sends 5 "RNFR a" ++
        [.arrive 5 (ascii "RNTO b" ++ [CR, LF]), .wait [input 5], .dispatch 0 sampleEnv])).any _ = true)
  obtain ⟨⟨sid, x, k⟩, hh, ht⟩ := (Option.any_eq_true _ _).mp ht
  obtain ⟨rfl, ho⟩ : k = .rnto ∧ x.rnfrName ≠ none := of_decide_eq_true ht
  obtain ⟨evs, -, hx, hrun⟩ := exec_handles (c := sampleConf) hh
  rw [piped_quiet rfl] at hrun
  have hlaw := h sampleConf p _ sid x _ hp hh hrun
  rw [← (waits_reach hp).name sid x hx] at hlaw
  exact Bool.false_ne_true ((rnto_law hx).mp hlaw ho)

end Myftpd
