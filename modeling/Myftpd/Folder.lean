import Myftpd.Fields
import Myftpd.Descs

/-!
# The descriptor of the directory

PASS and CWD put into the record what `open` gives them, and relative paths are resolved against it.

* `turns`     the session that PASS or CWD turns to something else, and what that is;
* `DirOk`     `dirfd` is -1 or refers to a directory;
* `dirOk_iff` the steps that keep it so.
-/

namespace Myftpd
open CMem Server Matching

def Desc.isDir : Desc → Bool
  | .cwd _ .dir => true
  | _ => false

/-- what the handler turns the session to; `some none`: PASS has failed to open the home directory -/
def Cmd.turns (c : Conf) (env : Env) (x : Session) : Cmd → Option (Option FKind)
  | .pass => if passOk c x = true then some env.home else none
  | .cwd => (openatOk x.dirfd x.arg env.openat).map some
  | _ => none

/-- the session whose `dirfd` is written in the step, and what it refers to afterwards -/
def turns (c : Conf) (s : Server) : Label → Option (Sid × Option FKind)
  | .command env => (handles s (.command env)).bind fun r => (r.2.2.turns c env r.2.1).map fun o => (r.1, o)
  | _ => none

/-- the directory of every session is a directory -/
def DirOk (s : Server) : Prop :=
  ∀ sid x fd, s.heap sid = some x → x.dirfd = some fd → (s.fds.get fd).any Desc.isDir = true

/-- PASS and CWD open a directory, and a step that closes the directory of a session ends the session, or turns
it to another one. -/
def KeepsDir (c : Conf) (s : Server) (l : Label) : Prop :=
  (∀ r ∈ (turns c s l).toList, ∀ k ∈ r.2.toList, k = .dir) ∧
    ∀ fd ∈ closes c s l, ∀ sid ∈ List.range s.nextSid, (s.heap sid).bind Session.dirfd = some fd →
      ends c s l = some sid ∨ (turns c s l).map Prod.fst = some sid

instance (c : Conf) (s : Server) (l : Label) : Decidable (KeepsDir c s l) :=
  inferInstanceAs (Decidable ((∀ r ∈ _, _) ∧ _))

section
variable {c : Conf} {env : Env} {sid j : Sid} {x y : Session} {s s' : Server} {l : Label} {fd : Fd}
  {h : Cmd} {o : Option FKind} {k : FKind}

/-! ## what is written -/

theorem record_turns : (h.record c env x fd).dirfd =
    (h.turns c env x).elim x.dirfd fun o => o.map fun _ => fd := by
  unfold Cmd.record Cmd.turns
  cases h with
  | pass =>
    dsimp only
    split
    · rfl
    · rfl
  | cwd =>
    dsimp only
    cases openatOk x.dirfd x.arg env.openat with
    | none => rfl
    | some k => rfl
  | user =>
    show ((c.getpwnam x.arg).elim x _).dirfd = x.dirfd
    cases c.getpwnam x.arg <;> rfl
  | type =>
    dsimp only
    split
    · rfl
    · split <;> rfl
  | list => dsimp only; split <;> rfl
  | _ => rfl

theorem turns_handles (ht : turns c s l = some (sid, o)) :
    ∃ env x h, l = .command env ∧ handles s l = some (sid, x, h) ∧ h.turns c env x = some o := by
  cases l with
  | command env =>
    obtain ⟨⟨i, x, h⟩, hh, hb⟩ := Option.bind_eq_some_iff.mp (ht : (handles s (.command env)).bind _ = _)
    obtain ⟨o', ho, e⟩ := Option.map_eq_some_iff.mp hb
    cases e
    exact ⟨env, x, h, rfl, hh, ho⟩
  | _ => cases ht

theorem rewritten_turned (ht : turns c s l = some (sid, o)) (hx : s.heap sid = some x) :
    (rewritten c s l sid x).dirfd = o.map fun _ => s.fds.lowest := by
  obtain ⟨env, z, h, rfl, hh, ho⟩ := turns_handles ht
  cases hx.symm.trans (handles_heap hh)
  rw [rewritten_command hh, if_pos rfl, record_turns, ho]
  rfl

theorem rewritten_kept (ht : (turns c s l).map Prod.fst ≠ some j) (hx : s.heap j = some x) :
    (rewritten c s l j x).dirfd = x.dirfd := by
  cases l with
  | command env =>
    cases hh : handles s (.command env) with
    | none =>
      unfold rewritten
      simp only [hh]
    | some r =>
      obtain ⟨sid, z, h⟩ := r
      rw [rewritten_command hh]
      by_cases hj : j = sid
      · subst hj
        cases hx.symm.trans (handles_heap hh)
        rw [if_pos rfl, record_turns]
        cases ho : h.turns c env x with
        | none => rfl
        | some o =>
          refine absurd ?_ ht
          show ((handles s (.command env)).bind _).map Prod.fst = some j
          rw [hh, Option.bind_some, ho]
          rfl
      · rw [if_neg hj]
  | _ => exact rewritten_field Session.dirfd (by rintro env ⟨⟩) (fun _ _ => rfl) (fun _ => rfl) (record_dirfd · x)

theorem turning_ends (ht : turns c s l = some (sid, o)) : ends c s l = none := by
  obtain ⟨env, x, h, rfl, hh, ho⟩ := turns_handles ht
  have hq : h ≠ .quit := by
    rintro rfl
    cases ho
  rw [ends_command hh, if_neg hq]

/-- what has been opened stands under the number that was free, unless it has been closed at once -/
theorem turned_desc (hen : enabled s l) (he : exec c s l = .ok s') (ht : turns c s l = some (sid, some k))
    (hx : s.heap sid = some x) (hfree : x.dirfd ≠ some s.fds.lowest) :
    s'.fds.get s.fds.lowest = some (.cwd sid k) := by
  obtain ⟨env, z, h, rfl, hh, ho⟩ := turns_handles ht
  cases hx.symm.trans (handles_heap hh)
  have hends : ends c s (.command env) = none := turning_ends ht
  rw [loop_fds hen he (by rintro tid tenv ⟨⟩)]
  unfold fdsAfter
  simp only [hends, hh, Option.elim_some]
  unfold Cmd.turns at ho
  unfold Cmd.fds
  cases h with
  | pass =>
    dsimp only at ho ⊢
    split at ho
    · rename_i hp
      rw [if_pos hp, Option.some.inj ho, Option.elim_some, Function.update_self]
    · cases ho
  | cwd =>
    dsimp only at ho ⊢
    obtain ⟨k', hk, e⟩ := Option.map_eq_some_iff.mp ho
    cases e
    rw [hk, Option.elim_some, shut_update hfree, Function.update_self]
  | _ => cases ho

/-! ## the steps -/

theorem dirOk_of (h : DirOk s) (hx : s.heap sid = some x) (hd : x.dirfd = some fd) :
    ∃ d, s.fds.get fd = some d ∧ d.isDir = true := (Option.any_eq_true _ _).mp (h sid x fd hx hd)

/-- the lowest free number is not that of a directory -/
theorem dirOk_free (h : DirOk s) (hx : s.heap sid = some x) : x.dirfd ≠ some s.fds.lowest := by
  intro e
  obtain ⟨d, hd, -⟩ := dirOk_of h hx e
  exact absurd (s.fds.lowest_none.symm.trans hd) nofun

variable (hn : s.ledger.Numbered) (hen : enabled s l) (he : exec c s l = .ok s')
include hn hen he

theorem dirOk_kept (h : DirOk s) (hk : KeepsDir c s l) : DirOk s' := by
  intro sid y fd hy hd
  obtain ⟨hends, ⟨-, ha⟩ | ⟨-, x, hx, rfl⟩⟩ := exec_record hn hen he hy
  · -- a new session has no directory
    obtain ⟨ip, -, rfl⟩ := Option.map_eq_some_iff.mp ha
    cases hd
  by_cases ht : (turns c s l).map Prod.fst = some sid
  · obtain ⟨⟨i, o⟩, ht', e⟩ := Option.map_eq_some_iff.mp ht
    obtain rfl : i = sid := e
    replace ht := ht'
    rw [rewritten_turned ht hx] at hd
    obtain ⟨k, rfl, rfl⟩ := Option.map_eq_some_iff.mp hd
    have hdir : k = .dir := hk.1 _ (Option.mem_toList.mpr ht) k (List.mem_singleton_self k)
    rw [turned_desc hen he ht hx (dirOk_free h hx), hdir]
    rfl
  · rw [rewritten_kept ht hx] at hd
    obtain ⟨d, hget, hdir⟩ := dirOk_of h hx hd
    obtain ⟨op, ho⟩ := exec_step hen he
    have hnot : fd ∉ op.closes s.ledger := by
      intro hc
      rw [ho.closesEq] at hc
      have hlive : sid ∈ List.range s.nextSid := List.mem_range.mpr (hn.sess _ _ (ledger_sess hx))
      rcases hk.2 fd hc sid hlive (by rw [hx]; exact hd) with e | e
      · exact hends e
      · exact ht e
    have hsame : s'.fds.get fd = s.fds.get fd := by
      rcases ho.step.desc fd with e | e | e
      · exact e
      · exact absurd (e.symm.trans hget) nofun
      · exact absurd e hnot
    rw [hsame, hget]
    exact hdir

theorem dirOk_only (h : DirOk s) (h' : DirOk s') : KeepsDir c s l := by
  constructor
  · rintro ⟨sid, o⟩ ht k hk
    rw [Option.mem_toList] at ht hk
    cases hk
    obtain ⟨env, x, i, rfl, hh, ho⟩ := turns_handles ht
    have hx : s.heap sid = some x := handles_heap hh
    have hends : ends c s (.command env) ≠ some sid := by
      rw [turning_ends ht]
      exact Option.some_ne_none sid ∘ Eq.symm
    have hy : s'.heap sid = some (rewritten c s (.command env) sid x) := exec_stays hn hen he hx hends
    obtain ⟨d, hd, hdir⟩ := dirOk_of h' hy (rewritten_turned ht hx)
    rw [turned_desc hen he ht hx (dirOk_free h hx)] at hd
    cases hd
    cases k with
    | dir => rfl
    | _ => cases hdir
  · intro fd hc sid _ hd
    obtain ⟨x, hx, hd⟩ := Option.bind_eq_some_iff.mp hd
    by_contra hno
    rw [not_or] at hno
    obtain ⟨op, ho⟩ := exec_step hen he
    have hy : s'.heap sid = some (rewritten c s l sid x) := exec_stays hn hen he hx hno.1
    obtain ⟨d, hget, -⟩ := dirOk_of h' hy ((rewritten_kept hno.2 hx).trans hd)
    have hclosed : s'.ledger.desc fd = none := (ho.step.closed (by rw [ho.closesEq]; exact hc)).1
    exact absurd (hclosed.symm.trans hget) nofun

omit hn hen he in
/-- **The directory of every session is a directory**, in every run whose steps open directories for PASS and CWD
and close the directory of nobody else; any other step breaks it. -/
theorem dirOk_iff (hr : Reach c (KeepsDir c) s) :
    DirOk s ∧ ∀ l s', (sys c).step l s s' → (DirOk s' ↔ KeepsDir c s l) := by
  have hok : DirOk s := by
    refine Runs.Reach.inv_with (J := fun s => s.ledger.Numbered) (I := DirOk)
      (fun s hs => numbered_reach hs) ?_ ?_ hr
    · rintro s ⟨fds, -, rfl⟩ sid x fd hx
      cases hx
    · intro s l s' hn hi hk ht
      exact dirOk_kept hn ht.1 ht.2 hi hk
  refine ⟨hok, fun l s' ht => ⟨fun h' => ?_, fun hk => ?_⟩⟩
  · exact dirOk_only (numbered_reach hr) ht.1 ht.2 hok h'
  · exact dirOk_kept (numbered_reach hr) ht.1 ht.2 hok hk

end

def folderRun : List Label := connects ++ sends 5 "USER u" ++ sends 5 "PASS p" ++ sends 5 "CWD d"

/-- after them the next step keeps the directory if it opens and closes as it should -/
theorem dirOk_iff_turned : ∃ s, Reach sampleConf (KeepsDir sampleConf) s ∧
    (s.heap 0).bind Session.dirfd ≠ none ∧
      (DirOk s ∧ ∀ l s', (sys sampleConf).step l s s' → (DirOk s' ↔ KeepsDir sampleConf s l)) := by
  obtain ⟨s, hs, hp⟩ := reach_of_play (p := fun s => decide ((s.heap 0).bind Session.dirfd ≠ none))
    (sampleReach (KeepsDir sampleConf))
    (by decide +kernel : (play sampleConf (KeepsDir sampleConf) sampleBoot folderRun).any _ = true)
  exact ⟨s, hs, of_decide_eq_true hp, dirOk_iff hs⟩

/-- **CWD to a regular file** is accepted, and the file becomes the directory of the session. -/
theorem cwd_into_file : ¬ ∀ c s, Reach c Runs.Any s → DirOk s := by
  intro h
  obtain ⟨s, hs, hp⟩ := reach_of_play
    (p := fun s => (s.heap 0).any fun x => x.dirfd.any fun fd => decide (s.fds.get fd = some (.cwd 0 .reg)))
    (sampleReach Runs.Any)
    (by decide +kernel : (play sampleConf Runs.Any sampleBoot
      (connects ++ sends 5 "USER u" ++ sends 5 "PASS p" ++
        [.arrive 5 (ascii "CWD f" ++ [CR, LF]), .wait [input 5], .dispatch 0 sampleEnv,
          .command { sampleEnv with openat := some .reg }])).any _ = true)
  obtain ⟨x, hx, hp⟩ := (Option.any_eq_true _ _).mp hp
  obtain ⟨fd, hfd, hp⟩ := (Option.any_eq_true _ _).mp hp
  have hdir := h sampleConf s hs 0 x fd hx hfd
  rw [of_decide_eq_true hp] at hdir
  cases hdir

end Myftpd
