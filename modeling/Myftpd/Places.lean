import Myftpd.Worked
import Myftpd.Lib.History

/-!
# The directories

The model of the server knows the numbers of descriptors, not the directories behind them.  `Places`
keeps them along a run: the directory of every descriptor that PASS or CWD has opened and nothing has closed, and the
working directory of the process, which CDUP changes.  The file system is a parameter (`Tree`).

* `Places.pwd`  the directory that PWD reports;
* `placed`      the directories after a step;
* `pwd_kept`    the steps that leave the directory of a session alone.
-/

namespace Myftpd
open CMem Server

/-- The directories of the file system; `origin` is the one that the server is started in.  Where a path
leads may change in the course of time. -/
structure Tree (δ : Type) where
  origin : δ
  home : List UInt8 → δ
  walk : Server → δ → List UInt8 → δ
  parent : Server → δ → δ

/-- the directories that descriptors refer to, and the working directory of the process -/
structure Places (δ : Type) where
  dir : Fd → Option δ
  cwd : δ

section
variable {δ : Type} (T : Tree δ) (c : Conf) (g : Places δ)

def Places.pwd (x : Session) : Option δ := x.dirfd.bind g.dir

/-- the directory that a relative path is resolved in -/
def Base.place : Base → Option δ
  | .dirfd o => o.bind g.dir
  | .process => some g.cwd

/-- `pw->pw_dir` of the account -/
def homeOf (x : Session) : List UInt8 := (c.getpwuid x.uid).elim [] Passwd.dir

/-- the directory that a handler turns the session to, if it does; without a home directory PASS leaves
the session without one -/
def Cmd.enters (env : Env) (x : Session) (s : Server) : Cmd → Option (Option δ)
  | .pass => if passOk c x = true then some (env.home.map fun _ => T.home (homeOf c x)) else none
  | .cwd => (openatOk x.dirfd x.arg env.openat).map fun _ =>
      some (T.walk s ((g.pwd x).getD g.cwd) x.arg)
  | _ => none

/-- the session that is turned to another directory in the step, and the directory -/
def enters (s : Server) : Label → Option (Sid × Option δ)
  | .command env => (handles s (.command env)).bind fun p =>
      (p.2.2.enters T c g env p.2.1 s).map fun o => (p.1, o)
  | _ => none

/-- CDUP changes the directory of the process -/
def climbs (s : Server) : Label → Bool
  | .command env =>
    match handles s (.command env) with
    | some (_, _, .cdup) => env.chdirUp
    | _ => false
  | _ => false

/-- the directories after the step; CWD opens the new one before it closes the old one -/
def moved (s : Server) (l : Label) (_ : Server) : Places δ where
  dir := fun fd => if fd ∈ closes c s l then none else
    match enters T c g s l with
    | some (_, some d) => Function.update g.dir s.fds.lowest (some d) fd
    | _ => g.dir fd
  cwd := if climbs s l = true then T.parent s g.cwd else g.cwd

def Tree.start : Places δ := ⟨fun _ => none, T.origin⟩

abbrev placed : Runs.System (Server × Places δ) Label := (sys c).recording T.start (moved T c)

/-- the number in `dirfd` of the session `j` after the step -/
def turned (s : Server) (l : Label) (j : Sid) (x : Session) : Option Fd :=
  match enters T c g s l with
  | some (sid, o) => if j = sid then o.map fun _ => s.fds.lowest else x.dirfd
  | none => x.dirfd

/-- The step leaves the directory of the session `j` alone: it does not turn the session itself to
another directory, opens no other directory under the number that the session has, and does not close it. -/
def Stays (s : Server) (l : Label) (j : Sid) (x : Session) : Prop :=
  (∀ p ∈ (enters T c g s l).toList, (p.1 = j → p.2 = g.pwd x) ∧
    (p.1 ≠ j → ∀ d ∈ p.2.toList, x.dirfd = some s.fds.lowest → g.dir s.fds.lowest = some d)) ∧
  ∀ fd ∈ closes c s l, turned T c g s l j x = some fd → g.pwd x = none

instance [DecidableEq δ] (s : Server) (l : Label) (j : Sid) (x : Session) :
    Decidable (Stays T c g s l j x) := inferInstanceAs (Decidable ((∀ p ∈ _, _) ∧ ∀ fd ∈ _, _ → _))

end

section
variable {δ : Type} {T : Tree δ} {c : Conf} {g : Places δ} {s s' : Server} {l : Label} {j : Sid}
  {x y : Session} {q : Params}

theorem params_dirfd (env : Env) (k : Cmd) : (k.params c env x s.fds.lowest q).dirfd =
    match k.enters T c g env x s with
    | some o => o.map fun _ => s.fds.lowest
    | none => q.dirfd := by
  unfold Cmd.params Cmd.enters
  cases k with
  | pass =>
    dsimp only
    by_cases hp : passOk c x = true
    · simp only [if_pos hp, Option.map_map]
      rfl
    · simp only [if_neg hp]
  | cwd =>
    dsimp only
    cases openatOk x.dirfd x.arg env.openat with
    | none => rfl
    | some k => rfl
  | list =>
    dsimp only
    split <;> rfl
  | _ => rfl

theorem revised_dirfd (hq : q.dirfd = x.dirfd) : (revised c s l j q).dirfd = turned T c g s l j x := by
  unfold turned
  rw [← hq]
  cases l with
  | command env =>
    unfold revised enters
    dsimp only
    cases handles s (.command env) with
    | none => rfl
    | some p =>
      obtain ⟨sid, y, k⟩ := p
      simp only [Option.bind_some]
      have hk := params_dirfd (T := T) (c := c) (g := g) (x := y) (s := s) (q := q) env k
      cases hen : k.enters T c g env y s with
      | none =>
        rw [hen] at hk
        simp only [Option.map_none]
        split
        · exact hk
        · rfl
      | some o =>
        rw [hen] at hk
        simp only [Option.map_some]
        split
        · exact hk
        · rfl
  | dispatch now env =>
    show (revised c s (.dispatch now env) j q).dirfd = q.dirfd
    unfold revised
    dsimp only
    split
    · split <;> rfl
    · split <;> rfl
  | thread tid env =>
    show (revised c s (.thread tid env) j q).dirfd = q.dirfd
    unfold revised
    dsimp only
    split
    · rename_i th _
      split
      · cases th.pc <;> rfl
      · rfl
    · rfl
  | _ => rfl

/-- **The directory of a session** after a step that leaves it alone. -/
theorem pwd_kept (hq : y.params = revised c s l j x.params) (h : Stays T c g s l j x) :
    (moved T c g s l s').pwd y = g.pwd x := by
  have hdir : y.dirfd = turned T c g s l j x := (congrArg Params.dirfd hq).trans (revised_dirfd rfl)
  obtain ⟨hturn, hclose⟩ := h
  rw [Places.pwd, hdir]
  by_cases hc : ∃ fd ∈ closes c s l, turned T c g s l j x = some fd
  · obtain ⟨fd, hfd, he⟩ := hc
    rw [hclose fd hfd he, he]
    exact if_pos hfd
  · have hopen : ∀ fd, turned T c g s l j x = some fd → (moved T c g s l s').dir fd =
        match enters T c g s l with
        | some (_, some d) => Function.update g.dir s.fds.lowest (some d) fd
        | _ => g.dir fd := fun fd he => if_neg fun hfd => hc ⟨fd, hfd, he⟩
    rw [Option.bind_congr hopen]
    unfold turned
    cases he : enters T c g s l with
    | none => rfl
    | some p =>
      obtain ⟨sid, o⟩ := p
      obtain ⟨h1, h2⟩ := hturn (sid, o) (by rw [he]; exact List.mem_singleton_self _)
      dsimp only at h1 h2 ⊢
      by_cases hj : j = sid
      · rw [if_pos hj, ← h1 hj.symm]
        cases o with
        | none => rfl
        | some d => exact Function.update_self ..
      · rw [if_neg hj]
        cases o with
        | none => rfl
        | some d =>
          show x.dirfd.bind (Function.update g.dir s.fds.lowest (some d)) = x.dirfd.bind g.dir
          cases hd : x.dirfd with
          | none => rfl
          | some fd =>
            show Function.update g.dir s.fds.lowest (some d) fd = g.dir fd
            rw [Function.update_apply]
            split
            · rename_i e
              rw [e, h2 (fun e' => hj e'.symm) d (List.mem_singleton_self d) (by rw [hd, e])]
            · rfl

end

end Myftpd
