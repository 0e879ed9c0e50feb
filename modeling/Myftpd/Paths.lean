import Myftpd.Refine

/-!
# The paths that the server resolves

A path is resolved against the directory of a session or against the working directory of the process,
and the log says which (`Act.paths`).

* `Adds`            what a step adds to the log;
* `Within`          the paths that a handler may resolve;
* `runCmd_process`  the paths that are resolved against the directory of the process, when every call
                    succeeds.
-/

namespace Myftpd
open CMem Server

/-- the paths of a call that has succeeded, each with what it was resolved against -/
def FsOp.paths : FsOp → List (Base × List UInt8)
  | .chdirTo b path => [(b, path)]
  | .list b => [(b, ascii ".")]
  | .openRead b path => [(b, path)]
  | .create b path => [(b, path)]
  | .mkdir path => [(.process, path)]
  | .rmdir path => [(.process, path)]
  | .unlink path => [(.process, path)]
  | .rename old new => [(.process, old), (.process, new)]
  | .stat path => [(.process, path)]
  | .chmod path _ => [(.process, path)]
  | .truncate => []
  | .send _ => []
  | .write _ => []

def Act.paths : Act → List (Base × List UInt8)
  | .fs _ op => op.paths
  | .chdirUp => [(.process, ascii "..")]
  | _ => []

/-- the session for which something was done in the file system -/
def Act.touches : Act → Option Sid
  | .fs sid _ => some sid
  | _ => none

def chmodFile (x : Session) : Option (List UInt8) :=
  match split100 x.arg with
  | some (cmd, arg) =>
    if cmd = ascii "CHMOD" ∧ arg ≠ [] then
      ((split100 arg).map Prod.snd).filter fun file => decide (file ≠ [])
    else none
  | none => none

/-- the paths that a handler resolves against the directory of the process -/
def processPaths (x : Session) : Cmd → List (List UInt8)
  | .cdup => [ascii ".."]
  | .mkd => [x.arg]
  | .rmd => [x.arg]
  | .dele => [x.arg]
  | .size => [x.arg]
  | .rnto => x.rnfrName.elim [] fun old => [old, x.arg]
  | .site => (chmodFile x).toList
  | _ => []

/-! ## the log after a step -/

/-- the log has grown, and what has been added has the property `P` -/
def Adds (P : Act → Prop) (s s' : Server) : Prop :=
  ∃ as, s'.log = s.log ++ as ∧ ∀ a ∈ as, P a

section
variable {P Q : Act → Prop} {s s' t u : Server} {a : Act}

theorem Adds.of (h : s'.log = s.log) : Adds P s s' :=
  ⟨[], by rw [h, List.append_nil], fun _ h => absurd h List.not_mem_nil⟩

theorem Adds.refl (s : Server) : Adds P s s := .of rfl

theorem Adds.trans (h : Adds P s t) (h' : Adds P t u) : Adds P s u := by
  obtain ⟨as, h1, h2⟩ := h
  obtain ⟨bs, h3, h4⟩ := h'
  refine ⟨as ++ bs, by rw [h3, h1, List.append_assoc], fun a ha => ?_⟩
  exact (List.mem_append.mp ha).elim (h2 a) (h4 a)

theorem Adds.mono (h : Adds P s t) (hpq : ∀ a, P a → Q a) : Adds Q s t := by
  obtain ⟨as, h1, h2⟩ := h
  exact ⟨as, h1, fun a ha => hpq a (h2 a ha)⟩

theorem Adds.emits {as : List Act} (h : ∀ a ∈ as, P a) : Adds P s (s.emits as) := ⟨as, rfl, h⟩

theorem Adds.emit (h : t.log = s.log) (ha : P a) : Adds P s (t.emit a) := by
  refine ⟨[a], ?_, fun b hb => ?_⟩
  · show t.log ++ [a] = _
    rw [h]
  · rw [List.mem_singleton.mp hb]
    exact ha

theorem Adds.drop (h : Adds P s s') : ∀ a ∈ s'.log.drop s.log.length, P a := by
  obtain ⟨as, h1, h2⟩ := h
  rw [h1, List.drop_left]
  exact h2

theorem closeOpt_log (o : Option Fd) : (s.closeOpt o).log = s.log := by cases o <;> rfl

theorem closed_log {sid : Sid} {x : Session} : (closed s sid x).log = s.log := by
  show (((s.close x.ctrlFd).closeOpt x.dataFd).closeOpt x.pasvListenFd).log = _
  rw [closeOpt_log, closeOpt_log]
  rfl

end

/-! ## the handlers -/

/-- the paths of an entry are resolved against the directory of the session, or they are among `ps` and
resolved against that of the process -/
def Within (x : Session) (ps : List (List UInt8)) (a : Act) : Prop :=
  ∀ q ∈ a.paths, q.1 = .dirfd x.dirfd ∨ q.1 = .process ∧ q.2 ∈ ps

section
variable {c : Conf} {env : Env} {sid : Sid} {x : Session} {s s' t : Server} {a : Act}
  {ps : List (List UInt8)}

theorem within_none (h : a.paths = []) : Within x ps a := by
  unfold Within
  rw [h]
  exact fun q hq => absurd hq List.not_mem_nil

theorem within_one {p : List UInt8} (h : a.paths = [(.process, p)]) (hp : p ∈ ps) : Within x ps a := by
  unfold Within
  rw [h]
  intro q hq
  rw [List.mem_singleton.mp hq]
  exact Or.inr ⟨rfl, hp⟩

theorem within_dir {p : List UInt8} (h : a.paths = [(.dirfd x.dirfd, p)]) : Within x ps a := by
  unfold Within
  rw [h]
  intro q hq
  rw [List.mem_singleton.mp hq]
  exact Or.inl rfl

theorem chmodFile_eq {cmd arg perm file : List UInt8} (h : split100 x.arg = some (cmd, arg))
    (hc : cmd = ascii "CHMOD") (ha : arg ≠ []) (h' : split100 arg = some (perm, file))
    (hf : file ≠ []) : chmodFile x = some file := by
  unfold chmodFile
  rw [h]
  dsimp only
  rw [if_pos ⟨hc, ha⟩, h', Option.map_some, Option.filter_some]
  exact if_pos (decide_eq_true hf)

/-! ## a handler whose calls succeed -/

/-- the log has grown by an entry with this path -/
def Shows (s s' : Server) (q : Base × List UInt8) : Prop :=
  ∃ as, s'.log = s.log ++ as ∧ ∃ a ∈ as, q ∈ a.paths

theorem Adds.shows {P : Act → Prop} {q : Base × List UInt8} (h : Adds P s s') (h' : Shows s s' q) :
    ∃ a, P a ∧ q ∈ a.paths := by
  obtain ⟨as, e, hP⟩ := h
  obtain ⟨bs, e', a, ha, hq⟩ := h'
  rw [e] at e'
  rw [← List.append_cancel_left e'] at ha
  exact ⟨a, hP a ha, hq⟩

theorem shows_answer {p : List UInt8} (h : t.log = s.log ++ [a]) (hq : (Base.process, p) ∈ a.paths)
    (b : Act) : Shows s (t.emit b) (.process, p) := by
  refine ⟨[a] ++ [b], ?_, a, List.mem_cons_self, hq⟩
  show t.log ++ [b] = _
  rw [h, List.append_assoc]

theorem doSite_process {p : List UInt8} (hp : p ∈ processPaths x .site) :
    ∃ s', doSite c sampleEnv sid x s = .ok s' ∧ Shows s s' (.process, p) := by
  have hf : chmodFile x = some p := Option.mem_toList.mp hp
  unfold chmodFile at hf
  unfold doSite
  split at hf
  · rename_i cmd arg hs
    rw [hs]
    dsimp only
    split at hf
    · rename_i hc
      rw [if_pos hc.1]
      unfold doSiteChmod
      rw [if_neg hc.2]
      obtain ⟨hf, hne⟩ := Option.filter_eq_some_iff.mp hf
      obtain ⟨⟨perm, file⟩, hs', rfl⟩ := Option.map_eq_some_iff.mp hf
      rw [hs']
      dsimp only
      rw [if_neg (of_decide_eq_true hne)]
      exact ⟨_, rfl, shows_answer rfl (List.mem_singleton_self _) _⟩
    · cases hf
  · cases hf

theorem doRnto_process {p : List UInt8} (hp : p ∈ processPaths x .rnto) :
    Shows s (doRnto sampleEnv sid x s) (.process, p) := by
  unfold doRnto
  unfold processPaths at hp
  cases ho : x.rnfrName with
  | none =>
    rw [ho] at hp
    cases hp
  | some old =>
    rw [ho] at hp
    have hq : (Base.process, p) ∈ (Act.fs sid (.rename old x.arg)).paths :=
      List.mem_map_of_mem (f := fun p => (Base.process, p)) hp
    exact shows_answer rfl hq _

/-- **The paths that are resolved against the directory of the process** show in the log when every call
of the handler succeeds. -/
theorem runCmd_process {k : Cmd} {p : List UInt8} (c : Conf) (sid : Sid) (s : Server)
    (hp : p ∈ processPaths x k) :
    ∃ s', runCmd c sampleEnv sid x s k = .ok s' ∧ Shows s s' (.process, p) := by
  have hone : ∀ {a b : List UInt8}, a ∈ [b] → (Base.process, a) ∈ [(Base.process, b)] := fun h => by
    rw [List.mem_singleton.mp h]
    exact List.mem_singleton_self _
  cases k with
  | cdup => exact ⟨_, rfl, shows_answer rfl (hone hp) _⟩
  | mkd => exact ⟨_, rfl, shows_answer rfl (hone hp) _⟩
  | rmd => exact ⟨_, rfl, shows_answer rfl (hone hp) _⟩
  | dele => exact ⟨_, rfl, shows_answer rfl (hone hp) _⟩
  | size => exact ⟨_, rfl, shows_answer rfl (hone hp) _⟩
  | rnto => exact ⟨_, rfl, doRnto_process hp⟩
  | site => exact doSite_process hp
  | _ => cases hp

end

end Myftpd
