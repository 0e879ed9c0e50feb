import Myftpd.Handlers
import Myftpd.Stages

/-!
# What a transfer takes from the record of its session

A transfer thread works with four fields of a record that the main loop keeps rewriting: the argument
of the last line, the directory, the restart position and the data connection (`Params`).

* `reads`, `accepts`, `starts`  the steps of the main loop that matter to a transfer;
* `command_handled`             what the command step does to the four fields and to the threads.
-/

namespace Myftpd
open CMem Server

/-! ## the steps -/

/-- the type of the descriptor that the step reads from, and its session -/
def readsFrom (c : Conf) (s : Server) : Label → Option (FdType × Sid)
  | .dispatch _ _ =>
    match s.main with
    | .events (ev :: _) =>
      match s.sessinfo ev.fd with
      | ⟨some f, some sid⟩ => if f.fd ≠ c.listenfd ∧ ev.epollin = true then some (f.type, sid) else none
      | _ => none
    | _ => none
  | _ => none

/-- the control line that the step reads: its session, the command and the argument -/
def reads (c : Conf) (s : Server) (l : Label) : Option (Sid × List UInt8 × List UInt8) :=
  match readsFrom c s l with
  | some (.ctrl, sid) => (s.heap sid).bind fun x =>
    match ctrlRead (s.sock x.ctrlFd) with
    | .ok (some (m, _)) => (parseCmdline m).map fun p => (sid, p)
    | _ => none
  | _ => none

/-- the session for which the step accepts a data connection -/
def accepts (c : Conf) (s : Server) (l : Label) : Option Sid :=
  match readsFrom c s l, l with
  | some (type, sid), .dispatch _ env => if type ≠ .ctrl ∧ env.accept = true then some sid else none
  | _, _ => none

/-- the transfer thread that the step starts: its session, the record and the routine -/
def starts (s : Server) : Label → Option (Sid × Session × Kind)
  | .command env => (handles s (.command env)).bind fun p =>
      (p.2.2.starts env p.2.1).map fun k => (p.1, p.2.1, k)
  | _ => none

/-- the four fields after a stage of a thread -/
def Pc.params (q : Params) : Pc → Params
  | .clear => { q with restartPos := 0 }
  | .setData => { q with dataFd := none }
  | _ => q

/-- the four fields of the record of `j` after the step, when they were `q` before -/
def revised (c : Conf) (s : Server) (l : Label) (j : Sid) (q : Params) : Params :=
  match l with
  | .dispatch now env =>
    match reads c s (.dispatch now env) with
    | some (sid, _, arg) => if j = sid then { q with arg := arg } else q
    | none => if accepts c s (.dispatch now env) = some j then { q with dataFd := some s.fds.lowest } else q
  | .command env =>
    match handles s (.command env) with
    | some (sid, x, h) => if j = sid then h.params c env x s.fds.lowest q else q
    | none => q
  | .thread tid _ =>
    match s.threads tid with
    | some th => if j = th.sess then th.pc.params q else q
    | none => q
  | _ => q

/-! ## the handlers -/

/-- What a handler does for the session `sid`: `f` is its effect on the four fields, `k` the transfer
that it starts. -/
structure Handled (f : Params → Params) (k : Option Kind) (sid : Sid) (s s' : Server) : Prop where
  others : ∀ j, j ≠ sid → s'.heap j = s.heap j
  record : ∀ y, s'.heap sid = some y → ∃ x, s.heap sid = some x ∧ y.params = f x.params
  threads : s'.threads = k.elim s.threads fun k =>
    Function.update s.threads s.nextTid (some (newThread sid s.cmdNo k))
  nextTid : s'.nextTid = k.elim s.nextTid fun _ => s.nextTid + 1

section
variable {c : Conf} {env : Env} {sid : Sid} {x y : Session} {s s' t u : Server}
  {f : Params → Params} {k : Option Kind}

theorem closeOpt_nextTid (o : Option Fd) : (s.closeOpt o).nextTid = s.nextTid := by cases o <;> rfl

theorem Did.handled {o : Option Session} {as : List Act} (hd : Did sid o k as s s')
    (hx : s.heap sid = some x) (hp : ∀ y, o = some y → y.params = f x.params) :
    Handled f k sid s s' where
  others := fun j hj => by rw [hd.heap, Function.update_of_ne hj]
  record := fun y hy => by
    rw [hd.heap, Function.update_self] at hy
    exact ⟨x, hx, hp y hy⟩
  threads := hd.threads
  nextTid := hd.nextTid

theorem handles_sid {evs : List Event} {p : Sid × Session × Cmd} (hm : s.main = .command sid evs)
    (h : handles s (.command env) = some p) : p.1 = sid := by
  unfold handles at h
  simp only [hm] at h
  obtain ⟨x, -, h⟩ := Option.bind_eq_some_iff.mp h
  obtain ⟨k, -, rfl⟩ := Option.map_eq_some_iff.mp h
  rfl

theorem command_handled {evs : List Event} (hm : s.main = .command sid evs)
    (he : exec c s (.command env) = .ok s') :
    ∃ x, s.heap sid = some x ∧ Handled (fun q => revised c s (.command env) sid q)
      ((starts s (.command env)).map fun p => p.2.2) sid s s' ∧
      ∀ p, starts s (.command env) = some p → p.1 = sid ∧ p.2.1 = x := by
  obtain ⟨x, hx, ⟨hh, code, text, -, rfl⟩ | ⟨h, hh, hrun⟩⟩ :=
    handleCmd_cases (exec_command_ok hm he)
  · have hn : handles s (.command env) = none := handles_none hm hx hh
    have hs : starts s (.command env) = none := by
      show (handles s (.command env)).bind _ = none
      rw [hn]
      rfl
    have h1 : Handled id none sid (s.goto (.events evs)) _ :=
      ((Did.refl hx).emit (.reply sid x.ctrlFd (some s.cmdNo) code (ascii text))).handled hx
        (by rintro y ⟨⟩; rfl)
    refine ⟨x, hx, ?_, fun p hp => absurd (hs.symm.trans hp) (Option.some_ne_none p).symm⟩
    rw [hs, show (fun q => revised c s (.command env) sid q) = id by
      funext q
      unfold revised
      simp only [hn]
      rfl]
    exact ⟨h1.others, h1.record, h1.threads, h1.nextTid⟩
  · have hn : handles s (.command env) = some (sid, x, h) := handles_some hm hx hh
    have hs : starts s (.command env) = (h.starts env x).map fun k => (sid, x, k) := by
      show (handles s (.command env)).bind _ = _
      rw [hn]
      rfl
    obtain ⟨o, as, hd, hp⟩ := runCmd_did hx hrun
    have h1 : Handled (fun q => h.params c env x s.fds.lowest q) (h.starts env x) sid
        (s.goto (.events evs)) s' := hd.handled hx hp.params
    refine ⟨x, hx, ?_, fun p hp => ?_⟩
    · rw [show (fun q => revised c s (.command env) sid q) =
          fun q => h.params c env x s.fds.lowest q by
        funext q
        unfold revised
        simp only [hn, ↓reduceIte],
        hs, Option.map_map,
        show (fun p : Sid × Session × Kind => p.2.2) ∘ (fun k => (sid, x, k)) = id from rfl,
        Option.map_id]
      exact ⟨h1.others, h1.record, h1.threads, h1.nextTid⟩
    · rw [hs] at hp
      obtain ⟨k, -, rfl⟩ := Option.map_eq_some_iff.mp hp
      exact ⟨rfl, rfl⟩

end

end Myftpd
