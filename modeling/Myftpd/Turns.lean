import Myftpd.Stages

/-!
# What a transfer thread replies

The codes that a step sends on the control connection, as a function of the thread, of the record of its session and of
what the system answers.

* `Thread.tells`  the replies of the step;
* `thread_turn`   every step, with `Thread.after`.
-/

namespace Myftpd
open CMem Server

def Act.code : Act → Option Nat
  | .reply _ _ _ code _ => some code
  | _ => none

/-- the codes that a step has sent -/
def told (s s' : Server) : List Nat := (s'.log.drop s.log.length).filterMap Act.code

namespace Thread

/-- the code of the final reply; with ABOR there may be none -/
def verdict (x : Session) (th : Thread) : Option Nat :=
  if th.flag = 0 ∧ x.aborReceived = false then some FTP_TRANSFEROK
  else if th.flag = 1 then some FTP_BADSENDFILE
  else if th.flag = 2 then some FTP_BADSENDNET
  else none

def tells (env : TEnv) (x : Session) (th : Thread) : List Nat :=
  if th.refused env x = true then [(failReply th.kind).1] else
  match th.pc with
  | .opening => [FTP_DATACONN]
  | .final => (th.verdict x).toList
  | _ => []

end Thread

section
variable {env : TEnv} {tid : Tid} {th : Thread} {s s' : Server} {x : Session} {as : List Act}

theorem told_of (h : s'.log = s.log ++ as) : told s s' = as.filterMap Act.code := by
  unfold told
  rw [h, List.drop_left]

/-- the step is the one that the thread takes on its own -/
structure Turn (env : TEnv) (tid : Tid) (th : Thread) (s s' : Server) : Prop where
  thread : s'.threads tid = th.after env (s.seen th.sess) s.fds.lowest
  told : told s s' = th.tells env (s.seen th.sess)

theorem refused_returns (h : th.refused env x = true) : th.returns env x = true := by
  unfold Thread.returns
  rw [h, Bool.or_true]

theorem refused_other (h : th.pc.refuses = false) : th.refused env x = false :=
  Bool.eq_false_iff.mpr fun hr => Bool.false_ne_true (h.symm.trans (refused_refuses hr))

/-- the stages of which no step sends anything, unless it is refused -/
def Pc.silent : Pc → Bool
  | .opening => false
  | .final => false
  | .checkAbor => false
  | _ => true

theorem tells_silent (hs : th.pc.silent = true) (hr : th.refused env x = false) : th.tells env x = [] := by
  unfold Thread.tells
  rw [if_neg (Bool.eq_false_iff.mp hr)]
  cases hpc : th.pc with
  | opening => rw [hpc] at hs; cases hs
  | final => rw [hpc] at hs; cases hs
  | _ => rfl

theorem closing_codes : (th.closing x).filterMap Act.code = (th.verdict x).toList := by
  unfold Thread.closing Thread.verdict
  split
  · rfl
  · split
    · rfl
    · split <;> rfl

theorem logs_codes : (th.logs env x).filterMap Act.code = th.tells env x := by
  unfold Thread.logs Thread.tells
  split
  · rfl
  obtain ⟨sess, cmd, kind, p, offset, file, size, left, flag⟩ := th
  cases p with
  | final => exact closing_codes
  | checkAbor =>
    show List.filterMap Act.code (if x.aborReceived = true then _ else _) = []
    split <;> rfl
  | «open» => cases kind <;> rfl
  | trunc => cases kind <;> rfl
  | loop =>
    cases kind with
    | retr =>
      show List.filterMap Act.code (if left = 0 then [] else _) = []
      split
      · rfl
      · cases Thread.sends ⟨sess, cmd, .retr, .loop, offset, file, size, left, flag⟩ env x <;> rfl
    | stor a => rfl
  | write n =>
    cases kind with
    | retr => rfl
    | stor a =>
      unfold Thread.acts
      cases env.write <;> rfl
  | _ => rfl

/-- **Every step of a transfer thread** is the one that it takes on its own. -/
theorem thread_turn (hth : s.threads tid = some th) (he : threadStep env tid s = .ok s') : Turn env tid th s s' where
  thread := thread_after hth he
  told := (told_of (thread_logs hth he)).trans logs_codes

end

end Myftpd
