import Myftpd.Refine

/-!
# The timeout list and the counts of connections

Only four steps touch the timeout list, the counts of connections or the number of the next session: an
event refreshes a node, a connection is admitted or refused, a node is removed (`Booked`).

* `Booked`  what a step does to them.
-/

namespace Myftpd
open CMem Server

section
variable {c : Conf} {s s' : Server} {sid : Sid} {x : Session}

@[simp] theorem goto_books (m : Main) : (s.goto m).books = s.books := rfl
@[simp] theorem closeOpt_books (o : Option Fd) : (s.closeOpt o).books = s.books := by
  cases o <;> rfl

theorem closed_books : (closed s sid x).books = s.books := by
  show ((((s.close x.ctrlFd).closeOpt x.dataFd).closeOpt x.pasvListenFd)).books = _
  rw [closeOpt_books, closeOpt_books]
  rfl

theorem closeSess_books (h : s.closeSess sid = .ok s') : s'.books = s.books := by
  obtain ⟨x, -, -, rfl⟩ := closeSess_inv h
  exact closed_books

end

/-! ## the steps that touch them -/

/-- the address of the connection that the step admits -/
def admits (c : Conf) (s : Server) : Label → Option Nat
  | .acceptOne conn => if isValid c (newSession s) = none then some conn.ip else none
  | _ => none

/-- The timeout list, the counts and the number of the next session after the step `l`. -/
inductive Booked (c : Conf) (s : Server) : Label → Books → Prop where
  | same {l : Label} : admits c s l = none → Booked c s l s.books
  | refresh (now : Int) (env : Env) (fd : Fd) :
      Booked c s (.dispatch now env) { s.books with tl := s.tl.refreshTimeout fd now }
  | admitted (conn : Conn) : isValid c (newSession s) = none → Booked c s (.acceptOne conn)
      ⟨s.tl.addtoNode s.nextSid s.fds.lowest conn.now, (s.sChildren + 1) % sChildrenMax,
        Function.update s.sIpCount conn.ip (some (handleIpCount s conn.ip)), s.nextSid + 1⟩
  | refused (conn : Conn) (r : Nat × String) : isValid c (newSession s) = some r →
      Booked c s (.acceptOne conn) { s.books with nextSid := s.nextSid + 1 }
  | evicted (now : Int) (n : Nid) (node : ToNode) (x : Session) : s.tl.pLRU = some n →
      s.tl.node n = some node → TimeList.isTimeout node now c.idleSessionTimeout = true →
      s.heap node.sess = some x →
      Booked c s (.evictOne now) { s.books with tl := s.tl.remove n x.ctrlFd }

section
variable {c : Conf} {s s' t : Server} {l : Label}

theorem Booked.of_same {b : Books} (ha : admits c s l = none) (h : b = s.books) :
    Booked c s l b := by
  rw [h]
  exact .same ha

theorem admits_some {conn : Conn} (h : isValid c (newSession s) = none) :
    admits c s (.acceptOne conn) = some conn.ip := if_pos h

theorem admits_none {conn : Conn} {r : Nat × String} (h : isValid c (newSession s) = some r) :
    admits c s (.acceptOne conn) = none := if_neg (by rw [h]; exact Option.some_ne_none r)

end

end Myftpd
