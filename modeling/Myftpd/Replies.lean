import Myftpd.Refine

/-!
# What a step sends on control connections

`sent` keeps of the log the replies to control lines, each with the number of its line.  `Moves s s' rs`
says that `s'` comes from `s` by sending `rs`, with no change to the threads and the count of lines.

* `Once`    at most one 1xx code, and a final one;
* `Past`    a line has been read, and its handler has begun;
* `Main.owed`  the replies that a handler under way has still to send;
* `speaks`  the handlers that answer at all.
-/

namespace Myftpd
open CMem Server

/-- a reply to the control line number `cmd` -/
structure Reply where
  cmd : Nat
  sess : Sid
  fd : Fd
  code : Nat
  deriving DecidableEq

def Act.toReply : Act → Option Reply
  | .reply sid fd (some n) code _ => some ⟨n, sid, fd, code⟩
  | _ => none

def sent (log : List Act) : List Reply := log.filterMap Act.toReply

/-- the line in hand has been answered with the code -/
def AnsweredWith (code : Nat) (s : Server) (sid : Sid) (x : Session) (s' : Server) : Prop :=
  ∃ as text, s'.log = s.log ++ as ∧ .reply sid x.ctrlFd (some s.cmdNo) code text ∈ as

theorem answeredWith_one {code code' : Nat} {text : List UInt8} {s s' : Server} {sid : Sid} {x : Session}
    (h : s'.log = s.log ++ [.reply sid x.ctrlFd (some s.cmdNo) code text]) :
    AnsweredWith code' s sid x s' ↔ code = code' := by
  constructor
  · rintro ⟨as, text', has, hmem⟩
    cases List.append_cancel_left (h.symm.trans has)
    cases List.mem_singleton.mp hmem
    rfl
  · rintro rfl
    exact ⟨_, text, h, List.mem_singleton_self _⟩

/-- one final reply, and at most one preliminary reply before it -/
def Once (cs : List Nat) : Prop := ∃ pre code, cs = pre ++ [code] ∧ pre.length ≤ 1 ∧
  (∀ c ∈ pre, 100 ≤ c ∧ c < 200) ∧ 200 ≤ code ∧ code < 600

theorem once_one {code : Nat} (h : 200 ≤ code ∧ code < 600) : Once [code] :=
  ⟨[], code, rfl, Nat.zero_le 1, nofun, h⟩

theorem once_two {pre code : Nat} (hp : 100 ≤ pre ∧ pre < 200) (h : 200 ≤ code ∧ code < 600) :
    Once [pre, code] :=
  ⟨[pre], code, rfl, Nat.le_refl 1, fun c hc => by rwa [List.mem_singleton.mp hc], h⟩

theorem not_once_nil : ¬ Once [] := by
  rintro ⟨pre, code, e, -⟩
  exact List.append_ne_nil_of_right_ne_nil pre (List.cons_ne_nil code []) e.symm

/-! ## moves -/

/-- the flag of ABOR is off everywhere -/
def NoAbor (s : Server) : Prop := ∀ sid x, s.heap sid = some x → x.aborReceived = false

/-- line `n` has been read, and its handler has begun -/
def Past (s : Server) (n : Nat) : Prop := n < s.cmdNo ∨ n = s.cmdNo ∧ isCommand s.main = false

theorem Past.of {s s' : Server} {n : Nat} (h : Past s n) (h1 : s'.cmdNo = s.cmdNo)
    (h2 : s'.main = s.main) : Past s' n := by
  unfold Past
  rw [h1, h2]
  exact h

/-- the code of the reply, if the write is one -/
def Write.code : Write → Option Nat
  | .raw _ => none
  | .reply code _ => some code

/-- the writes that the handler under way has still to make -/
def Main.writes : Main → List Write
  | .pasv _ text _ _ => [.reply FTP_PASVOK text]
  | .reply _ ws _ => ws
  | _ => []

theorem writes_outside {m : Main} (h : m.inside = none) : m.writes = [] := by
  cases m <;> first | rfl | cases h

/-- the codes of the replies that the handler under way has still to send -/
def Main.owed : Main → List Nat
  | .pasv _ _ _ _ => [FTP_PASVOK]
  | .reply _ ws _ => ws.filterMap Write.code
  | _ => []

theorem owed_linesThen (ts : List (List UInt8)) (code : Nat) (text : String) :
    (linesThen ts code text).filterMap Write.code = [code] := by
  unfold linesThen
  rw [List.filterMap_append, List.filterMap_map]
  have h : ts.filterMap (Write.code ∘ Write.raw) = [] := List.filterMap_eq_nil_iff.mpr fun _ _ => rfl
  rw [h]
  rfl

theorem Main.Leaves.command {sid : Sid} {m m' : Main} (h : m.Leaves sid m') (hc : isCommand m' = true) :
    isCommand m = true := by
  cases h with
  | returned => exact hc
  | writes ws => cases hc
  | listens text => cases hc

structure Moves (s s' : Server) (rs : List Reply) : Prop where
  sent : sent s'.log = Myftpd.sent s.log ++ rs
  abor : NoAbor s → NoAbor s'
  threads : s'.threads = s.threads
  nextTid : s'.nextTid = s.nextTid
  cmdNo : s'.cmdNo = s.cmdNo
  main : s'.main = s.main

namespace Moves

variable {s s' t u : Server} {sid : Sid} {x y : Session} {rs ts : List Reply}

theorem trans (h : Moves s t rs) (h' : Moves t u ts) : Moves s u (rs ++ ts) where
  sent := by rw [h'.sent, h.sent, List.append_assoc]
  abor := h'.abor ∘ h.abor
  threads := h'.threads.trans h.threads
  nextTid := h'.nextTid.trans h.nextTid
  cmdNo := h'.cmdNo.trans h.cmdNo
  main := h'.main.trans h.main

/-- an update that leaves sessions, threads, log and the count of lines alone -/
theorem of (h1 : s'.heap = s.heap) (h2 : s'.threads = s.threads) (h3 : s'.log = s.log)
    (h4 : s'.cmdNo = s.cmdNo) (h5 : s'.nextTid = s.nextTid) (h6 : s'.main = s.main) :
    Moves s s' [] where
  sent := by rw [h3, List.append_nil]
  abor := by
    unfold NoAbor
    rw [h1]
    exact id
  threads := h2
  nextTid := h5
  cmdNo := h4
  main := h6

theorem refl (s : Server) : Moves s s [] := of rfl rfl rfl rfl rfl rfl

theorem emits (s : Server) {as : List Act} (ha : ∀ a ∈ as, a.toReply = none) :
    Moves s (s.emits as) [] where
  sent := by
    show (s.log ++ as).filterMap _ = _
    rw [List.filterMap_append, List.filterMap_eq_nil_iff.mpr ha]
    rfl
  abor := id
  threads := rfl
  nextTid := rfl
  cmdNo := rfl
  main := rfl

theorem emit (s : Server) {a : Act} (ha : a.toReply = none) : Moves s (s.emit a) [] :=
  emits s fun b hb => by rwa [List.mem_singleton.mp hb]

theorem reply (s : Server) (sid : Sid) (x : Session) (n code : Nat) (text : List UInt8) :
    Moves s (s.ftpReply sid x (some n) code text) [⟨n, sid, x.ctrlFd, code⟩] where
  sent := List.filterMap_append
  abor := id
  threads := rfl
  nextTid := rfl
  cmdNo := rfl
  main := rfl

theorem put (hx : s.heap sid = some x) (hy : y.aborReceived = x.aborReceived ∨ y.aborReceived = false) :
    Moves s (s.put sid y) [] where
  sent := (List.append_nil _).symm
  abor := by
    intro h j z hz
    change Function.update s.heap sid (some y) j = some z at hz
    rw [Function.update_apply] at hz
    split at hz
    · cases hz
      rcases hy with e | e
      · rw [e]
        exact h sid x hx
      · exact e
    · exact h j z hz
  threads := rfl
  nextTid := rfl
  cmdNo := rfl
  main := rfl

theorem closeOpt (s : Server) (o : Option Fd) : Moves s (s.closeOpt o) [] := by
  cases o <;> exact of rfl rfl rfl rfl rfl rfl

end Moves

/-! ## handlers -/

/-- the handler answers when it comes to its end; RETR and STOR leave that to their thread -/
def speaks (x : Session) : Cmd → Bool
  | .retr => false
  | .stor => false
  | .appe => false
  | .nlst => false
  | .list => decide (getPasvDataFd x ≠ 0)
  | _ => true

section
variable {c : Conf} {env : Env} {sid : Sid} {x : Session} {s s' : Server}

/-- the handler has begun to answer the line in hand, with the codes `cs` -/
structure Says (sid : Sid) (x : Session) (s s' : Server) (cs : List Nat) : Prop where
  sent : sent s'.log = Myftpd.sent s.log ++ cs.map fun code => ⟨s.cmdNo, sid, x.ctrlFd, code⟩
  abor : NoAbor s → NoAbor s'
  threads : s'.threads = s.threads
  cmdNo : s'.cmdNo = s.cmdNo
  main : s.main.Leaves sid s'.main

/-- the line in hand is answered once, with what the handler has still to send -/
def Answers (sid : Sid) (x : Session) (s s' : Server) : Prop :=
  ∃ cs, Says sid x s s' cs ∧ Once (cs ++ s'.main.owed)

theorem Moves.tellsReplies {cs : List Nat} (h : Moves s s' (cs.map fun code => ⟨s.cmdNo, sid, x.ctrlFd, code⟩)) :
    Says sid x s s' cs := ⟨h.sent, h.abor, h.threads, h.cmdNo, by rw [h.main]; exact .returned⟩

end

end Myftpd
