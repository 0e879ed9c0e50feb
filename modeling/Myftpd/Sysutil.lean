import Myftpd.Str

/-!
# sysutil.cpp: reading from a socket

`recvPeek`, `readn` and `readline` are written against two operations of a socket, `recv` with
`MSG_PEEK` and `read` (`SockOps`), because the same code runs on blocking and on non-blocking
sockets.  Their loops run on fuel; `none` and `Stop.spin` mean that the loop has not ended yet.

`Sock` is the receive side of a non-blocking control socket: the bytes that have arrived and were
not read, whether the peer has closed, and a script of outcomes for the next calls (`some e`: the
call fails with `e`; `none` and the end of the script: the call does what the queue says).

* `readline_found`    the unread bytes hold a line: it is returned, and only it is consumed;
* `readline_lost`     they do not: everything peeked is consumed, then the call fails or returns 0.
-/

set_option linter.unusedVariables false

namespace Myftpd
open CMem

/-- What `recv` and `read` give: bytes (none of them at end of file) or an error. -/
inductive Ret where
  | got (bs : List UInt8)
  | fail (e : Errno)
  deriving DecidableEq, Repr

structure SockOps (κ : Type) where
  peek : Nat → κ → Ret × κ
  read : Nat → κ → Ret × κ

section
variable {κ : Type} (ops : SockOps κ)

/-- `recv` with `MSG_PEEK`, again while it fails with `EINTR` -/
def recvPeek (len : Nat) : Nat → κ → Option (Ret × κ)
  | 0, _ => none
  | fuel+1, k =>
    let (r, k) := ops.peek len k
    if r = .fail .EINTR then recvPeek len fuel k else some (r, k)

/-- the return value, the memory and the socket afterwards -/
abbrev ReadRes (κ : Type) := Int × Mem × κ

/-- `rest` bytes of `cnt` are still to be read to `rbuf` -/
def readnLoop (cnt : Nat) : Nat → Mem → Nat → Nat → κ → Option (ReadRes κ)
  | 0, _, _, _, _ => none
  | fuel+1, m, rbuf, rest, k =>
    if rest = 0 then some (cnt, m, k) else
    match ops.read rest k with
    | (.fail e, k) => if e = .EINTR then readnLoop cnt fuel m rbuf rest k else some (-1, m, k)
    | (.got bs, k) =>
      if bs = [] then some (cnt - rest, m, k)
      else readnLoop cnt fuel (poke m rbuf bs) (rbuf + bs.length) (rest - bs.length) k

def readn (fuel : Nat) (m : Mem) (buf cnt : Nat) (k : κ) : Option (ReadRes κ) :=
  readnLoop ops cnt fuel m buf cnt k

/-- `ret = readn(fd, rbuf, n); if (ret != n) ERR_EXIT("readline")` -/
def readnAll (fuel : Nat) (m : Mem) (rbuf n : Nat) (k : κ) : Res (Mem × κ) :=
  match readn ops fuel m rbuf n k with
  | none => .error .spin
  | some (ret, m, k) => if ret ≠ n then .error (.exit .readline) else .ok (m, k)

/-- the newline stands at `p`: read up to it and return the number of bytes -/
def readlineEnd (fuel : Nat) (m : Mem) (rbuf p tot : Nat) (k : κ) : Res (ReadRes κ) := do
  let (m, k) ← readnAll ops fuel m rbuf (p - rbuf + 1) k
  return ((tot + (p - rbuf + 1) : Nat), m, k)

def readlineLoop : Nat → Mem → Nat → Nat → Nat → κ → Res (ReadRes κ)
  | 0, _, _, _, _, _ => .error .spin
  | fuel+1, m, rbuf, rest, tot, k =>
    match recvPeek ops rest (fuel+1) k with
    | none => .error .spin
    | some (.fail _, k) => .ok (-1, m, k)
    | some (.got bs, k) =>
      if bs = [] then .ok (0, m, k) else
      match strchr (poke m rbuf bs) rbuf LF with
      | some p => readlineEnd ops (fuel+1) (poke m rbuf bs) rbuf p tot k
      | none =>
        -- no newline seen; the guard is the source's, `recv` never returns more than `rest`
        if bs.length > rest then .error (.exit .readline) else do
        let (m, k) ← readnAll ops (fuel+1) (poke m rbuf bs) rbuf bs.length k
        readlineLoop fuel m (rbuf + bs.length) (rest - bs.length) (tot + bs.length) k

def readline (fuel : Nat) (m : Mem) (buf len : Nat) (k : κ) : Res (ReadRes κ) :=
  readlineLoop ops fuel m buf len 0 k

end

/-! ## the control socket -/

structure Sock where
  queue : List UInt8
  fin : Bool
  script : List (Option Errno)
  deriving DecidableEq, Repr

/-- a connection on which nothing has arrived yet -/
def Sock.fresh : Sock := ⟨[], false, []⟩

/-- the outcome of a call that asks for at most `n` bytes, when the script does not decide it -/
def Sock.ret (k : Sock) (n : Nat) : Ret :=
  if k.queue = [] then (if k.fin then .got [] else .fail .EAGAIN) else .got (k.queue.take n)

def Sock.recvPeek (n : Nat) (k : Sock) : Ret × Sock :=
  match k.script with
  | some e :: t => (.fail e, { k with script := t })
  | none :: t => (k.ret n, { k with script := t })
  | [] => (k.ret n, k)

def Sock.read (n : Nat) (k : Sock) : Ret × Sock :=
  match k.script with
  | some e :: t => (.fail e, { k with script := t })
  | none :: t => (k.ret n, { k with queue := k.queue.drop n, script := t })
  | [] => (k.ret n, { k with queue := k.queue.drop n })

def sockOps : SockOps Sock := ⟨Sock.recvPeek, Sock.read⟩

/-- `session_t` declares `cmdline[32]`, `cmd[32]` and `arg[1024]` one after the other; they are one
memory here, with `cmdline` at 0. -/
def CMD : Nat := MAX_COMMAND
def ARG : Nat := MAX_COMMAND + MAX_COMMAND
def sessMem : Mem := List.replicate (MAX_COMMAND + MAX_COMMAND + MAX_ARG) 0

/-- rounds for every byte of the buffer and of the memory -/
def roundFuel : Nat := MAX_COMMAND_LINE + (MAX_COMMAND + MAX_COMMAND + MAX_ARG)

/-- `bzero` of the three buffers and `readline(sess->ctrl_fd, sess->cmdline, MAX_COMMAND_LINE)` -/
def readCmdline (k : Sock) : Res (ReadRes Sock) :=
  readline sockOps (k.script.length + roundFuel + 3) sessMem 0 MAX_COMMAND_LINE k

/-- `str_trim_crlf(cmdline); str_split(cmdline, cmd, arg, ' '); str_upper(cmd)`: the C strings in
`cmd` and `arg` afterwards -/
def parseCmdline (m : Mem) : Option (List UInt8 × List UInt8) := do
  let m ← strSplit (strTrimCrlf m 0) 0 CMD ARG SP
  let m := strUpper m CMD
  return (cstrAt m CMD, cstrAt m ARG)

/-! ## one call with an empty script -/

theorem recvPeek_succ {κ : Type} (ops : SockOps κ) (len fuel : Nat) (k : κ) :
    recvPeek ops len (fuel+1) k =
      if (ops.peek len k).1 = .fail .EINTR then recvPeek ops len fuel (ops.peek len k).2
      else some (ops.peek len k) := rfl

theorem Sock.ret_of_ne_nil {k : Sock} {n : Nat} (h : k.queue ≠ []) : k.ret n = .got (k.queue.take n) := by
  unfold Sock.ret
  rw [if_neg h]

theorem recvPeek_ne_nil {q : List UInt8} {fin : Bool} {n fuel : Nat} (hq : q ≠ []) :
    recvPeek sockOps n (fuel+1) ⟨q, fin, []⟩ = some (.got (q.take n), ⟨q, fin, []⟩) := by
  have h : sockOps.peek n ⟨q, fin, []⟩ = (.got (q.take n), ⟨q, fin, []⟩) := by
    show (Sock.ret ⟨q, fin, []⟩ n, _) = _
    rw [Sock.ret_of_ne_nil hq]
  rw [recvPeek_succ, h, if_neg (by simp)]

theorem recvPeek_nil {n fuel : Nat} {fin : Bool} :
    recvPeek sockOps n (fuel+1) ⟨[], fin, []⟩
      = some (if fin then .got [] else .fail .EAGAIN, ⟨[], fin, []⟩) := by
  cases fin <;> rfl

theorem readnAll_queue {q : List UInt8} {fin : Bool} {m : Mem} {rbuf n fuel : Nat}
    (h0 : 0 < n) (hn : n ≤ q.length) :
    readnAll sockOps (fuel+2) m rbuf n ⟨q, fin, []⟩
      = .ok (poke m rbuf (q.take n), ⟨q.drop n, fin, []⟩) := by
  have hq : q ≠ [] := by rintro rfl; simp at hn; omega
  have hr : sockOps.read n ⟨q, fin, []⟩ = (.got (q.take n), ⟨q.drop n, fin, []⟩) := by
    show (Sock.ret ⟨q, fin, []⟩ n, _) = _
    rw [Sock.ret_of_ne_nil hq]
  have hl : (q.take n).length = n := by rw [List.length_take]; omega
  have ht : q.take n ≠ [] := by intro e; rw [e] at hl; simp at hl; omega
  have h : readn sockOps (fuel+2) m rbuf n ⟨q, fin, []⟩
      = some ((n : Int), poke m rbuf (q.take n), ⟨q.drop n, fin, []⟩) := by
    show readnLoop sockOps n (fuel+1+1) m rbuf n ⟨q, fin, []⟩ = _
    rw [readnLoop, if_neg (by omega), hr]
    show (if q.take n = [] then _ else readnLoop sockOps n (fuel+1) _ _ (n - (q.take n).length) _) = _
    rw [if_neg ht, hl, Nat.sub_self, readnLoop, if_pos rfl]
  unfold readnAll
  rw [h]
  show (if (n : Int) ≠ n then _ else _) = _
  rw [if_neg (by simp)]

/-! ## one round of readline with an empty script -/

/-- the bytes peeked in the first round, in the zeroed buffer -/
def peeked (q : List UInt8) : Mem := poke sessMem 0 (q.take MAX_COMMAND_LINE)

theorem sessMem_length : sessMem.length = 1088 := by
  unfold sessMem
  rw [List.length_replicate]
  rfl

theorem peeked_length (q : List UInt8) : (peeked q).length = 1088 := by
  unfold peeked
  rw [poke_length, sessMem_length]
  rw [sessMem_length, List.length_take]
  have : MAX_COMMAND_LINE = 1024 := rfl
  omega

theorem peeked_eq (q : List UInt8) :
    peeked q = q.take MAX_COMMAND_LINE
      ++ List.replicate (1088 - (q.take MAX_COMMAND_LINE).length) 0 :=
  poke_zero_replicate _ _

/-- the C string in the buffer is the peeked bytes up to the first NUL -/
theorem cstrAt_peeked (q : List UInt8) : cstrAt (peeked q) 0 = cstr (q.take MAX_COMMAND_LINE) := by
  have hl : (q.take MAX_COMMAND_LINE).length ≤ 1024 := by
    rw [List.length_take]; exact Nat.min_le_left _ _
  rw [peeked_eq]
  unfold cstrAt
  rw [List.drop_zero]
  obtain ⟨j, hj⟩ : ∃ j, 1088 - (q.take MAX_COMMAND_LINE).length = j + 1 := ⟨_, (Nat.succ_pred_eq_of_pos (by omega)).symm⟩
  rw [hj, List.replicate_succ]
  unfold cstr
  by_cases h : ∀ c ∈ q.take MAX_COMMAND_LINE, (c != 0) = true
  · rw [List.takeWhile_append_of_pos h, List.takeWhile_cons_of_neg (by simp), List.append_nil,
      List.takeWhile_eq_self_iff.mpr h]
  · have h' : (q.take MAX_COMMAND_LINE).takeWhile (· != 0) ≠ q.take MAX_COMMAND_LINE :=
      fun e => h (List.takeWhile_eq_self_iff.mp e)
    rw [List.takeWhile_append, if_neg]
    intro e
    exact h' ((List.takeWhile_prefix _).eq_of_length e)

/-- the first line of the unread bytes, when `readline` can see it -/
def HasLine (q : List UInt8) : Prop := LF ∈ cstr (q.take MAX_COMMAND_LINE)

instance (q : List UInt8) : Decidable (HasLine q) := inferInstanceAs (Decidable (_ ∈ _))

/-- its length, newline included -/
def lineLen (q : List UInt8) : Nat := (cstr (q.take MAX_COMMAND_LINE)).idxOf LF + 1

theorem HasLine.ne_nil {q : List UInt8} (h : HasLine q) : q ≠ [] := by
  rintro rfl
  simp [HasLine, cstr] at h

theorem HasLine.lineLen_le {q : List UInt8} (h : HasLine q) :
    lineLen q ≤ (q.take MAX_COMMAND_LINE).length := by
  have h1 := List.idxOf_lt_length_of_mem h
  have h2 := cstr_length_le (q.take MAX_COMMAND_LINE)
  unfold lineLen
  omega

theorem HasLine.lineLen_le_length {q : List UInt8} (h : HasLine q) : lineLen q ≤ q.length := by
  have h1 := h.lineLen_le
  rw [List.length_take] at h1
  omega

theorem strchr_peeked {q : List UInt8} (h : HasLine q) :
    strchr (peeked q) 0 LF = some ((cstr (q.take MAX_COMMAND_LINE)).idxOf LF) := by
  have hm : LF ∈ cstrAt (peeked q) 0 := by rw [cstrAt_peeked]; exact h
  rw [strchr_of_mem hm, cstrAt_peeked, Nat.zero_add]

theorem poke_peeked {q : List UInt8} {n : Nat} (h : n ≤ (q.take MAX_COMMAND_LINE).length) :
    poke (peeked q) 0 (q.take n) = peeked q := by
  have hn : n ≤ MAX_COMMAND_LINE := by rw [List.length_take] at h; omega
  have hl : (q.take n).length = n := by
    rw [List.length_take] at h ⊢; omega
  have ht : (peeked q).take n = q.take n := by
    rw [peeked_eq, List.take_append_of_le_length h, List.take_take, Nat.min_eq_left hn]
  unfold poke
  rw [List.take_zero, List.nil_append, hl, Nat.zero_add, ← ht, List.take_append_drop]

section
variable {κ : Type} {ops : SockOps κ} {fuel rest tot rbuf : Nat} {m : Mem} {k k' : κ}
  {bs : List UInt8}

theorem readlineLoop_line {p : Nat} (hp : recvPeek ops rest (fuel+1) k = some (.got bs, k'))
    (hb : bs ≠ []) (hc : strchr (poke m rbuf bs) rbuf LF = some p) :
    readlineLoop ops (fuel+1) m rbuf rest tot k
      = readlineEnd ops (fuel+1) (poke m rbuf bs) rbuf p tot k' := by
  rw [readlineLoop, hp]
  show (if bs = [] then _ else _) = _
  rw [if_neg hb, hc]

theorem readlineLoop_more (hp : recvPeek ops rest (fuel+1) k = some (.got bs, k'))
    (hb : bs ≠ []) (hl : bs.length ≤ rest) (hc : strchr (poke m rbuf bs) rbuf LF = none) :
    readlineLoop ops (fuel+1) m rbuf rest tot k
      = readnAll ops (fuel+1) (poke m rbuf bs) rbuf bs.length k' >>= fun r =>
        readlineLoop ops fuel r.1 (rbuf + bs.length) (rest - bs.length) (tot + bs.length) r.2 := by
  rw [readlineLoop, hp]
  show (if bs = [] then _ else _) = _
  rw [if_neg hb, hc]
  show (if bs.length > rest then _ else _) = _
  rw [if_neg (Nat.not_lt.mpr hl)]

theorem readlineLoop_stop (hp : recvPeek ops rest (fuel+1) k = some (.got [], k')) :
    readlineLoop ops (fuel+1) m rbuf rest tot k = .ok (0, m, k') := by
  rw [readlineLoop, hp]
  rfl

theorem readlineLoop_fail {e : Errno} (hp : recvPeek ops rest (fuel+1) k = some (.fail e, k')) :
    readlineLoop ops (fuel+1) m rbuf rest tot k = .ok (-1, m, k') := by
  rw [readlineLoop, hp]

end

theorem readCmdline_loop (q : List UInt8) (fin : Bool) :
    readCmdline ⟨q, fin, []⟩ = readlineLoop sockOps (0 + roundFuel + 3)
      sessMem 0 MAX_COMMAND_LINE 0 ⟨q, fin, []⟩ := rfl

theorem take_MAX_ne_nil {q : List UInt8} (h : q ≠ []) : q.take MAX_COMMAND_LINE ≠ [] := by
  intro e
  rcases List.take_eq_nil_iff.mp e with h' | h'
  · exact absurd h' (by decide)
  · exact h h'

/-- **The unread bytes hold a line**: it is returned, and only it is consumed.  The buffer also
keeps what was peeked behind it. -/
theorem readline_found {q : List UInt8} {fin : Bool} (h : HasLine q) :
    readCmdline ⟨q, fin, []⟩ = .ok (lineLen q, peeked q, ⟨q.drop (lineLen q), fin, []⟩) := by
  have hp : poke sessMem 0 (q.take MAX_COMMAND_LINE) = peeked q := rfl
  rw [readCmdline_loop, readlineLoop_line (recvPeek_ne_nil h.ne_nil) (take_MAX_ne_nil h.ne_nil)
    (strchr_peeked h), hp]
  unfold readlineEnd
  rw [Nat.sub_zero, readnAll_queue (Nat.succ_pos _) h.lineLen_le_length]
  show Except.ok (((0 + lineLen q : Nat) : Int), poke (peeked q) 0 (q.take (lineLen q)), _) = _
  rw [poke_peeked h.lineLen_le, Nat.zero_add]
  rfl

theorem readline_round {q : List UInt8} {fin : Bool} (h : ¬ HasLine q) (hq : q ≠ []) :
    readCmdline ⟨q, fin, []⟩ = readlineLoop sockOps (0 + roundFuel + 2)
      (peeked q) (q.take MAX_COMMAND_LINE).length
      (MAX_COMMAND_LINE - (q.take MAX_COMMAND_LINE).length) (q.take MAX_COMMAND_LINE).length
      ⟨q.drop MAX_COMMAND_LINE, fin, []⟩ := by
  have hc : strchr (peeked q) 0 LF = none := by
    rw [strchr_eq_none, cstrAt_peeked]; exact h
  have hp : poke sessMem 0 (q.take MAX_COMMAND_LINE) = peeked q := rfl
  have hl : (q.take MAX_COMMAND_LINE).length ≤ MAX_COMMAND_LINE := by
    rw [List.length_take]; exact Nat.min_le_left _ _
  have hpos : 0 < (q.take MAX_COMMAND_LINE).length := List.length_pos_iff.mpr (take_MAX_ne_nil hq)
  have hle : (q.take MAX_COMMAND_LINE).length ≤ q.length := List.length_take_le' _ _
  have hd : q.drop (q.take MAX_COMMAND_LINE).length = q.drop MAX_COMMAND_LINE := by
    rw [List.length_take]
    rcases Nat.le_total MAX_COMMAND_LINE q.length with h1 | h1
    · rw [Nat.min_eq_left h1]
    · rw [Nat.min_eq_right h1, List.drop_length, List.drop_eq_nil_of_le h1]
  rw [readCmdline_loop, readlineLoop_more (recvPeek_ne_nil hq) (take_MAX_ne_nil hq) hl hc, hp,
    readnAll_queue hpos hle, hd]
  show readlineLoop sockOps _ (poke (peeked q) 0 (q.take _)) _ _ _ _ = _
  rw [poke_peeked (Nat.le_refl _)]
  simp only [Nat.zero_add]

/-- **They do not**: what was peeked is consumed, and the next call finds no data or no room. -/
theorem readline_lost {q : List UInt8} (fin : Bool) (h : ¬ HasLine q) :
    ∃ m, readCmdline ⟨q, fin, []⟩ = .ok (if q.drop MAX_COMMAND_LINE = [] ∧ fin = false then -1 else 0,
      m, ⟨q.drop MAX_COMMAND_LINE, fin, []⟩) := by
  by_cases hq : q = []
  · subst hq
    refine ⟨sessMem, ?_⟩
    rw [readCmdline_loop]
    cases fin
    · exact readlineLoop_fail recvPeek_nil
    · exact readlineLoop_stop recvPeek_nil
  · refine ⟨peeked q, ?_⟩
    rw [readline_round h hq]
    by_cases he : q.drop MAX_COMMAND_LINE = []
    · rw [he]
      cases fin
      · exact readlineLoop_fail recvPeek_nil
      · exact readlineLoop_stop recvPeek_nil
    · -- a full buffer: the second `recv` asks for no byte and returns 0
      have hfull : (q.take MAX_COMMAND_LINE).length = MAX_COMMAND_LINE := by
        rw [List.length_take, Nat.min_eq_left]
        by_contra hlt
        exact he (List.drop_eq_nil_of_le (by omega))
      rw [hfull, Nat.sub_self, if_neg (fun h => he h.1)]
      exact readlineLoop_stop (recvPeek_ne_nil he)

/-! ## what processCtrlRead makes of it -/

/-- `if (ret==-1) ERR_EXIT("readline"); else if (ret==0) { closeSess(sess); return 0; }`: the
buffers and the socket when there is a line to handle, nothing when the session is to be closed -/
def ctrlRead (k : Sock) : Res (Option (Mem × Sock)) :=
  match readCmdline k with
  | .error e => .error e
  | .ok (ret, m, k) =>
    if ret = -1 then .error (.exit .readline)
    else if ret = 0 then .ok none
    else .ok (some (m, k))

theorem ctrlRead_found {q : List UInt8} {fin : Bool} (h : HasLine q) :
    ctrlRead ⟨q, fin, []⟩ = .ok (some (peeked q, ⟨q.drop (lineLen q), fin, []⟩)) := by
  have h0 : (0 : Int) < lineLen q := by
    have : 0 < lineLen q := Nat.succ_pos _
    omega
  unfold ctrlRead
  rw [readline_found h]
  show (if (lineLen q : Int) = -1 then _ else if (lineLen q : Int) = 0 then _ else _) = _
  rw [if_neg (by omega), if_neg (by omega)]

/-- no line, the connection still open and nothing beyond the buffer: the process exits -/
theorem ctrlRead_exit {q : List UInt8} (h : ¬ HasLine q) (hd : q.drop MAX_COMMAND_LINE = []) :
    ctrlRead ⟨q, false, []⟩ = .error (.exit .readline) := by
  obtain ⟨m, hm⟩ := readline_lost false h
  unfold ctrlRead
  rw [hm, if_pos ⟨hd, rfl⟩]
  rfl

theorem ctrlRead_close {q : List UInt8} (fin : Bool) (h : ¬ HasLine q)
    (hd : ¬ (q.drop MAX_COMMAND_LINE = [] ∧ fin = false)) : ctrlRead ⟨q, fin, []⟩ = .ok none := by
  obtain ⟨m, hm⟩ := readline_lost fin h
  unfold ctrlRead
  rw [hm, if_neg hd]
  rfl

end Myftpd
