import Myftpd.Turns
import Myftpd.Fields
import Myftpd.Noted
import Myftpd.Lib.ByteFile

/-!
# The tape of a transfer

What one transfer thread does to its file, to the data connection and to the control connection, from its start
on, whatever else the server does in between.

* `Deed`            a call of the thread on the open file or on the data connection, or a reply;
* `Tape`            the file, the bytes that have gone over the data connection, and all deeds in their order;
* `taped`           the server, with the tape of one thread;
* `taped_inv`       an invariant of the thread and its tape, from what one step of the thread does to them;
* `begun_proceeds`  outside its loop a thread makes at most 16 steps, and none fails as long as its session is live.
-/

namespace Myftpd
open CMem Server

/-- what a transfer thread does -/
inductive Deed where
  | reply (code : Nat)
  | truncated                -- `ftruncate(fd,0)` has cut the file; what it returns is not looked at
  | sought (k : Int)         -- `lseek(fd,k,SEEK_SET)` has moved the position
  | sent (n : Nat)           -- `sendfile` returns `n`
  | sendFailed
  | got (n : Nat)            -- `read` on the data connection returns `n`; 0 is the end of the data
  | readFailed
  | interrupted              -- `read` or `write` meets a signal
  | wrote (n : Nat)          -- `write` on the file returns `n`
  | writeFailed
  deriving DecidableEq, Repr

/-- the calls that a step makes on the open file and on the data connection -/
def Thread.calls (env : TEnv) (x : Session) (th : Thread) : List Deed :=
  match th.pc, th.kind with
  | .trunc, .stor _ => if env.ftruncate = true then [.truncated] else []
  | .seek, .retr => if env.lseek = true then [.sought th.offset] else []
  | .seek, .stor isAppend => if env.lseek = true then [.sought (if isAppend = true then 0 else th.offset)] else []
  | .loop, .retr =>
    if th.left = 0 then [] else
    match th.sends env x with
    | some n => [.sent n]
    | none => [.sendFailed]
  | .loop, .stor _ =>
    match Thread.reads env x with
    | .ok n => [.got n]
    | .intr => [.interrupted]
    | .err => [.readFailed]
  | .write n, .stor _ =>
    match env.write with
    | .ok k => [.wrote (min k n)]
    | .intr => [.interrupted]
    | .err => [.writeFailed]
  | _, _ => []

def Thread.deeds (env : TEnv) (x : Session) (th : Thread) : List Deed :=
  th.calls env x ++ (th.tells env x).map .reply

/-- the file of a transfer, the bytes that `read` has put into the buffer and `write` has not taken yet, the bytes
that have gone over the data connection, the deeds, and the number of steps -/
structure Tape where
  file : ByteFile UInt8
  chunk : List UInt8
  data : List UInt8
  tale : List Deed
  steps : Nat

/-- nothing has been done yet; the file holds `bs` -/
def Tape.start (bs : List UInt8) : Tape := ⟨⟨bs, 0⟩, [], [], [], 0⟩

/-- the deed is done; `peer` gives the bytes that the peer sends -/
def Tape.add (peer : Nat → UInt8) (g : Tape) (d : Deed) : Tape :=
  let g := { g with tale := g.tale ++ [d] }
  match d with
  | .truncated => { g with file := g.file.truncate }
  | .sought k => { g with file := g.file.seek k.toNat }
  | .sent n => { g with data := g.data ++ g.file.slice n, file := g.file.skip n }
  | .got n =>
    let bs := (List.range n).map fun i => peer (g.data.length + i)
    { g with data := g.data ++ bs, chunk := bs }
  | .wrote n => { g with file := g.file.store 0 (g.chunk.take n), chunk := g.chunk.drop n }
  | _ => g

/-- the tape after a step that does `ds` -/
def Tape.turn (peer : Nat → UInt8) (g : Tape) (ds : List Deed) : Tape :=
  { ds.foldl (Tape.add peer) g with steps := g.steps + 1 }

/-- the tape of the thread `tid` after a step of the server -/
def taping (peer : Nat → UInt8) (tid : Tid) (g : Tape) (s : Server) (l : Label) (s' : Server) : Tape :=
  match l with
  | .thread t env =>
    if t = tid then (s.threads tid).elim g fun th =>
      g.turn peer (th.calls env (s.seen th.sess) ++ (told s s').map .reply)
    else g
  | _ => g

/-- the server, with the tape of the thread `tid` -/
abbrev taped (c : Conf) (peer : Nat → UInt8) (tid : Tid) : Runs.System (Server × Tape) Label :=
  (sys c).recording (Tape.start []) (taping peer tid)

/-- a call of the transfer loop, whatever it returns -/
def Deed.isCall : Deed → Bool
  | .reply _ => false
  | .truncated => false
  | .sought _ => false
  | _ => true

/-- the number of calls of the transfer loop -/
def Tape.calls (g : Tape) : Nat := g.tale.countP Deed.isCall

def Deed.code : Deed → Option Nat
  | .reply code => some code
  | _ => none

def Tape.codes (g : Tape) : List Nat := g.tale.filterMap Deed.code

/-- nothing has been sent -/
structure Tape.Unused (g : Tape) : Prop where
  codes : g.codes = []
  data : g.data = []
  ok : .sendFailed ∉ g.tale
  calls : g.calls = 0

/-- how far the thread has come -/
def Pc.rank (k : Kind) : Pc → Nat
  | .offset => 0
  | .clear => 1
  | .open => 2
  | .lock => 3
  | .trunc => 4
  | .stat => if k = .retr then 4 else 6
  | .seek => 5
  | .opening => 7
  | .loop => 8
  | .write _ => 8
  | .rmData => 9
  | .rmPasv => 10
  | .setPasv => 11
  | .setData => 12
  | .closeFile => 13
  | .final => 14
  | .checkAbor => 15

/-- the stages between the loop and the final reply, each with the next one -/
def Pc.cleans : Pc → Option Pc
  | .rmData => some .rmPasv
  | .rmPasv => some .setPasv
  | .setPasv => some .setData
  | .setData => some .closeFile
  | .closeFile => some .final
  | _ => none

/-- The transfer gets to its end: outside its loop the thread makes at most 16 steps, and no step fails as long as
the session is live. -/
structure Proceeds (c : Conf) (tid : Tid) (p : Server × Tape) : Prop where
  bounded : p.2.steps ≤ 16 + p.2.calls
  can : ∀ th env, p.1.threads tid = some th → p.1.heap th.sess ≠ none →
    ∃ s', (sys c).step (.thread tid env) p.1 s'

/-- every step of the thread `tid` meets `P` -/
def During (tid : Tid) (P : TEnv → Thread → Session → Tape → Prop) (p : Server × Tape) : Label → Prop
  | .thread t env => t = tid → ∀ th ∈ (p.1.threads tid).toList, P env th (p.1.seen th.sess) p.2
  | _ => True

instance (tid : Tid) (P : TEnv → Thread → Session → Tape → Prop) [∀ env th x g, Decidable (P env th x g)]
    (p : Server × Tape) : (l : Label) → Decidable (During tid P p l)
  | .thread t _ => inferInstanceAs (Decidable (t = tid → ∀ th ∈ _, _))
  | .arrive _ _ | .hangup _ | .faults _ _ | .wait _ | .timeout | .waitErr _ | .evictOne _
  | .dispatch _ _ | .command _ | .onward _ | .acceptOne _ | .acceptErr _ => inferInstanceAs (Decidable True)

/-- a download does not come to the stages of an upload -/
def Thread.onCourse (th : Thread) : Prop := th.kind = .retr → th.pc ≠ .trunc ∧ ∀ n, th.pc ≠ .write n

/-- The thread `tid` is about to run the routine from its first stage, and no ABOR has come. -/
structure Begun (k : Kind) (tid : Tid) (s : Server) : Prop where
  thread : ∃ th, s.threads tid = some th ∧ th.kind = k ∧ th.pc = .offset
  numbered : s.ledger.Numbered
  abor : NoAbor s

section
variable {c : Conf} {peer : Nat → UInt8} {cenv : Env} {env : TEnv} {tid : Tid} {th : Thread} {s s' : Server} {l : Label}
  {x y : Session} {fd : Fd} {h : Cmd} {g : Tape} {p q : Server × Tape} {D : Server × Tape → Label → Prop} {j : Sid}

/-! ## ABOR -/

theorem rewritten_abor (hx : x.aborReceived = false) : (rewritten c s l j x).aborReceived = false := by
  cases l with
  | command env =>
    cases hh : handles s (.command env) with
    | none =>
      unfold rewritten
      simp only [hh]
      exact hx
    | some r =>
      obtain ⟨sid, z, h⟩ := r
      rw [rewritten_command hh]
      split
      · rw [record_abor, hx]
      · exact hx
  | thread tid env =>
    unfold rewritten
    dsimp only
    split
    · rename_i th _
      split
      · cases th.pc <;> first | exact hx | rfl
      · exact hx
    · exact hx
  | dispatch now env =>
    unfold rewritten
    dsimp only
    split
    · split <;> exact hx
    · split <;> exact hx
  | _ => exact hx

theorem noAbor_step (hn : s.ledger.Numbered) (hen : enabled s l) (he : exec c s l = .ok s') (h : NoAbor s) :
    NoAbor s' := by
  intro j y hy
  obtain ⟨-, ⟨-, e⟩ | ⟨-, x, hx, rfl⟩⟩ := exec_record hn hen he hy
  · obtain ⟨ip, -, rfl⟩ := Option.map_eq_some_iff.mp e
    rfl
  · exact rewritten_abor (h j x hx)

theorem seen_abor (h : NoAbor s) (j : Sid) : (s.seen j).aborReceived = false := by
  unfold Server.seen
  cases hx : s.heap j with
  | none => rfl
  | some x => exact h j x hx

/-! ## runs -/

/-- what one step of the server does to the thread and its tape: nothing, or the step of the thread -/
theorem tape_step (hlt : tid < s.nextTid) (hen : enabled s l) (he : exec c s l = .ok s') :
    s'.threads tid = s.threads tid ∧ taping peer tid g s l s' = g ∨
      ∃ env th, l = .thread tid env ∧ s.threads tid = some th ∧
        s'.threads tid = th.after env (s.seen th.sess) s.fds.lowest ∧
        taping peer tid g s l s' = g.turn peer (th.deeds env (s.seen th.sess)) := by
  by_cases hl : ∃ env, l = .thread tid env
  · obtain ⟨env, rfl⟩ := hl
    obtain ⟨th, hth⟩ := Option.ne_none_iff_exists'.mp (show s.threads tid ≠ none from hen)
    have hturn : Turn env tid th s s' := thread_turn hth he
    refine Or.inr ⟨env, th, rfl, hth, hturn.thread, ?_⟩
    show (if tid = tid then _ else g) = _
    rw [if_pos rfl, hth, Option.elim_some, hturn.told]
    rfl
  · left
    have hno : ∀ env, l ≠ .thread tid env := fun env e => hl ⟨env, e⟩
    refine ⟨threads_kept hlt hen he hno, ?_⟩
    cases l with
    | thread t env =>
      apply if_neg
      rintro rfl
      exact hno env rfl
    | _ => rfl

/-- **An invariant of a thread and its tape**, from what one step of the thread does to them. -/
theorem taped_inv {I : Option Thread → Tape → Prop} (h : Runs.Path (taped c peer tid) D p q)
    (hn : p.1.ledger.Numbered) (ha : NoAbor p.1) (hlt : tid < p.1.nextTid) (h0 : I (p.1.threads tid) p.2)
    (hs : ∀ s g env th, NoAbor s → D (s, g) (.thread tid env) → s.threads tid = some th → I (some th) g →
      I (th.after env (s.seen th.sess) s.fds.lowest) (g.turn peer (th.deeds env (s.seen th.sess)))) :
    I (q.1.threads tid) q.2 := by
  refine (Runs.Path.inv (I := fun p => p.1.ledger.Numbered ∧ NoAbor p.1 ∧ tid < p.1.nextTid ∧
    I (p.1.threads tid) p.2) ?_ h ⟨hn, ha, hlt, h0⟩).2.2.2
  rintro ⟨s, g⟩ l ⟨s', g'⟩ ⟨hn, ha, hlt, hi⟩ hd ⟨⟨hen, he⟩, e⟩
  dsimp only at e hn ha hlt hi hen he
  subst e
  obtain ⟨op, ho⟩ := exec_step hen he
  refine ⟨ho.step.numbered hn, noAbor_step hn hen he ha, Nat.lt_of_lt_of_le hlt ho.step.nextTid_le, ?_⟩
  rcases (tape_step hlt hen he : _ ∧ taping peer tid g s l s' = g ∨ _) with ⟨e1, e2⟩ | ⟨env, th, rfl, hth, e1, e2⟩
  · show I (s'.threads tid) (taping peer tid g s l s')
    rw [e1, e2]
    exact hi
  · show I (s'.threads tid) (taping peer tid g s (.thread tid env) s')
    rw [e1, e2]
    exact hs s g env th ha hd hth (hth ▸ hi)

/-! ## the tape -/

theorem add_tale (d : Deed) : (g.add peer d).tale = g.tale ++ [d] := by
  cases d <;> rfl

theorem foldl_tale (ds : List Deed) : (ds.foldl (Tape.add peer) g).tale = g.tale ++ ds := by
  induction ds generalizing g with
  | nil => exact (List.append_nil _).symm
  | cons d ds ih => rw [List.foldl_cons, ih, add_tale, List.append_assoc, List.singleton_append]

@[simp] theorem turn_tale (ds : List Deed) : (g.turn peer ds).tale = g.tale ++ ds := foldl_tale ds

@[simp] theorem turn_steps (ds : List Deed) : (g.turn peer ds).steps = g.steps + 1 := rfl

theorem turn_calls (ds : List Deed) : (g.turn peer ds).calls = g.calls + ds.countP Deed.isCall := by
  unfold Tape.calls
  rw [turn_tale, List.countP_append]

theorem turn_codes (ds : List Deed) : (g.turn peer ds).codes = g.codes ++ ds.filterMap Deed.code := by
  unfold Tape.codes
  rw [turn_tale, List.filterMap_append]

theorem foldl_replies (codes : List Nat) : ((codes.map .reply).foldl (Tape.add peer) g).file = g.file ∧
    ((codes.map .reply).foldl (Tape.add peer) g).data = g.data ∧
    ((codes.map .reply).foldl (Tape.add peer) g).chunk = g.chunk := by
  induction codes generalizing g with
  | nil => exact ⟨rfl, rfl, rfl⟩
  | cons code codes ih => exact ih

theorem replies_mem {d : Deed} (hd : d.code = none) (codes : List Nat) :
    d ∈ (g.turn peer (codes.map .reply)).tale ↔ d ∈ g.tale := by
  rw [turn_tale, List.mem_append, or_iff_left]
  intro hm
  obtain ⟨code, -, rfl⟩ := List.mem_map.mp hm
  cases hd

theorem replies_calls (codes : List Nat) : (codes.map Deed.reply).countP Deed.isCall = 0 := by
  apply List.countP_eq_zero.mpr
  intro d hd
  obtain ⟨code, -, rfl⟩ := List.mem_map.mp hd
  exact Bool.false_ne_true

theorem deeds_silent (hs : th.pc.silent = true) (hr : th.refused env x = false) :
    th.deeds env x = th.calls env x := by
  unfold Thread.deeds
  rw [tells_silent hs hr]
  exact List.append_nil _

/-- these stages say nothing and touch neither the file nor the data -/
theorem cleans_step {r : Pc} (h : th.pc.cleans = some r) :
    th.refused env x = false ∧ th.goes env x fd = { th with pc := r } ∧ th.deeds env x = [] := by
  have hr : th.refused env x = false := by
    apply refused_other
    cases hpc : th.pc <;> rw [hpc] at h <;> first | rfl | cases h
  have hs : th.pc.silent = true := by
    cases hpc : th.pc <;> rw [hpc] at h <;> first | rfl | cases h
  refine ⟨hr, ?_, (deeds_silent hs hr).trans ?_⟩
  · unfold Thread.goes
    cases hpc : th.pc <;> rw [hpc] at h <;> cases h <;> rfl
  · unfold Thread.calls
    cases hpc : th.pc <;> rw [hpc] at h <;> cases h

theorem deeds_calls : (th.deeds env x).countP Deed.isCall = (th.calls env x).countP Deed.isCall := by
  unfold Thread.deeds
  rw [List.countP_append, replies_calls, Nat.add_zero]

/-! ## the stages -/

theorem after_on (hpc : th.pc ≠ .checkAbor) (hr : th.refused env x = false) :
    th.after env x fd = some (th.goes env x fd) := by
  unfold Thread.after
  rw [if_neg (Bool.eq_false_iff.mp (stays_of hpc hr))]

theorem after_refused (hr : th.refused env x = true) : th.after env x fd = none := by
  unfold Thread.after
  rw [if_pos (refused_returns hr)]

theorem after_done (hpc : th.pc = .checkAbor) : th.after env x fd = none := by
  unfold Thread.after Thread.returns
  rw [decide_eq_true hpc, Bool.true_or, if_pos rfl]

theorem deeds_done (hpc : th.pc = .checkAbor) : th.deeds env x = [] := by
  unfold Thread.deeds Thread.calls Thread.tells
  rw [refused_other (by rw [hpc]; rfl), hpc]
  rfl

theorem goes_offset (hpc : th.pc = .offset) :
    th.goes env x fd = { th with offset := x.restartPos, pc := .clear } := by
  unfold Thread.goes
  simp only [hpc]

theorem goes_clear (hpc : th.pc = .clear) : th.goes env x fd = { th with pc := .open } := by
  unfold Thread.goes
  simp only [hpc]

theorem goes_open (hpc : th.pc = .open) : th.goes env x fd = { th with file := some fd, pc := .lock } := by
  unfold Thread.goes
  simp only [hpc]

theorem goes_opening (hpc : th.pc = .opening) : th.goes env x fd =
    { th with flag := 0, left := if th.offset > th.size then 0 else th.size - th.offset, pc := .loop } := by
  unfold Thread.goes
  simp only [hpc]

theorem deeds_opening (hpc : th.pc = .opening) : th.deeds env x = [.reply FTP_DATACONN] := by
  unfold Thread.deeds Thread.calls Thread.tells
  rw [refused_other (by rw [hpc]; rfl), hpc]
  rfl

theorem goes_final (hpc : th.pc = .final) : th.goes env x fd = { th with pc := .checkAbor } := by
  unfold Thread.goes
  simp only [hpc]

theorem deeds_final (hpc : th.pc = .final) : th.deeds env x = (th.verdict x).toList.map .reply := by
  unfold Thread.deeds Thread.calls Thread.tells
  rw [refused_other (by rw [hpc]; rfl), hpc]
  rfl

/-- the stages before the first call on the open file -/
def Pc.enters : Pc → Bool
  | .offset => true
  | .clear => true
  | .open => true
  | .lock => true
  | .stat => true
  | _ => false

theorem deeds_enters (he : th.pc.enters = true) (hr : th.refused env x = false) : th.deeds env x = [] := by
  have hs : th.pc.silent = true := by
    cases hpc : th.pc <;> rw [hpc] at he <;> first | rfl | cases he
  rw [deeds_silent hs hr]
  unfold Thread.calls
  cases hpc : th.pc <;> rw [hpc] at he <;> cases he

theorem turn_quiet : (g.turn peer []).codes = g.codes ∧ (g.turn peer []).calls = g.calls ∧
    (g.turn peer []).tale = g.tale :=
  ⟨(turn_codes []).trans (List.append_nil _), turn_calls [], (turn_tale []).trans (List.append_nil _)⟩

theorem unused_turn (h : g.Unused) {ds : List Deed} (hds : ∀ d ∈ ds, d.code = none ∧ d.isCall = false)
    (hdata : (g.turn peer ds).data = g.data) : (g.turn peer ds).Unused where
  codes := by
    rw [turn_codes, h.codes, List.filterMap_eq_nil_iff.mpr fun d hd => (hds d hd).1]
    rfl
  data := hdata.trans h.data
  ok := by
    rw [turn_tale, List.mem_append]
    rintro (hm | hm)
    · exact h.ok hm
    · exact absurd (hds _ hm).2 nofun
  calls := by
    rw [turn_calls, h.calls, List.countP_eq_zero.mpr]
    intro d hd
    rw [(hds d hd).2]
    exact Bool.false_ne_true

theorem unused_quiet (h : g.Unused) : (g.turn peer []).Unused := unused_turn h nofun rfl

/-! ## the number of steps -/

theorem goes_kind : (th.goes env x fd).kind = th.kind := by
  unfold Thread.goes
  repeat' split
  all_goals rfl

theorem goes_sess : (th.goes env x fd).sess = th.sess := by
  unfold Thread.goes
  repeat' split
  all_goals rfl

theorem rank_le (k : Kind) (pc : Pc) : pc.rank k ≤ 15 := by
  cases pc with
  | stat =>
    show (if k = .retr then 4 else 6) ≤ 15
    split
    · omega
    · omega
  | _ => exact Nat.le_of_ble_eq_true rfl

theorem stays_iff : th.returns env x = false ↔ th.pc ≠ .checkAbor ∧ th.refused env x = false := by
  unfold Thread.returns
  rw [Bool.or_eq_false_iff, decide_eq_false_iff_not]

theorem onCourse_goes (hc : th.onCourse) : (th.goes env x fd).onCourse := by
  intro hk
  rw [goes_kind] at hk
  obtain ⟨h1, h2⟩ := hc hk
  unfold Thread.goes
  cases hpc : th.pc with
  | trunc => exact absurd hpc h1
  | write n => exact absurd hpc (h2 n)
  | loop =>
    simp only [hk]
    repeat' split
    all_goals exact ⟨by simp, by simp⟩
  | stat =>
    simp only [hk]
    split
    · exact ⟨nofun, nofun⟩
    · exact ⟨nofun, nofun⟩
  | _ => simp [hk, hpc]

/-- a step that does not return comes further, unless it is a call of the loop -/
theorem rank_goes (hc : th.onCourse) (hret : th.returns env x = false) :
    th.pc.rank th.kind + 1 ≤ (th.goes env x fd).pc.rank th.kind + (th.calls env x).countP Deed.isCall := by
  obtain ⟨hne, -⟩ := stays_iff.mp hret
  -- outside the loop it is the stage that counts
  have hon : th.pc.rank th.kind + 1 ≤ (th.goes env x fd).pc.rank th.kind → _ :=
    fun h => Nat.le_add_right_of_le (k := (th.calls env x).countP Deed.isCall) h
  cases hk : th.kind with
  | retr =>
    rw [hk] at hon
    cases hpc : th.pc with
    | trunc => exact absurd hpc (hc hk).1
    | write n => exact absurd hpc ((hc hk).2 n)
    | checkAbor => exact absurd hpc hne
    | loop =>
      unfold Thread.goes Thread.calls
      simp only [hpc, hk]
      repeat' split
      all_goals simp [Pc.rank, Deed.isCall]
    | stat =>
      rw [hpc] at hon
      apply hon
      unfold Thread.goes
      simp only [hpc, hk]
      split <;> simp [Pc.rank]
    | _ =>
      rw [hpc] at hon
      apply hon
      simp [Thread.goes, hpc, hk, Pc.rank]
  | stor a =>
    rw [hk] at hon
    cases hpc : th.pc with
    | checkAbor => exact absurd hpc hne
    | loop =>
      unfold Thread.goes Thread.calls
      simp only [hpc, hk]
      repeat' split
      all_goals simp [Pc.rank, Deed.isCall, hpc]
    | write n =>
      unfold Thread.goes Thread.calls
      simp only [hpc, hk]
      repeat' split
      all_goals simp [Pc.rank, Deed.isCall, hpc]
    | lock =>
      rw [hpc] at hon
      apply hon
      unfold Thread.goes
      simp only [hpc, hk]
      split <;> simp [Pc.rank]
    | _ =>
      rw [hpc] at hon
      apply hon
      simp [Thread.goes, hpc, hk, Pc.rank]

/-- the steps of the thread, up to where it stands -/
def Paced (o : Option Thread) (g : Tape) : Prop :=
  match o with
  | some th => th.onCourse ∧ g.steps ≤ th.pc.rank th.kind + g.calls
  | none => g.steps ≤ 16 + g.calls

theorem paced_step (h : Paced (some th) g) :
    Paced (th.after env x fd) (g.turn peer (th.deeds env x)) := by
  obtain ⟨hc, hle⟩ := h
  have hcalls : (g.turn peer (th.deeds env x)).calls = g.calls + (th.calls env x).countP Deed.isCall := by
    rw [turn_calls, deeds_calls]
  unfold Thread.after
  split
  · show (g.turn peer (th.deeds env x)).steps ≤ 16 + (g.turn peer (th.deeds env x)).calls
    rw [turn_steps, hcalls]
    have hr : th.pc.rank th.kind ≤ 15 := rank_le _ _
    omega
  · rename_i hret
    refine ⟨onCourse_goes hc, ?_⟩
    rw [turn_steps, hcalls, goes_kind]
    have hr : _ ≤ (th.goes env x fd).pc.rank th.kind + _ := rank_goes hc (Bool.eq_false_iff.mpr hret)
    omega

theorem solo_step (c : Conf) (peer : Nat → UInt8) (p : Server × Tape) (env : TEnv)
    (hn : p.1.ledger.Numbered) (ha : NoAbor p.1) (hth : p.1.threads tid = some th)
    (hx : p.1.heap th.sess = some x) : ∃ q, (taped c peer tid).step (.thread tid env) p q ∧
      q.1.threads tid = th.after env x p.1.fds.lowest ∧ q.2 = p.2.turn peer (th.deeds env x) ∧
      q.1.heap th.sess = some (th.pc.record x) ∧ q.1.ledger.Numbered ∧ NoAbor q.1 := by
  obtain ⟨s', he⟩ := thread_can env hth hx
  have hen : enabled p.1 (.thread tid env) := by
    show p.1.threads tid ≠ none
    rw [hth]
    exact Option.some_ne_none th
  have hturn : Turn env tid th p.1 s' := thread_turn hth he
  have hseen : p.1.seen th.sess = x := seen_of hx
  obtain ⟨op, ho⟩ := exec_step (c := c) hen he
  refine ⟨(s', taping peer tid p.2 p.1 (.thread tid env) s'), ⟨⟨hen, he⟩, rfl⟩, ?_, ?_, ?_, ho.step.numbered hn,
    noAbor_step (c := c) hn hen he ha⟩
  · rw [← hseen]
    exact hturn.thread
  · show (if tid = tid then _ else p.2) = _
    rw [if_pos rfl, hth, Option.elim_some, hturn.told, hseen]
    rfl
  · obtain ⟨o, hran⟩ := thread_ran hth he
    show s'.heap th.sess = _
    rw [hran.beside, if_pos rfl, hx]
    rfl

theorem Begun.inv {k : Kind} {I : Option Thread → Tape → Prop} (hb : Begun k tid s)
    (h : Runs.Path (taped c peer tid) D (s, g) q)
    (h0 : ∀ th, th.kind = k → th.pc = .offset → I (some th) g)
    (hs : ∀ s g env th, NoAbor s → D (s, g) (.thread tid env) → s.threads tid = some th → I (some th) g →
      I (th.after env (s.seen th.sess) s.fds.lowest) (g.turn peer (th.deeds env (s.seen th.sess)))) :
    I (q.1.threads tid) q.2 := by
  obtain ⟨th, hth, hk, hpc⟩ := hb.thread
  refine taped_inv h hb.numbered hb.abor (hb.numbered.worker tid _ (ledger_worker hth)) ?_ hs
  show I (s.threads tid) g
  rw [hth]
  exact h0 th hk hpc

theorem paced_run {k : Kind} {bs : List UInt8} (hb : Begun k tid s)
    (h : Runs.Path (taped c peer tid) D (s, Tape.start bs) q) : Paced (q.1.threads tid) q.2 :=
  hb.inv (I := Paced) h
    (fun th _ hpc => ⟨fun _ => ⟨by rw [hpc]; nofun, by rw [hpc]; nofun⟩, Nat.zero_le _⟩)
    fun s g env th _ _ _ hi => paced_step hi

/-- **The steps of a transfer thread** are the calls of its loop and at most 16 more. -/
theorem begun_proceeds {k : Kind} {bs : List UInt8} (hb : Begun k tid s)
    (h : Runs.Path (taped c peer tid) D (s, Tape.start bs) q) : Proceeds c tid q := by
  have hpaced : Paced (q.1.threads tid) q.2 := paced_run hb h
  constructor
  · unfold Paced at hpaced
    split at hpaced
    · rename_i th _
      have hr : th.pc.rank th.kind ≤ 15 := rank_le _ _
      omega
    · exact hpaced
  · intro th env hth hlive
    obtain ⟨x, hx⟩ := Option.ne_none_iff_exists'.mp hlive
    obtain ⟨s', hs'⟩ := thread_can env hth hx
    exact ⟨s', by show q.1.threads tid ≠ none; rw [hth]; exact Option.some_ne_none th, hs'⟩

theorem noAbor_reach {C : Server → Label → Prop} (h : Reach c C s) : NoAbor s := by
  refine Runs.Reach.inv_with (J := fun s => s.ledger.Numbered) (I := NoAbor) (fun s hs => numbered_reach hs) ?_ ?_ h
  · rintro s ⟨fds, -, rfl⟩ sid x hx
    cases hx
  · intro s l s' hn hi _ ht
    exact noAbor_step hn ht.1 ht.2 hi

theorem begun_reach {C : Server → Label → Prop} (h : Reach c C s) (hth : s.threads tid = some th)
    (hpc : th.pc = .offset) : Begun th.kind tid s :=
  ⟨⟨th, hth, rfl, hpc⟩, numbered_reach h, noAbor_reach h⟩

end

/-- a transfer in the sample server: `ls` leads to its start, and `ls'` goes on from there -/
theorem sample_transfer (k : Kind) (peer : Nat → UInt8) (bs : List UInt8) (ls ls' : List Label)
    (D : Server × Tape → Label → Prop) [∀ p l, Decidable (D p l)] (t : Server × Tape → Bool)
    (h : (play sampleConf Runs.Any sampleBoot ls).any (fun s =>
      (s.threads 0).any (fun th => decide (th.kind = k ∧ th.pc = .offset)) &&
        (playNoted sampleConf (taping peer 0) D (s, Tape.start bs) ls').any t) = true) :
    ∃ s q, Begun k 0 s ∧ Runs.Path (taped sampleConf peer 0) D (s, Tape.start bs) q ∧ t q = true := by
  obtain ⟨s, hs, hp⟩ := reach_of_play (sampleReach Runs.Any) h
  rw [Bool.and_eq_true] at hp
  obtain ⟨th, hth, hk⟩ := (Option.any_eq_true _ _).mp hp.1
  obtain ⟨rfl, hpc⟩ := of_decide_eq_true hk
  obtain ⟨q, hq, ht⟩ : ∃ q, Runs.Trail (taped sampleConf peer 0) D (s, Tape.start bs) ls' q ∧ t q = true :=
    trail_of_play hp.2
  exact ⟨s, q, begun_reach hs hth hpc, hq.path, ht⟩

end Myftpd
