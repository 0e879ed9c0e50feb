import Myftpd.Course

/-!
# The steps of a transfer thread

`Round` says what a step of a transfer thread does, case by case and whatever its routine; it is read off `thread_eq`.

* `Pc.follows`    the order of the stages;
* `thread_round`  every step.
-/

namespace Myftpd
open CMem Server

/-- the stages that can come after a stage -/
def Pc.follows (k : Kind) : Pc → Pc → Prop
  | .offset, q => q = .clear
  | .clear, q => q = .open
  | .open, q => q = .lock
  | .lock, q => match k with
    | .retr => q = .stat
    | .stor _ => q = .trunc ∨ q = .seek
  | .trunc, q => q = .seek
  | .seek, q => match k with
    | .retr => q = .opening
    | .stor _ => q = .stat
  | .stat, q => match k with
    | .retr => q = .opening ∨ q = .seek
    | .stor _ => q = .opening
  | .opening, q => q = .loop
  | .loop, q => q = .loop ∨ q = .rmData ∨ k ≠ .retr ∧ ∃ n, q = .write n
  | .write _, q => q = .loop ∨ q = .rmData ∨ ∃ n, q = .write n
  | .rmData, q => q = .rmPasv
  | .rmPasv, q => q = .setPasv
  | .setPasv, q => q = .setData
  | .setData, q => q = .closeFile
  | .closeFile, q => q = .final
  | .final, q => q = .checkAbor
  | .checkAbor, _ => False

/-- the stages at which a step can leave the thread as it is -/
def Pc.idles : Pc → Bool
  | .trunc => true
  | .loop => true
  | .write _ => true
  | _ => false

/-- the stages at which a refusal ends the thread -/
def Pc.refuses : Pc → Bool
  | .open => true
  | .lock => true
  | .seek => true
  | .stat => true
  | _ => false

/-- the stages that work on the open file -/
def Pc.works : Pc → Bool
  | .lock => true
  | .trunc => true
  | .seek => true
  | .stat => true
  | .loop => true
  | .write _ => true
  | _ => false

/-- the thread `th` goes on as `u` -/
structure Onward (env : TEnv) (th u : Thread) : Prop where
  sess : u.sess = th.sess
  cmd : u.cmd = th.cmd
  kind : u.kind = th.kind
  file : u.file = th.file
  offset : u.offset = th.offset
  flag : u.flag = th.flag ∨ u.flag ≤ 2
  follows : th.pc.follows th.kind u.pc
  lock : th.pc = .lock → env.lock = true

/-- A step of the thread `tid`, which is `th` before it. -/
inductive Round (env : TEnv) (tid : Tid) (th : Thread) (s : Server) : Server → Prop where
  | refuse {x : Session} : th.pc.refuses = true → s.heap th.sess = some x →
      (th.pc = .open → x.openFile env = none) →
      Round env tid th s (endThread tid (s.ftpReply th.sess x (some th.cmd) (failReply th.kind).1
        (ascii (failReply th.kind).2)))
  | offset {x : Session} : th.pc = .offset → s.heap th.sess = some x →
      Round env tid th s (setThread tid s { th with offset := x.restartPos, pc := .clear })
  | clear {x : Session} : th.pc = .clear → s.heap th.sess = some x →
      Round env tid th s (next tid th (s.put th.sess { x with restartPos := 0 }) .open)
  | openat {x : Session} {op : FsOp} : th.pc = .open → s.heap th.sess = some x →
      x.openFile env = some () →
      op = .openRead (.dirfd x.dirfd) x.arg ∨ op = .create (.dirfd x.dirfd) x.arg →
      Round env tid th s (setThread tid (emit { s with fds := s.fds.alloc (.file tid) } (.fs th.sess op))
        { th with file := some s.fds.lowest, pc := .lock })
  | on {u : Thread} : th.pc.works = true → Onward env th u → Round env tid th s (setThread tid s u)
  | file {op : FsOp} {u : Thread} : th.pc.works = true →
      op = .truncate ∨ (∃ n, op = .send n) ∨ (∃ n, op = .write n) → Onward env th u →
      Round env tid th s (setThread tid (s.emit (.fs th.sess op)) u)
  | opening {x : Session} {text : List UInt8} {u : Thread} : th.pc = .opening →
      s.heap th.sess = some x → Onward env th u →
      Round env tid th s (setThread tid (s.ftpReply th.sess x (some th.cmd) FTP_DATACONN text) u)
  | rmData {x : Session} : th.pc = .rmData → s.heap th.sess = some x →
      Round env tid th s (next tid th (s.removefd x.dataFd) .rmPasv)
  | rmPasv {x : Session} : th.pc = .rmPasv → s.heap th.sess = some x →
      Round env tid th s (next tid th (s.removefd x.pasvListenFd) .setPasv)
  | setPasv {x : Session} : th.pc = .setPasv → s.heap th.sess = some x →
      Round env tid th s (next tid th (s.put th.sess { x with pasvListenFd := none }) .setData)
  | setData {x : Session} : th.pc = .setData → s.heap th.sess = some x →
      Round env tid th s (next tid th (s.put th.sess { x with dataFd := none }) .closeFile)
  | closeFile : th.pc = .closeFile → Round env tid th s (next tid th (s.closeOpt th.file) .final)
  | final {x : Session} {code : Nat} {text : List UInt8} : th.pc = .final → s.heap th.sess = some x →
      200 ≤ code ∧ code < 600 →
      Round env tid th s (next tid th (s.ftpReply th.sess x (some th.cmd) code text) .checkAbor)
  | silent {x : Session} : th.pc = .final → s.heap th.sess = some x →
      (th.flag ≤ 2 → x.aborReceived = true) → Round env tid th s (next tid th s .checkAbor)
  | aborted {x : Session} : th.pc = .checkAbor → s.heap th.sess = some x → x.aborReceived = true →
      Round env tid th s (endThread tid ((s.put th.sess { x with aborReceived := false }).emit
        (.mainReply FTP_ABOROK (ascii "ABOR successful"))))
  | returns {x : Session} : th.pc = .checkAbor → s.heap th.sess = some x → x.aborReceived = false →
      Round env tid th s (endThread tid s)
  | idle : th.pc.idles = true → Round env tid th s s

section
variable {env : TEnv} {tid : Tid} {th : Thread} {s s' : Server}

theorem refused_refuses {x : Session} (h : th.refused env x = true) : th.pc.refuses = true := by
  unfold Thread.refused at h
  cases hpc : th.pc with
  | «open» => rfl
  | lock => rfl
  | stat => rfl
  | seek => rfl
  | _ => rw [hpc] at h; cases h

theorem refused_rest {x : Session} (h : th.refused env x = true) : th.rest env tid x s = s := by
  obtain ⟨sess, cmd, kind, p, offset, file, size, left, flag⟩ := th
  cases p with
  | «open» => exact if_pos h
  | lock => rfl
  | stat => rfl
  | seek => rfl
  | _ => cases h

theorem onward (hl : th.pc ≠ .lock) {q : Pc} {size left : Int} {flag : Nat}
    (hf : flag = th.flag ∨ flag ≤ 2) (h : th.pc.follows th.kind q) :
    Onward env th { th with pc := q, size := size, left := left, flag := flag } where
  sess := rfl
  cmd := rfl
  kind := rfl
  file := rfl
  offset := rfl
  flag := hf
  follows := h
  lock := fun e => absurd e hl

/-- **The final reply** is left out only after ABOR, or with a flag that the loop does not set. -/
theorem final_round {x : Session} (hpc : th.pc = .final) (hx : s.heap th.sess = some x) :
    Round env tid th s (next tid th (s.emits (th.closing x)) .checkAbor) := by
  unfold Thread.closing
  split
  · exact .final hpc hx (by decide)
  · rename_i h0
    split
    · exact .final hpc hx (by decide)
    · rename_i h1
      split
      · exact .final hpc hx (by decide)
      · rename_i h2
        rw [emits_nil]
        refine .silent hpc hx fun hf => ?_
        have hz : th.flag = 0 := by omega
        by_contra ha
        exact h0 ⟨hz, Bool.eq_false_iff.mpr ha⟩

theorem send_round {x : Session} (hk : th.kind = .retr) (hpc : th.pc = .loop) :
    Round env tid th s (setThread tid (s.emits (th.acts env x)) (th.goes env x s.fds.lowest)) := by
  have hne : th.pc ≠ .lock := by rw [hpc]; nofun
  have hleave : ∀ {flag : Nat}, flag ≤ 2 → Onward env th { th with flag := flag, pc := .rmData } :=
    fun hf => onward hne (Or.inr hf) (by rw [hpc]; exact Or.inr (Or.inl rfl))
  have hstay : ∀ n : Nat, Onward env th { th with left := th.left - n } :=
    fun n => ⟨rfl, rfl, rfl, rfl, rfl, Or.inl rfl, by rw [hpc]; exact Or.inl rfl, fun e => absurd e hne⟩
  obtain ⟨sess, cmd, kind, p, offset, file, size, left, flag⟩ := th
  cases hk
  cases hpc
  show Round env tid _ s (setThread tid (s.emits (if left = 0 then [] else _)) (if left = 0 then _ else _))
  split
  · rw [emits_nil]
    exact .on rfl (hleave (Nat.zero_le 2))
  · cases hn : Thread.sends ⟨sess, cmd, .retr, .loop, offset, file, size, left, flag⟩ env x with
    | none =>
      rw [Option.elim_none, emits_nil]
      exact .on rfl (hleave (Nat.le_refl 2))
    | some n =>
      cases ha : x.aborReceived with
      | true => exact .file rfl (Or.inr (Or.inl ⟨n, rfl⟩)) (hleave (Nat.le_refl 2))
      | false => exact .file rfl (Or.inr (Or.inl ⟨n, rfl⟩)) (hstay n)

theorem receive_round {x : Session} {a : Bool} (hth : s.threads tid = some th) (hk : th.kind = .stor a)
    (hpc : th.pc = .loop) : Round env tid th s (setThread tid s (th.goes env x s.fds.lowest)) := by
  have hne : th.pc ≠ .lock := by rw [hpc]; nofun
  have hleave : ∀ {flag : Nat}, flag ≤ 2 → Onward env th { th with flag := flag, pc := .rmData } :=
    fun hf => onward hne (Or.inr hf) (by rw [hpc]; exact Or.inr (Or.inl rfl))
  have hgo : ∀ n, Onward env th { th with pc := .write n } :=
    fun n => onward hne (Or.inl rfl) (by rw [hpc]; exact Or.inr (Or.inr ⟨by rw [hk]; nofun, n, rfl⟩))
  have hidle : Round env tid th s (setThread tid s th) := by
    rw [setThread_same hth]
    exact .idle (by rw [hpc]; rfl)
  obtain ⟨sess, cmd, kind, p, offset, file, size, left, flag⟩ := th
  cases hk
  cases hpc
  unfold Thread.goes
  cases Thread.reads env x with
  | intr => exact hidle
  | err => exact .on rfl (hleave (Nat.le_refl 2))
  | ok n =>
    cases n with
    | zero => exact .on rfl (hleave (Nat.zero_le 2))
    | succ n =>
      cases ha : x.aborReceived with
      | true => exact .on rfl (hleave (Nat.le_refl 2))
      | false => exact .on rfl (hgo (n + 1))

theorem write_round {x : Session} {a : Bool} {n : Nat} (hth : s.threads tid = some th) (hk : th.kind = .stor a)
    (hpc : th.pc = .write n) :
    Round env tid th s (setThread tid (s.emits (th.acts env x)) (th.goes env x s.fds.lowest)) := by
  have hidle : Round env tid th s (setThread tid s th) := by
    rw [setThread_same hth]
    exact .idle (by rw [hpc]; rfl)
  obtain ⟨sess, cmd, kind, p, offset, file, size, left, flag⟩ := th
  cases hk
  cases hpc
  unfold Thread.acts Thread.goes
  cases env.write with
  | intr =>
    rw [emits_nil]
    exact hidle
  | err =>
    rw [emits_nil]
    exact .on rfl (onward (by nofun) (Or.inr (Nat.le_succ 1)) (Or.inr (Or.inl rfl)))
  | ok k =>
    refine .file rfl (Or.inr (Or.inr ⟨_, rfl⟩)) (onward (by nofun) (Or.inl rfl) ?_)
    show (if n - k = 0 then Pc.loop else .write (n - k)) = .loop ∨ _ = Pc.rmData ∨ ∃ m, _ = Pc.write m
    split
    · exact Or.inl rfl
    · exact Or.inr (Or.inr ⟨_, rfl⟩)

/-- **Every step of a transfer thread.** -/
theorem thread_round (hth : s.threads tid = some th) (he : threadStep env tid s = .ok s') :
    Round env tid th s s' := by
  obtain ⟨huse, rfl⟩ := thread_stepped hth he
  generalize s.seen th.sess = x at huse ⊢
  by_cases hr : th.refused env x = true
  · rw [stepped_refused hr (refused_rest hr)]
    refine .refuse (refused_refuses hr) (huse (refused_uses hr)) fun hpc => ?_
    unfold Thread.refused at hr
    rw [hpc] at hr
    exact Option.isNone_iff_eq_none.mp hr
  have hlogs : th.logs env x = th.acts env x := if_neg hr
  have hon : th.pc ≠ .checkAbor → th.stepped env tid x s =
      setThread tid ((th.rest env tid x s).emits (th.acts env x)) (th.goes env x s.fds.lowest) := by
    intro hc
    rw [stepped_on (stays_of hc (Bool.eq_false_iff.mpr hr)), hlogs]
  have hquiet : th.pc ≠ .checkAbor → th.acts env x = [] →
      th.stepped env tid x s = setThread tid (th.rest env tid x s) (th.goes env x s.fds.lowest) := by
    intro hc ha
    rw [hon hc, ha, emits_nil]
  have hidle : th.pc.idles = true → Round env tid th s (setThread tid s th) := by
    intro hi
    rw [setThread_same hth]
    exact .idle hi
  obtain ⟨sess, cmd, kind, p, offset, file, size, left, flag⟩ := th
  cases p with
  | offset => rw [hquiet nofun rfl]; exact .offset rfl (huse rfl)
  | clear => rw [hquiet nofun rfl]; exact .clear rfl (huse rfl)
  | rmData => rw [hquiet nofun rfl]; exact .rmData rfl (huse rfl)
  | rmPasv => rw [hquiet nofun rfl]; exact .rmPasv rfl (huse rfl)
  | setPasv => rw [hquiet nofun rfl]; exact .setPasv rfl (huse rfl)
  | setData => rw [hquiet nofun rfl]; exact .setData rfl (huse rfl)
  | closeFile => rw [hquiet nofun rfl]; exact .closeFile rfl
  | final => rw [hon nofun]; exact final_round rfl (huse rfl)
  | opening => rw [hon nofun]; exact .opening rfl (huse rfl) (onward (by nofun) (Or.inr (Nat.zero_le 2)) rfl)
  | «open» =>
    have hrest : Thread.rest env tid x ⟨sess, cmd, kind, .open, offset, file, size, left, flag⟩ s =
      { s with fds := s.fds.alloc (.file tid) } := if_neg hr
    have ho : x.openFile env = some () := by
      cases h : x.openFile env with
      | none => exact absurd (Option.isNone_iff_eq_none.mpr h) hr
      | some u => rfl
    rw [hon nofun, hrest]
    cases kind with
    | retr => exact .openat rfl (huse rfl) ho (Or.inl rfl)
    | stor a => exact .openat rfl (huse rfl) ho (Or.inr rfl)
  | lock =>
    have hl : env.lock = true := by
      cases h : env.lock with
      | true => rfl
      | false => exact absurd (congrArg Bool.not h) hr
    rw [hquiet nofun rfl]
    cases kind with
    | retr => exact .on rfl ⟨rfl, rfl, rfl, rfl, rfl, Or.inl rfl, rfl, fun _ => hl⟩
    | stor a =>
      refine .on rfl ⟨rfl, rfl, rfl, rfl, rfl, Or.inl rfl, ?_, fun _ => hl⟩
      show (if a = false ∧ offset = 0 then Pc.trunc else .seek) = .trunc ∨
        (if a = false ∧ offset = 0 then Pc.trunc else .seek) = Pc.seek
      split
      · exact Or.inl rfl
      · exact Or.inr rfl
  | stat =>
    rw [hquiet nofun rfl]
    cases kind with
    | retr =>
      refine .on rfl (onward (by nofun) (Or.inl rfl) ?_)
      show (if offset = 0 then Pc.opening else .seek) = .opening ∨ _ = Pc.seek
      split
      · exact Or.inl rfl
      · exact Or.inr rfl
    | stor a => exact .on rfl (onward (by nofun) (Or.inl rfl) rfl)
  | seek =>
    rw [hquiet nofun rfl]
    cases kind with
    | retr => exact .on rfl (onward (by nofun) (Or.inl rfl) rfl)
    | stor a => exact .on rfl (onward (by nofun) (Or.inl rfl) rfl)
  | trunc =>
    cases kind with
    | retr =>
      rw [hquiet nofun rfl]
      exact hidle rfl
    | stor a =>
      rw [hon nofun]
      exact .file rfl (Or.inl rfl) (onward (by nofun) (Or.inl rfl) rfl)
  | loop =>
    cases kind with
    | retr =>
      rw [hon nofun]
      exact send_round rfl rfl
    | stor a =>
      rw [hquiet nofun rfl]
      exact receive_round hth rfl rfl
  | write n =>
    cases kind with
    | retr =>
      rw [hquiet nofun rfl]
      exact hidle rfl
    | stor a =>
      rw [hon nofun]
      exact write_round hth rfl rfl
  | checkAbor =>
    have hacts : Thread.acts env x ⟨sess, cmd, kind, .checkAbor, offset, file, size, left, flag⟩ =
      if x.aborReceived = true then [.mainReply FTP_ABOROK (ascii "ABOR successful")] else [] := rfl
    have hrest : Thread.rest env tid x ⟨sess, cmd, kind, .checkAbor, offset, file, size, left, flag⟩ s =
      if x.aborReceived = true then s.put sess { x with aborReceived := false } else s := rfl
    rw [stepped_done rfl, hlogs, hacts, hrest]
    by_cases ha : x.aborReceived = true
    · rw [if_pos ha, if_pos ha]
      exact .aborted rfl (huse rfl) ha
    · rw [if_neg ha, if_neg ha, emits_nil]
      exact .returns rfl (huse rfl) (Bool.eq_false_iff.mpr ha)

/-! ## the order of the stages -/

theorem idles_works {pc : Pc} (h : pc.idles = true) : pc.works = true := by
  cases pc <;> first | rfl | cases h

theorem follows_works {k : Kind} {p q : Pc} (h : p.follows k q) (hp : p.works = true) :
    q = .rmData ∨ q = .opening ∨ q.works = true := by
  cases p with
  | lock =>
    cases k with
    | retr => cases h; exact Or.inr (Or.inr rfl)
    | stor a => rcases h with rfl | rfl <;> exact Or.inr (Or.inr rfl)
  | trunc => cases h; exact Or.inr (Or.inr rfl)
  | seek =>
    cases k with
    | retr => cases h; exact Or.inr (Or.inl rfl)
    | stor a => cases h; exact Or.inr (Or.inr rfl)
  | stat =>
    cases k with
    | retr =>
      rcases h with rfl | rfl
      · exact Or.inr (Or.inl rfl)
      · exact Or.inr (Or.inr rfl)
    | stor a => cases h; exact Or.inr (Or.inl rfl)
  | loop =>
    rcases h with rfl | rfl | ⟨-, n, rfl⟩
    · exact Or.inr (Or.inr rfl)
    · exact Or.inl rfl
    · exact Or.inr (Or.inr rfl)
  | write n =>
    rcases h with rfl | rfl | ⟨m, rfl⟩
    · exact Or.inr (Or.inr rfl)
    · exact Or.inl rfl
    · exact Or.inr (Or.inr rfl)
  | _ => cases hp

end

end Myftpd
