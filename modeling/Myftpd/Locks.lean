import Myftpd.Transfers
import Myftpd.Lib.RecordLock

/-!
# The record locks of the transfers

A record lock belongs to the process, and all transfers are threads of one process, so the kernel never
makes one wait for another.  `Locks` keeps the table of the kernel and beside it the table that the
transfers would need: a lock for each transfer, from its lock step to its `close`.

* `posix_grants`    the kernel grants every request;
* `locks_exclude`   the runs in which the locks do what they are for.
-/

namespace Myftpd
open CMem Server RecordLock

/-- the lock that a transfer asks for -/
def Kind.lock : Kind → Mode
  | .retr => .read
  | .stor _ => .write

/-- The locks of the kernel, which belong to the process, and those of the transfers.  Files are
numbered. -/
structure Locks where
  posix : Table Nat Unit
  held : Table Nat Tid

/-- the transfer that is granted its lock in the step -/
def locks (s : Server) : Label → Option (Tid × Kind)
  | .thread tid env => (s.threads tid).bind fun th =>
      if th.pc = .lock ∧ env.lock = true then some (tid, th.kind) else none
  | _ => none

/-- the transfer that closes its file in the step -/
def unlocks (s : Server) : Label → Option Tid
  | .thread tid _ => (s.threads tid).bind fun th => if th.pc = .closeFile then some tid else none
  | _ => none

/-- the files of which the step closes a descriptor -/
def closedFiles (ino : Tid → Nat) (c : Conf) (s : Server) (l : Label) : List Nat :=
  (closes c s l).filterMap fun fd =>
    match s.fds.get fd with
    | some (.file tid) => some (ino tid)
    | _ => none

/-- The locks after the step; `ino` gives the file that each transfer has opened. -/
def relock (ino : Tid → Nat) (c : Conf) (g : Locks) (s : Server) (l : Label) (_ : Server) : Locks where
  posix := match locks s l with
    | some (tid, k) => g.posix.acquire (ino tid) () k.lock
    | none => (closedFiles ino c s l).foldl (fun t f => t.drop f ()) g.posix
  held := match locks s l with
    | some (tid, k) => g.held.acquire (ino tid) tid k.lock
    | none =>
      match unlocks s l with
      | some tid => g.held.drop (ino tid) tid
      | none => g.held

def noLocks : Locks := ⟨.empty, .empty⟩

/-- the server, with the locks on its files -/
abbrev locked (ino : Tid → Nat) (c : Conf) : Runs.System (Server × Locks) Label :=
  (sys c).recording noLocks (relock ino c)

/-- the kernel grants the lock only if no lock of another process conflicts with it -/
def Posix (ino : Tid → Nat) (p : Server × Locks) (l : Label) : Prop :=
  ∀ tid k, locks p.1 l = some (tid, k) → p.2.posix.Grants (ino tid) () k.lock

/-- no lock is granted that conflicts with the lock of another transfer -/
def Compatible (ino : Tid → Nat) (p : Server × Locks) (l : Label) : Prop :=
  ∀ r ∈ (locks p.1 l).toList, ∀ u ∈ List.range p.1.nextTid, u ≠ r.1 →
    ∀ n ∈ (p.2.held (ino r.1) u).toList, r.2.lock.conflicts n = false

instance (ino : Tid → Nat) (p : Server × Locks) (l : Label) : Decidable (Compatible ino p l) :=
  inferInstanceAs (Decidable (∀ r ∈ _, ∀ u ∈ _, _ → ∀ n ∈ _, _))

/-- the step truncates or writes the file of a transfer -/
def alters (s : Server) : Label → Option Tid
  | .thread tid env => (s.threads tid).bind fun th =>
      match th.pc, env.write with
      | .trunc, _ => some tid
      | .write (_ + 1), .ok (_ + 1) => some tid
      | _, _ => none
  | _ => none

/-- the stages from the lock to the `close` -/
def Pc.locked : Pc → Bool
  | .offset => false
  | .clear => false
  | .open => false
  | .lock => false
  | .final => false
  | .checkAbor => false
  | _ => true

def Pc.altering : Pc → Bool
  | .trunc => true
  | .write _ => true
  | _ => false

/-- Every transfer from its lock to its `close` has its lock, and only uploads come to a stage that alters
the file. -/
structure Guards (ino : Tid → Nat) (s : Server) (t : Table Nat Tid) : Prop where
  exclusive : t.Exclusive
  own : ∀ tid th, s.threads tid = some th → th.pc.locked = true → t (ino tid) tid = some th.kind.lock
  born : ∀ f tid m, t f tid = some m → tid < s.nextTid
  upload : ∀ tid th, s.threads tid = some th → th.pc.altering = true → th.kind ≠ .retr

section
variable {ino : Tid → Nat} {c : Conf} {s s' : Server} {l : Label} {g : Locks} {tid : Tid} {th u : Thread}

/-- **The kernel never makes a transfer wait for another.** -/
theorem posix_grants (ino : Tid → Nat) (p : Server × Locks) (l : Label) : Posix ino p l :=
  fun _ _ _ => Table.grants_of_one_owner

/-- the stages from the lock to the `close` are entered by the lock -/
theorem locked_follows {k : Kind} {pc pc' : Pc} (h : pc.follows k pc') (hl : pc'.locked = true) :
    pc = .lock ∨ pc.locked = true := by
  cases pc with
  | offset => cases h; cases hl
  | clear => cases h; cases hl
  | «open» => cases h; cases hl
  | lock => exact Or.inl rfl
  | final => cases h; cases hl
  | checkAbor => cases h
  | _ => exact Or.inr rfl

theorem closeFile_follows {k : Kind} {pc' : Pc} (h : Pc.follows k .closeFile pc') :
    pc'.locked = false := by
  cases h
  rfl

/-- a download does not come to a stage that alters the file -/
theorem altering_follows {pc pc' : Pc} (h : Pc.follows .retr pc pc') (ha : pc'.altering = true) :
    pc.altering = true := by
  cases pc with
  | offset => cases h; cases ha
  | clear => cases h; cases ha
  | «open» => cases h; cases ha
  | lock => cases h; cases ha
  | trunc => rfl
  | seek => cases h; cases ha
  | stat => rcases h with rfl | rfl <;> cases ha
  | opening => cases h; cases ha
  | loop =>
    rcases h with rfl | rfl | ⟨hk, -⟩
    · cases ha
    · cases ha
    · exact absurd rfl hk
  | write n => rfl
  | rmData => cases h; cases ha
  | rmPasv => cases h; cases ha
  | setPasv => cases h; cases ha
  | setData => cases h; cases ha
  | closeFile => cases h; cases ha
  | final => cases h; cases ha
  | checkAbor => cases h

theorem relock_held (h : ∀ tid env, l ≠ .thread tid env) : (relock ino c g s l s').held = g.held := by
  cases l with
  | thread tid env => exact absurd rfl (h tid env)
  | _ => rfl

theorem relock_thread {env : TEnv} (hth : s.threads tid = some th) :
    (relock ino c g s (.thread tid env) s').held =
      if th.pc = .lock ∧ env.lock = true then g.held.acquire (ino tid) tid th.kind.lock
      else if th.pc = .closeFile then g.held.drop (ino tid) tid
      else g.held := by
  unfold relock locks unlocks
  simp only [hth, Option.bind_some]
  by_cases h1 : th.pc = .lock ∧ env.lock = true
  · rw [if_pos h1, if_pos h1]
  · rw [if_neg h1, if_neg h1]
    by_cases h2 : th.pc = .closeFile
    · rw [if_pos h2, if_pos h2]
    · rw [if_neg h2, if_neg h2]

/-- **One step** in which no lock is granted against another. -/
theorem guards_step (hn : s.ledger.Numbered) (hi : Guards ino s g.held) (hc : Compatible ino (s, g) l)
    (hen : enabled s l) (he : exec c s l = .ok s') :
    Guards ino s' (relock ino c g s l s').held := by
  cases exec_worked hen he with
  | loop h0 hl h =>
    rw [relock_held hl]
    refine ⟨hi.exclusive, ?_, ?_, ?_⟩
    · rw [h.threads]
      exact hi.own
    · rw [h.nextTid]
      exact hi.born
    · rw [h.threads]
      exact hi.upload
  | @start env sid x k h0 hx h =>
    rw [relock_held (by rintro _ _ ⟨⟩)]
    have hthreads : ∀ t u, s'.threads t = some u →
        u = newThread sid s.cmdNo k ∨ s.threads t = some u := by
      intro t u hu
      rw [h.threads] at hu
      change Function.update s.threads s.nextTid _ t = some u at hu
      rw [Function.update_apply] at hu
      split at hu
      · exact Or.inl (Option.some.inj hu).symm
      · exact Or.inr hu
    refine ⟨hi.exclusive, fun t u hu hl => ?_, fun f t m ht => ?_, fun t u hu ha => ?_⟩
    · rcases hthreads t u hu with rfl | hu
      · cases hl
      · exact hi.own t u hu hl
    · rw [h.nextTid]
      exact Nat.lt_succ_of_lt (hi.born f t m ht)
    · rcases hthreads t u hu with rfl | hu
      · cases ha
      · exact hi.upload t u hu ha
  | @thread tid env th o hth h =>
    rw [relock_thread hth]
    have hlt : tid < s.nextTid := hn.worker tid _ (ledger_worker hth)
    have hupload : ∀ t u, s'.threads t = some u → u.pc.altering = true → u.kind ≠ .retr := by
      intro t u hu ha
      by_cases e : t = tid
      · subst e
        obtain ⟨-, -, hk, hpc⟩ := h.next u (h.self hu)
        rw [hk]
        rcases hpc with ⟨rfl, -⟩ | hf
        · exact hi.upload t u hth ha
        · intro hr
          rw [hr] at hf
          exact hi.upload t th hth (altering_follows hf ha) hr
      · exact hi.upload t u (h.other hu e) ha
    split
    · -- the lock is granted
      rename_i hlock
      have hg : g.held.Grants (ino tid) tid th.kind.lock := by
        intro u hu n hn'
        refine hc (tid, th.kind) ?_ u (List.mem_range.mpr (hi.born _ u n hn')) hu n
          (Option.mem_toList.mpr hn')
        rw [Option.mem_toList]
        show (s.threads tid).bind _ = _
        rw [hth]
        exact if_pos hlock
      refine ⟨hi.exclusive.acquire hg, fun t u hu hl => ?_, fun f t m ht => ?_, hupload⟩
      · rw [Table.acquire_apply]
        by_cases e : t = tid
        · subst e
          rw [if_pos ⟨rfl, rfl⟩, (h.next u (h.self hu)).2.2.1]
        · rw [if_neg fun h => e h.2]
          exact hi.own t u (h.other hu e) hl
      · rw [Table.acquire_apply] at ht
        rw [h.nextTid]
        split at ht
        · rename_i e
          rw [e.2]
          exact hlt
        · exact hi.born f t m ht
    · rename_i hlock
      have hown : ∀ t u, s'.threads t = some u → u.pc.locked = true →
          g.held (ino t) t = some u.kind.lock := by
        intro t u hu hl
        by_cases e : t = tid
        · subst e
          obtain ⟨-, -, hk, hpc⟩ := h.next u (h.self hu)
          rw [hk]
          apply hi.own t th hth
          rcases hpc with ⟨rfl, -⟩ | hf
          · exact hl
          · refine (locked_follows hf hl).resolve_left fun hpc => ?_
            exact hlock ⟨hpc, (h.granted u (h.self hu)).lock hpc⟩
        · exact hi.own t u (h.other hu e) hl
      split
      · -- the file is closed
        rename_i hclose
        refine ⟨hi.exclusive.drop, fun t u hu hl => ?_, fun f t m ht => ?_, hupload⟩
        · rw [Table.drop_apply, if_neg]
          · exact hown t u hu hl
          · rintro ⟨-, rfl⟩
            rcases (h.next u (h.self hu)).2.2.2 with ⟨rfl, hidle⟩ | hf
            · rw [hclose] at hidle
              cases hidle
            · rw [hclose] at hf
              rw [closeFile_follows hf] at hl
              cases hl
        · rw [Table.drop_apply] at ht
          rw [h.nextTid]
          split at ht
          · cases ht
          · exact hi.born f t m ht
      · refine ⟨hi.exclusive, hown, fun f t m ht => ?_, hupload⟩
        rw [h.nextTid]
        exact hi.born f t m ht

theorem alters_some (h : alters s l = some tid) :
    ∃ th, s.threads tid = some th ∧ th.pc.altering = true := by
  unfold alters at h
  split at h
  · rename_i t env
    obtain ⟨th, hth, h⟩ := Option.bind_eq_some_iff.mp h
    split at h
    · rename_i hpc
      cases h
      exact ⟨th, hth, by rw [hpc]; rfl⟩
    · rename_i hpc _
      cases h
      exact ⟨th, hth, by rw [hpc]; rfl⟩
    · cases h
  · cases h

/-- **While a transfer has its lock, from the lock to the `close`, no other transfer truncates or writes
the file**, in a run in which no lock is granted that conflicts with the lock of another transfer. -/
theorem locks_exclude {p : Server × Locks} (h : Runs.Reach (locked ino c) (Compatible ino) p) :
    ∀ l tid, alters p.1 l = some tid → ∀ u, u ≠ tid → p.2.held (ino tid) u = none := by
  have hi : Guards ino p.1 p.2.held := by
    refine Runs.Reach.noted (J := fun s => s.ledger.Numbered)
      (I := fun p => Guards ino p.1 p.2.held) (fun s hs => numbered_reach hs) ?_ ?_ h
    · rintro s ⟨fds, -, rfl⟩
      refine ⟨Table.Exclusive.empty, ?_, ?_, ?_⟩
      · rintro tid th ⟨⟩
      · rintro f tid m ⟨⟩
      · rintro tid th ⟨⟩
    · rintro s g l s' hn hi hc ⟨hen, he⟩
      exact guards_step hn hi hc hen he
  intro l tid ha u hu
  obtain ⟨th, hth, hpc⟩ := alters_some ha
  have hlocked : th.pc.locked = true := by
    cases hp : th.pc with
    | trunc => rfl
    | write n => rfl
    | _ =>
      rw [hp] at hpc
      cases hpc
  have hown := hi.own tid th hth hlocked
  have hwrite : th.kind.lock = .write := by
    cases hk : th.kind with
    | retr => exact absurd hk (hi.upload tid th hth hpc)
    | stor a => rfl
  rw [hwrite] at hown
  exact hi.exclusive.alone hown hu

end

/-- one upload, about to truncate its file -/
theorem locks_exclude_stor : ∃ p,
    Runs.Reach (locked (fun _ => 0) sampleConf) (Compatible fun _ => 0) p ∧
    alters p.1 (.thread 0 sampleTEnv) = some 0 ∧ ∀ u, u ≠ 0 → p.2.held 0 u = none := by
  obtain ⟨p, hp, ht⟩ := noted_of_play (c := sampleConf) (D := Compatible fun _ => 0)
    (t := fun p => decide (alters p.1 (.thread 0 sampleTEnv) = some 0))
    (sampleNoted noLocks (relock (fun _ => 0) sampleConf) (Compatible fun _ => 0))
    (by decide +kernel : (playNoted sampleConf (relock (fun _ => 0) sampleConf) (Compatible fun _ => 0)
      (sampleBoot, noLocks) (dataReady 5 ++ sends 5 "STOR f" ++ threadSteps 0 4)).any _ = true)
  have ha := of_decide_eq_true ht
  exact ⟨p, hp, ha, locks_exclude hp _ 0 ha⟩

/-- one client downloads a file and another one uploads it: the upload truncates the file while the
download has its lock -/
theorem truncated_under_lock : ¬ ∀ ino c p, Runs.Reach (locked ino c) (Posix ino) p →
    ∀ l tid, enabled p.1 l → alters p.1 l = some tid → ∀ u, u ≠ tid → p.2.held (ino tid) u = none := by
  intro h
  obtain ⟨p, hp, ht⟩ := noted_of_play (c := sampleConf) (D := Runs.Any)
    (t := fun p : Server × Locks => decide (enabled p.1 (.thread 1 sampleTEnv)) &&
      decide (alters p.1 (.thread 1 sampleTEnv) = some 1) && decide (p.2.held 0 0 = some Mode.read))
    (sampleNoted noLocks (relock (fun _ => 0) sampleConf) Runs.Any)
    (by decide +kernel : (playNoted sampleConf (relock (fun _ => 0) sampleConf) Runs.Any
      (sampleBoot, noLocks) (dataReady 5 ++ sends 5 "RETR f" ++ threadSteps 0 4 ++
        dataReady 10 ++ sends 10 "STOR f" ++ threadSteps 1 4)).any _ = true)
  simp only [Bool.and_eq_true, decide_eq_true_eq] at ht
  obtain ⟨⟨hen, ha⟩, hread⟩ := ht
  have hnone := h _ _ p (hp.weaken fun q l _ => posix_grants _ q l) _ 1 hen ha 0 (by decide)
  cases hread.symm.trans hnone

end Myftpd
