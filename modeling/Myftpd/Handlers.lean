import Myftpd.Books
import Myftpd.Paths
import Myftpd.Replies

/-!
# What the handlers may leave

A handler works for one session.  It can rewrite or free the record of that session, start a transfer and
add to the log, and leaves the other records, the lists and the counts alone.

* `Did`           the state after a handler, QUIT included;
* `Proper`        the record and the entries of the log that the handler may leave;
* `runCmd_did`    every handler, from what it yields.
-/

namespace Myftpd
open CMem Server

/-- the fields of a record that a transfer uses -/
structure Params where
  arg : List UInt8
  dirfd : Option Fd
  restartPos : Int
  dataFd : Option Fd
  deriving DecidableEq

def Session.params (x : Session) : Params := ⟨x.arg, x.dirfd, x.restartPos, x.dataFd⟩

/-- the four fields after a handler; `fd` is the lowest free descriptor -/
def Cmd.params (c : Conf) (env : Env) (x : Session) (fd : Fd) (q : Params) : Cmd → Params
  | .pass => if passOk c x = true then { q with dirfd := env.home.map fun _ => fd } else q
  | .cwd => if (openatOk x.dirfd x.arg env.openat).isSome = true then { q with dirfd := some fd } else q
  | .list => if getPasvDataFd x = 0 then q else { q with dataFd := none }
  | .rest => { q with restartPos := strToLonglong x.arg }
  | _ => q

def chmodCalled (x : Session) : Bool :=
  match split100 x.arg with
  | some (cmd, arg) => decide (cmd = ascii "CHMOD") && decide (arg ≠ []) &&
      (split100 arg).any fun p => decide (p.2 ≠ [])
  | none => false

/-- the handler gets at the file system although the session has no directory -/
def reaches (env : Env) (x : Session) : Cmd → Bool
  | .cwd => absolute x.arg && env.openat.isSome
  | .mkd => env.mkdir
  | .rmd => env.rmdir
  | .dele => env.unlink
  | .rnto => x.rnfrName.isSome && env.rename
  | .size => env.stat.isSome
  | .site => chmodCalled x && env.chmod
  | _ => false

/-! ## the state after a handler -/

/-- What a handler has done for the session `sid`: `o` is its record now, `k` the transfer that has been
started, and `as` has been added to the log. -/
structure Did (sid : Sid) (o : Option Session) (k : Option Kind) (as : List Act) (s s' : Server) :
    Prop where
  heap : s'.heap = Function.update s.heap sid o
  threads : s'.threads = k.elim s.threads fun k =>
    Function.update s.threads s.nextTid (some (newThread sid s.cmdNo k))
  nextTid : s'.nextTid = k.elim s.nextTid fun _ => s.nextTid + 1
  cmdNo : s'.cmdNo = s.cmdNo
  main : s.main.Leaves sid s'.main
  books : s'.books = s.books
  log : s'.log = s.log ++ as

section
variable {c : Conf} {env : Env} {sid : Sid} {x : Session} {s s' t : Server} {o : Option Session}
  {k : Option Kind} {as bs : List Act} {h : Cmd} {a : Act} {n code : Nat} {text : List UInt8}

namespace Did

theorem refl (hx : s.heap sid = some x) : Did sid (some x) none [] s s where
  heap := by rw [← hx, Function.update_eq_self]
  threads := rfl
  nextTid := rfl
  cmdNo := rfl
  main := .returned
  books := rfl
  log := (List.append_nil _).symm

theorem emit (hd : Did sid o k as s t) (a : Act) : Did sid o k (as ++ [a]) s (t.emit a) where
  heap := hd.heap
  threads := hd.threads
  nextTid := hd.nextTid
  cmdNo := hd.cmdNo
  main := hd.main
  books := hd.books
  log := by
    show t.log ++ [a] = _
    rw [hd.log, List.append_assoc]

end Did

theorem Yields.did (hy : Yields sid (h.yield c env sid x s) s s') :
    Did sid (some (h.record c env x s.fds.lowest)) (h.starts env x) (h.logs c env sid s.cmdNo x) s s' where
  heap := hy.heap
  threads := hy.threads
  nextTid := hy.nextTid
  cmdNo := hy.cmdNo
  main := hy.leaves
  books := hy.books
  log := hy.log

theorem closed_cmdNo : (closed s sid x).cmdNo = s.cmdNo := by
  show (((s.close x.ctrlFd).closeOpt x.dataFd).closeOpt x.pasvListenFd).cmdNo = _
  cases x.dataFd <;> cases x.pasvListenFd <;> rfl

theorem closed_nextTid : (closed s sid x).nextTid = s.nextTid := by
  show (((s.close x.ctrlFd).closeOpt x.dataFd).closeOpt x.pasvListenFd).nextTid = _
  cases x.dataFd <;> cases x.pasvListenFd <;> rfl

theorem quit_did (hx : s.heap sid = some x) (he : runCmd c env sid x s .quit = .ok s') :
    Did sid none none (Cmd.quit.logs c env sid s.cmdNo x) s s' := by
  obtain ⟨-, rfl⟩ := runCmd_quit hx he
  exact ⟨closed_heap, closed_threads, closed_nextTid, closed_cmdNo, by rw [closed_main]; exact .returned,
    closed_books, closed_log⟩

/-! ## the record and the log after a handler -/

/-- An entry that the handler may add to the log: the paths in it are resolved against the directory of the
session, or they are `processPaths`, and the file system is touched for this session only, which has a
directory unless the handler can do without. -/
structure FromCmd (env : Env) (sid : Sid) (x : Session) (h : Cmd) (a : Act) : Prop where
  path : Within x (processPaths x h) a
  touch : ∀ j, a.touches = some j → j = sid ∧ (x.dirfd ≠ none ∨ reaches env x h = true)

/-- the numbers of the replies are those of the line in hand, and it is answered once if the handler
answers at all, with what it has still to send -/
def Replied (env : Env) (sid : Sid) (x : Session) (s : Server) (h : Cmd) (as : List Act) : Prop :=
  ∃ cs : List Nat, as.filterMap Act.toReply = cs.map (fun code => ⟨s.cmdNo, sid, x.ctrlFd, code⟩) ∧
    if speaks x h = true then Once (cs ++ (h.leads env sid x s.main).owed) else cs = []

/-- what the handler `h` may leave in the record and in the log -/
structure Proper (c : Conf) (env : Env) (sid : Sid) (x : Session) (s : Server) (h : Cmd)
    (o : Option Session) (as : List Act) : Prop where
  params : ∀ y, o = some y → y.params = h.params c env x s.fds.lowest x.params
  abor : ∀ y, o = some y → y.aborReceived = x.aborReceived
  entries : ∀ a ∈ as, FromCmd env sid x h a
  replied : s.main.owed = [] → Replied env sid x s h as

/-- the handler `h` leads from `s` to `s'` -/
def Served (c : Conf) (env : Env) (sid : Sid) (x : Session) (h : Cmd) (s s' : Server) : Prop :=
  ∃ o as, Did sid o (h.starts env x) as s s' ∧ Proper c env sid x s h o as

/-! ### the record -/

theorem record_params (fd : Fd) : (h.record c env x fd).params = h.params c env x fd x.params := by
  cases h with
  | user =>
    show ((c.getpwnam x.arg).elim x fun pw => { x with uid := pw.uid }).params = x.params
    cases c.getpwnam x.arg <;> rfl
  | pass => exact apply_ite Session.params ..
  | cwd => exact apply_ite Session.params ..
  | list => exact apply_ite Session.params ..
  | type =>
    unfold Cmd.record
    dsimp only
    split
    · rfl
    · split <;> rfl
  | _ => rfl

theorem record_abor (fd : Fd) : (h.record c env x fd).aborReceived = x.aborReceived := by
  cases h with
  | user =>
    show ((c.getpwnam x.arg).elim x fun pw => { x with uid := pw.uid }).aborReceived = _
    cases c.getpwnam x.arg <;> rfl
  | pass => exact (apply_ite Session.aborReceived ..).trans (ite_self _)
  | cwd => exact (apply_ite Session.aborReceived ..).trans (ite_self _)
  | list => exact (apply_ite Session.aborReceived ..).trans (ite_self _)
  | type =>
    unfold Cmd.record
    dsimp only
    split
    · rfl
    · split <;> rfl
  | _ => rfl

/-! ### the entries of the log -/

theorem FromCmd.quiet (h1 : a.paths = []) (h2 : a.touches = none) : FromCmd env sid x h a where
  path := within_none h1
  touch := by
    rw [h2]
    rintro j ⟨⟩

/-- a call with a path that is resolved against the directory of the process -/
theorem FromCmd.call {op : FsOp} (hp : ∀ q ∈ op.paths, q.1 = .process ∧ q.2 ∈ processPaths x h)
    (hr : reaches env x h = true) : FromCmd env sid x h (.fs sid op) where
  path := fun q hq => Or.inr (hp q hq)
  touch := by
    rintro j ⟨rfl⟩
    exact ⟨rfl, Or.inr hr⟩

theorem FromCmd.callOne {op : FsOp} {p : List UInt8} (hop : op.paths = [(.process, p)])
    (hp : p ∈ processPaths x h) (hr : reaches env x h = true) : FromCmd env sid x h (.fs sid op) := by
  refine .call (fun q hq => ?_) hr
  rw [hop] at hq
  rw [List.mem_singleton.mp hq]
  exact ⟨rfl, hp⟩

theorem FromCmd.inDir {op : FsOp} {p : List UInt8} (hop : op.paths = [(.dirfd x.dirfd, p)])
    (hd : x.dirfd ≠ none ∨ reaches env x h = true) : FromCmd env sid x h (.fs sid op) where
  path := within_dir hop
  touch := by
    rintro j ⟨rfl⟩
    exact ⟨rfl, hd⟩

theorem replied_entries : ∀ a ∈ replied sid n x code text, FromCmd env sid x h a := by
  intro a ha
  rw [List.mem_singleton.mp ha]
  exact .quiet rfl rfl

theorem begun_entries {first : String} : ∀ a ∈ begun sid n x code first, FromCmd env sid x h a := by
  intro a ha
  rw [List.mem_singleton.mp ha]
  exact .quiet rfl rfl

theorem cons_entries (ha : FromCmd env sid x h a) (has : ∀ b ∈ as, FromCmd env sid x h b) :
    ∀ b ∈ a :: as, FromCmd env sid x h b := fun b hb => (List.mem_cons.mp hb).elim (fun e => e ▸ ha) (has b)

theorem append_entries (ha : ∀ b ∈ as, FromCmd env sid x h b) (hb : ∀ b ∈ bs, FromCmd env sid x h b) :
    ∀ b ∈ as ++ bs, FromCmd env sid x h b := fun b hm => (List.mem_append.mp hm).elim (ha b) (hb b)

theorem ite_entries {p : Prop} [Decidable p] (ha : p → ∀ b ∈ as, FromCmd env sid x h b)
    (hb : ¬ p → ∀ b ∈ bs, FromCmd env sid x h b) : ∀ b ∈ if p then as else bs, FromCmd env sid x h b := by
  split
  · exact ha ‹_›
  · exact hb ‹_›

theorem called_entries {op : FsOp} {b : Bool} (hf : b = true → FromCmd env sid x h (.fs sid op)) :
    ∀ a ∈ called sid op b, FromCmd env sid x h a :=
  ite_entries (fun hb => cons_entries (hf hb) nofun) fun _ => nofun

theorem openatOk_some {α : Type} {dirfd : Option Fd} {path : List UInt8} {r : Option α} {a : α}
    (h : openatOk dirfd path r = some a) : dirfd ≠ none ∨ absolute path = true ∧ r.isSome = true := by
  unfold openatOk at h
  split at h
  · rename_i hc
    rcases (Bool.or_eq_true _ _).mp hc with hc | hc
    · exact Or.inr ⟨hc, by rw [h]; rfl⟩
    · exact Or.inl (Option.isSome_iff_ne_none.mp hc)
  · cases h

theorem listed_entries (hd : x.dirfd ≠ none) : ∀ a ∈ listed env sid x, FromCmd env sid x .list a := by
  unfold listed
  cases env.opendir with
  | none => exact nofun
  | some es =>
    refine cons_entries (.inDir rfl (Or.inl hd)) fun a ha => ?_
    obtain ⟨e, -, rfl⟩ := List.mem_map.mp ha
    exact .quiet rfl rfl

theorem chmod_entries {cmd arg : List UInt8} (hs : split100 x.arg = some (cmd, arg)) (hc : cmd = ascii "CHMOD") :
    ∀ a ∈ chmodLogs env sid n x arg, FromCmd env sid x .site a := by
  unfold chmodLogs
  refine ite_entries (fun _ => replied_entries) fun ha => ?_
  cases hs' : split100 arg with
  | none => exact nofun
  | some p =>
    obtain ⟨perm, file⟩ := p
    refine ite_entries (fun _ => replied_entries) fun hf => append_entries (called_entries fun hm => ?_) replied_entries
    have hmem : file ∈ processPaths x .site := by
      show file ∈ (chmodFile x).toList
      rw [chmodFile_eq hs hc ha hs' hf]
      exact List.mem_singleton_self file
    refine .callOne rfl hmem ?_
    change ¬ file = [] at hf
    simp only [reaches, chmodCalled, hs, hc, hs', hm, ha, hf, Option.any_some, ne_eq, not_false_eq_true,
      decide_true, Bool.and_self]

theorem site_entries : ∀ a ∈ Cmd.site.logs c env sid n x, FromCmd env sid x .site a := by
  show ∀ a ∈ (split100 x.arg).elim [] _, _
  cases hs : split100 x.arg with
  | none => exact nofun
  | some p =>
    refine ite_entries (chmod_entries hs) fun _ => ite_entries (fun _ => ?_) fun _ =>
      ite_entries (fun _ => replied_entries) fun _ => replied_entries
    exact ite_entries (fun _ => replied_entries) fun _ => cons_entries (.quiet rfl rfl) replied_entries

theorem rnto_entries : ∀ a ∈ Cmd.rnto.logs c env sid n x, FromCmd env sid x .rnto a := by
  show ∀ a ∈ x.rnfrName.elim _ _, _
  cases ho : x.rnfrName with
  | none => exact replied_entries
  | some old =>
    refine append_entries (called_entries fun hm => .call (fun q hq => ?_) ?_) replied_entries
    · show q.1 = .process ∧ q.2 ∈ x.rnfrName.elim [] fun old => [old, x.arg]
      rw [ho]
      rcases List.mem_cons.mp (show q ∈ [(Base.process, old), (.process, x.arg)] from hq) with rfl | hq
      · exact ⟨rfl, List.mem_cons_self⟩
      · rw [List.mem_singleton.mp hq]
        exact ⟨rfl, List.mem_cons_of_mem _ (List.mem_singleton_self _)⟩
    · show (x.rnfrName.isSome && env.rename) = true
      rw [ho, hm]
      rfl

theorem callOne_entries {op : FsOp} {p : List UInt8} {b : Bool} {good bad : List UInt8} {code' : Nat}
    (hop : op.paths = [(.process, p)]) (hp : p ∈ processPaths x h) (hr : reaches env x h = b) :
    ∀ a ∈ called sid op b ++
        if b = true then replied sid n x code good else replied sid n x code' bad, FromCmd env sid x h a :=
  append_entries (called_entries fun hb => .callOne hop hp (hr.trans hb))
    (ite_entries (fun _ => replied_entries) fun _ => replied_entries)

/-- **The entries of every handler**; a listing needs a directory. -/
theorem logs_entries (hd : h = .list → getPasvDataFd x ≠ 0 → x.dirfd ≠ none) :
    ∀ a ∈ h.logs c env sid n x, FromCmd env sid x h a := by
  cases h with
  | user =>
    show ∀ a ∈ (c.getpwnam x.arg).elim _ _, _
    cases c.getpwnam x.arg <;> exact replied_entries
  | pass => exact ite_entries (fun _ => replied_entries) fun _ => replied_entries
  | cwd =>
    refine ite_entries (fun ho => ?_) fun _ => replied_entries
    obtain ⟨k, hk⟩ := Option.isSome_iff_exists.mp ho
    refine cons_entries (.inDir rfl ?_) replied_entries
    rcases openatOk_some hk with hd | ⟨h3, h4⟩
    · exact Or.inl hd
    · exact Or.inr (Bool.and_eq_true_iff.mpr ⟨h3, h4⟩)
  | cdup =>
    refine ite_entries (fun _ => cons_entries ⟨?_, ?_⟩ replied_entries) fun _ => replied_entries
    · exact within_one rfl (List.mem_singleton_self _)
    · rintro j ⟨⟩
  | quit => exact replied_entries
  | port => exact replied_entries
  | pasv => exact nofun
  | type =>
    exact ite_entries (fun _ => replied_entries) fun _ =>
      ite_entries (fun _ => replied_entries) fun _ => replied_entries
  | retr => exact nofun
  | stor => exact nofun
  | appe => exact nofun
  | list =>
    refine ite_entries (fun _ => nofun) fun h0 => ?_
    exact append_entries replied_entries (append_entries (listed_entries (hd rfl h0)) replied_entries)
  | nlst => exact nofun
  | rest => exact replied_entries
  | abor => exact replied_entries
  | pwd => exact replied_entries
  | mkd => exact callOne_entries rfl (List.mem_singleton_self _) rfl
  | rmd => exact callOne_entries rfl (List.mem_singleton_self _) rfl
  | dele => exact callOne_entries rfl (List.mem_singleton_self _) rfl
  | rnfr => exact replied_entries
  | rnto => exact rnto_entries
  | site => exact site_entries
  | syst => exact replied_entries
  | feat => exact begun_entries
  | size =>
    show ∀ a ∈ env.stat.elim _ _, _
    cases hs : env.stat with
    | none => exact replied_entries
    | some p =>
      refine cons_entries (.callOne rfl (List.mem_singleton_self _) ?_)
        (ite_entries (fun _ => replied_entries) fun _ => replied_entries)
      show env.stat.isSome = true
      rw [hs]
      rfl
  | stat => exact begun_entries
  | noop => exact replied_entries
  | help => exact begun_entries

/-! ### the replies -/

theorem called_quiet {op : FsOp} {b : Bool} : (called sid op b).filterMap Act.toReply = [] := by
  cases b <;> rfl

theorem listed_quiet : (listed env sid x).filterMap Act.toReply = [] := by
  unfold listed
  cases env.opendir with
  | none => rfl
  | some es =>
    refine List.filterMap_eq_nil_iff.mpr fun a ha => ?_
    rcases List.mem_cons.mp ha with rfl | ha
    · rfl
    · obtain ⟨e, -, rfl⟩ := List.mem_map.mp ha
      rfl

/-- one final reply to line `n` -/
def Final (sid : Sid) (n : Nat) (x : Session) (as : List Act) : Prop :=
  ∃ code, (200 ≤ code ∧ code < 600) ∧ as.filterMap Act.toReply = [⟨n, sid, x.ctrlFd, code⟩]

theorem Final.replied (hc : 200 ≤ code ∧ code < 600) : Final sid n x (replied sid n x code text) := ⟨code, hc, rfl⟩

theorem Final.ite {p : Prop} [Decidable p] (ha : Final sid n x as) (hb : Final sid n x bs) :
    Final sid n x (if p then as else bs) := by
  split
  · exact ha
  · exact hb

theorem Final.after (hb : Final sid n x bs) (ha : as.filterMap Act.toReply = []) : Final sid n x (as ++ bs) := by
  obtain ⟨code, hc, e⟩ := hb
  exact ⟨code, hc, by rw [List.filterMap_append, ha, e, List.nil_append]⟩

theorem Final.cons {a : Act} (ha : a.toReply = none) (hb : Final sid n x bs) : Final sid n x (a :: bs) := by
  obtain ⟨code, hc, e⟩ := hb
  exact ⟨code, hc, by rw [List.filterMap_cons, ha]; exact e⟩

theorem Final.proper (hf : Final sid s.cmdNo x as) (hs : speaks x h = true)
    (ho : (h.leads env sid x s.main).owed = []) : Replied env sid x s h as := by
  obtain ⟨code, hc, e⟩ := hf
  exact ⟨[code], e, by rw [if_pos hs, ho]; exact once_one hc⟩

theorem site_final (he : doSite c env sid x s = .ok s') : Final sid s.cmdNo x (Cmd.site.logs c env sid s.cmdNo x) := by
  show Final sid s.cmdNo x ((split100 x.arg).elim [] _)
  unfold doSite at he
  cases hs : split100 x.arg with
  | none => rw [hs] at he; cases he
  | some p =>
    obtain ⟨cmd, arg⟩ := p
    rw [hs] at he
    dsimp only at he
    show Final sid s.cmdNo x (if cmd = ascii "CHMOD" then _ else _)
    split
    · rename_i hc
      rw [if_pos hc] at he
      unfold doSiteChmod at he
      unfold chmodLogs
      split
      · exact .replied (by decide)
      · rename_i ha
        rw [if_neg ha] at he
        cases hs' : split100 arg with
        | none => rw [hs'] at he; cases he
        | some p => exact .ite (.replied (by decide)) (.after (.replied (by decide)) called_quiet)
    · refine .ite ?_ (.ite (.replied (by decide)) (.replied (by decide)))
      exact .ite (.replied (by decide)) (.cons rfl (.replied (by decide)))

/-- the first line of a longer reply, whose last line is to come -/
theorem begun_replied {first : String} {ts : List (List UInt8)} {last : String} (hs : speaks x h = true)
    (hl : h.leads env sid x s.main = .reply sid (linesThen ts code last) s.main.pending)
    (hc : 200 ≤ code ∧ code < 600) : Replied env sid x s h (begun sid s.cmdNo x n first) := by
  refine ⟨[], rfl, ?_⟩
  rw [if_pos hs, hl]
  show Once ((linesThen ts code last).filterMap Write.code)
  rw [owed_linesThen]
  exact once_one hc

/-- **The replies of every handler.** -/
theorem logs_replied (hm : s.main.owed = []) (he : runCmd c env sid x s h = .ok s') :
    Replied env sid x s h (h.logs c env sid s.cmdNo x) := by
  cases h with
  | user =>
    refine Final.proper ?_ rfl hm
    show Final sid s.cmdNo x ((c.getpwnam x.arg).elim _ _)
    cases c.getpwnam x.arg <;> exact .replied (by decide)
  | pass => exact Final.proper (.ite (.replied (by decide)) (.replied (by decide))) rfl hm
  | cwd =>
    exact Final.proper (.ite (.cons rfl (.replied (by decide))) (.replied (by decide))) rfl hm
  | cdup =>
    exact Final.proper (.ite (.cons rfl (.replied (by decide))) (.replied (by decide))) rfl hm
  | quit => exact Final.proper (.replied (by decide)) rfl hm
  | port => exact Final.proper (.replied (by decide)) rfl hm
  | pasv => exact ⟨[], rfl, once_one (by decide)⟩
  | type =>
    exact Final.proper (.ite (.replied (by decide)) (.ite (.replied (by decide)) (.replied (by decide)))) rfl hm
  | retr => exact ⟨[], rfl, rfl⟩
  | stor => exact ⟨[], rfl, rfl⟩
  | appe => exact ⟨[], rfl, rfl⟩
  | list =>
    by_cases h0 : getPasvDataFd x = 0
    · have hs : ¬ speaks x .list = true := fun h => of_decide_eq_true h h0
      exact ⟨[], by rw [show Cmd.list.logs c env sid s.cmdNo x = [] from if_pos h0]; rfl, by rw [if_neg hs]⟩
    · refine ⟨[FTP_DATACONN, FTP_TRANSFEROK], ?_, ?_⟩
      · rw [show Cmd.list.logs c env sid s.cmdNo x = _ from if_neg h0, List.filterMap_append, List.filterMap_append,
          listed_quiet]
        rfl
      · rw [if_pos (show speaks x .list = true from decide_eq_true h0), show (Cmd.list.leads env sid x s.main).owed = []
          from hm]
        exact once_two (by decide) (by decide)
  | nlst => exact ⟨[], rfl, rfl⟩
  | rest => exact Final.proper (.replied (by decide)) rfl hm
  | abor => exact Final.proper (.replied (by decide)) rfl hm
  | pwd => exact Final.proper (.replied (by decide)) rfl hm
  | mkd => exact Final.proper (.after (.ite (.replied (by decide)) (.replied (by decide))) called_quiet) rfl hm
  | rmd => exact Final.proper (.after (.ite (.replied (by decide)) (.replied (by decide))) called_quiet) rfl hm
  | dele => exact Final.proper (.after (.ite (.replied (by decide)) (.replied (by decide))) called_quiet) rfl hm
  | rnfr => exact Final.proper (.replied (by decide)) rfl hm
  | rnto =>
    refine Final.proper ?_ rfl hm
    show Final sid s.cmdNo x (x.rnfrName.elim _ _)
    cases x.rnfrName with
    | none => exact .replied (by decide)
    | some old => exact .after (.replied (by decide)) called_quiet
  | site => exact Final.proper (site_final he) rfl hm
  | syst => exact Final.proper (.replied (by decide)) rfl hm
  | feat => exact begun_replied rfl rfl (by decide)
  | size =>
    refine Final.proper ?_ rfl hm
    show Final sid s.cmdNo x (env.stat.elim _ _)
    cases env.stat with
    | none => exact .replied (by decide)
    | some p => exact .cons rfl (.ite (.replied (by decide)) (.replied (by decide)))
  | stat => exact begun_replied rfl rfl (by decide)
  | noop => exact Final.proper (.replied (by decide)) rfl hm
  | help => exact begun_replied rfl rfl (by decide)

theorem logs_ne (hm : s.main.owed = []) (he : runCmd c env sid x s h = .ok s') (hs : speaks x h = true)
    (hp : h ≠ .pasv) : h.logs c env sid s.cmdNo x ≠ [] := by
  intro e
  obtain ⟨cs, hcs, ho⟩ := logs_replied hm he
  rw [e] at hcs
  rw [if_pos hs, List.map_eq_nil_iff.mp hcs.symm] at ho
  cases h with
  | pasv => exact hp rfl
  | feat => cases e
  | stat => cases e
  | help => cases e
  | _ =>
    change Once s.main.owed at ho
    rw [hm] at ho
    exact not_once_nil ho

/-! ## every handler -/

theorem doList_named (he : doList env sid x s = .ok s') (h0 : getPasvDataFd x ≠ 0) :
    getFileName env x.dirfd ≠ none := by
  unfold doList at he
  rw [if_neg h0] at he
  obtain ⟨t, ht, -⟩ := bind_ok.mp he
  exact (listCommon_ok ht).1

theorem doList_runs (h0 : getPasvDataFd x ≠ 0) (hd : getFileName env x.dirfd ≠ none) :
    ∃ s', doList env sid x s = .ok s' := by
  obtain ⟨name, hname⟩ := Option.ne_none_iff_exists'.mp hd
  unfold doList listCommon
  rw [if_neg h0, hname]
  dsimp only
  cases env.opendir with
  | none => exact ⟨_, rfl⟩
  | some es => exact ⟨_, rfl⟩

/-- **Every handler.** -/
theorem runCmd_did (hx : s.heap sid = some x) (he : runCmd c env sid x s h = .ok s') :
    Served c env sid x h s s' := by
  have hdir : h = .list → getPasvDataFd x ≠ 0 → x.dirfd ≠ none := by
    rintro rfl h0
    obtain ⟨name, hname⟩ := Option.ne_none_iff_exists'.mp (doList_named he h0)
    exact (getFileName_some hname).1
  by_cases hq : h = .quit
  · subst hq
    exact ⟨none, _, quit_did hx he, nofun, nofun, logs_entries hdir, fun hm => logs_replied hm he⟩
  · refine ⟨_, _, (runCmd_yields hx hq he).did, ?_, ?_, logs_entries hdir, fun hm => logs_replied hm he⟩
    · rintro y ⟨⟩
      exact record_params _
    · rintro y ⟨⟩
      exact record_abor _

theorem runCmd_main (hx : s.heap sid = some x) (he : runCmd c env sid x s h = .ok s') :
    s'.main = h.leads env sid x s.main := by
  by_cases hq : h = .quit
  · subst hq
    obtain ⟨-, rfl⟩ := runCmd_quit hx he
    exact closed_main
  · exact (runCmd_yields hx hq he).main

theorem runCmd_log (hx : s.heap sid = some x) (he : runCmd c env sid x s h = .ok s') :
    s'.log = s.log ++ h.logs c env sid s.cmdNo x := by
  by_cases hq : h = .quit
  · subst hq
    exact (quit_did hx he).log
  · exact (runCmd_yields hx hq he).log

theorem leads_silent {m : Main} (hs : speaks x h = false) : h.leads env sid x m = m := by
  cases h <;> first | rfl | cases hs

/-! ## the command step -/

theorem starts_iff : h.starts env x ≠ none ↔
    (h = .retr ∨ h = .stor) ∧ getPasvDataFd x ≠ 0 ∧ env.pthreadCreate = true := by
  cases h with
  | retr => simp [Cmd.starts]
  | stor => simp [Cmd.starts]
  | _ => simp [Cmd.starts]

/-- a command without a handler is answered, any other one goes to its handler -/
theorem handleCmd_cases (he : handleCmd c env sid s = .ok s') : ∃ x, s.heap sid = some x ∧
    (handlerOf x = none ∧ (∃ code text, (200 ≤ code ∧ code < 600) ∧ s' = answer sid x s code text) ∨
      ∃ h, handlerOf x = some h ∧ runCmd c env sid x s h = .ok s') := by
  unfold handleCmd at he
  cases hx : s.heap sid with
  | none =>
    rw [hx] at he
    cases he
  | some x =>
    refine ⟨x, rfl, ?_⟩
    unfold handlerOf
    rw [hx] at he
    dsimp only at he
    cases hl : lookupCmd x.cmd with
    | none =>
      rw [hl] at he
      cases he
      exact Or.inl ⟨rfl, _, _, by decide, rfl⟩
    | some o =>
      rw [hl] at he
      cases o with
      | none =>
        cases he
        exact Or.inl ⟨rfl, _, _, by decide, rfl⟩
      | some h => exact Or.inr ⟨h, rfl, he⟩

theorem handleCmd_books (he : handleCmd c env sid s = .ok s') : s'.books = s.books := by
  obtain ⟨x, hx, ⟨-, code, text, -, rfl⟩ | ⟨h, -, he⟩⟩ := handleCmd_cases he
  · rfl
  · obtain ⟨o, as, hd, -⟩ := runCmd_did hx he
    exact hd.books

end

end Myftpd
