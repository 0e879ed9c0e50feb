import Myftpd.Speech
import Myftpd.Clock
import Myftpd.Lib.Rank

/-!
# The loop comes back to its wait

Between two calls of `epoll_wait` the main loop goes through a batch of events, or through the sessions that are due.

* `Server.Left`    the steps that are left, at most, apart from connections that are accepted;
* `loop_returns`   they get fewer with every other step of the loop, whatever the threads and the clients do.
-/

namespace Myftpd
open CMem Server

/-- a step of the main loop other than a wait -/
def Label.ofLoop : Label → Bool
  | .dispatch _ _ => true
  | .command _ => true
  | .onward _ => true
  | .acceptOne _ => true
  | .acceptErr _ => true
  | .evictOne _ => true
  | _ => false

/-- an `accept` that succeeds -/
def Label.accepts : Label → Bool
  | .acceptOne _ => true
  | _ => false

/-- `epoll_wait` is not called -/
def Attends (_ : Server) : Label → Prop
  | .wait _ => False
  | .timeout => False
  | .waitErr _ => False
  | _ => True

instance (s : Server) : (l : Label) → Decidable (Attends s l)
  | .wait _ | .timeout | .waitErr _ => inferInstanceAs (Decidable False)
  | .arrive _ _ | .hangup _ | .faults _ _ | .evictOne _ | .dispatch _ _ | .command _ | .onward _ | .acceptOne _
  | .acceptErr _ | .thread _ _ => inferInstanceAs (Decidable True)

/-- Twelve steps for an event that is waiting, eleven for a command that has been read (FEAT has nine more writes to
make and returns), one for the end of the accept loop, and one for each of the `k` nodes of the timeout list. -/
def Main.left (k : Nat) : Main → Nat
  | .events evs => 12 * evs.length
  | .command _ evs => 12 * evs.length + 11
  | .pasv _ _ .name evs => 12 * evs.length + 5
  | .pasv _ _ .entry evs => 12 * evs.length + 4
  | .pasv _ _ .watch evs => 12 * evs.length + 3
  | .reply _ ws evs => 12 * evs.length + ws.length + 1
  | .accepting evs => 12 * evs.length + 1
  | .evict => k + 1

/-- at most `n` steps of the loop are left -/
def Server.Left (s : Server) (n : Nat) : Prop :=
  ∃ l, s.tl.Linked s.ledger.ctrlOf s.nextSid l ∧ n = s.main.left l.length

section
variable {c : Conf} {env : Env} {now : Int} {sid : Sid} {s s' t : Server} {l : Label} {ev : Event}
  {evs : List Event} {n : Nat} {ns : List Nid}

/-! ## one step -/

theorem dispatch_main (he : dispatch c env now ev evs s = .ok s') :
    s'.main = .events evs ∨ s'.main = .accepting evs ∨ ∃ sid, s'.main = .command sid evs := by
  cases dispatch_cases he with
  | listen _ _ => exact Or.inr (Or.inl rfl)
  | ctrl _ _ _ _ he =>
    obtain ⟨x, -, ⟨-, he⟩ | ⟨m, k, cmd, arg, -, -, rfl⟩⟩ := processCtrlRead_cases he
    · obtain ⟨y, -, -, rfl⟩ := closeSess_inv he
      exact Or.inl closed_main
    · exact Or.inr (Or.inr ⟨_, rfl⟩)
  | data _ _ _ _ he =>
    obtain ⟨x, p, -, -, ⟨-, rfl⟩ | ⟨-, rfl⟩⟩ := processDataRead_cases he
    · exact Or.inl rfl
    · exact Or.inl rfl
  | hup _ _ _ _ _ he =>
    obtain ⟨y, -, -, rfl⟩ := closeSess_inv he
    exact Or.inl closed_main
  | quiet _ _ => exact Or.inl rfl

theorem handleNewConn_main {conn : Conn} (he : handleNewConn c conn s = .ok s') : s'.main = s.main := by
  unfold handleNewConn at he
  dsimp only at he
  split at he
  · obtain ⟨y, -, -, rfl⟩ := closeSess_inv he
    exact closed_main
  · obtain ⟨t, ht, he⟩ := bind_ok.mp he
    unfold setSessinfo at ht
    split at ht
    · cases ht
      cases he
      rfl
    · cases ht

/-- the eviction loop: a node is taken from the list, or the loop is over -/
theorem evictOne_left (hl : s.tl.Linked s.ledger.ctrlOf s.nextSid ns) (hm : s.main = .evict)
    (he : Myftpd.evictOne c now s = .ok s') {ms : List Nid} (h : s'.tl.links.Is ms) :
    s'.main.left ms.length < s.main.left ns.length := by
  rw [hm]
  rcases evictOne_cases he with ⟨rfl, -⟩ | ⟨n, node, x, t, hlru, -, -, -, hc, rfl⟩
  · exact Nat.succ_pos _
  · obtain ⟨y, -, -, rfl⟩ := closeSess_inv hc
    have hin : n ∈ ns := hl.spells.last_mem hlru
    have hbooks : (closed s node.sess y).books = s.books := closed_books
    have htl : (closed s node.sess y).tl = s.tl := congrArg Books.tl hbooks
    have hold : (s.tl.links.unlink n).Is (ns.erase n) := hl.spells.unlink_erase hin
    rw [← htl] at hold
    have hlen : ms = ns.erase n := h.visits_right.unique hold.visits_right
    show (closed s node.sess y).main.left ms.length < ns.length + 1
    rw [closed_main, hm, hlen, List.length_erase_of_mem hin]
    have hpos : 0 < ns.length := List.length_pos_of_mem hin
    show ns.length - 1 + 1 < ns.length + 1
    omega

theorem statLines_length (x : Session) : (statLines x).length ≤ 2 := by
  unfold statLines
  rw [List.length_append]
  have h1 : ∀ {a b : List UInt8} {p : Prop} [Decidable p], (if p then [a] else [b]).length = 1 := by
    intros
    split <;> rfl
  rw [h1]
  split
  · exact le_refl _
  · split
    · exact le_refl _
    · exact Nat.le_succ _

theorem leads_left {h : Cmd} {x : Session} {k : Nat} :
    (h.leads env sid x (.events evs)).left k ≤ 12 * evs.length + 10 := by
  cases h with
  | pasv => exact Nat.add_le_add_left (show 5 ≤ 10 by decide) _
  | feat => exact Nat.add_le_add_left (show 10 ≤ 10 by decide) _
  | stat =>
    show 12 * evs.length + ((statLines x).map Write.raw ++ [Write.reply FTP_STATOK (ascii "End of status")]).length + 1 ≤ _
    rw [List.length_append, List.length_map]
    have hlen := statLines_length x
    show 12 * evs.length + ((statLines x).length + 1) + 1 ≤ _
    omega
  | help => exact Nat.add_le_add_left (show 6 ≤ 10 by decide) _
  | _ => exact Nat.le_add_right _ _

theorem command_left {k : Nat} (he : handleCmd c env sid (s.goto (.events evs)) = .ok s') :
    s'.main.left k ≤ 12 * evs.length + 10 := by
  obtain ⟨x, hx, ⟨-, code, text, -, rfl⟩ | ⟨h, -, hr⟩⟩ := handleCmd_cases he
  · exact Nat.le_add_right _ _
  · rw [runCmd_main (s := s.goto (.events evs)) hx hr]
    exact leads_left

theorem handlerStep_left {k m : Nat} (h : HandlerStep s s') : s'.main.left k < s.main.left m := by
  cases h with
  | name hm => rw [hm]; exact Nat.lt_succ_self _
  | entry hm => rw [hm]; exact Nat.lt_succ_self _
  | watch hm => rw [hm]; exact Nat.lt_succ_self _
  | deaf hm => rw [hm]; exact Nat.lt_succ_self _
  | write hm _ => rw [hm]; exact Nat.lt_succ_self _
  | back hm => rw [hm]; exact Nat.lt_succ_self _

/-- **One step.** -/
theorem nearer_step (hen : enabled s l) (he : exec c s l = .ok s') (ha : Attends s l) (h : s.Left n) :
    ∃ m, s'.Left m ∧ m ≤ n ∧ (l.ofLoop = true → l.accepts = false → m < n) := by
  obtain ⟨ns, hl, rfl⟩ := h
  obtain ⟨ms, hl', -⟩ := linked_step (g := 0) hen he hl
  refine ⟨_, ⟨ms, hl', rfl⟩, ?_⟩
  have hlower : s'.main.left ms.length < s.main.left ns.length → s'.main.left ms.length ≤ s.main.left ns.length ∧
      (l.ofLoop = true → l.accepts = false → s'.main.left ms.length < s.main.left ns.length) :=
    fun h => ⟨h.le, fun _ _ => h⟩
  -- the list stays, and so does the loop
  have hsame : l.ofLoop = false → s'.main = s.main → s'.tl = s.tl → s'.main.left ms.length ≤ s.main.left ns.length ∧
      (l.ofLoop = true → l.accepts = false → s'.main.left ms.length < s.main.left ns.length) := by
    intro h1 h2 h3
    have hls : s'.tl.links.Is ns := h3 ▸ hl.spells
    refine ⟨?_, fun e => absurd (h1.symm.trans e) Bool.false_ne_true⟩
    rw [h2, hl'.spells.visits_right.unique hls.visits_right]
  cases l with
  | dispatch now env =>
    obtain ⟨ev, evs, hm⟩ := hen
    unfold exec at he
    simp only [hm] at he
    refine hlower ?_
    rw [hm]
    show _ < 12 * (evs.length + 1)
    rcases dispatch_main he with e | e | ⟨sid, e⟩
    · rw [e]
      show 12 * evs.length < _
      omega
    · rw [e]
      show 12 * evs.length + 1 < _
      omega
    · rw [e]
      show 12 * evs.length + 11 < _
      omega
  | command env =>
    obtain ⟨sid, evs, hm⟩ := hen
    refine hlower ?_
    rw [hm]
    exact Nat.lt_succ_of_le (command_left (exec_command_ok hm he))
  | onward b => exact hlower (handlerStep_left (handlerStep_cases hen he))
  | acceptErr e =>
    obtain ⟨evs, hm⟩ := hen
    unfold exec at he
    simp only [hm] at he
    split at he
    · cases he
      refine hlower ?_
      rw [hm]
      exact Nat.lt_succ_self _
    · cases he
  | evictOne now => exact hlower (evictOne_left hl hen he hl'.spells)
  | acceptOne conn =>
    obtain ⟨evs, hm⟩ := hen
    have hmain : s'.main = s.main := handleNewConn_main he
    refine ⟨?_, fun _ => nofun⟩
    rw [hmain, hm]
    exact le_refl _
  | thread tid env =>
    obtain ⟨th, hth⟩ := Option.ne_none_iff_exists'.mp hen
    obtain ⟨o, hr⟩ := thread_ran hth he
    exact hsame rfl hr.main (congrArg Books.tl hr.books)
  | arrive fd bs => cases he; exact hsame rfl rfl rfl
  | hangup fd => cases he; exact hsame rfl rfl rfl
  | faults fd es => cases he; exact hsame rfl rfl rfl
  | wait evs => exact absurd ha id
  | timeout => exact absurd ha id
  | waitErr e => exact absurd ha id

end

end Myftpd
