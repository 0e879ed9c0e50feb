import Myftpd.Timeout
import Myftpd.Lifetime

/-!
# The timeout list and the live sessions

Only `removeToNode` takes a session out of the list and out of `map_fd_toNode`.  QUIT, end of file and
`EPOLLHUP` call `closeSess` alone, and leave both behind.  As long as sessions end by eviction, and nobody
closes the control socket of another session, the list and the map are those of the live sessions.

* `Ledger.ctrlOf`    the live sessions and their control sockets;
* `Registry`         the list and the map know exactly the live sessions;
* `registry_kept`    the runs in which they do.
-/

namespace Myftpd
open CMem Server

namespace Ledger

section
variable {L L' : Ledger} {op : Op} {sid : Sid} {fd : Fd}

/-- the control socket of a live session -/
def ctrlOf (L : Ledger) (sid : Sid) : Option Fd := (L.sess sid).map Core.ctrl

theorem ctrlOf_some : L.ctrlOf sid = some fd ↔ ∃ x, L.sess sid = some x ∧ x.ctrl = fd :=
  Option.map_eq_some_iff

theorem Step.ctrl_same (h : L.Step op L') (hn : L.Numbered) (he : op.ends = none)
    (ha : ∀ fd, op ≠ .enter fd) : L'.ctrlOf = L.ctrlOf := by
  funext j
  cases hj : L.sess j with
  | none =>
    cases hj' : L'.sess j with
    | none =>
      unfold ctrlOf
      rw [hj, hj']
    | some z' =>
      rcases (h.born hj').2 with ⟨z, hz, -⟩ | ⟨fd, e, -⟩
      · rw [hj] at hz
        cases hz
      · exact absurd e (ha fd)
  | some z =>
    obtain ⟨z', hz', e⟩ := h.alive hj (hn.sess j z hj) (by rw [he]; exact nofun)
    unfold ctrlOf
    rw [hj, hz', Option.map_some, Option.map_some, e]

theorem Step.ctrl_enter (h : L.Step (.enter fd) L') :
    L.desc fd = none ∧ L'.ctrlOf = Function.update L.ctrlOf L.nextSid (some fd) := by
  cases h with
  | enter hf _ => exact ⟨hf, Function.comp_update (Option.map Core.ctrl) L.sess L.nextSid _⟩

theorem Step.ctrl_ended (h : L.Step op L') (he : op.ends = some sid) :
    L'.ctrlOf = Function.update L.ctrlOf sid none := by
  obtain ⟨x, -, rfl⟩ := h.ended he
  funext j
  unfold ctrlOf
  rw [freed_sess, Function.update_apply]
  split <;> rfl

/-- the control socket of every live session is open -/
def CtrlOpen (L : Ledger) : Prop := ∀ sid fd, L.ctrlOf sid = some fd → L.desc fd ≠ none

/-- they stay open if a step closes only the control socket of the session it ends -/
theorem Step.ctrlOpen (h : L.Step op L') (ho : L.CtrlOpen)
    (hc : ∀ sid fd, L.ctrlOf sid = some fd → fd ∈ op.closes L → op.ends = some sid) :
    L'.CtrlOpen := by
  intro sid fd hs
  obtain ⟨z', hz', rfl⟩ := ctrlOf_some.mp hs
  obtain ⟨he, ⟨z, hz, e⟩ | ⟨fd, rfl, -, rfl⟩⟩ := h.born hz'
  · have hs' : L.ctrlOf sid = some z'.ctrl := ctrlOf_some.mpr ⟨z, hz, e⟩
    rcases h.desc z'.ctrl with e' | e' | e'
    · rw [e']
      exact ho sid _ hs'
    · exact absurd e' (ho sid _ hs')
    · exact absurd (hc sid _ hs' e') he
  · cases h with
    | enter _ _ =>
      show Function.update L.desc fd _ fd ≠ none
      rw [Function.update_self]
      exact Option.some_ne_none _

end

end Ledger

section
variable {c : Conf} {s s' : Server} {l : Label}

/-- The list has exactly one node for every live session and no other nodes; the map has the node
of the session with this control socket, and NULL where there is none. -/
structure Registry (s : Server) (l : List Nid) : Prop where
  spells : s.tl.links.Is l
  live : ∀ n ∈ l, ∃ sid x, s.tl.sess n = some sid ∧ s.heap sid = some x
  one : ∀ sid x, s.heap sid = some x → ∃! n, n ∈ l ∧ s.tl.sess n = some sid
  found : ∀ sid x, s.heap sid = some x →
    ∃ n ∈ l, s.tl.sess n = some sid ∧ s.tl.map x.ctrlFd = some n
  null : ∀ fd, (∀ sid x, s.heap sid = some x → x.ctrlFd ≠ fd) → s.tl.map fd = none

theorem ctrlOf_ledger {sid : Sid} {fd : Fd} :
    s.ledger.ctrlOf sid = some fd ↔ ∃ x, s.heap sid = some x ∧ x.ctrlFd = fd := by
  rw [Ledger.ctrlOf_some]
  constructor
  · rintro ⟨y, hy, e⟩
    obtain ⟨x, hx, rfl⟩ := Option.map_eq_some_iff.mp hy
    exact ⟨x, hx, e⟩
  · rintro ⟨x, hx, e⟩
    exact ⟨x.core, ledger_sess hx, e⟩

theorem registry_of {l : List Nid} (h : s.tl.Tracks s.ledger.ctrlOf l) : Registry s l where
  spells := h.spells
  live := by
    intro n hn
    obtain ⟨sid, fd, e, hl, -⟩ := h.node n hn
    obtain ⟨x, hx, -⟩ := ctrlOf_ledger.mp hl
    exact ⟨sid, x, e, hx⟩
  one := by
    intro sid x hx
    obtain ⟨n, hn, e, -⟩ := h.covers sid _ (ctrlOf_ledger.mpr ⟨x, hx, rfl⟩)
    exact ⟨n, ⟨hn, e⟩, fun m ⟨hm, e'⟩ => h.unique hn hm e e'⟩
  found := fun sid x hx => h.covers sid _ (ctrlOf_ledger.mpr ⟨x, hx, rfl⟩)
  null := by
    intro fd hfd
    by_contra hne
    obtain ⟨n, hn⟩ := Option.ne_none_iff_exists'.mp hne
    obtain ⟨sid, -, hl⟩ := h.map fd n hn
    obtain ⟨x, hx, e⟩ := ctrlOf_ledger.mp hl
    exact hfd sid x hx e

def isEvict : Label → Bool
  | .evictOne _ => true
  | _ => false

/-- Sessions end only by eviction, and no step closes the control socket of a session that it does
not end. -/
def EvictsOnly (c : Conf) (s : Server) (l : Label) : Prop :=
  (ends c s l ≠ none → isEvict l = true) ∧
    ∀ sid ∈ List.range s.nextSid, ∀ x ∈ (s.heap sid).toList, x.ctrlFd ∈ closes c s l →
      ends c s l = some sid

instance (c : Conf) (s : Server) (l : Label) : Decidable (EvictsOnly c s l) :=
  inferInstanceAs (Decidable (_ ∧ ∀ sid ∈ _, ∀ x ∈ _, _))

theorem EvictsOnly.closes {op : Op} (h : EvictsOnly c s l) (ho : Outcome c s l s' op)
    (hn : s.ledger.Numbered) : ∀ sid fd, s.ledger.ctrlOf sid = some fd →
      fd ∈ op.closes s.ledger → op.ends = some sid := by
  intro sid fd hs hm
  obtain ⟨x, hx, rfl⟩ := ctrlOf_ledger.mp hs
  rw [ho.endsEq]
  rw [ho.closesEq] at hm
  exact h.2 sid (List.mem_range.mpr (hn.sess sid _ (ledger_sess hx))) x (Option.mem_toList.mpr hx) hm

/-- **One step** keeps the list and the map in line with the sessions. -/
theorem tracks_step {op : Op} {l' : List Nid} (ho : Outcome c s l s' op) (hn : s.ledger.Numbered)
    (hopen : s.ledger.CtrlOpen) (ht : s.tl.Tracks s.ledger.ctrlOf l') (hc : EvictsOnly c s l) :
    ∃ l', s'.tl.Tracks s'.ledger.ctrlOf l' := by
  have hsame : op.ends = none → (∀ fd, op ≠ .enter fd) →
      (s'.tl = s.tl ∨ ∃ fd now, s'.tl = s.tl.refreshTimeout fd now) →
      ∃ l', s'.tl.Tracks s'.ledger.ctrlOf l' := by
    intro h1 h2 h3
    rw [ho.step.ctrl_same hn h1 h2]
    rcases h3 with e | ⟨fd, now, e⟩
    · rw [e]
      exact ⟨l', ht⟩
    · rw [e]
      exact ⟨_, ht.refreshTimeout fd now⟩
  have htl := ho.tl
  cases op with
  | enter fd =>
    obtain ⟨now, e⟩ := htl
    obtain ⟨hf, e'⟩ := ho.step.ctrl_enter
    rw [e, e']
    refine ⟨_, ht.addtoNode ?_ fun j hj => hopen j fd hj hf⟩
    cases hs : s.ledger.ctrlOf s.nextSid with
    | none => rfl
    | some g =>
      obtain ⟨x, hx, -⟩ := Ledger.ctrlOf_some.mp hs
      exact absurd (hn.sess _ x hx) (Nat.lt_irrefl _)
  | free sid =>
    exfalso
    have he := ho.endsEq
    have hev : isEvict l = true := hc.1 (by rw [← he]; exact Option.some_ne_none _)
    cases l with
    | evictOne now => exact ho.notEvict sid rfl now rfl
    | _ => cases hev
  | evict sid =>
    obtain ⟨n, node, x, hl, hnode, rfl, hx, e⟩ := htl
    rw [e, ho.step.ctrl_ended rfl]
    refine ⟨_, ht.remove (ht.spells.last_mem hl) ?_ (ctrlOf_ledger.mpr ⟨x, hx, rfl⟩)⟩
    unfold TimeList.sess
    rw [hnode]
    rfl
  | _ => exact hsame rfl nofun htl

theorem tracks_reach (h : Reach c (EvictsOnly c) s) :
    s.ledger.CtrlOpen ∧ ∃ l, s.tl.Tracks s.ledger.ctrlOf l := by
  refine Runs.Reach.inv_with (J := fun s => s.ledger.Numbered)
    (I := fun s => s.ledger.CtrlOpen ∧ ∃ l, s.tl.Tracks s.ledger.ctrlOf l)
    (fun s h => numbered_reach h) ?_ ?_ h
  · rintro s ⟨fds, -, rfl⟩
    exact ⟨nofun, [], TimeList.tracks_init⟩
  · rintro s l s' hn ⟨hopen, l', ht⟩ hc ⟨hen, he⟩
    obtain ⟨op, ho⟩ := exec_step hen he
    exact ⟨ho.step.ctrlOpen hopen (hc.closes ho hn), tracks_step ho hn hopen ht hc⟩

/-- **The list and the map know exactly the live sessions** in a run that ends sessions only by
eviction and closes nobody else's control socket. -/
theorem registry_kept (h : Reach c (EvictsOnly c) s) : ∃ l, Registry s l := by
  obtain ⟨-, l, ht⟩ := tracks_reach h
  exact ⟨l, registry_of ht⟩

end

/-- two clients; the second is heard of again, the first is evicted -/
def evictRun : List Label :=
  connects ++ connects ++ [.arrive 6 (ascii "NOOP" ++ [CR, LF]), .wait [input 6],
    .dispatch 400 sampleEnv, .command sampleEnv, .timeout, .evictOne 400, .evictOne 400]

/-- the second session is left -/
theorem registry_kept_evict : ∃ s, Reach sampleConf (EvictsOnly sampleConf) s ∧
    s.heap 0 = none ∧ (∃ x, s.heap 1 = some x) ∧ ∃ l, Registry s l := by
  obtain ⟨s, hs, hp⟩ := reach_of_play
    (p := fun s => decide (s.heap 0 = none) && (s.heap 1).isSome)
    (sampleReach (EvictsOnly sampleConf))
    (show (play sampleConf (EvictsOnly sampleConf) sampleBoot evictRun).any _ = true by
      decide +kernel)
  rw [Bool.and_eq_true, decide_eq_true_eq] at hp
  exact ⟨s, hs, hp.1, Option.isSome_iff_exists.mp hp.2, registry_kept hs⟩

/-- QUIT leaves the entry of the map behind -/
theorem node_after_quit : ¬ ∀ c s, Reach c Runs.Any s → s.main = .events [] → ∃ l, Registry s l := by
  intro h
  obtain ⟨s, hs, hp⟩ := reach_of_play
    (p := fun s => decide (s.main = .events []) && decide (s.nextSid = 1 ∧ s.heap 0 = none) &&
      decide (s.tl.map 5 = some 0)) (sampleReach Runs.Any)
    (show (play sampleConf Runs.Any sampleBoot (connects ++ sends 5 "QUIT")).any _ = true by
      decide +kernel)
  simp only [Bool.and_eq_true, decide_eq_true_eq] at hp
  obtain ⟨⟨hm, hsid, h0⟩, hmap⟩ := hp
  obtain ⟨l, hr⟩ := h _ s hs hm
  have hnull := hr.null 5 (by
    intro sid x hx
    have hlt := (numbered_reach hs).sess sid _ (ledger_sess hx)
    change sid < s.nextSid at hlt
    rw [hsid] at hlt
    obtain rfl : sid = 0 := Nat.lt_one_iff.mp hlt
    rw [h0] at hx
    cases hx)
  rw [hnull] at hmap
  cases hmap

end Myftpd
