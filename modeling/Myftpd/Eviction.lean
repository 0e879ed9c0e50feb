import Myftpd.Clock
import Myftpd.Isolation

/-!
# The eviction loop, and the timeout of epoll_wait

`epoll_wait_timeout` looks at the last node of the list only.  Since the list runs from the latest
activity to the earliest, the loop removes exactly the nodes that are overdue.  The timeout it hands to
`Epoll_wait` becomes negative once the session of that node has been idle for longer than the limit, as
it is when other sessions have kept the loop busy.

* `isTimeout_iff`   the comparison of an `int` and an `unsigned`, over the integers;
* `loop_step`       one round of the loop;
* `eviction_exact`  the order of the list, and what the loop removes;
* `wait_iff`        when the timeout is not negative.
-/

namespace Myftpd
open CMem Server

/-- a session with its last activity at `t` has been idle for too long -/
def Overdue (c : Conf) (t now : Int) : Prop := c.idleSessionTimeout < now - t + TIMEOUTSEG

/-- **The comparison in `isTimeout`**, for readings that do not overflow. -/
theorem isTimeout_iff {c : Conf} {x : ToNode} {now : Int} (h0 : 0 ≤ x.lastTime)
    (h1 : x.lastTime ≤ now) (h2 : now < 2^31 - TIMEOUTSEG) :
    TimeList.isTimeout x now c.idleSessionTimeout = true ↔ Overdue c x.lastTime now := by
  unfold TimeList.isTimeout TimeList.sessTime Overdue
  rw [decide_eq_true_eq]
  unfold TIMEOUTSEG at h2 ⊢
  rw [wrapS_of_lt (by decide) (by omega) (by omega)]
  have hu : (wrapU32 (now - x.lastTime + 2) : Int) = now - x.lastTime + 2 := by
    unfold wrapU32
    rw [Int.emod_eq_of_lt (by omega) (by omega), Int.toNat_of_nonneg (by omega)]
  rw [gt_iff_lt, ← Int.ofNat_lt, hu]

/-- the list from `pMRU` to `pLRU`: its nodes exist, and their times do not rise -/
structure Sorted (tl : TimeList) (ns : List Nid) : Prop where
  spells : tl.links.Is ns
  nodes : ∀ n ∈ ns, n < tl.nextNid ∧ ∃ x, tl.node n = some x
  sorted : ns.Pairwise fun m n => tl.time n ≤ tl.time m

/-- the session of every node is live -/
def NodesLive (s : Server) (ns : List Nid) : Prop :=
  ∀ n ∈ ns, ∃ sid x, s.tl.sess n = some sid ∧ s.heap sid = some x

/-- a step while the eviction loop is running; the clock does not go back -/
def InLoop (p : Server × Int) (l : Label) : Prop := p.1.main = .evict ∧ Forward p l

/-- the node `n` was removed at a reading at which it was overdue -/
def Removed (c : Conf) (p : Server × Int) (ls : List Label) (n : Nid) : Prop :=
  ∃ a now b m r, ls = a ++ .evictOne now :: b ∧ Runs.Trail (clocked c) InLoop p a m ∧
    (clocked c).step (.evictOne now) m r ∧ m.1.tl.node n ≠ none ∧ r.1.tl.node n = none ∧
    Overdue c (m.1.tl.time n) now

/-- The loop has run from `p`, where the list was `ns`, to `q`, where it is `kept`. -/
structure Evicted (c : Conf) (p : Server × Int) (ns : List Nid) (ls : List Label) (q : Server × Int)
    (kept : List Nid) : Prop where
  list : Sorted q.1.tl kept
  order : kept <+: ns
  times : ∀ n ∈ kept, q.1.tl.time n = p.1.tl.time n
  removed : ∀ n ∈ ns, n ∉ kept → Removed c p ls n
  complete : q.1.main ≠ .evict → ∃ now, ls.getLast? = some (.evictOne now) ∧
    ∀ n ∈ kept, ¬ Overdue c (q.1.tl.time n) now
  rounds : ls.countP isEvict ≤ ns.length + 1
  goes : q.1.main = .evict → ∀ now, ∃ s', exec c q.1 (.evictOne now) = .ok s'

section
variable {c : Conf} {s s' : Server} {l : Label} {ns : List Nid} {n : Nid} {now : Int}

/-! ## one round -/

/-- while the loop runs, only it moves the main loop, and no other step ends a session -/
theorem loop_others (hm : s.main = .evict) (hen : enabled s l) (he : exec c s l = .ok s')
    (hl : isEvict l = false) : s'.main = .evict ∧ s'.tl = s.tl ∧ ends c s l = none ∧
      admits c s l = none ∧ clock l = none := by
  cases l with
  | arrive fd bs => cases he; exact ⟨hm, rfl, rfl, rfl, rfl⟩
  | hangup fd => cases he; exact ⟨hm, rfl, rfl, rfl, rfl⟩
  | faults fd es => cases he; exact ⟨hm, rfl, rfl, rfl, rfl⟩
  | wait evs => cases hm.symm.trans hen.1
  | timeout => cases hm.symm.trans hen.1
  | waitErr e => cases he
  | evictOne now => cases hl
  | dispatch now env =>
    obtain ⟨ev, evs, e⟩ := hen
    cases hm.symm.trans e
  | command env =>
    obtain ⟨sid, evs, e⟩ := hen
    cases hm.symm.trans e
  | onward b =>
    change s.main.inside ≠ none at hen
    rw [hm] at hen
    exact absurd rfl hen
  | acceptOne conn =>
    obtain ⟨evs, e⟩ := hen
    cases hm.symm.trans e
  | acceptErr e =>
    obtain ⟨evs, e'⟩ := hen
    cases hm.symm.trans e'
  | thread tid env =>
    obtain ⟨th, hth⟩ := Option.ne_none_iff_exists'.mp hen
    obtain ⟨o, h⟩ := thread_ran hth he
    exact ⟨h.main.trans hm, congrArg Books.tl h.books, rfl, rfl, rfl⟩

/-- **One round**: the loop ends, or it removes the last node of the list. -/
theorem loop_step (hm : s.main = .evict) (he : exec c s (.evictOne now) = .ok s') :
    s'.main = .events [] ∧ s'.tl = s.tl ∧ ends c s (.evictOne now) = none ∧
        (∀ n, s.tl.pLRU = some n → ∃ x, s.tl.node n = some x ∧
          TimeList.isTimeout x now c.idleSessionTimeout = false) ∨
      s'.main = .evict ∧ ∃ n x y, s.tl.pLRU = some n ∧ s.tl.node n = some x ∧
        TimeList.isTimeout x now c.idleSessionTimeout = true ∧ s.heap x.sess = some y ∧
        s'.tl = s.tl.remove n y.ctrlFd ∧ ends c s (.evictOne now) = some x.sess := by
  rcases evictOne_cases he with ⟨rfl, hstop⟩ | ⟨n, x, y, t, hn, hnode, ht, hy, hc, rfl⟩
  · exact Or.inl ⟨rfl, rfl, overdue_none hstop, hstop⟩
  · obtain ⟨z, -, -, rfl⟩ := closeSess_inv hc
    refine Or.inr ⟨?_, n, x, y, hn, hnode, ht, hy, ?_, overdue_some hn hnode ht⟩
    · show (closed s x.sess z).main = _
      rw [closed_main, hm]
    · show (closed s x.sess z).tl.remove n y.ctrlFd = _
      rw [closed_tl]

/-- a round does not stop the process while the sessions of the nodes are live -/
theorem loop_goes (hr : Reach c Runs.Any s) (hl : s.tl.links.Is ns) (hlive : NodesLive s ns) (now : Int) :
    ∃ s', exec c s (.evictOne now) = .ok s' := by
  show ∃ s', Myftpd.evictOne c now s = .ok s'
  unfold Myftpd.evictOne
  cases hn : s.tl.pLRU with
  | none => exact ⟨_, rfl⟩
  | some n =>
    obtain ⟨sid, y, hs, hy⟩ := hlive n (hl.last_mem hn)
    obtain ⟨x, hx, rfl⟩ := Option.map_eq_some_iff.mp hs
    have hb := (bounded_reach hr).ctrl _ _ (ledger_sess hy)
    simp only [hx]
    split
    · exact ⟨_, removeToNode_eq hx hy hb⟩
    · exact ⟨_, rfl⟩

/-! ## the loop -/

/-- what is known of the list while the loop runs -/
structure Known (c : Conf) (p : Server × Int) (ns : List Nid) : Prop where
  reach : Reach c Runs.Any p.1
  start : 0 ≤ p.2
  linked : p.1.tl.Linked p.1.ledger.ctrlOf p.1.nextSid ns
  timely : p.1.tl.Timely p.2 ns
  sessions : NodesLive p.1 ns

theorem nodesLive_iff (h : ∀ sid, (∃ x, s'.heap sid = some x) ↔ ∃ x, s.heap sid = some x)
    (ht : s'.tl = s.tl) : NodesLive s ns → NodesLive s' ns := by
  intro hl n hn
  obtain ⟨sid, x, h1, h2⟩ := hl n hn
  obtain ⟨y, hy⟩ := (h sid).mpr ⟨x, h2⟩
  rw [← ht] at h1
  exact ⟨sid, y, h1, hy⟩

theorem live_heap (hn : s.ledger.Numbered) (hn' : s'.ledger.Numbered) (h : live s' = live s) (sid : Sid) :
    (∃ x, s'.heap sid = some x) ↔ ∃ x, s.heap sid = some x := by
  rw [← mem_live hn', ← mem_live hn, h]

theorem Known.same {p p' : Server × Int} (h : Known c p ns) (hc : Forward p l)
    (ht : (clocked c).step l p p') (htl : p'.1.tl = p.1.tl) (he : ends c p.1 l = none)
    (ha : admits c p.1 l = none) : Known c p' ns := by
  obtain ⟨⟨hen, hex⟩, hg⟩ := ht
  have hr : Reach c Runs.Any p'.1 := h.reach.step trivial ⟨hen, hex⟩
  have hle : p.2 ≤ p'.2 := by
    rw [hg]
    unfold tick
    cases hl : clock l with
    | none => exact le_refl _
    | some now => exact (hc.reading hl).1
  obtain ⟨op, ho⟩ := exec_step hen hex
  have hn := numbered_reach h.reach
  refine ⟨hr, h.start.trans hle, ?_, ?_, ?_⟩
  · rw [htl]
    exact h.linked.weaken (ctrl_sub hen hex ha) ho.step.nextSid_le
  · rw [htl]
    exact h.timely.weaken hle
  · exact nodesLive_iff (live_heap hn (numbered_reach hr) (live_same hn hen hex ha he)) htl h.sessions

theorem Known.removed {p p' : Server × Int} {x : ToNode} {y : Session} (h : Known c p ns)
    (hc : Forward p (.evictOne now)) (ht : (clocked c).step (.evictOne now) p p')
    (hl : p.1.tl.pLRU = some n) (hx : p.1.tl.node n = some x) (hy : p.1.heap x.sess = some y)
    (htl : p'.1.tl = p.1.tl.remove n y.ctrlFd)
    (he : ends c p.1 (.evictOne now) = some x.sess) : Known c p' (ns.erase n) := by
  obtain ⟨⟨hen, hex⟩, hg⟩ := ht
  have hr : Reach c Runs.Any p'.1 := h.reach.step trivial ⟨hen, hex⟩
  have hle : p.2 ≤ p'.2 := by
    rw [hg]
    exact (hc.reading rfl).1
  have hmem : n ∈ ns := h.linked.spells.last_mem hl
  have hs : p.1.tl.sess n = some x.sess := by
    unfold TimeList.sess
    rw [hx]
    rfl
  obtain ⟨op, ho⟩ := exec_step hen hex
  have hn := numbered_reach h.reach
  refine ⟨hr, h.start.trans hle, ?_, ?_, ?_⟩
  · rw [htl, ho.step.ctrl_ended (ho.endsEq.trans he)]
    exact (h.linked.remove hmem hs (ctrlOf_ledger.mpr ⟨y, hy, rfl⟩)).weaken (fun _ _ e => e)
      ho.step.nextSid_le
  · rw [htl]
    exact (h.timely.remove h.linked).weaken hle
  · -- the other nodes belong to other sessions
    intro m hm
    obtain ⟨hmn, hm⟩ := h.linked.spells.nodup.mem_erase_iff.mp hm
    obtain ⟨sid, z, h1, h2⟩ := h.sessions m hm
    have hne : sid ≠ x.sess := by
      rintro rfl
      exact hmn (h.linked.inj m hm n hmem _ h1 hs)
    have hlive : sid ∈ live p'.1 := by
      rw [(live_ended hn hen hex he).2]
      exact Finset.mem_erase.mpr ⟨hne, (mem_live hn).mpr ⟨z, h2⟩⟩
    obtain ⟨w, hw⟩ := (mem_live (numbered_reach hr)).mp hlive
    refine ⟨sid, w, ?_, hw⟩
    rw [htl, TimeList.remove_sess, if_neg hmn]
    exact h1

theorem Known.overdue {p : Server × Int} {x : ToNode} (h : Known c p ns)
    (hc : Forward p (.evictOne now)) (hmem : n ∈ ns) (hx : p.1.tl.node n = some x) :
    TimeList.isTimeout x now c.idleSessionTimeout = true ↔ Overdue c (p.1.tl.time n) now := by
  obtain ⟨h1, h2⟩ := hc.reading (rfl : clock (.evictOne now) = some now)
  have ht : p.1.tl.time n = x.lastTime := by
    unfold TimeList.time
    rw [hx]
    rfl
  obtain ⟨h3, h4⟩ := h.timely.bounds n hmem
  rw [ht] at h3 h4 ⊢
  exact isTimeout_iff h3 (h4.trans h1) h2

theorem Known.none_overdue {p : Server × Int} (h : Known c p ns) (hc : Forward p (.evictOne now))
    (hlast : ∀ n, p.1.tl.pLRU = some n → ∃ x, p.1.tl.node n = some x ∧
      TimeList.isTimeout x now c.idleSessionTimeout = false) :
    ∀ n ∈ ns, ¬ Overdue c (p.1.tl.time n) now := by
  intro n hn
  have hne : ns ≠ [] := List.ne_nil_of_mem hn
  have hl : p.1.tl.pLRU = some (ns.getLast hne) := by
    unfold TimeList.pLRU
    rw [h.linked.spells.last, List.getLast?_eq_some_getLast hne]
  obtain ⟨x, hx, hfalse⟩ := hlast _ hl
  have hlm : ns.getLast hne ∈ ns := List.getLast_mem hne
  have hnot : ¬ Overdue c (p.1.tl.time (ns.getLast hne)) now := fun ho =>
    Bool.false_ne_true (hfalse.symm.trans ((h.overdue hc hlm hx).mpr ho))
  have hle : p.1.tl.time (ns.getLast hne) ≤ p.1.tl.time n := by
    by_cases e : n = ns.getLast hne
    · rw [e]
    · have hsplit : ns = ns.dropLast ++ [ns.getLast hne] := (List.dropLast_append_getLast hne).symm
      have hs := h.timely.sorted
      rw [hsplit, List.pairwise_append] at hs
      refine hs.2.2 n ?_ _ (List.mem_singleton_self _)
      rw [hsplit, List.mem_append, List.mem_singleton] at hn
      exact hn.resolve_right e
  unfold Overdue at hnot ⊢
  omega

/-- without its last node the list is a prefix of what it was -/
theorem erase_last {tl : TimeList} (h : tl.links.Is ns) (hl : tl.pLRU = some n) :
    ns.erase n <+: ns := by
  have hne : ns ≠ [] := List.ne_nil_of_mem (h.last_mem hl)
  have hlast : ns.getLast hne = n := by
    have h1 : some n = ns.getLast? := hl.symm.trans h.last
    rw [List.getLast?_eq_some_getLast hne] at h1
    exact (Option.some.inj h1).symm
  have hsplit : ns = ns.dropLast ++ [n] := by rw [← hlast, List.dropLast_append_getLast hne]
  have hnd := h.nodup
  rw [hsplit] at hnd ⊢
  rw [List.erase_append_right _ fun hm => (List.nodup_append.mp hnd).2.2 n hm n
    (List.mem_singleton_self n) rfl, List.erase_cons_head, List.append_nil]
  exact List.prefix_append _ _

theorem Removed.cons {p p' : Server × Int} {ls : List Label} (hc : InLoop p l)
    (ht : (clocked c).step l p p') (h : Removed c p' ls n) : Removed c p (l :: ls) n := by
  obtain ⟨a, now, b, m, r, rfl, h1, h2⟩ := h
  exact ⟨l :: a, now, b, m, r, rfl, .cons hc ht h1, h2⟩

/-- **A run of the loop**, by induction on its steps. -/
theorem loop_trail {p q : Server × Int} {ls : List Label}
    (tr : Runs.Trail (clocked c) InLoop p ls q) : ∀ ns, Known c p ns → p.1.main = .evict →
    ∃ kept, Known c q kept ∧ kept <+: ns ∧ (∀ n ∈ kept, q.1.tl.time n = p.1.tl.time n) ∧
      (∀ n ∈ ns, n ∉ kept → Removed c p ls n) ∧
      (q.1.main ≠ .evict → ∃ now, ls.getLast? = some (.evictOne now) ∧
        ∀ n ∈ kept, ¬ Overdue c (q.1.tl.time n) now) ∧
      ls.countP isEvict + kept.length ≤ ns.length + 1 ∧
      (q.1.main = .evict → ls.countP isEvict + kept.length ≤ ns.length) := by
  induction tr with
  | nil =>
    intro ns hk hm
    refine ⟨ns, hk, List.prefix_rfl, fun _ _ => rfl, fun n h1 h2 => absurd h1 h2,
      fun h => absurd hm h, ?_, fun _ => ?_⟩
    · rw [List.countP_nil]
      omega
    · rw [List.countP_nil]
      omega
  | @cons p p' q l ls hc ht tr ih =>
    intro ns hk hm
    cases hev : isEvict l with
    | false =>
      obtain ⟨h1, h2, h3, h4, h5⟩ := loop_others hm ht.1.1 ht.1.2 hev
      have hk' := hk.same hc.2 ht h2 h3 h4
      obtain ⟨kept, h6, h7, h8, h9, h10, h11, h12⟩ := ih ns hk' h1
      have hcount : (l :: ls).countP isEvict = ls.countP isEvict :=
        List.countP_cons_of_neg (by rw [hev]; exact Bool.false_ne_true)
      rw [hcount]
      refine ⟨kept, h6, h7, fun n hn => ?_, fun n hn hnk => (h9 n hn hnk).cons hc ht, fun hq => ?_,
        h11, h12⟩
      · rw [h8 n hn, h2]
      · obtain ⟨now, hlast, hall⟩ := h10 hq
        refine ⟨now, ?_, hall⟩
        rw [List.getLast?_cons, hlast]
        rfl
    | true =>
      cases l with
      | evictOne now =>
        have hcount : (Label.evictOne now :: ls).countP isEvict = ls.countP isEvict + 1 :=
          List.countP_cons_of_pos rfl
        rw [hcount]
        rcases loop_step hm ht.1.2 with ⟨h1, h2, h3, h4⟩ | ⟨h1, n, x, y, h2, h3, h4, h5, h6, h7⟩
        · -- the loop ends here, and with it the run
          have hk' : Known c p' ns := hk.same hc.2 ht h2 h3 rfl
          have hnone := hk.none_overdue hc.2 h4
          cases tr with
          | nil =>
            rw [List.countP_nil]
            refine ⟨ns, hk', List.prefix_rfl, fun m _ => by rw [h2], fun m hm1 hm2 => absurd hm1 hm2,
              fun _ => ⟨now, rfl, fun m hm1 => ?_⟩, by omega, fun hq => ?_⟩
            · rw [h2]
              exact hnone m hm1
            · cases h1.symm.trans hq
          | cons hc' _ _ => cases h1.symm.trans hc'.1
        · have hmem : n ∈ ns := hk.linked.spells.last_mem h2
          have hk' := hk.removed hc.2 ht h2 h3 h5 h6 h7
          obtain ⟨kept, h8, h9, h10, h11, h12, h13, h14⟩ := ih _ hk' h1
          have hin : ∀ m, m ∈ ns.erase n ↔ m ≠ n ∧ m ∈ ns := fun m =>
            hk.linked.spells.nodup.mem_erase_iff
          have htime : ∀ m ∈ ns.erase n, p'.1.tl.time m = p.1.tl.time m := by
            intro m hm1
            rw [h6, TimeList.remove_time, if_neg ((hin m).mp hm1).1]
          have hlen : (ns.erase n).length + 1 = ns.length := List.length_erase_add_one hmem
          refine ⟨kept, h8, h9.trans (erase_last hk.linked.spells h2), fun m hm1 => ?_,
            fun m hm1 hm2 => ?_, fun hq => ?_, by omega, fun hq => ?_⟩
          · rw [h10 m hm1, htime m (h9.subset hm1)]
          · by_cases e : m = n
            · subst e
              exact ⟨[], now, ls, p, p', rfl, .nil, ht, by rw [h3]; exact Option.some_ne_none x,
                by rw [h6]; exact Function.update_self .., (hk.overdue hc.2 hmem h3).mp h4⟩
            · exact (h11 m ((hin m).mpr ⟨e, hm1⟩) hm2).cons hc ht
          · obtain ⟨now', hlast, hall⟩ := h12 hq
            refine ⟨now', ?_, hall⟩
            rw [List.getLast?_cons, hlast]
            rfl
          · have := h14 hq
            omega
      | _ => cases hev

theorem Sorted.of_linked {p : Server × Int} (h : p.1.tl.Linked p.1.ledger.ctrlOf p.1.nextSid ns)
    (ht : p.1.tl.Timely p.2 ns) : Sorted p.1.tl ns where
  spells := h.spells
  nodes := by
    intro n hn
    obtain ⟨sid, hs, -⟩ := h.node n hn
    obtain ⟨x, hx, -⟩ := Option.map_eq_some_iff.mp hs
    exact ⟨h.fresh n hn, x, hx⟩
  sorted := ht.sorted

/-- **The list runs from the latest activity to the earliest, and the eviction loop removes exactly
the nodes that are overdue**, in every run with a clock that does not go back. -/
theorem eviction_exact {p : Server × Int} (h : Runs.Reach (clocked c) Forward p) :
    ∃ ns, Sorted p.1.tl ns ∧ (p.1.main = .evict → NodesLive p.1 ns → ∀ ls q,
      Runs.Trail (clocked c) InLoop p ls q → ∃ kept, Evicted c p ns ls q kept) := by
  obtain ⟨h0, ns, hl, ht⟩ := timely_reach h
  refine ⟨ns, Sorted.of_linked hl ht, fun hm hlive ls q tr => ?_⟩
  have hk : Known c p ns := ⟨h.forget fun _ _ _ => trivial, h0, hl, ht, hlive⟩
  obtain ⟨kept, h1, h2, h3, h4, h5, h6, -⟩ := loop_trail tr ns hk hm
  exact ⟨kept, Sorted.of_linked h1.linked h1.timely, h2, h3, h4, h5,
    (Nat.le_add_right ..).trans h6, fun _ now => loop_goes h1.reach h1.linked.spells h1.sessions now⟩

/-! ## a loop that is given step by step -/

instance (p : Server × Int) (l : Label) : Decidable (InLoop p l) :=
  inferInstanceAs (Decidable (_ ∧ _))

/-- two clients, the first one quiet for 400 seconds and the second one for 200 -/
def quietClients : List Label :=
  connects ++ connects ++ [.arrive 6 (ascii "NOOP" ++ [CR, LF]), .wait [input 6],
    .dispatch 200 sampleEnv, .command sampleEnv, .timeout]

def quietLoop : List Label := [.evictOne 400, .evictOne 400]

/-- **The theorem at this run**: the node of the first client goes, that of the second one stays. -/
theorem eviction_exact_two : ∃ p ns q kept, Runs.Reach (clocked sampleConf) Forward p ∧
    p.1.main = .evict ∧ NodesLive p.1 ns ∧ Evicted sampleConf p ns quietLoop q kept ∧
    q.1.main = .events [] ∧ q.1.tl.pLRU = some 1 := by
  obtain ⟨p, hp, ht⟩ := noted_of_play (c := sampleConf) (D := Forward)
    (t := fun p => decide (p.1.main = .evict) && decide (p.1.tl.nextNid = 2) &&
      decide (p.1.tl.sess 0 = some 0) && decide (p.1.tl.sess 1 = some 1) &&
      (p.1.heap 0).isSome && (p.1.heap 1).isSome &&
      (playNoted sampleConf tick InLoop p quietLoop).any fun q : Server × Int =>
        decide (q.1.main = .events []) && decide (q.1.tl.pLRU = some 1))
    (sampleNoted 0 tick Forward) (by decide +kernel : (playNoted sampleConf tick Forward
      (sampleBoot, 0) quietClients).any _ = true)
  simp only [Bool.and_eq_true, decide_eq_true_eq] at ht
  obtain ⟨⟨⟨⟨⟨⟨hm, hn⟩, h0⟩, h1⟩, hx⟩, hy⟩, hq⟩ := ht
  obtain ⟨q, tr, hq⟩ := trail_of_play hq
  simp only [Bool.and_eq_true, decide_eq_true_eq] at hq
  obtain ⟨ns, hsorted, hloop⟩ := eviction_exact hp
  have hlive : NodesLive p.1 ns := by
    intro n hmem
    have hlt := (hsorted.nodes n hmem).1
    rw [hn] at hlt
    rcases Nat.le_one_iff_eq_zero_or_eq_one.mp (Nat.le_of_lt_succ hlt) with rfl | rfl
    · obtain ⟨x, hx⟩ := Option.isSome_iff_exists.mp hx
      exact ⟨0, x, h0, hx⟩
    · obtain ⟨y, hy⟩ := Option.isSome_iff_exists.mp hy
      exact ⟨1, y, h1, hy⟩
  obtain ⟨kept, hev⟩ := hloop hm hlive quietLoop q tr
  exact ⟨p, ns, q, kept, hp, hm, hlive, hev, hq.1, hq.2⟩

/-! ## the timeout of epoll_wait -/

/-- the timeout that `epoll_wait_timeout` hands to `Epoll_wait`: an `unsigned` stored in an `int` -/
def waitTime (c : Conf) (now : Int) (s : Server) : Res Int :=
  match s.tl.pLRU with
  | none => .ok (-1)
  | some n =>
    match s.tl.node n with
    | none => .error (.crash .freed)
    | some node => .ok (wrapS 32 (wrapU32 (c.idleSessionTimeout - TimeList.sessTime node now)))

/-- A session that has been idle for `d` seconds is within the limit.  The last case is that of a clock
that has gone back. -/
def WithinLimit (c : Conf) (d : Int) : Prop :=
  d ≤ c.idleSessionTimeout ∧ c.idleSessionTimeout < d + 2^31 ∨ d + 2^32 ≤ c.idleSessionTimeout

theorem sessTime_bounds (x : ToNode) (now : Int) :
    -2^31 ≤ TimeList.sessTime x now ∧ TimeList.sessTime x now < 2^31 := by
  unfold TimeList.sessTime wrapS
  simp only [Nat.add_one_sub_one]
  omega

theorem unsigned_diff {T : Nat} {d : Int} (hT : T < 2^32) (h1 : -2^31 ≤ d) (h2 : d < 2^31) :
    0 ≤ wrapS 32 (wrapU32 (T - d)) ↔ d ≤ T ∧ (T : Int) < d + 2^31 ∨ d + 2^32 ≤ T := by
  unfold wrapU32 wrapS
  rw [Int.toNat_of_nonneg (Int.emod_nonneg _ (by decide))]
  simp only [Nat.add_one_sub_one]
  omega

/-- **The timeout of `epoll_wait` is not negative exactly while the session at the end of the list is
within the limit**, in every state that is reached and at every reading of the clock. -/
theorem wait_iff (hT : c.idleSessionTimeout < 2^32) (h : Reach c Runs.Any s)
    (hl : s.tl.pLRU = some n) (now : Int) : ∃ x, s.tl.node n = some x ∧
      ((∃ w, waitTime c now s = .ok w ∧ 0 ≤ w) ↔ WithinLimit c (TimeList.sessTime x now)) := by
  obtain ⟨ns, hlinked⟩ := linked_reach h
  obtain ⟨sid, hs, -⟩ := hlinked.node n (hlinked.spells.last_mem hl)
  obtain ⟨x, hx, -⟩ := Option.map_eq_some_iff.mp hs
  obtain ⟨h1, h2⟩ := sessTime_bounds x now
  refine ⟨x, hx, ?_⟩
  unfold waitTime WithinLimit
  simp only [hl, hx]
  rw [← unsigned_diff hT h1 h2]
  constructor
  · rintro ⟨w, hw, h0⟩
    rw [Except.ok.inj hw]
    exact h0
  · intro h0
    exact ⟨_, rfl, h0⟩

/-- two clients, of which only the second one is active -/
def busyClient : List Label :=
  connects ++ connects ++ [.arrive 6 (ascii "NOOP" ++ [CR, LF]), .wait [input 6],
    .dispatch 400 sampleEnv, .command sampleEnv]

/-- **At the call after 299 seconds** the timeout is 1. -/
theorem wait_iff_quiet : ∃ s n x, Reach sampleConf Runs.Any s ∧ s.main = .events [] ∧
    s.tl.pLRU = some n ∧ s.tl.node n = some x ∧ WithinLimit sampleConf (TimeList.sessTime x 299) ∧
    ∃ w, waitTime sampleConf 299 s = .ok w ∧ 0 ≤ w := by
  obtain ⟨s, hs, ht⟩ := reach_of_play (p := fun s => decide (s.main = .events []) &&
      decide (s.tl.pLRU = some 0) && decide ((s.tl.node 0).map ToNode.lastTime = some 0))
    (sampleReach Runs.Any) (by decide +kernel : (play sampleConf Runs.Any sampleBoot
      (connects ++ connects)).any _ = true)
  simp only [Bool.and_eq_true, decide_eq_true_eq] at ht
  obtain ⟨⟨hm, hl⟩, htime⟩ := ht
  obtain ⟨x, hx, hiff⟩ := wait_iff (by decide) hs hl 299
  rw [hx] at htime
  have hd : TimeList.sessTime x 299 = 299 := by
    unfold TimeList.sessTime
    rw [Option.some.inj htime]
    decide
  have hw : WithinLimit sampleConf (TimeList.sessTime x 299) := by
    rw [hd]
    exact Or.inl (by decide)
  exact ⟨s, 0, x, hs, hm, hl, hx, hw, hiff.mpr hw⟩

/-- **A negative timeout**: the second client has kept the loop busy while the first one passed the
limit. -/
theorem wait_negative : ¬ ∀ (c : Conf) (p : Server × Int), Runs.Reach (clocked c) Forward p →
    p.1.main = .events [] → p.1.tl.pLRU ≠ none → ∀ now, p.2 ≤ now →
    ∃ w, waitTime c now p.1 = .ok w ∧ 0 ≤ w := by
  intro h
  obtain ⟨p, hp, ht⟩ := noted_of_play (c := sampleConf) (D := Forward)
    (t := fun p => decide (p.1.main = .events []) && decide (p.1.tl.pLRU ≠ none) &&
      decide (p.2 ≤ 400) && decide (waitTime sampleConf 400 p.1 = .ok (-100)))
    (sampleNoted 0 tick Forward) (by decide +kernel : (playNoted sampleConf tick Forward
      (sampleBoot, 0) busyClient).any _ = true)
  simp only [Bool.and_eq_true, decide_eq_true_eq] at ht
  obtain ⟨⟨⟨hm, hl⟩, hnow⟩, hw⟩ := ht
  obtain ⟨w, hw', h0⟩ := h sampleConf p hp hm hl 400 hnow
  cases hw.symm.trans hw'
  exact absurd h0 (by decide)

end

end Myftpd
