import Myftpd.Epoll
import Myftpd.Timeout

/-!
# The timeout list as a sequence

The list is a sequence of nodes, from `pMRU` to `pLRU`, and its three routines are operations on this
sequence: a new node comes first, a node that is heard of moves to the front, and one is taken out.

* `Call`              one call of `addtoNode`, `refreshTimeout` or `removeToNode`;
* `Call.sequence`     what it does to the sequence, `Call.Wrote` what it writes;
* `InLine`            pointers and map agree with a sequence;
* `sequence_refined`  the calls, after any calls before them.
-/

namespace Myftpd
open Server

/-- a call of one of the three routines -/
inductive Call where
  | addtoNode (sid : Sid) (now : Int)
  | refreshTimeout (fd : Fd) (now : Int)
  | removeToNode (n : Nid)

/-- `n` is the node of a session with the control socket `fd` -/
def NodeOf (s : Server) (n : Nid) (fd : Fd) : Prop :=
  ∃ node x, s.tl.node n = some node ∧ s.heap node.sess = some x ∧ x.ctrlFd = fd

/-- following `right` from `pMRU` gives `ns` -/
def Reads (s : Server) (ns : List Nid) : Prop := DList.Visits s.tl.links.right s.tl.pMRU ns

/-- The calls: `addtoNode` is called for a session that has no node, with a control socket that no
session in the list has, and `removeToNode` for a node of the list. -/
def listCalls : Runs.System Server Call where
  init := fun s => s.tl = TimeList.init
  step
    | .addtoNode sid now, s, s' => ∃ x, s.heap sid = some x ∧ x.ctrlFd < MAX_SESSIONS ∧
        (∀ n node, s.tl.node n = some node → node.sess ≠ sid) ∧ (∀ n, ¬ NodeOf s n x.ctrlFd) ∧
        s' = { s with tl := s.tl.addtoNode sid x.ctrlFd now }
    | .refreshTimeout fd now, s, s' => s' = { s with tl := s.tl.refreshTimeout fd now }
    | .removeToNode n, s, s' => (∃ ns, Reads s ns ∧ n ∈ ns) ∧ s.removeToNode n = .ok s'

def Call.sequence (tl : TimeList) (ns : List Nid) : Call → List Nid
  | .addtoNode _ _ => tl.nextNid :: ns
  | .refreshTimeout fd _ => tl.touched fd ns
  | .removeToNode n => ns.erase n

/-- a reading of the clock in an `int`: the reading itself, if it fits -/
def Stamp (now t : Int) : Prop := t = wrapS 32 now ∧ (-2^31 ≤ now → now < 2^31 → t = now)

theorem stamp_wrapS (now : Int) : Stamp now (wrapS 32 now) :=
  ⟨rfl, fun h1 h2 => wrapS_of_lt (by decide) h1 h2⟩

/-- What a call writes; the other nodes and the other entries of the map stay as they are. -/
def Call.Wrote (s s' : Server) : Call → Prop
  | .addtoNode sid now => ∃ x t, s.heap sid = some x ∧ Stamp now t ∧
      s'.tl.node = Function.update s.tl.node s.tl.nextNid (some ⟨sid, t⟩) ∧
      s'.tl.map = Function.update s.tl.map x.ctrlFd (some s.tl.nextNid)
  | .refreshTimeout fd now => s'.tl.map = s.tl.map ∧
      (s.tl.map fd = none → s'.tl.node = s.tl.node) ∧
      ∀ n, s.tl.map fd = some n → ∃ node t, s.tl.node n = some node ∧ Stamp now t ∧
        s'.tl.node = Function.update s.tl.node n (some ⟨node.sess, t⟩)
  | .removeToNode n => ∃ node x, s.tl.node n = some node ∧ s.heap node.sess = some x ∧
      s'.tl.node = Function.update s.tl.node n none ∧
      s'.tl.map = Function.update s.tl.map x.ctrlFd none

/-- Right from `pMRU` and left from `pLRU` the same nodes come in opposite orders, each once, and the
map knows exactly the control sockets of their sessions. -/
structure InLine (s : Server) (ns : List Nid) : Prop where
  right : DList.Visits s.tl.links.right s.tl.pMRU ns
  left : DList.Visits s.tl.links.left s.tl.pLRU ns.reverse
  once : ns.Nodup
  empty : s.tl.pMRU = none ↔ s.tl.pLRU = none
  map : ∀ fd, s.tl.map fd ≠ none ↔ ∃ n ∈ ns, NodeOf s n fd

/-! ## the invariant -/

/-- the list and the map know the sessions `own`, which are live -/
structure Tracked (s : Server) (own : Sid → Option Fd) (ns : List Nid) : Prop where
  tracks : s.tl.Tracks own ns
  live : ∀ sid fd, own sid = some fd → ∃ x, s.heap sid = some x ∧ x.ctrlFd = fd ∧ fd < MAX_SESSIONS
  node : ∀ n, s.tl.node n ≠ none → n ∈ ns

section
variable {s s' : Server} {own : Sid → Option Fd} {ns : List Nid} {n : Nid} {call : Call} {sid : Sid}
  {fd : Fd} {now : Int} {node : ToNode} {x : Session}

theorem tracked_init (h : s.tl = TimeList.init) : Tracked s (fun _ => none) [] where
  tracks := by rw [h]; exact TimeList.tracks_init
  live := nofun
  node := by
    rw [h]
    exact fun n hn => absurd rfl hn

theorem Tracked.nodeOf (h : Tracked s own ns) (hn : n ∈ ns) :
    ∃ node x, s.tl.node n = some node ∧ s.heap node.sess = some x ∧ x.ctrlFd < MAX_SESSIONS ∧
      own node.sess = some x.ctrlFd ∧ s.tl.map x.ctrlFd = some n := by
  obtain ⟨sid, fd, hs, ho, hm⟩ := h.tracks.node n hn
  obtain ⟨node, hnode, rfl⟩ := Option.map_eq_some_iff.mp hs
  obtain ⟨x, hx, rfl, hb⟩ := h.live _ _ ho
  exact ⟨node, x, hnode, hx, hb, ho, hm⟩

theorem Tracked.inLine (h : Tracked s own ns) : InLine s ns where
  right := h.tracks.spells.visits_right
  left := h.tracks.spells.visits_left
  once := h.tracks.spells.nodup
  empty := by
    show s.tl.links.head = none ↔ s.tl.links.last = none
    rw [h.tracks.spells.head, h.tracks.spells.last, List.head?_eq_none_iff, List.getLast?_eq_none_iff]
  map := by
    intro fd
    constructor
    · intro hm
      obtain ⟨n, hn⟩ := Option.ne_none_iff_exists'.mp hm
      obtain ⟨sid, hs, ho⟩ := h.tracks.map fd n hn
      obtain ⟨node, hnode, rfl⟩ := Option.map_eq_some_iff.mp hs
      obtain ⟨x, hx, e, -⟩ := h.live _ _ ho
      exact ⟨n, h.tracks.mem hn, node, x, hnode, hx, e⟩
    · rintro ⟨n, hn, node, x, hnode, hx, rfl⟩
      obtain ⟨node', x', hnode', hx', -, -, hm⟩ := h.nodeOf hn
      cases hnode.symm.trans hnode'
      cases hx.symm.trans hx'
      rw [hm]
      exact Option.some_ne_none n

/-- the sequence that the pointers spell is the one of the invariant -/
theorem Tracked.reads (h : Tracked s own ns) {ns' : List Nid} (hr : Reads s ns') : ns' = ns :=
  hr.unique h.inLine.right

/-! ## one call -/

theorem Tracked.addtoNode (h : Tracked s own ns) (hx : s.heap sid = some x)
    (hb : x.ctrlFd < MAX_SESSIONS) (hnew : ∀ n node, s.tl.node n = some node → node.sess ≠ sid)
    (hfd : ∀ n, ¬ NodeOf s n x.ctrlFd) :
    Tracked { s with tl := s.tl.addtoNode sid x.ctrlFd now } (Function.update own sid (some x.ctrlFd))
      (s.tl.nextNid :: ns) where
  tracks := by
    refine h.tracks.addtoNode ?_ fun j hj => ?_
    · cases ho : own sid with
      | none => rfl
      | some fd =>
        obtain ⟨n, -, hs, -⟩ := h.tracks.covers sid fd ho
        obtain ⟨node, hnode, e⟩ := Option.map_eq_some_iff.mp hs
        exact absurd e (hnew n node hnode)
    · obtain ⟨n, hn, hs, -⟩ := h.tracks.covers j _ hj
      obtain ⟨node, hnode, rfl⟩ := Option.map_eq_some_iff.mp hs
      obtain ⟨y, hy, e, -⟩ := h.live _ _ hj
      exact hfd n ⟨node, y, hnode, hy, e⟩
  live := by
    intro j g hj
    rw [Function.update_apply] at hj
    split at hj
    · rename_i e
      cases hj
      exact ⟨x, by rw [e]; exact hx, rfl, hb⟩
    · exact h.live j g hj
  node := by
    intro n hn
    change Function.update s.tl.node s.tl.nextNid _ n ≠ none at hn
    rw [Function.update_apply] at hn
    split at hn
    · rename_i e
      rw [e]
      exact List.mem_cons_self
    · exact List.mem_cons_of_mem _ (h.node n hn)

theorem refresh_node (hm : s.tl.map fd = some n) (hn : s.tl.node n = some node) :
    (s.tl.refreshTimeout fd now).node
      = Function.update s.tl.node n (some ⟨node.sess, wrapS 32 now⟩) := by
  unfold TimeList.refreshTimeout
  rw [hm]
  show Function.update s.tl.node n ((s.tl.node n).map _) = _
  rw [hn]
  rfl

theorem Tracked.refreshTimeout (h : Tracked s own ns) :
    Tracked { s with tl := s.tl.refreshTimeout fd now } own (s.tl.touched fd ns) where
  tracks := h.tracks.refreshTimeout fd now
  live := h.live
  node := by
    intro n hn
    refine (TimeList.touched_mem (fun m => h.tracks.mem) n).mpr (h.node n fun e => hn ?_)
    have hs : (s.tl.refreshTimeout fd now).sess n = none := by
      rw [TimeList.refresh_sess]
      unfold TimeList.sess
      rw [e]
      rfl
    exact Option.map_eq_none_iff.mp hs

theorem Tracked.remove (h : Tracked s own ns) (hn : n ∈ ns) (hnode : s.tl.node n = some node)
    (hx : s.heap node.sess = some x) :
    Tracked { closed s node.sess x with tl := s.tl.remove n x.ctrlFd }
      (Function.update own node.sess none) (ns.erase n) where
  tracks := by
    obtain ⟨node', x', hnode', hx', -, ho, -⟩ := h.nodeOf hn
    cases hnode.symm.trans hnode'
    cases hx.symm.trans hx'
    refine h.tracks.remove hn ?_ ho
    unfold TimeList.sess
    rw [hnode]
    rfl
  live := by
    intro j g hj
    rw [Function.update_apply] at hj
    split at hj
    · cases hj
    · rename_i hne
      obtain ⟨y, hy, e, hb⟩ := h.live j g hj
      refine ⟨y, ?_, e, hb⟩
      show (closed s node.sess x).heap j = _
      rw [closed_heap, Function.update_of_ne hne, hy]
  node := by
    intro m hm
    change Function.update s.tl.node n none m ≠ none at hm
    rw [Function.update_apply] at hm
    split at hm
    · exact absurd rfl hm
    · rename_i hne
      exact h.tracks.spells.nodup.mem_erase_iff.mpr ⟨hne, h.node m hm⟩

theorem call_step (h : Tracked s own ns) (hs : listCalls.step call s s') :
    (∃ own', Tracked s' own' (call.sequence s.tl ns)) ∧ call.Wrote s s' := by
  cases call with
  | addtoNode sid now =>
    obtain ⟨x, hx, hb, hnew, hfd, rfl⟩ := hs
    exact ⟨⟨_, h.addtoNode hx hb hnew hfd⟩, x, _, hx, stamp_wrapS now, rfl, rfl⟩
  | refreshTimeout fd now =>
    cases hs
    refine ⟨⟨own, h.refreshTimeout⟩, TimeList.refresh_map, fun hm => ?_, fun n hm => ?_⟩
    · show (s.tl.refreshTimeout fd now).node = _
      unfold TimeList.refreshTimeout
      rw [hm]
    · obtain ⟨node, x, hnode, -⟩ := h.nodeOf (h.tracks.mem hm)
      exact ⟨node, _, hnode, stamp_wrapS now, refresh_node hm hnode⟩
  | removeToNode n =>
    obtain ⟨⟨ns', hr, hn⟩, he⟩ := hs
    cases h.reads hr
    obtain ⟨node, x, t, hnode, hx, hc, rfl⟩ := removeToNode_inv he
    obtain ⟨y, hy, -, rfl⟩ := closeSess_inv hc
    cases hx.symm.trans hy
    rw [closed_tl]
    exact ⟨⟨_, h.remove hn hnode hx⟩, node, x, hnode, hx, rfl, rfl⟩

/-! ## runs -/

theorem tracked_listCalls (h : Runs.Reach listCalls Runs.Any s) : ∃ own ns, Tracked s own ns := by
  refine h.inv (I := fun s => ∃ own ns, Tracked s own ns) ?_ ?_
  · exact fun s hs => ⟨_, [], tracked_init hs⟩
  · rintro s call s' ⟨own, ns, ht⟩ - hs
    obtain ⟨⟨own', ht'⟩, -⟩ := call_step ht hs
    exact ⟨own', _, ht'⟩

/-- **The timeout list is a sequence**, and the three routines do to it what they should: after any
calls the pointers and the map agree with it, and so they do after the next call, with the sequence that
belongs to this call. -/
theorem sequence_refined (h : Runs.Reach listCalls Runs.Any s) : ∃ ns, InLine s ns ∧
    (∀ call s', listCalls.step call s s' → InLine s' (call.sequence s.tl ns) ∧ call.Wrote s s') ∧
    ∀ n ∈ ns, ∃ s', listCalls.step (.removeToNode n) s s' := by
  obtain ⟨own, ns, ht⟩ := tracked_listCalls h
  refine ⟨ns, ht.inLine, fun call s' hs => ?_, fun n hn => ?_⟩
  · obtain ⟨⟨own', ht'⟩, hw⟩ := call_step ht hs
    exact ⟨ht'.inLine, hw⟩
  · obtain ⟨node, x, hnode, hx, hb, -⟩ := ht.nodeOf hn
    exact ⟨_, ⟨ns, ht.inLine.right, hn⟩, removeToNode_eq hnode hx hb⟩

end

/-- a server with the sessions 0 and 1 on the descriptors 5 and 6 -/
def twoSessions : Server :=
  { sampleBoot with heap := fun sid => if sid < 2 then some (initSession (5 + sid)) else none }

/-- two sessions come into the list, and the first is heard of again -/
theorem sequence_refined_two : ∃ s : Server, s.tl.pMRU = some 0 ∧ s.tl.pLRU = some 1 ∧
    ∃ ns, InLine s ns ∧
      (∀ call s', listCalls.step call s s' → InLine s' (call.sequence s.tl ns) ∧ call.Wrote s s') ∧
      ∀ n ∈ ns, ∃ s', listCalls.step (.removeToNode n) s s' := by
  let s1 : Server := { twoSessions with tl := twoSessions.tl.addtoNode 0 5 10 }
  let s2 : Server := { s1 with tl := s1.tl.addtoNode 1 6 20 }
  let s3 : Server := { s2 with tl := s2.tl.refreshTimeout 5 30 }
  have h1 : listCalls.step (.addtoNode 0 10) twoSessions s1 :=
    ⟨initSession 5, rfl, by decide, nofun, fun n ⟨_, _, h, _⟩ => absurd h nofun, rfl⟩
  have h2 : listCalls.step (.addtoNode 1 20) s1 s2 := by
    have hone : ∀ n node, s1.tl.node n = some node → node = ⟨0, 10⟩ := by
      intro n node h
      change Function.update (fun _ => none) 0 _ n = some node at h
      rw [Function.update_apply] at h
      split at h
      · cases h
        rfl
      · cases h
    refine ⟨initSession 6, rfl, by decide, fun n node h => ?_, fun n ⟨node, x, h, hx, e⟩ => ?_, rfl⟩
    · rw [hone n node h]
      exact Nat.zero_ne_one
    · rw [hone n node h] at hx
      cases hx
      cases e
  have h3 : listCalls.step (.refreshTimeout 5 30) s2 s3 := rfl
  have hr : Runs.Reach listCalls Runs.Any s3 :=
    (((Runs.Reach.init rfl : Runs.Reach listCalls Runs.Any twoSessions).step trivial h1).step trivial h2).step
      trivial h3
  exact ⟨s3, rfl, rfl, sequence_refined hr⟩

end Myftpd
