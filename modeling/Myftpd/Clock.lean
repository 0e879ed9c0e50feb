import Myftpd.Live
import Myftpd.Noted

/-!
# The timeout list in the order of time

Whatever ends a session, the pointers of the timeout list spell a list, and `map_fd_toNode` finds only
nodes of it (`Linked`).  As long as the clock does not go back, the list runs from the latest activity to
the earliest (`Timely`).

* `linked_reach`  the pointers, in every run;
* `timely_reach`  the order, in every run with such a clock.
-/

namespace Myftpd
open Server

namespace TimeList

/-- the last activity that a node has recorded -/
def time (tl : TimeList) (n : Nid) : Int := ((tl.node n).map ToNode.lastTime).getD 0

/-- `l` is the list; its sessions have had their numbers, each has one node, and the map leads to nodes
of the list, to that of a live session only by its own control socket -/
structure Linked (tl : TimeList) (own : Sid → Option Fd) (next : Sid) (l : List Nid) : Prop where
  spells : tl.links.Is l
  fresh : ∀ n ∈ l, n < tl.nextNid
  node : ∀ n ∈ l, ∃ sid, tl.sess n = some sid ∧ sid < next
  inj : ∀ m ∈ l, ∀ n ∈ l, ∀ sid, tl.sess m = some sid → tl.sess n = some sid → m = n
  map : ∀ fd n, tl.map fd = some n → n ∈ l
  own : ∀ fd n sid g, tl.map fd = some n → tl.sess n = some sid → own sid = some g → g = fd

/-- the times lie between 0 and `last`, and fall along the list -/
structure Timely (tl : TimeList) (last : Int) (l : List Nid) : Prop where
  bounds : ∀ n ∈ l, 0 ≤ tl.time n ∧ tl.time n ≤ last
  sorted : l.Pairwise fun m n => tl.time n ≤ tl.time m

section
variable {tl : TimeList} {own own' : Sid → Option Fd} {next next' : Sid} {l : List Nid} {n : Nid}
  {sid : Sid} {fd : Fd} {now last : Int}

theorem linked_init : init.Linked (fun _ => none) 0 [] where
  spells := DList.is_empty
  fresh := nofun
  node := nofun
  inj := nofun
  map := nofun
  own := nofun

theorem timely_init : init.Timely 0 [] where
  bounds := nofun
  sorted := List.Pairwise.nil

theorem Linked.weaken (h : tl.Linked own next l) (ho : ∀ sid g, own' sid = some g → own sid = some g)
    (hn : next ≤ next') : tl.Linked own' next' l where
  spells := h.spells
  fresh := h.fresh
  node := by
    intro n hm
    obtain ⟨sid, h1, h2⟩ := h.node n hm
    exact ⟨sid, h1, lt_of_lt_of_le h2 hn⟩
  inj := h.inj
  map := h.map
  own := fun fd n sid g h1 h2 h3 => h.own fd n sid g h1 h2 (ho sid g h3)

theorem Timely.weaken (h : tl.Timely last l) (hn : last ≤ now) : tl.Timely now l where
  bounds := fun n hm => ⟨(h.bounds n hm).1, (h.bounds n hm).2.trans hn⟩
  sorted := h.sorted

/-! ## times and sessions after an operation -/

theorem addtoNode_time (m : Nid) :
    (tl.addtoNode sid fd now).time m = if m = tl.nextNid then wrapS 32 now else tl.time m := by
  show ((Function.update tl.node tl.nextNid _ m).map ToNode.lastTime).getD 0 = _
  rw [Function.update_apply]
  split <;> rfl

theorem remove_time (m : Nid) : (tl.remove n fd).time m = if m = n then 0 else tl.time m := by
  show ((Function.update tl.node n none m).map ToNode.lastTime).getD 0 = _
  rw [Function.update_apply]
  split <;> rfl

theorem refresh_time_of (h : tl.map fd = some n) (hs : tl.sess n = some sid) (m : Nid) :
    (tl.refreshTimeout fd now).time m = if m = n then wrapS 32 now else tl.time m := by
  unfold refreshTimeout
  rw [h]
  show ((Function.update tl.node n _ m).map ToNode.lastTime).getD 0 = _
  rw [Function.update_apply]
  split
  · obtain ⟨x, hx, -⟩ := Option.map_eq_some_iff.mp hs
    rw [hx]
    rfl
  · rfl

/-! ## a new session -/

/-- **`addtoNode`** puts the node of a new session in front. -/
theorem Linked.addtoNode (h : tl.Linked own sid l) :
    (tl.addtoNode sid fd now).Linked (Function.update own sid (some fd)) (sid + 1)
      (tl.nextNid :: l) := by
  have hn : tl.nextNid ∉ l := fun e => Nat.lt_irrefl _ (h.fresh _ e)
  have hold : ∀ m ∈ l, (tl.addtoNode sid fd now).sess m = tl.sess m := by
    intro m hm
    rw [addtoNode_sess, if_neg fun e : m = tl.nextNid => hn (e ▸ hm)]
  have hnew : (tl.addtoNode sid fd now).sess tl.nextNid = some sid := by
    rw [addtoNode_sess, if_pos rfl]
  have hlt : ∀ m ∈ l, ∀ j, tl.sess m = some j → j < sid := by
    intro m hm j hj
    obtain ⟨i, hi, hlt⟩ := h.node m hm
    cases hi.symm.trans hj
    exact hlt
  refine ⟨DList.is_linkHead h.spells hn, ?_, ?_, ?_, ?_, ?_⟩
  · intro m hm
    rcases List.mem_cons.mp hm with rfl | hm
    · exact Nat.lt_succ_self _
    · exact Nat.lt_succ_of_lt (h.fresh m hm)
  · intro m hm
    rcases List.mem_cons.mp hm with rfl | hm
    · exact ⟨sid, hnew, Nat.lt_succ_self sid⟩
    · obtain ⟨j, hj, hlt'⟩ := h.node m hm
      exact ⟨j, (hold m hm).trans hj, Nat.lt_succ_of_lt hlt'⟩
  · intro m hm k hk j h1 h2
    rcases List.mem_cons.mp hm with rfl | hm
    · rcases List.mem_cons.mp hk with rfl | hk
      · rfl
      · cases hnew.symm.trans h1
        exact absurd (hlt k hk _ ((hold k hk).symm.trans h2)) (Nat.lt_irrefl _)
    · rcases List.mem_cons.mp hk with rfl | hk
      · cases hnew.symm.trans h2
        exact absurd (hlt m hm _ ((hold m hm).symm.trans h1)) (Nat.lt_irrefl _)
      · exact h.inj m hm k hk j ((hold m hm).symm.trans h1) ((hold k hk).symm.trans h2)
  · intro g m hm
    rw [addtoNode_map] at hm
    split at hm
    · cases hm
      exact List.mem_cons_self
    · exact List.mem_cons_of_mem _ (h.map g m hm)
  · intro g m j k hm hj hk
    rw [addtoNode_map] at hm
    split at hm
    · rename_i e
      cases hm
      cases hnew.symm.trans hj
      rw [Function.update_self] at hk
      exact (Option.some.inj hk).symm.trans e.symm
    · have hml := h.map g m hm
      have hj' := (hold m hml).symm.trans hj
      rw [Function.update_of_ne (Nat.ne_of_lt (hlt m hml j hj'))] at hk
      exact h.own g m j k hm hj' hk

theorem Timely.addtoNode (hl : tl.Linked own sid l) (h : tl.Timely last l) (h0 : 0 ≤ now)
    (hlast : last ≤ now) (hw : wrapS 32 now = now) :
    (tl.addtoNode sid fd now).Timely now (tl.nextNid :: l) := by
  have hold : ∀ m ∈ l, (tl.addtoNode sid fd now).time m = tl.time m := by
    intro m hm
    rw [addtoNode_time, if_neg (Nat.ne_of_lt (hl.fresh m hm))]
  have hnew : (tl.addtoNode sid fd now).time tl.nextNid = now := by
    rw [addtoNode_time, if_pos rfl, hw]
  refine ⟨?_, List.pairwise_cons.mpr ⟨?_, ?_⟩⟩
  · intro m hm
    rcases List.mem_cons.mp hm with rfl | hm
    · rw [hnew]
      exact ⟨h0, le_refl now⟩
    · rw [hold m hm]
      exact ⟨(h.bounds m hm).1, (h.bounds m hm).2.trans hlast⟩
  · intro m hm
    rw [hnew, hold m hm]
    exact (h.bounds m hm).2.trans hlast
  · refine h.sorted.imp_of_mem fun hm hk hle => ?_
    rw [hold _ hm, hold _ hk]
    exact hle

/-! ## activity -/

/-- **`refreshTimeout`** moves the node to the front. -/
theorem Linked.refresh (h : tl.Linked own next l) :
    (tl.refreshTimeout fd now).Linked own next (tl.touched fd l) := by
  have hin := touched_mem (h.map fd)
  refine ⟨?_, ?_, ?_, ?_, ?_, ?_⟩
  · unfold refreshTimeout touched
    cases hm : tl.map fd with
    | none => exact h.spells
    | some n =>
      exact DList.is_linkHead (h.spells.unlink_erase (h.map fd n hm)) h.spells.nodup.not_mem_erase
  · intro m hm
    rw [refresh_nextNid]
    exact h.fresh m ((hin m).mp hm)
  · intro m hm
    rw [refresh_sess]
    exact h.node m ((hin m).mp hm)
  · intro m hm k hk j h1 h2
    rw [refresh_sess] at h1 h2
    exact h.inj m ((hin m).mp hm) k ((hin k).mp hk) j h1 h2
  · intro g m hm
    rw [refresh_map] at hm
    exact (hin m).mpr (h.map g m hm)
  · intro g m j k hm hj hk
    rw [refresh_map] at hm
    rw [refresh_sess] at hj
    exact h.own g m j k hm hj hk

theorem Timely.refresh (hl : tl.Linked own next l) (h : tl.Timely last l) (h0 : 0 ≤ now)
    (hlast : last ≤ now) (hw : wrapS 32 now = now) :
    (tl.refreshTimeout fd now).Timely now (tl.touched fd l) := by
  cases hm : tl.map fd with
  | none =>
    have h1 : tl.refreshTimeout fd now = tl := by
      unfold refreshTimeout
      rw [hm]
    have h2 : tl.touched fd l = l := by
      unfold touched
      rw [hm]
    rw [h1, h2]
    exact h.weaken hlast
  | some n =>
    have hn := hl.map fd n hm
    obtain ⟨sid, hs, -⟩ := hl.node n hn
    have htime : ∀ m, (tl.refreshTimeout fd now).time m = if m = n then wrapS 32 now else tl.time m :=
      refresh_time_of hm hs
    have h2 : tl.touched fd l = n :: l.erase n := by
      unfold touched
      rw [hm]
    have hold : ∀ m ∈ l.erase n, (tl.refreshTimeout fd now).time m = tl.time m := by
      intro m hme
      rw [htime, if_neg (hl.spells.nodup.mem_erase_iff.mp hme).1]
    have hnew : (tl.refreshTimeout fd now).time n = now := by rw [htime, if_pos rfl, hw]
    rw [h2]
    refine ⟨?_, List.pairwise_cons.mpr ⟨?_, ?_⟩⟩
    · intro m hme
      rcases List.mem_cons.mp hme with rfl | hme
      · rw [hnew]
        exact ⟨h0, le_refl now⟩
      · have hb := h.bounds m (List.mem_of_mem_erase hme)
        rw [hold m hme]
        exact ⟨hb.1, hb.2.trans hlast⟩
    · intro m hme
      rw [hnew, hold m hme]
      exact (h.bounds m (List.mem_of_mem_erase hme)).2.trans hlast
    · refine (h.sorted.sublist List.erase_sublist).imp_of_mem fun hm hk hle => ?_
      rw [hold _ hm, hold _ hk]
      exact hle

/-! ## the end of a session -/

/-- **`removeToNode`** takes the node of a live session out. -/
theorem Linked.remove (h : tl.Linked own next l) (hn : n ∈ l) (hs : tl.sess n = some sid)
    (hf : own sid = some fd) :
    (tl.remove n fd).Linked (Function.update own sid none) next (l.erase n) := by
  have hin : ∀ m, m ∈ l.erase n ↔ m ≠ n ∧ m ∈ l := fun m => h.spells.nodup.mem_erase_iff
  have hsess : ∀ m, m ≠ n → (tl.remove n fd).sess m = tl.sess m := by
    intro m hm
    rw [remove_sess, if_neg hm]
  have hmap : ∀ g m, (tl.remove n fd).map g = some m → tl.map g = some m ∧ m ≠ n := by
    intro g m hm
    rw [remove_map] at hm
    split at hm
    · cases hm
    · rename_i hg
      refine ⟨hm, ?_⟩
      rintro rfl
      exact hg (h.own g m sid fd hm hs hf).symm
  refine ⟨h.spells.unlink_erase hn, ?_, ?_, ?_, ?_, ?_⟩
  · exact fun m hm => h.fresh m ((hin m).mp hm).2
  · intro m hm
    obtain ⟨hmn, hm⟩ := (hin m).mp hm
    rw [hsess m hmn]
    exact h.node m hm
  · intro m hm k hk j h1 h2
    obtain ⟨hmn, hm⟩ := (hin m).mp hm
    obtain ⟨hkn, hk⟩ := (hin k).mp hk
    exact h.inj m hm k hk j ((hsess m hmn).symm.trans h1) ((hsess k hkn).symm.trans h2)
  · intro g m hm
    obtain ⟨h1, h2⟩ := hmap g m hm
    exact (hin m).mpr ⟨h2, h.map g m h1⟩
  · intro g m j k hm hj hk
    obtain ⟨h1, h2⟩ := hmap g m hm
    rw [Function.update_apply] at hk
    split at hk
    · cases hk
    · exact h.own g m j k h1 ((hsess m h2).symm.trans hj) hk

theorem Timely.remove (hl : tl.Linked own next l) (h : tl.Timely last l) :
    (tl.remove n fd).Timely last (l.erase n) := by
  have hold : ∀ m ∈ l.erase n, (tl.remove n fd).time m = tl.time m := by
    intro m hm
    rw [remove_time, if_neg (hl.spells.nodup.mem_erase_iff.mp hm).1]
  refine ⟨fun m hm => ?_, ?_⟩
  · rw [hold m hm]
    exact h.bounds m (List.mem_of_mem_erase hm)
  · refine (h.sorted.sublist List.erase_sublist).imp_of_mem fun hm hk hle => ?_
    rw [hold _ hm, hold _ hk]
    exact hle

end

end TimeList

/-! ## the clock -/

/-- the reading of the clock in a step -/
def clock : Label → Option Int
  | .evictOne now => some now
  | .dispatch now _ => some now
  | .acceptOne conn => some conn.now
  | _ => none

/-- the latest reading -/
def tick (g : Int) (_ : Server) (l : Label) (_ : Server) : Int := (clock l).getD g

/-- the server, with the latest reading of its clock -/
def clocked (c : Conf) : Runs.System (Server × Int) Label := (sys c).recording 0 tick

/-- the clock does not go back, and stays below `2^31 - TIMEOUTSEG` -/
def Forward (p : Server × Int) (l : Label) : Prop :=
  ∀ now ∈ (clock l).toList, p.2 ≤ now ∧ now < 2^31 - TIMEOUTSEG

instance (p : Server × Int) (l : Label) : Decidable (Forward p l) :=
  inferInstanceAs (Decidable (∀ now ∈ _, _))

section
variable {c : Conf} {s s' : Server} {l : Label} {ns : List Nid} {g now : Int}

theorem Forward.reading {p : Server × Int} (h : Forward p l) (hl : clock l = some now) :
    p.2 ≤ now ∧ now < 2^31 - TIMEOUTSEG := h now (by rw [hl]; exact List.mem_singleton_self now)

theorem tick_some (h : clock l = some now) : tick g s l s' = now := by
  unfold tick
  rw [h]
  rfl

theorem reading_wrap (h0 : 0 ≤ now) (h : now < 2^31 - TIMEOUTSEG) : wrapS 32 now = now := by
  unfold TIMEOUTSEG at h
  exact wrapS_of_lt (by decide) (by omega) (by omega)

theorem ctrl_sub (hen : enabled s l) (he : exec c s l = .ok s') (ha : admits c s l = none) :
    ∀ sid fd, s'.ledger.ctrlOf sid = some fd → s.ledger.ctrlOf sid = some fd := by
  obtain ⟨op, ho⟩ := exec_step hen he
  intro sid fd h
  obtain ⟨z', hz', rfl⟩ := Ledger.ctrlOf_some.mp h
  rcases (ho.step.born hz').2 with ⟨z, hz, e⟩ | ⟨fd, rfl, -⟩
  · exact Ledger.ctrlOf_some.mpr ⟨z, hz, e⟩
  · exact absurd ha ((enter_iff ho (exec_books hen he)).mp ⟨fd, rfl⟩)

theorem admitted_record {conn : Conn} (hv : isValid c (newSession s) = none)
    (he : exec c s (.acceptOne conn) = .ok s') :
    ∃ x, s'.heap s.nextSid = some x ∧ x.ctrlFd = s.fds.lowest := by
  change handleNewConn c conn s = .ok s' at he
  unfold handleNewConn at he
  simp only [hv] at he
  obtain ⟨t, ht, he⟩ := bind_ok.mp he
  unfold setSessinfo at ht
  split at ht
  · cases ht
    cases he
    exact ⟨_, Function.update_self .., rfl⟩
  · cases ht

theorem ctrl_admitted {conn : Conn} (hv : isValid c (newSession s) = none)
    (hen : enabled s (.acceptOne conn)) (he : exec c s (.acceptOne conn) = .ok s') :
    s'.ledger.ctrlOf = Function.update s.ledger.ctrlOf s.nextSid (some s.fds.lowest) := by
  obtain ⟨op, ho⟩ := exec_step hen he
  obtain ⟨fd, rfl⟩ := (enter_iff ho (exec_books hen he)).mpr
    (by rw [admits_some hv]; exact Option.some_ne_none _)
  obtain ⟨-, h⟩ := ho.step.ctrl_enter
  obtain ⟨x, hx, hfd⟩ := admitted_record hv he
  have h1 : s'.ledger.ctrlOf s.nextSid = some x.ctrlFd := ctrlOf_ledger.mpr ⟨x, hx, rfl⟩
  rw [h] at h1
  change Function.update s.ledger.ctrlOf s.nextSid (some fd) s.nextSid = _ at h1
  rw [Function.update_self, hfd] at h1
  rw [h, Option.some.inj h1]
  rfl

/-- **One step** keeps the pointers of the list, and its order if the clock does not go back. -/
theorem linked_step (hen : enabled s l) (he : exec c s l = .ok s')
    (h : s.tl.Linked s.ledger.ctrlOf s.nextSid ns) :
    ∃ ns', s'.tl.Linked s'.ledger.ctrlOf s'.nextSid ns' ∧
      (0 ≤ g → Forward (s, g) l → s.tl.Timely g ns → s'.tl.Timely (tick g s l s') ns') := by
  have hb := exec_books hen he
  show ∃ ns', s'.books.tl.Linked s'.ledger.ctrlOf s'.books.nextSid ns' ∧
    (0 ≤ g → Forward (s, g) l → s.tl.Timely g ns → s'.books.tl.Timely (tick g s l s') ns')
  have htick : ∀ {tl : TimeList} {m : List Nid}, Forward (s, g) l → tl.Timely g m →
      tl.Timely (tick g s l s') m := by
    intro tl m hc ht
    cases hl : clock l with
    | none =>
      unfold tick
      rw [hl]
      exact ht
    | some now =>
      rw [tick_some hl]
      exact ht.weaken (hc.reading hl).1
  generalize hbk : s'.books = b at hb
  cases hb with
  | same ha => exact ⟨ns, h.weaken (ctrl_sub hen he ha) (le_refl _), fun _ hc ht => htick hc ht⟩
  | refresh now env fd =>
    refine ⟨s.tl.touched fd ns, h.refresh.weaken (ctrl_sub hen he rfl) (le_refl _), fun h0 hc ht => ?_⟩
    obtain ⟨h1, h2⟩ := hc.reading (rfl : clock (.dispatch now env) = some now)
    exact ht.refresh h (h0.trans h1) h1 (reading_wrap (h0.trans h1) h2)
  | admitted conn hv =>
    refine ⟨s.tl.nextNid :: ns, ?_, fun h0 hc ht => ?_⟩
    · rw [ctrl_admitted hv hen he]
      exact h.addtoNode
    obtain ⟨h1, h2⟩ := hc.reading (rfl : clock (.acceptOne conn) = some conn.now)
    rw [tick_some rfl]
    exact ht.addtoNode h (h0.trans h1) h1 (reading_wrap (h0.trans h1) h2)
  | refused conn text hv =>
    exact ⟨ns, h.weaken (ctrl_sub hen he (admits_none hv)) (Nat.le_succ _), fun _ hc ht => htick hc ht⟩
  | evicted now n node x hl hnode ht hx =>
    have hs : s.tl.sess n = some node.sess := by
      unfold TimeList.sess
      rw [hnode]
      rfl
    have hown : s.ledger.ctrlOf node.sess = some x.ctrlFd := ctrlOf_ledger.mpr ⟨x, hx, rfl⟩
    have hends : ends c s (.evictOne now) = some node.sess := overdue_some hl hnode ht
    obtain ⟨op, ho⟩ := exec_step hen he
    have hsub := ho.step.ctrl_ended (ho.endsEq.trans hends)
    refine ⟨ns.erase n, (h.remove (h.spells.last_mem hl) hs hown).weaken (fun sid fd e => ?_)
      (le_refl _), fun _ hc ht => htick hc (ht.remove h)⟩
    rw [← hsub]
    exact e

theorem linked_reach {C : Server → Label → Prop} (h : Reach c C s) :
    ∃ ns, s.tl.Linked s.ledger.ctrlOf s.nextSid ns := by
  refine Runs.Reach.inv (I := fun s => ∃ ns, s.tl.Linked s.ledger.ctrlOf s.nextSid ns) ?_ ?_ h
  · rintro s ⟨fds, -, rfl⟩
    exact ⟨[], TimeList.linked_init⟩
  · rintro s l s' ⟨ns, hl⟩ - ⟨hen, he⟩
    obtain ⟨ns', h', -⟩ := linked_step (g := 0) hen he hl
    exact ⟨ns', h'⟩

/-- **The list runs from the latest activity to the earliest** if the clock does not go back. -/
theorem timely_reach {p : Server × Int} (h : Runs.Reach (clocked c) Forward p) : 0 ≤ p.2 ∧
    ∃ ns, p.1.tl.Linked p.1.ledger.ctrlOf p.1.nextSid ns ∧ p.1.tl.Timely p.2 ns := by
  refine Runs.Reach.noted (J := fun _ => True) (I := fun p => 0 ≤ p.2 ∧
    ∃ ns, p.1.tl.Linked p.1.ledger.ctrlOf p.1.nextSid ns ∧ p.1.tl.Timely p.2 ns)
    (fun _ _ => trivial) ?_ ?_ h
  · rintro s ⟨fds, -, rfl⟩
    exact ⟨le_refl 0, [], TimeList.linked_init, TimeList.timely_init⟩
  · rintro s g l s' - ⟨h0, ns, hl, ht⟩ hc ⟨hen, he⟩
    obtain ⟨ns', h1, h2⟩ := linked_step hen he hl
    refine ⟨?_, ns', h1, h2 h0 hc ht⟩
    cases hlab : clock l with
    | none =>
      unfold tick
      rw [hlab]
      exact h0
    | some now =>
      rw [tick_some hlab]
      exact h0.trans (hc.reading hlab).1

end

end Myftpd
