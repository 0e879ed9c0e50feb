import Myftpd.Session

/-!
# The timeout list and the map of its nodes

`Tracks tl live l`: the list spells `l`, it has one node for every session that `live` gives a control
socket, and `map_fd_toNode` finds this node by the socket and knows no other descriptor.

* `Tracks.addtoNode`, `Tracks.refreshTimeout`, `Tracks.remove`: the three operations.
-/

namespace Myftpd

namespace TimeList

def sess (tl : TimeList) (n : Nid) : Option Sid := (tl.node n).map ToNode.sess

/-- the list and the map know the sessions `live`, each with its control socket -/
structure Tracks (tl : TimeList) (live : Sid → Option Fd) (l : List Nid) : Prop where
  spells : tl.links.Is l
  fresh : ∀ n ∈ l, n < tl.nextNid
  node : ∀ n ∈ l, ∃ sid fd, tl.sess n = some sid ∧ live sid = some fd ∧ tl.map fd = some n
  covers : ∀ sid fd, live sid = some fd → ∃ n ∈ l, tl.sess n = some sid ∧ tl.map fd = some n
  map : ∀ fd n, tl.map fd = some n → ∃ sid, tl.sess n = some sid ∧ live sid = some fd

/-- the list after an event on a descriptor -/
def touched (tl : TimeList) (fd : Fd) (l : List Nid) : List Nid :=
  match tl.map fd with
  | none => l
  | some n => n :: l.erase n

variable {tl : TimeList} {live : Sid → Option Fd} {l : List Nid} {n : Nid} {sid j : Sid} {fd : Fd}
  {now : Int}

theorem tracks_init : init.Tracks (fun _ => none) [] where
  spells := DList.is_empty
  fresh := nofun
  node := nofun
  covers := nofun
  map := nofun

theorem Tracks.distinct (h : tl.Tracks live l) (hs : live sid = some fd) (hj : live j = some fd) :
    j = sid := by
  obtain ⟨n, -, hn, hm⟩ := h.covers sid fd hs
  obtain ⟨m, -, hn', hm'⟩ := h.covers j fd hj
  cases hm.symm.trans hm'
  exact Option.some.inj (hn'.symm.trans hn)

theorem Tracks.mem (h : tl.Tracks live l) (hm : tl.map fd = some n) : n ∈ l := by
  obtain ⟨sid, -, hs⟩ := h.map fd n hm
  obtain ⟨m, hml, -, hm'⟩ := h.covers sid fd hs
  cases hm.symm.trans hm'
  exact hml

theorem Tracks.unique (h : tl.Tracks live l) {m : Nid} (hn : n ∈ l) (hm : m ∈ l)
    (hs : tl.sess n = some sid) (hs' : tl.sess m = some sid) : m = n := by
  obtain ⟨j, fd, e, hl, hf⟩ := h.node n hn
  obtain ⟨j', fd', e', hl', hf'⟩ := h.node m hm
  cases hs.symm.trans e
  cases hs'.symm.trans e'
  cases hl.symm.trans hl'
  exact Option.some.inj (hf'.symm.trans hf)

theorem Tracks.live_of_map (h : tl.Tracks live l) (hm : tl.map fd = some n)
    (hs : tl.sess n = some sid) : live sid = some fd := by
  obtain ⟨j, e, hl⟩ := h.map fd n hm
  cases hs.symm.trans e
  exact hl

/-! ## a new session -/

theorem addtoNode_sess (m : Nid) :
    (tl.addtoNode sid fd now).sess m = if m = tl.nextNid then some sid else tl.sess m := by
  show (Function.update tl.node tl.nextNid _ m).map ToNode.sess = _
  rw [Function.update_apply]
  split <;> rfl

theorem addtoNode_map (g : Fd) :
    (tl.addtoNode sid fd now).map g = if g = fd then some tl.nextNid else tl.map g :=
  Function.update_apply ..

/-- **`addtoNode`** -/
theorem Tracks.addtoNode (h : tl.Tracks live l) (hs : live sid = none) (hf : ∀ j, live j ≠ some fd) :
    (tl.addtoNode sid fd now).Tracks (Function.update live sid (some fd)) (tl.nextNid :: l) := by
  have hn : tl.nextNid ∉ l := fun e => Nat.lt_irrefl _ (h.fresh _ e)
  have hold : ∀ m ∈ l, (tl.addtoNode sid fd now).sess m = tl.sess m := by
    intro m hm
    rw [addtoNode_sess, if_neg (fun e : m = tl.nextNid => hn (e ▸ hm))]
  have hne : ∀ {j g}, live j = some g → j ≠ sid ∧ g ≠ fd := by
    intro j g hj
    constructor
    · rintro rfl
      rw [hs] at hj
      cases hj
    · rintro rfl
      exact hf j hj
  refine ⟨DList.is_linkHead h.spells hn, ?_, ?_, ?_, ?_⟩
  · intro m hm
    rcases List.mem_cons.mp hm with rfl | hm
    · exact Nat.lt_succ_self _
    · exact Nat.lt_succ_of_lt (h.fresh m hm)
  · intro m hm
    rcases List.mem_cons.mp hm with rfl | hm
    · refine ⟨sid, fd, ?_, Function.update_self .., ?_⟩
      · rw [addtoNode_sess, if_pos rfl]
      · rw [addtoNode_map, if_pos rfl]
    · obtain ⟨j, g, e, hj, hm'⟩ := h.node m hm
      refine ⟨j, g, (hold m hm).trans e, ?_, ?_⟩
      · rw [Function.update_of_ne (hne hj).1, hj]
      · rw [addtoNode_map, if_neg (hne hj).2, hm']
  · intro j g hj
    rw [Function.update_apply] at hj
    split at hj
    · rename_i e
      cases hj
      refine ⟨tl.nextNid, List.mem_cons_self, ?_, ?_⟩
      · rw [addtoNode_sess, if_pos rfl, e]
      · rw [addtoNode_map, if_pos rfl]
    · obtain ⟨m, hm, e, hm'⟩ := h.covers j g hj
      refine ⟨m, List.mem_cons_of_mem _ hm, (hold m hm).trans e, ?_⟩
      rw [addtoNode_map, if_neg (hne hj).2, hm']
  · intro g m hm
    rw [addtoNode_map] at hm
    split at hm
    · rename_i e
      cases hm
      refine ⟨sid, ?_, ?_⟩
      · rw [addtoNode_sess, if_pos rfl]
      · rw [e, Function.update_self]
    · obtain ⟨j, e, hj⟩ := h.map g m hm
      refine ⟨j, (hold m (h.mem hm)).trans e, ?_⟩
      rw [Function.update_of_ne (hne hj).1, hj]

/-! ## activity of a session -/

theorem refresh_nextNid : (tl.refreshTimeout fd now).nextNid = tl.nextNid := by
  unfold refreshTimeout
  split <;> rfl

theorem refresh_map : (tl.refreshTimeout fd now).map = tl.map := by
  unfold refreshTimeout
  split <;> rfl

theorem refresh_sess (m : Nid) : (tl.refreshTimeout fd now).sess m = tl.sess m := by
  unfold refreshTimeout
  split
  · rfl
  · rename_i n hn
    show (Function.update tl.node n _ m).map ToNode.sess = _
    rw [Function.update_apply]
    split
    · rename_i e
      rw [e, Option.map_map]
      rfl
    · rfl

theorem touched_mem (h : ∀ n, tl.map fd = some n → n ∈ l) (m : Nid) : m ∈ tl.touched fd l ↔ m ∈ l := by
  unfold touched
  split
  · rfl
  · rename_i n hn
    exact (List.perm_cons_erase (h n hn)).symm.mem_iff

/-- **`refreshTimeout`**: the node moves to the front. -/
theorem Tracks.refreshTimeout (h : tl.Tracks live l) (fd : Fd) (now : Int) :
    (tl.refreshTimeout fd now).Tracks live (tl.touched fd l) := by
  have hin := touched_mem fun (n : Nid) (hn : tl.map fd = some n) => h.mem hn
  refine ⟨?_, ?_, ?_, ?_, ?_⟩
  · unfold TimeList.refreshTimeout touched
    cases hn : tl.map fd with
    | none => exact h.spells
    | some n =>
      exact DList.is_linkHead (h.spells.unlink_erase (h.mem hn)) h.spells.nodup.not_mem_erase
  · intro m hm
    rw [refresh_nextNid]
    exact h.fresh m ((hin m).mp hm)
  · intro m hm
    rw [refresh_sess, refresh_map]
    exact h.node m ((hin m).mp hm)
  · intro j g hj
    rw [refresh_map]
    obtain ⟨m, hm, e, hm'⟩ := h.covers j g hj
    exact ⟨m, (hin m).mpr hm, (refresh_sess m).trans e, hm'⟩
  · intro g m hm
    rw [refresh_map] at hm
    rw [refresh_sess]
    exact h.map g m hm

/-! ## the end of a session -/

theorem remove_sess (m : Nid) : (tl.remove n fd).sess m = if m = n then none else tl.sess m := by
  show (Function.update tl.node n none m).map ToNode.sess = _
  rw [Function.update_apply]
  split <;> rfl

theorem remove_map (g : Fd) : (tl.remove n fd).map g = if g = fd then none else tl.map g :=
  Function.update_apply ..

/-- **`remove`** of the node of a live session -/
theorem Tracks.remove (h : tl.Tracks live l) (hn : n ∈ l) (hs : tl.sess n = some sid)
    (hf : live sid = some fd) :
    (tl.remove n fd).Tracks (Function.update live sid none) (l.erase n) := by
  have hrest : ∀ m, m ∈ l.erase n ↔ m ≠ n ∧ m ∈ l := fun m => h.spells.nodup.mem_erase_iff
  -- the other nodes belong to other sessions with other sockets
  have hne : ∀ {m j g}, m ≠ n → m ∈ l → tl.sess m = some j → live j = some g → j ≠ sid ∧ g ≠ fd := by
    intro m j g hmn hm e hj
    constructor
    · rintro rfl
      exact hmn (h.unique hn hm hs e)
    · rintro rfl
      cases h.distinct hf hj
      exact hmn (h.unique hn hm hs e)
  refine ⟨h.spells.unlink_erase hn, ?_, ?_, ?_, ?_⟩
  · exact fun m hm => h.fresh m ((hrest m).mp hm).2
  · intro m hm
    obtain ⟨hmn, hm⟩ := (hrest m).mp hm
    obtain ⟨j, g, e, hj, hm'⟩ := h.node m hm
    obtain ⟨h1, h2⟩ := hne hmn hm e hj
    refine ⟨j, g, ?_, ?_, ?_⟩
    · rw [remove_sess, if_neg hmn, e]
    · rw [Function.update_of_ne h1, hj]
    · rw [remove_map, if_neg h2, hm']
  · intro j g hj
    rw [Function.update_apply] at hj
    split at hj
    · cases hj
    · rename_i hjs
      obtain ⟨m, hm, e, hm'⟩ := h.covers j g hj
      have hmn : m ≠ n := by
        rintro rfl
        exact hjs (Option.some.inj (e.symm.trans hs))
      refine ⟨m, (hrest m).mpr ⟨hmn, hm⟩, ?_, ?_⟩
      · rw [remove_sess, if_neg hmn, e]
      · rw [remove_map, if_neg (hne hmn hm e hj).2, hm']
  · intro g m hm
    rw [remove_map] at hm
    split at hm
    · cases hm
    · rename_i hg
      have hmn : m ≠ n := by
        rintro rfl
        exact hg (Option.some.inj ((h.live_of_map hm hs).symm.trans hf))
      obtain ⟨j, e, hj⟩ := h.map g m hm
      refine ⟨j, ?_, ?_⟩
      · rw [remove_sess, if_neg hmn, e]
      · rw [Function.update_of_ne (hne hmn (h.mem hm) e hj).1, hj]

end TimeList

end Myftpd
