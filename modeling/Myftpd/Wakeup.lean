import Myftpd.Eviction

/-!
# Clocks that go back, and the wake-up of epoll_wait

`isTimeout` compares the sum of an `int` and `TIMEOUTSEG` with an `unsigned`, so a reading that lies more than
`TIMEOUTSEG` behind `lastTime` looks like one of the far future.  `epoll_wait_timeout` counts in seconds, and
`epoll_wait` takes its timeout for milliseconds.

* `isTimeout_mod`    the comparison, for every reading;
* `node_gone`        only the loop removes a node, and only one that `isTimeout` found;
* `removals_iff`     a run removes overdue sessions only, and at which readings;
* `waitTime_eq`      the timeout that `epoll_wait` gets;
* `wakes_iff`        when the wake-up finds the session at the end of the list overdue and evicts it.
-/

namespace Myftpd
open CMem Server

/-! ## readings that go back -/

/-- The session goes in this step, and over the integers it was overdue. -/
def RemovesOverdue (c : Conf) (s : Server) (l : Label) (s' : Server) : Prop :=
  ∀ n, s.tl.node n ≠ none → s'.tl.node n = none → ∃ now, l = .evictOne now ∧ Overdue c (s.tl.time n) now

/-- a run from `s` in which every step does so -/
def RemovalsOverdue (c : Conf) (s : Server) (ls : List Label) : Prop :=
  ∀ a l b m r, ls = a ++ l :: b → Runs.Trail (sys c) Runs.Any s a m → (sys c).step l m r → RemovesOverdue c m l r

/-- The reading is not more than `TIMEOUTSEG` behind the last activity of the session at the end of the list, or
it is so far behind that modulo 2^32 it is no more than the limit. -/
def NotWrapped (c : Conf) (s : Server) : Label → Prop
  | .evictOne now => ∀ n ∈ s.tl.pLRU, ∀ x ∈ s.tl.node n,
      0 ≤ now - x.lastTime + TIMEOUTSEG ∨ (now - x.lastTime + TIMEOUTSEG) % 2^32 ≤ c.idleSessionTimeout
  | _ => True

instance (c : Conf) (s : Server) : (l : Label) → Decidable (NotWrapped c s l)
  | .evictOne now => inferInstanceAs (Decidable (∀ n ∈ s.tl.pLRU, ∀ x ∈ s.tl.node n,
      0 ≤ now - x.lastTime + TIMEOUTSEG ∨ (now - x.lastTime + TIMEOUTSEG) % 2^32 ≤ c.idleSessionTimeout))
  | .arrive _ _ | .hangup _ | .faults _ _ | .wait _ | .timeout | .waitErr _ | .dispatch _ _ | .command _
  | .onward _ | .acceptOne _ | .acceptErr _ | .thread _ _ => isTrue trivial

section
variable {c : Conf} {s s' t : Server} {l : Label} {ls : List Label} {n : Nid} {x : ToNode} {now : Int}

/-- **The comparison in `isTimeout`**, for any reading. -/
theorem isTimeout_mod (x : ToNode) (now : Int) (idle : Nat) :
    TimeList.isTimeout x now idle = true ↔ (idle : Int) < (now - x.lastTime + TIMEOUTSEG) % 2^32 := by
  unfold TimeList.isTimeout TimeList.sessTime
  rw [decide_eq_true_eq]
  unfold wrapS wrapU32 TIMEOUTSEG
  omega

theorem time_of_node {tl : TimeList} (hx : tl.node n = some x) : tl.time n = x.lastTime := by
  unfold TimeList.time
  rw [hx]
  rfl

/-- **Only the loop removes a node**: the last one, which `isTimeout` has found. -/
theorem node_gone (hen : enabled s l) (he : exec c s l = .ok s') (h : s.tl.node n ≠ none)
    (h' : s'.tl.node n = none) : ∃ now x, l = .evictOne now ∧ s.tl.pLRU = some n ∧ s.tl.node n = some x ∧
      TimeList.isTimeout x now c.idleSessionTimeout = true := by
  have hb := exec_books hen he
  have hgone : s'.books.tl.node n = none := h'
  generalize s'.books = b at hb hgone
  cases hb with
  | same ha => exact absurd hgone h
  | refresh now env fd =>
    change (s.tl.refreshTimeout fd now).node n = none at hgone
    unfold TimeList.refreshTimeout at hgone
    split at hgone
    · exact absurd hgone h
    · change Function.update s.tl.node _ _ n = none at hgone
      rw [Function.update_apply] at hgone
      split at hgone
      · rename_i e
        rw [← e, Option.map_eq_none_iff] at hgone
        exact absurd hgone h
      · exact absurd hgone h
  | admitted conn hv =>
    change Function.update s.tl.node s.tl.nextNid _ n = none at hgone
    rw [Function.update_apply] at hgone
    split at hgone
    · exact nomatch hgone
    · exact absurd hgone h
  | refused conn text hv => exact absurd hgone h
  | evicted now m node x hl hnode ht hx =>
    change Function.update s.tl.node m none n = none at hgone
    rw [Function.update_apply] at hgone
    split at hgone
    · rename_i e
      subst e
      exact ⟨now, node, rfl, hl, hnode, ht⟩
    · exact absurd hgone h

theorem evict_gone (hl : s.tl.pLRU = some n) (hx : s.tl.node n = some x)
    (ht : TimeList.isTimeout x now c.idleSessionTimeout = true) (he : exec c s (.evictOne now) = .ok s') :
    s'.tl.node n = none := by
  rcases evictOne_cases he with ⟨-, hstop⟩ | ⟨m, y, z, r, hm, -, -, -, -, rfl⟩
  · obtain ⟨y, hy, hno⟩ := hstop n hl
    cases hx.symm.trans hy
    rw [ht] at hno
    exact nomatch hno
  · cases hl.symm.trans hm
    exact Function.update_self ..

/-- **One step.** -/
theorem removes_iff (hen : enabled s l) (he : exec c s l = .ok s') :
    RemovesOverdue c s l s' ↔ NotWrapped c s l := by
  constructor
  · intro h
    cases l with
    | evictOne now =>
      intro n hl x hx
      by_contra hbad
      rw [not_or, Int.not_le, Int.not_le] at hbad
      have hgone := evict_gone hl hx ((isTimeout_mod x now _).mpr hbad.2) he
      obtain ⟨now', e, ho⟩ := h n (by rw [hx]; exact Option.some_ne_none x) hgone
      cases e
      rw [time_of_node hx] at ho
      have h0 : (0 : Int) ≤ c.idleSessionTimeout := Int.natCast_nonneg _
      unfold Overdue at ho
      omega
    | _ => trivial
  · intro h n hn hgone
    obtain ⟨now, x, rfl, hl, hx, ht⟩ := node_gone hen he hn hgone
    refine ⟨now, rfl, ?_⟩
    rw [time_of_node hx]
    rw [isTimeout_mod] at ht
    unfold Overdue
    rcases h n hl x hx with h0 | h0
    · omega
    · omega

/-- **Whatever the clock reads**: a run removes only sessions that are overdue over the integers, if no reading of
the loop lies more than `TIMEOUTSEG` behind the last activity of the session it looks at, unless by nearly
2^32 seconds; and only then. -/
theorem removals_iff (h : Runs.Trail (sys c) Runs.Any s ls t) :
    RemovalsOverdue c s ls ↔ Runs.Trail (sys c) (NotWrapped c) s ls t := by
  exact h.each_iff (I := fun _ => True) (P := fun m l r _ => RemovesOverdue c m l r) step_det (fun _ _ _ _ _ => trivial)
    (fun _ _ _ _ _ _ hs _ => removes_iff hs.1 hs.2) trivial

end

def lateClient : List Label :=
  [.wait [input 3], .dispatch 1000 sampleEnv, .acceptOne ⟨1, 1000⟩, .acceptErr .EAGAIN, .timeout]

/-- after 300 seconds the client is evicted, and was overdue -/
theorem removals_late : ∃ t, Runs.Trail (sys sampleConf) Runs.Any sampleBoot (lateClient ++ [.evictOne 1300]) t ∧
    t.tl.pLRU = none ∧ RemovalsOverdue sampleConf sampleBoot (lateClient ++ [.evictOne 1300]) := by
  obtain ⟨t, ht, hp⟩ := (Option.any_eq_true _ _).mp (by decide +kernel :
    (play sampleConf (NotWrapped sampleConf) sampleBoot (lateClient ++ [.evictOne 1300])).any
      (fun t => decide (t.tl.pLRU = none)) = true)
  have htr := play_trail ht
  have hall := htr.weaken (D := Runs.Any) fun _ _ _ => trivial
  exact ⟨t, hall, of_decide_eq_true hp, (removals_iff hall).mpr htr⟩

/-- **A clock that is set back**: ten seconds before its connection, the client is found overdue. -/
theorem removals_back : ¬ ∀ (c : Conf) (s t : Server) (ls : List Label), c.idleSessionTimeout < 2 ^ 31 →
    Reach c Runs.Any s → Runs.Trail (sys c) Runs.Any s ls t → RemovalsOverdue c s ls := by
  intro h
  obtain ⟨m, hm, hp⟩ := (Option.any_eq_true _ _).mp (by decide +kernel :
    (play sampleConf Runs.Any sampleBoot lateClient).any (fun m => decide (m.main = .evict) &&
      decide (m.tl.node 0 = some ⟨0, 1000⟩) &&
        (exec sampleConf m (.evictOne 990)).toOption.any fun r => decide (r.tl.node 0 = none)) = true)
  simp only [Bool.and_eq_true, decide_eq_true_eq] at hp
  obtain ⟨⟨hmain, hnode⟩, hr⟩ := hp
  obtain ⟨r, hr, hgone⟩ := (Option.any_eq_true _ _).mp hr
  have htr := play_trail hm
  have hstep : (sys sampleConf).step (.evictOne 990) m r := ⟨hmain, ok_of_toOption hr⟩
  obtain ⟨now, e, ho⟩ := h sampleConf sampleBoot r (lateClient ++ [.evictOne 990]) (by decide)
    (sampleReach Runs.Any) (htr.append (.cons trivial hstep .nil)) lateClient (.evictOne 990) [] m r rfl htr hstep 0
    (by rw [hnode]; exact Option.some_ne_none _) (of_decide_eq_true hgone)
  cases e
  rw [time_of_node hnode] at ho
  exact absurd ho (by unfold Overdue; decide)

/-! ## the wake-up -/

/-- the clock does not go back -/
def NeverBack (p : Server × Int) (l : Label) : Prop := ∀ now ∈ (clock l).toList, p.2 ≤ now

instance (p : Server × Int) (l : Label) : Decidable (NeverBack p l) := inferInstanceAs (Decidable (∀ now ∈ _, _))

/-- what can happen while `epoll_wait` waits: the network, and the transfer threads -/
def Outside (_ : Server) : Label → Prop
  | .arrive _ _ | .hangup _ | .faults _ _ | .thread _ _ => True
  | _ => False

/-- the clock in seconds when `w` milliseconds have passed since it stood at `now` seconds and `phase` milliseconds -/
def readingAfter (now phase w : Int) : Int := (1000 * now + phase + w) / 1000

/-- A call of `epoll_wait_timeout` at the reading `now`, with `n` at the end of the list.  Whenever `epoll_wait`
gives 0 after the milliseconds it was called with, the session of `n` is overdue, and the first round of the loop
ends it. -/
def Wakes (c : Conf) (s : Server) (n : Nid) (now : Int) : Prop :=
  ∀ w, waitTime c now s = .ok w → 0 ≤ w → ∀ phase, 0 ≤ phase → phase < 1000 → ∀ s₁ s₂ s₃,
    Path c Outside s s₁ → (sys c).step .timeout s₁ s₂ → Path c Outside s₂ s₃ →
      Overdue c (s.tl.time n) (readingAfter now phase w) ∧
        ∃ s₄, (sys c).step (.evictOne (readingAfter now phase w)) s₃ s₄ ∧ s₄.tl.node n = none ∧
          ∀ sid, s.tl.sess n = some sid → s₄.heap sid = none

/-- The time that is left of a limit of `T` seconds after `d` seconds, modulo 2^32.  From 2^31 on it is a negative
`int`. -/
def left (T : Nat) (d : Int) : Int := (T - d) % 2^32

/-- The limit and the idle time are such that nothing is awaited, or the wait ends when the session is overdue. -/
def WakeFits (T : Nat) (d : Int) : Prop :=
  left T d ≤ 1 ∧ T < 2^32 - 2 ∨ T + (left T d + 999) / 1000 + 2 < left T d

section
variable {c : Conf} {s s' : Server} {l : Label} {n : Nid} {x : ToNode} {now : Int} {T : Nat}

theorem wrapS_le {z : Int} (h : 0 ≤ z) : wrapS 32 z ≤ z := by
  unfold wrapS
  omega

/-- no node was active later than the clock reads -/
theorem stamps_reach {p : Server × Int} (h : Runs.Reach (clocked c) NeverBack p) :
    0 ≤ p.2 ∧ ∀ n x, p.1.tl.node n = some x → x.lastTime ≤ p.2 := by
  refine Runs.Reach.noted (J := fun _ => True)
    (I := fun p => 0 ≤ p.2 ∧ ∀ n x, p.1.tl.node n = some x → x.lastTime ≤ p.2) (fun _ _ => trivial) ?_ ?_ h
  · rintro s ⟨fds, -, rfl⟩
    exact ⟨Int.le_refl 0, fun n x hx => nomatch hx⟩
  · rintro s g l s' - ⟨h0, ht⟩ hc ⟨hen, he⟩
    have hle : g ≤ tick g s l s' := by
      unfold tick
      cases hl : clock l with
      | none => exact Int.le_refl g
      | some now => exact hc now (by rw [hl]; exact List.mem_singleton_self now)
    refine ⟨h0.trans hle, fun n x hx => ?_⟩
    have hnode : s'.books.tl.node n = some x := hx
    have hb := exec_books hen he
    generalize s'.books = b at hb hnode
    cases hb with
    | same ha => exact (ht n x hnode).trans hle
    | refused conn text hv => exact (ht n x hnode).trans hle
    | refresh now env fd =>
      change (s.tl.refreshTimeout fd now).node n = some x at hnode
      unfold TimeList.refreshTimeout at hnode
      split at hnode
      · exact (ht n x hnode).trans hle
      · change Function.update s.tl.node _ _ n = some x at hnode
        rw [Function.update_apply] at hnode
        split at hnode
        · obtain ⟨y, -, rfl⟩ := Option.map_eq_some_iff.mp hnode
          exact wrapS_le (h0.trans hle)
        · exact (ht n x hnode).trans hle
    | admitted conn hv =>
      change Function.update s.tl.node s.tl.nextNid _ n = some x at hnode
      rw [Function.update_apply] at hnode
      split at hnode
      · cases hnode
        exact wrapS_le (h0.trans hle)
      · exact (ht n x hnode).trans hle
    | evicted now m node y hl hm hto hy =>
      change Function.update s.tl.node m none n = some x at hnode
      rw [Function.update_apply] at hnode
      split at hnode
      · exact nomatch hnode
      · exact (ht n x hnode).trans hle

/-- **The timeout that `epoll_wait` gets.** -/
theorem waitTime_eq (hl : s.tl.pLRU = some n) (hx : s.tl.node n = some x) :
    waitTime c now s = .ok (wrapS 32 (c.idleSessionTimeout - (now - x.lastTime))) := by
  have hwrap : wrapS 32 (wrapU32 (c.idleSessionTimeout - TimeList.sessTime x now)) =
      wrapS 32 (c.idleSessionTimeout - (now - x.lastTime)) := by
    unfold TimeList.sessTime wrapS wrapU32
    omega
  unfold waitTime
  simp only [hl, hx]
  rw [hwrap]

theorem outside_step (hc : Outside s l) (hen : enabled s l) (he : exec c s l = .ok s') :
    s'.main = s.main ∧ s'.tl = s.tl ∧ ∀ j, s'.heap j = none ↔ s.heap j = none := by
  cases l with
  | arrive fd bs => cases he; exact ⟨rfl, rfl, fun _ => Iff.rfl⟩
  | hangup fd => cases he; exact ⟨rfl, rfl, fun _ => Iff.rfl⟩
  | faults fd es => cases he; exact ⟨rfl, rfl, fun _ => Iff.rfl⟩
  | thread tid env =>
    obtain ⟨th, hth⟩ := Option.ne_none_iff_exists'.mp hen
    obtain ⟨o, h⟩ := thread_ran hth he
    refine ⟨h.main, congrArg Books.tl h.books, fun j => ?_⟩
    rw [h.beside j]
    split
    · exact Option.map_eq_none_iff
    · exact Iff.rfl
  | _ => exact hc.elim

theorem outside_path (h : Path c Outside s s') :
    s'.main = s.main ∧ s'.tl = s.tl ∧ ∀ j, s'.heap j = none ↔ s.heap j = none := by
  refine Runs.Path.inv (I := fun t => t.main = s.main ∧ t.tl = s.tl ∧ ∀ j, t.heap j = none ↔ s.heap j = none)
    ?_ h ⟨rfl, rfl, fun _ => Iff.rfl⟩
  rintro t l t' ⟨h1, h2, h3⟩ hc ⟨hen, he⟩
  obtain ⟨h4, h5, h6⟩ := outside_step hc hen he
  exact ⟨h4.trans h1, h5.trans h2, fun j => (h6 j).trans (h3 j)⟩

/-! ## seconds and milliseconds -/

/-- the reading is the time of the call and the timeout in seconds, rounded down or up -/
theorem readingAfter_bounds (now w : Int) {phase : Int} (h0 : 0 ≤ phase) (h1 : phase < 1000) :
    now + w / 1000 ≤ readingAfter now phase w ∧ readingAfter now phase w ≤ now + (w + 999) / 1000 := by
  unfold readingAfter
  omega

/-- at the start of a second it is rounded down, at its end rounded up -/
theorem readingAfter_ends (now last w : Int) : readingAfter now 0 w - last = now - last + w / 1000 ∧
    readingAfter now 999 w - last = now - last + (w + 999) / 1000 := by
  unfold readingAfter
  omega

/-- an idle time that is not negative, by the limit and what is left of it -/
theorem left_split {d : Int} (hT : T < 2^32) (hd : 0 ≤ d) :
    ∃ m : Int, 0 ≤ m ∧ d = T - left T d + m * 2^32 ∧ 0 ≤ left T d := by
  unfold left
  refine ⟨-((T - d) / 2^32), ?_, ?_, ?_⟩ <;> omega

/-- `k` seconds after `d` idle seconds, with the wait rounded down or up, the session is overdue, over the integers
and for `isTimeout` -/
theorem wakeFits_overdue {d k : Int} (hT : T < 2^32) (hd : 0 ≤ d) (hw : left T d < 2^31) (h1 : left T d / 1000 ≤ k)
    (h2 : k ≤ (left T d + 999) / 1000) (hf : WakeFits T d) :
    (T : Int) < d + k + TIMEOUTSEG ∧ (T : Int) < (d + k + TIMEOUTSEG) % 2^32 := by
  obtain ⟨m, hm, e, h0⟩ := left_split hT hd
  unfold WakeFits at hf
  generalize left T d = w at *
  unfold TIMEOUTSEG
  have hmod : (d + k + 2) % 2^32 = (T - w + k + 2) % 2^32 := by omega
  rw [hmod]
  rcases hf with ⟨h3, h4⟩ | hf
  · have hsmall : w = 0 ∨ w = 1 := by omega
    rcases hsmall with rfl | rfl <;> omega
  · -- the idle time has gone round once
    have hround : 1 ≤ m := by omega
    omega

/-- with the wait rounded down and rounded up, nothing else can do that -/
theorem overdue_wakeFits {d : Int} (hT : T < 2^32) (hd : 0 ≤ d) (hw : left T d < 2^31)
    (h1 : (T : Int) < d + left T d / 1000 + TIMEOUTSEG)
    (h2 : (T : Int) < (d + left T d / 1000 + TIMEOUTSEG) % 2^32)
    (h3 : (T : Int) < (d + (left T d + 999) / 1000 + TIMEOUTSEG) % 2^32) : WakeFits T d := by
  obtain ⟨m, hm, e, h0⟩ := left_split hT hd
  unfold WakeFits
  generalize left T d = w at *
  unfold TIMEOUTSEG at h1 h2 h3
  have hmod : ∀ k, (d + k + 2) % 2^32 = (T - w + k + 2) % 2^32 := by
    intro k
    omega
  rw [hmod] at h2 h3
  by_cases hsmall : w ≤ 1
  · left
    have hcase : w = 0 ∨ w = 1 := by omega
    rcases hcase with rfl | rfl <;> omega
  · right
    by_cases hneg : (T : Int) - w + (w + 999) / 1000 + 2 < 0
    · omega
    · have hcase : (w + 999) / 1000 + 2 ≤ w ∨ w = 2 := by omega
      rcases hcase with hle | rfl
      · rw [Int.emod_eq_of_lt (by omega) (by omega)] at h3
        omega
      · omega

theorem waited {s₁ s₂ s₃ : Server} (h₁ : Path c Outside s s₁) (ht : (sys c).step .timeout s₁ s₂)
    (h₂ : Path c Outside s₂ s₃) : s₃.main = .evict ∧ s₃.tl = s.tl ∧ ∀ j, s₃.heap j = none ↔ s.heap j = none := by
  obtain ⟨-, h3, h4⟩ := outside_path h₁
  have h5 : s₂ = s₁.goto .evict := (Except.ok.inj ht.2).symm
  subst h5
  obtain ⟨h6, h7, h8⟩ := outside_path h₂
  exact ⟨h6, h7.trans h3, fun j => (h8 j).trans (h4 j)⟩

/-- the first round of the loop, with the last session live and found overdue -/
theorem evict_first {y : Session} (hr : Reach c Runs.Any s) (hm : s.main = .evict) (hl : s.tl.pLRU = some n)
    (hx : s.tl.node n = some x) (hy : s.heap x.sess = some y)
    (ht : TimeList.isTimeout x now c.idleSessionTimeout = true) : ∃ s',
      (sys c).step (.evictOne now) s s' ∧ s'.tl.node n = none ∧ s'.heap x.sess = none := by
  have hb := (bounded_reach hr).ctrl _ _ (ledger_sess hy)
  have he : exec c s (.evictOne now) =
      .ok { closed s x.sess y with tl := (closed s x.sess y).tl.remove n y.ctrlFd } := by
    show Myftpd.evictOne c now s = _
    unfold Myftpd.evictOne
    simp only [hl, hx]
    rw [if_pos ht]
    exact removeToNode_eq hx hy hb
  refine ⟨_, ⟨hm, he⟩, Function.update_self .., ?_⟩
  show (closed s x.sess y).heap x.sess = none
  rw [closed_heap, Function.update_self]

theorem wakes_of_fits (hT : c.idleSessionTimeout < 2^32) (hr : Reach c Runs.Any s) (hl : s.tl.pLRU = some n)
    (hx : s.tl.node n = some x) (hd : 0 ≤ now - x.lastTime)
    (hw : left c.idleSessionTimeout (now - x.lastTime) < 2^31)
    (hwait : waitTime c now s = .ok (left c.idleSessionTimeout (now - x.lastTime)))
    (hy : s.heap x.sess ≠ none) (hf : WakeFits c.idleSessionTimeout (now - x.lastTime)) : Wakes c s n now := by
  intro w hw' _ phase h0 h1 s₁ s₂ s₃ hp₁ ht hp₂
  cases hwait.symm.trans hw'
  obtain ⟨h2, h3⟩ := readingAfter_bounds now (left c.idleSessionTimeout (now - x.lastTime)) h0 h1
  generalize readingAfter now phase (left c.idleSessionTimeout (now - x.lastTime)) = r at h2 h3 ⊢
  obtain ⟨h4, h5⟩ := wakeFits_overdue (k := r - now) hT hd hw (by omega) (by omega) hf
  have hsum : now - x.lastTime + (r - now) + TIMEOUTSEG = r - x.lastTime + TIMEOUTSEG := by omega
  rw [hsum] at h4 h5
  obtain ⟨hm, htl, hheap⟩ := waited hp₁ ht hp₂
  have hr₁ : Reach c Runs.Any s₁ := hr.path (hp₁.weaken fun _ _ _ => trivial)
  have hr₃ : Reach c Runs.Any s₃ := (hr₁.step trivial ht).path (hp₂.weaken fun _ _ _ => trivial)
  obtain ⟨y, hy'⟩ := Option.ne_none_iff_exists'.mp fun e => hy ((hheap x.sess).mp e)
  have hto : TimeList.isTimeout x r c.idleSessionTimeout = true := (isTimeout_mod x r _).mpr h5
  obtain ⟨s₄, hs₄, hgone, hfreed⟩ := evict_first hr₃ hm (by rw [htl, hl]) (by rw [htl, hx]) hy' hto
  refine ⟨?_, s₄, hs₄, hgone, fun sid hs => ?_⟩
  · rw [time_of_node hx]
    exact h4
  · obtain ⟨z, hz, rfl⟩ := Option.map_eq_some_iff.mp hs
    cases hx.symm.trans hz
    exact hfreed

theorem fits_of_wakes (hT : c.idleSessionTimeout < 2^32) (hm : s.main = .events []) (hl : s.tl.pLRU = some n)
    (hx : s.tl.node n = some x) (hd : 0 ≤ now - x.lastTime)
    (hw : left c.idleSessionTimeout (now - x.lastTime) < 2^31)
    (hwait : waitTime c now s = .ok (left c.idleSessionTimeout (now - x.lastTime))) (h : Wakes c s n now) :
    s.heap x.sess ≠ none ∧ WakeFits c.idleSessionTimeout (now - x.lastTime) := by
  obtain ⟨-, -, -, hnn⟩ := left_split hT hd
  have htimeout : (sys c).step .timeout s (s.goto .evict) :=
    ⟨⟨hm, by rw [hl]; exact Option.some_ne_none n⟩, rfl⟩
  -- what the call does when nothing else happens
  have hcall : ∀ phase, 0 ≤ phase → phase < 1000 →
      (c.idleSessionTimeout : Int) < readingAfter now phase (left c.idleSessionTimeout (now - x.lastTime)) - x.lastTime
        + TIMEOUTSEG ∧ TimeList.isTimeout x (readingAfter now phase (left c.idleSessionTimeout (now - x.lastTime)))
          c.idleSessionTimeout = true ∧ s.heap x.sess ≠ none := by
    intro phase h0 h1
    obtain ⟨ho, s₄, ⟨-, he⟩, hgone, -⟩ := h _ hwait hnn phase h0 h1 s (s.goto .evict) (s.goto .evict) .refl htimeout .refl
    rw [time_of_node hx] at ho
    refine ⟨ho, ?_⟩
    rcases evictOne_cases he with ⟨rfl, -⟩ | ⟨m, y, z, t, hm', hy, hto, hz, -, -⟩
    · change s.tl.node n = none at hgone
      rw [hx] at hgone
      exact nomatch hgone
    · cases hl.symm.trans hm'
      cases hx.symm.trans hy
      exact ⟨hto, by rw [show s.heap x.sess = some z from hz]; exact Option.some_ne_none z⟩
  obtain ⟨h1, h2, hlive⟩ := hcall 0 (by decide) (by decide)
  obtain ⟨-, h3, -⟩ := hcall 999 (by decide) (by decide)
  rw [isTimeout_mod] at h2 h3
  obtain ⟨hfloor, hceil⟩ := readingAfter_ends now x.lastTime (left c.idleSessionTimeout (now - x.lastTime))
  rw [hfloor] at h1 h2
  rw [hceil] at h3
  exact ⟨hlive, overdue_wakeFits hT hd hw h1 h2 h3⟩

/-- **A timed wake-up finds the session it was set for**, overdue, and evicts it, in every state that is reached
with a clock that does not go back, if: the time that is left of the limit is negative as an `int`, so that
`epoll_wait` waits for events only; or the session has not ended, and the limit and its idle time are such that
milliseconds do what seconds should. -/
theorem wakes_iff (hT : c.idleSessionTimeout < 2^32) {p : Server × Int} (h : Runs.Reach (clocked c) NeverBack p)
    (hm : p.1.main = .events []) (hl : p.1.tl.pLRU = some n) (hnow : p.2 ≤ now) :
    ∃ x, p.1.tl.node n = some x ∧ (Wakes c p.1 n now ↔
      2^31 ≤ left c.idleSessionTimeout (now - x.lastTime) ∨
        p.1.heap x.sess ≠ none ∧ WakeFits c.idleSessionTimeout (now - x.lastTime)) := by
  have hr : Reach c Runs.Any p.1 := h.forget fun _ _ _ => trivial
  obtain ⟨-, hstamps⟩ := stamps_reach h
  obtain ⟨ns, hlinked⟩ := linked_reach hr
  obtain ⟨sid, hs, -⟩ := hlinked.node n (hlinked.spells.last_mem hl)
  obtain ⟨x, hx, rfl⟩ := Option.map_eq_some_iff.mp hs
  have hd : 0 ≤ now - x.lastTime := by
    have := hstamps n x hx
    omega
  have hwait : waitTime c now p.1 = .ok (wrapS 32 (c.idleSessionTimeout - (now - x.lastTime))) := waitTime_eq hl hx
  have htime := time_of_node hx
  refine ⟨x, hx, ?_⟩
  by_cases hneg : 2^31 ≤ left c.idleSessionTimeout (now - x.lastTime)
  · refine iff_of_true (fun w hw h0 => ?_) (Or.inl hneg)
    cases hwait.symm.trans hw
    unfold wrapS at h0
    unfold left at hneg
    omega
  · rw [or_iff_right hneg]
    have hw : left c.idleSessionTimeout (now - x.lastTime) < 2^31 := Int.not_le.mp hneg
    obtain ⟨m, -, -, h0⟩ := left_split hT hd
    have hleft : wrapS 32 (c.idleSessionTimeout - (now - x.lastTime)) =
        left c.idleSessionTimeout (now - x.lastTime) := by
      unfold left at hw ⊢
      unfold wrapS
      omega
    rw [hleft] at hwait
    constructor
    · exact fits_of_wakes hT hm hl hx hd hw hwait
    · rintro ⟨hy, hf⟩
      exact wakes_of_fits hT hr hl hx hd hw hwait hy hf

end

theorem sampleQuiet : ∃ p : Server × Int, Runs.Reach (clocked sampleConf) NeverBack p ∧ p.1.main = .events [] ∧
    p.1.tl.pLRU = some 0 ∧ p.1.tl.node 0 = some ⟨0, 0⟩ ∧ p.2 = 0 ∧ p.1.heap 0 ≠ none := by
  obtain ⟨p, hp, ht⟩ := noted_of_play (t := fun p : Server × Int => decide (p.1.main = .events []) &&
      decide (p.1.tl.pLRU = some 0) && decide (p.1.tl.node 0 = some ⟨0, 0⟩) && decide (p.2 = 0) && (p.1.heap 0).isSome)
    (sampleNoted 0 tick NeverBack) (by decide +kernel : (playNoted sampleConf tick NeverBack (sampleBoot, 0) connects).any _ = true)
  simp only [Bool.and_eq_true, decide_eq_true_eq] at ht
  obtain ⟨⟨⟨⟨hm, hl⟩, hnode⟩, h0⟩, hy⟩ := ht
  exact ⟨p, hp, hm, hl, hnode, h0, Option.isSome_iff_ne_none.mp hy⟩

/-- **A call after 300 seconds**: nothing is left of the limit, and the loop runs at once. -/
theorem wakes_late : ∃ p : Server × Int, Runs.Reach (clocked sampleConf) NeverBack p ∧ p.1.tl.pLRU = some 0 ∧
    Wakes sampleConf p.1 0 300 := by
  obtain ⟨p, hp, hm, hl, hnode, h0, hy⟩ := sampleQuiet
  obtain ⟨x, hx, hiff⟩ := wakes_iff (by decide) hp hm hl (show p.2 ≤ 300 by rw [h0]; decide)
  cases hnode.symm.trans hx
  exact ⟨p, hp, hl, hiff.mpr (Or.inr ⟨hy, Or.inl (by decide)⟩)⟩

/-- **A call in the second of the connection**: 300 milliseconds later there is nobody to evict. -/
theorem wakes_early : ¬ ∀ (c : Conf) (p : Server × Int) (n : Nid) (now : Int), c.idleSessionTimeout < 2^32 →
    Runs.Reach (clocked c) NeverBack p → p.1.main = .events [] → p.1.tl.pLRU = some n → p.2 ≤ now →
    Wakes c p.1 n now := by
  intro h
  obtain ⟨p, hp, hm, hl, hnode, h0, -⟩ := sampleQuiet
  have hwait : waitTime sampleConf 0 p.1 = .ok 300 := by
    rw [waitTime_eq hl hnode]
    decide
  have htimeout : (sys sampleConf).step .timeout p.1 (p.1.goto .evict) :=
    ⟨⟨hm, by rw [hl]; exact Option.some_ne_none 0⟩, rfl⟩
  obtain ⟨ho, -⟩ := h sampleConf p 0 0 (by decide) hp hm hl (by rw [h0]) 300 hwait (by decide) 0 (by decide) (by decide)
    p.1 _ _ .refl htimeout .refl
  rw [time_of_node hnode] at ho
  exact absurd ho (by unfold Overdue; decide)

end Myftpd
