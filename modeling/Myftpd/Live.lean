import Myftpd.Worked
import Myftpd.Lifetime
import Myftpd.Registry
import Myftpd.Lib.History
import Mathlib.Data.Finset.Card

/-!
# The live sessions

A step admits one session, ends one session, or leaves the set of live sessions as it is.

* `live`        the sessions that have been admitted and not yet ended;
* `admits`      the step admits a connection, and from which address;
* `live_admitted`, `live_ended`, `live_same`  the set after a step.
-/

namespace Myftpd
open CMem Server

/-- the sessions that have been admitted and have not ended -/
def live (s : Server) : Finset Sid := (Finset.range s.nextSid).filter fun sid => (s.heap sid).isSome

section
variable {c : Conf} {s s' : Server} {l : Label} {sid : Sid} {ip : Nat}

theorem mem_live (hn : s.ledger.Numbered) : sid ∈ live s ↔ ∃ x, s.heap sid = some x := by
  unfold live
  rw [Finset.mem_filter, Finset.mem_range, Option.isSome_iff_exists]
  exact ⟨And.right, fun ⟨x, hx⟩ => ⟨hn.sess sid _ (ledger_sess hx), x, hx⟩⟩

theorem mem_live_ledger (hn : s.ledger.Numbered) : sid ∈ live s ↔ ∃ z, s.ledger.sess sid = some z := by
  rw [mem_live hn]
  constructor
  · rintro ⟨x, hx⟩
    exact ⟨x.core, ledger_sess hx⟩
  · rintro ⟨z, hz⟩
    obtain ⟨x, hx, -⟩ := Option.map_eq_some_iff.mp hz
    exact ⟨x, hx⟩

theorem next_not_live : s.nextSid ∉ live s := by
  unfold live
  rw [Finset.mem_filter, Finset.mem_range]
  exact fun h => Nat.lt_irrefl _ h.1

/-! ## new nodes and new sessions -/

/-- Every session that is admitted gets a node, and no other step makes one. -/
theorem nextNid_admits (h : Booked c s l s'.books) :
    s'.tl.nextNid = s.tl.nextNid + 1 ∧ admits c s l ≠ none ∨
      s'.tl.nextNid = s.tl.nextNid ∧ admits c s l = none := by
  have htl : s'.tl = s'.books.tl := rfl
  rw [htl]
  generalize s'.books = b at h
  cases h with
  | same ha => exact Or.inr ⟨rfl, ha⟩
  | refresh now env fd => exact Or.inr ⟨TimeList.refresh_nextNid .., rfl⟩
  | admitted conn hv => exact Or.inl ⟨rfl, by rw [admits_some hv]; exact Option.some_ne_none _⟩
  | refused conn text hv => exact Or.inr ⟨rfl, admits_none hv⟩
  | evicted now n node x _ _ _ _ => exact Or.inr ⟨rfl, rfl⟩

theorem enter_iff {op : Op} (ho : Outcome c s l s' op) (h : Booked c s l s'.books) :
    (∃ fd, op = .enter fd) ↔ admits c s l ≠ none := by
  have htl := ho.tl
  rcases nextNid_admits h with ⟨h1, h2⟩ | ⟨h1, h2⟩
  · refine ⟨fun _ => h2, fun _ => ?_⟩
    by_contra hop
    have hsame : s'.tl.nextNid = s.tl.nextNid := by
      cases op with
      | enter fd => exact absurd ⟨fd, rfl⟩ hop
      | evict sid =>
        obtain ⟨n, node, x, -, -, -, -, e⟩ := htl
        rw [e]
        rfl
      | _ =>
        rcases htl with e | ⟨fd, now, e⟩
        · rw [e]
        · rw [e, TimeList.refresh_nextNid]
    exact Nat.succ_ne_self _ (h1.symm.trans hsame)
  · refine ⟨?_, fun h => absurd h2 h⟩
    rintro ⟨fd, rfl⟩
    obtain ⟨now, e⟩ := htl
    rw [e] at h1
    exact absurd h1 (Nat.succ_ne_self _)

/-! ## the set after a step -/

theorem live_iff {op : Op} (hn : s.ledger.Numbered) (ho : Outcome c s l s' op) {j : Sid} :
    j ∈ live s' ↔ j ∈ live s ∧ ends c s l ≠ some j ∨ j = s.nextSid ∧ ∃ fd, op = .enter fd := by
  rw [mem_live_ledger (ho.step.numbered hn), mem_live_ledger hn, ← ho.endsEq]
  constructor
  · rintro ⟨z', hz'⟩
    obtain ⟨he, ⟨z, hz, -⟩ | ⟨fd, e, hj, -⟩⟩ := ho.step.born hz'
    · exact Or.inl ⟨⟨z, hz⟩, he⟩
    · exact Or.inr ⟨hj, fd, e⟩
  · rintro (⟨⟨z, hz⟩, he⟩ | ⟨rfl, fd, rfl⟩)
    · obtain ⟨z', hz', -⟩ := ho.step.alive hz (hn.sess j z hz) he
      exact ⟨z', hz'⟩
    · obtain ⟨z, hz, -⟩ := Ledger.ctrlOf_some.mp
        (show s'.ledger.ctrlOf s.nextSid = some fd by rw [ho.step.ctrl_enter.2]; exact Function.update_self ..)
      exact ⟨z, hz⟩

theorem ends_live {op : Op} (hn : s.ledger.Numbered) (ho : Outcome c s l s' op)
    (he : ends c s l = some sid) : sid ∈ live s := by
  rw [← ho.endsEq] at he
  obtain ⟨z, hz, -⟩ := ho.step.ended he
  exact (mem_live_ledger hn).mpr ⟨z, hz⟩

variable (hn : s.ledger.Numbered) (hen : enabled s l) (he : exec c s l = .ok s')
include hn hen he

/-- **An admission** adds the next session. -/
theorem live_admitted (ha : admits c s l ≠ none) : live s' = insert s.nextSid (live s) := by
  obtain ⟨op, ho⟩ := exec_step hen he
  obtain ⟨fd, rfl⟩ := (enter_iff ho (exec_books hen he)).mpr ha
  ext j
  rw [live_iff hn ho, ← ho.endsEq, Finset.mem_insert]
  constructor
  · rintro (⟨h, -⟩ | ⟨h, -⟩)
    · exact Or.inr h
    · exact Or.inl h
  · rintro (h | h)
    · exact Or.inr ⟨h, fd, rfl⟩
    · exact Or.inl ⟨h, nofun⟩

/-- **The end of a session** removes it. -/
theorem live_ended (h : ends c s l = some sid) : sid ∈ live s ∧ live s' = (live s).erase sid := by
  obtain ⟨op, ho⟩ := exec_step hen he
  refine ⟨ends_live hn ho h, ?_⟩
  ext j
  rw [live_iff hn ho, h, Finset.mem_erase]
  constructor
  · rintro (⟨h1, h2⟩ | ⟨-, fd, rfl⟩)
    · exact ⟨fun e => h2 (by rw [e]), h1⟩
    · rw [← ho.endsEq] at h
      cases h
  · rintro ⟨h1, h2⟩
    exact Or.inl ⟨h2, fun e => h1 (Option.some.inj e).symm⟩

/-- **Every other step** leaves the set as it is. -/
theorem live_same (ha : admits c s l = none) (h : ends c s l = none) : live s' = live s := by
  obtain ⟨op, ho⟩ := exec_step hen he
  ext j
  rw [live_iff hn ho, h]
  constructor
  · rintro (⟨h1, -⟩ | ⟨-, hop⟩)
    · exact h1
    · exact absurd ha ((enter_iff ho (exec_books hen he)).mp hop)
  · exact fun h1 => Or.inl ⟨h1, nofun⟩

omit hn in
theorem admits_ends (ha : admits c s l ≠ none) : ends c s l = none := by
  obtain ⟨op, ho⟩ := exec_step hen he
  obtain ⟨fd, rfl⟩ := (enter_iff ho (exec_books hen he)).mpr ha
  exact ho.endsEq.symm

end

end Myftpd
