import Myftpd.Tables
import Myftpd.Accounts

/-!
# ftpepoll.cpp: a connection that is refused

`handleNewConn` has opened a record before `isValid` looks at the limits, and `isValid` closes it with the
`closeSess` of admitted sessions.

* `validity`, `handleNewConnRc`  the return codes;
* `Refusal`      what a refused connection leaves behind: nothing;
* `refusal_iff`  when this is so.
-/

namespace Myftpd
open CMem Server

def TOOMANYCONNTOT : Int := -1
def TOOMANYCONNPERIP : Int := -2

/-- what `isValid(sess)` gives back -/
def validity (c : Conf) (x : Session) : Int :=
  if c.maxClients > 0 ∧ x.numClients > c.maxClients then TOOMANYCONNTOT
  else if c.maxPerIp > 0 ∧ x.numThisIp > c.maxPerIp then TOOMANYCONNPERIP
  else 0

/-- `handleNewConn`, with what it gives back: the code of `isValid` where that is negative, and 0 otherwise -/
def handleNewConnRc (c : Conf) (conn : Conn) (s : Server) : Res (Int × Server) := do
  let s' ← handleNewConn c conn s
  return (validity c (newSession s), s')

/-- A refused connection: its code is given back, its socket is closed, its record has been opened and freed, its
entry of `sessinfo` is empty, and everything else is as before. -/
structure Refusal (c : Conf) (conn : Conn) (s s' : Server) : Prop where
  code : handleNewConnRc c conn s = .ok (validity c (newSession s), s')
  closed : s'.fds.get = s.fds.get
  opened : (beginConn s).heap s.nextSid = some (newSession s) ∧ s.heap s.nextSid = none
  freed : s'.heap = s.heap ∧ s'.nextSid = s.nextSid + 1
  empty : s'.sessinfo s.fds.lowest = Edata.null
  entries : ∀ fd, fd ≠ s.fds.lowest → s'.sessinfo fd = s.sessinfo fd
  children : s'.sChildren = s.sChildren
  ips : s'.sIpCount = s.sIpCount
  list : s'.tl = s.tl
  told : ∃ text, s'.log = s.log ++ [.reply s.nextSid s.fds.lowest none FTP_TOO_MANY_USERS text]

section
variable {c : Conf} {conn : Conn} {s s' : Server} {r : Nat × String}

theorem validity_neg (x : Session) : validity c x = TOOMANYCONNTOT ∨ validity c x = TOOMANYCONNPERIP ↔
    ∃ r, isValid c x = some r := by
  unfold validity isValid
  split
  · exact iff_of_true (Or.inl rfl) ⟨_, rfl⟩
  · split
    · exact iff_of_true (Or.inr rfl) ⟨_, rfl⟩
    · apply iff_of_false (by decide)
      rintro ⟨r, h⟩
      exact nomatch h

theorem handleNewConn_refused {conn : Conn} (hv : isValid c (newSession s) = some r)
    (hb : s.fds.lowest < MAX_SESSIONS) :
    handleNewConn c conn s = .ok (Server.closed ((beginConn s).ftpReply s.nextSid (newSession s) none
      FTP_TOO_MANY_USERS (ascii r.2)) s.nextSid (newSession s)) := by
  rw [isValid_code hv] at hv
  unfold handleNewConn
  simp only [hv]
  exact closeSess_eq (Function.update_self ..) hb

theorem refusal_bounded (hv : isValid c (newSession s) = some r) (h : handleNewConn c conn s = .ok s') :
    s.fds.lowest < MAX_SESSIONS := by
  unfold handleNewConn at h
  simp only [hv] at h
  obtain ⟨x, hx, hb, -⟩ := closeSess_inv h
  have he : x = newSession s := Option.some.inj (hx.symm.trans (Function.update_self ..))
  rw [he] at hb
  exact hb

/-- **A refused connection leaves no trace** in any state that is reached, unless all numbers below `MAX_SESSIONS`
are in use. -/
theorem refusal_iff (hr : Reach c Runs.Any s)
    (hv : validity c (newSession s) = TOOMANYCONNTOT ∨ validity c (newSession s) = TOOMANYCONNPERIP) :
    (∃ s', Refusal c conn s s') ↔ s.fds.lowest < MAX_SESSIONS := by
  obtain ⟨⟨code, text⟩, hv⟩ := (validity_neg _).mp hv
  constructor
  · rintro ⟨s', h⟩
    obtain ⟨t, ht, -⟩ := bind_ok.mp h.code
    exact refusal_bounded hv ht
  · intro hb
    have hnone : s.heap s.nextSid = none := by
      cases hx : s.heap s.nextSid with
      | none => rfl
      | some x => exact absurd ((numbered_reach hr).sess _ _ (ledger_sess hx)) (Nat.lt_irrefl _)
    refine ⟨Server.closed ((beginConn s).ftpReply s.nextSid (newSession s) none FTP_TOO_MANY_USERS (ascii text))
      s.nextSid (newSession s), ?_, ?_, ⟨Function.update_self .., hnone⟩, ⟨?_, rfl⟩, ?_, fun fd hfd => ?_, rfl, rfl,
      rfl, ascii text, rfl⟩
    · unfold handleNewConnRc
      rw [handleNewConn_refused hv hb]
      rfl
    · funext fd
      show ((s.fds.alloc _).release s.fds.lowest).get fd = _
      rw [Slots.release_get, Slots.alloc_get]
      split
      · rename_i e
        rw [e, s.fds.lowest_none]
      · rfl
    · rw [closed_heap]
      show Function.update (Function.update s.heap _ _) _ _ = _
      rw [Function.update_idem, ← hnone, Function.update_eq_self]
    · exact Function.update_self ..
    · exact Function.update_of_ne hfd _ _

end

/-- with one client at most the third connection is refused -/
theorem refusal_third : ∃ s s', Reach (smallConf 1 0) Runs.Any s ∧ Refusal (smallConf 1 0) ⟨1, 0⟩ s s' := by
  obtain ⟨s, hr, hp⟩ := reach_of_play
    (p := fun s => decide (validity (smallConf 1 0) (newSession s) = TOOMANYCONNTOT ∧ s.fds.lowest < MAX_SESSIONS))
    (smallReach 1 0 Runs.Any)
    (show (play (smallConf 1 0) Runs.Any sampleBoot (connects ++ connects ++
      [.wait [input 3], .dispatch 0 sampleEnv])).any _ = true by decide +kernel)
  obtain ⟨hv, hb⟩ := of_decide_eq_true hp
  obtain ⟨s', h⟩ := (refusal_iff hr (Or.inl hv)).mpr hb
  exact ⟨s, s', hr, h⟩

/-- two clients are in, one of them has sent PASV until the numbers are used up, and a third is refused -/
theorem refusal_overruns : ¬ ∀ c conn s, Reach c Runs.Any s → s.main = .accepting [] →
    validity c (newSession s) = TOOMANYCONNTOT ∨ validity c (newSession s) = TOOMANYCONNPERIP →
    ∃ s', Refusal c conn s s' := by
  intro h
  obtain ⟨s, hr, hp⟩ := reach_of_play (p := fun s => decide (s.main = .events [] ∧ s.heap 0 = some
      { initSession 5 with numThisIp := 1 } ∧ s.watch 5 = true ∧ s.sessinfo 5 = ⟨some ⟨.ctrl, 5⟩, some 0⟩ ∧
      s.fds.get 5 = some (.ctrl 0) ∧ s.sock 5 = Sock.fresh ∧ s.fds.get 3 = some .listen ∧ s.watch 3 = true ∧
      s.sessinfo 3 = ⟨some ⟨.listen, 3⟩, none⟩ ∧ s.sChildren = 2)) (smallReach 1 0 Runs.Any)
    (show (play (smallConf 1 0) Runs.Any sampleBoot (connects ++ connects)).any _ = true by decide +kernel)
  obtain ⟨hmain, hx, hw, hi, hd, hk, hl, hlw, hli, hch⟩ := of_decide_eq_true hp
  have hq : Quiet (smallConf 1 0) s 0 { initSession 5 with numThisIp := 1 } :=
    ⟨hr, hmain, hx, hw, hi, hd, (by decide), hk⟩
  obtain ⟨t, x, ht, hfull, hu⟩ := hq.fill
  have hopen : s.fds.get (smallConf 1 0).listenfd ≠ none := ne_of_eq_of_ne hl (Option.some_ne_none _)
  have hlt : ListenerUp (smallConf 1 0) t := hu.listening ⟨hopen, hlw, hli⟩
  have hone : [input (smallConf 1 0).listenfd].length ≤ MAXEVENTNUM := show 1 ≤ MAXEVENTNUM by decide
  have hr1 : Reach (smallConf 1 0) Runs.Any (t.goto (.events [input 3])) :=
    ht.reach.step (l := .wait [input 3]) trivial ⟨⟨ht.idle, List.cons_ne_nil _ _, hone, List.nodup_singleton _,
      fun e he => by rw [List.mem_singleton.mp he]; exact hlt.watched⟩, rfl⟩
  have hr2 : Reach (smallConf 1 0) Runs.Any (t.goto (.accepting [])) := by
    refine hr1.step (l := .dispatch 0 sampleEnv) trivial ⟨⟨input 3, [], rfl⟩, ?_⟩
    show dispatch (smallConf 1 0) sampleEnv 0 (input 3) [] _ = _
    unfold dispatch
    simp only [show (t.goto (.events [input 3])).sessinfo (input 3).fd = _ from hlt.info, ↓reduceIte]
    rfl
  have hv : validity (smallConf 1 0) (newSession t) = TOOMANYCONNTOT := by
    have hc : (newSession t).numClients = 2 := hu.children.trans hch
    unfold validity
    rw [hc]
    rfl
  obtain ⟨s', href⟩ := h (smallConf 1 0) ⟨1, 0⟩ (t.goto (.accepting [])) hr2 rfl (Or.inl hv)
  obtain ⟨r, hv'⟩ := (validity_neg _).mp (Or.inl hv)
  obtain ⟨t', ht', -⟩ := bind_ok.mp href.code
  exact absurd (refusal_bounded (s := t.goto (.accepting [])) hv' ht') (Nat.not_lt_of_le hfull)

end Myftpd
