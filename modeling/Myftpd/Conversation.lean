import Myftpd.Lib.History
import Myftpd.Speech
import Myftpd.Fields

/-!
# Conversations

What a session and its client say to each other, in the order in which it goes over the connections of the client.  A
descriptor that a record still names may be another client's connection by then, so that the log, which has the
session that speaks, is not what a client gets.

* `exchanged`                 what a step sends to a client or reads from it, by what is behind the descriptor;
* `Apart`                     the sessions act with descriptors of their own;
* `Phase`                     the protocol: a greeting or a refusal, then lines with rising numbers, replies to lines
                              that have come, and data once a line has come;
* `exchanges_follow_protocol` every client of every such run is served by it;
* `ended_silent`              nothing is exchanged with a session that has ended;
* `touched_by_own_steps`      nothing but its own steps touches a session.
-/

namespace Myftpd
open CMem Server

/-- where a conversation stands; the lines are those that have come so far, the latest first -/
inductive Phase where
  | fresh
  | refused
  | talking (fd : Fd) (lines : List Nat)
  deriving DecidableEq

/-- what may be said next, and where it leads -/
def Phase.next : Phase → Act → Option Phase
  | .fresh, .reply _ fd none code _ =>
    if code = FTP_GREET then some (.talking fd [])
    else if code = FTP_TOO_MANY_USERS then some .refused else none
  | .talking fd ns, .line _ n => if ∀ m ∈ ns, m < n then some (.talking fd (n :: ns)) else none
  | .talking fd ns, .reply _ g (some n) _ _ => if g = fd ∧ n ∈ ns then some (.talking fd ns) else none
  | .talking fd ns, .lreply _ g (some n) _ _ => if g = fd ∧ n ∈ ns then some (.talking fd ns) else none
  | .talking fd ns, .raw _ g _ => if g = fd ∧ ns ≠ [] then some (.talking fd ns) else none
  | .talking fd ns, .data _ _ _ => if ns ≠ [] then some (.talking fd ns) else none
  | .talking fd ns, .fs _ (.send _) => if ns ≠ [] then some (.talking fd ns) else none
  | _, _ => none

theorem Phase.next_greet {sid : Sid} {fd : Fd} {text : List UInt8} :
    Phase.next .fresh (.reply sid fd none FTP_GREET text) = some (.talking fd []) := rfl

theorem Phase.next_refuse {sid : Sid} {fd : Fd} {text : List UInt8} :
    Phase.next .fresh (.reply sid fd none FTP_TOO_MANY_USERS text) = some .refused := rfl

theorem Phase.next_line {sid : Sid} {fd : Fd} {n : Nat} {ns : List Nat} (h : ∀ m ∈ ns, m < n) :
    Phase.next (.talking fd ns) (.line sid n) = some (.talking fd (n :: ns)) := if_pos h

/-! ## whose connection -/

/-- the session whose client is at the other end -/
def Desc.client : Desc → Option Sid
  | .ctrl sid => some sid
  | .data sid => some sid
  | _ => none

/-- what the entry goes over, if the descriptor is open; `sendfile` takes it from the record -/
def Act.over (s : Server) : Act → Option Desc
  | .line sid _ => (s.heap sid).bind fun x => s.fds.get x.ctrlFd
  | .reply _ fd _ _ _ => s.fds.get fd
  | .lreply _ fd _ _ _ => s.fds.get fd
  | .raw _ fd _ => s.fds.get fd
  | .data _ fd _ => fd.bind s.fds.get
  | .fs sid (.send _) => (s.heap sid).bind fun x => x.dataFd.bind s.fds.get
  | _ => none

/-- a new connection has its descriptor when it is greeted -/
def Label.opened (s : Server) : Label → Server
  | .acceptOne _ => beginConn s
  | _ => s

/-- what a step exchanges with the client of the session, over whatever connection of it -/
def exchanged (s : Server) (l : Label) (s' : Server) (sid : Sid) : List Act :=
  (s'.log.drop s.log.length).filter fun a => ((a.over (l.opened s)).bind Desc.client) = some sid

/-- the server, and what has been exchanged with each client -/
abbrev wired (c : Conf) : Runs.System (Server × (Sid → List Act)) Label := (sys c).recorded exchanged

/-- Where the descriptors of the record are open, they are the session's own: its control connection is there, and
`data_fd` and `pasv_listen_fd` name no other connection of a client. -/
def Session.Apart (s : Server) (sid : Sid) (x : Session) : Prop :=
  s.fds.get x.ctrlFd = some (.ctrl sid) ∧
  (∀ d ∈ x.dataFd.bind s.fds.get, d.client ≠ none → d = .data sid) ∧
  ∀ d ∈ x.pasvListenFd.bind s.fds.get, d.client = none

instance (s : Server) (sid : Sid) (x : Session) : Decidable (x.Apart s sid) :=
  inferInstanceAs (Decidable (_ ∧ (∀ d ∈ _, _) ∧ ∀ d ∈ _, _))

/-- a session acts with descriptors of its own -/
def Apart (c : Conf) (s : Server) (l : Label) : Prop := ∀ sid ∈ actor c s l, ∀ x ∈ s.heap sid, x.Apart s sid

instance (c : Conf) (s : Server) (l : Label) : Decidable (Apart c s l) :=
  inferInstanceAs (Decidable (∀ sid ∈ _, ∀ x ∈ _, _))

abbrev Wired (c : Conf) (C : Server → Label → Prop) (s : Server) (w : Sid → List Act) : Prop :=
  Runs.Reach (wired c) (fun p => C p.1) (s, w)

section
variable {P : Speech → Prop} {c : Conf} {C : Server → Label → Prop} {sid j : Sid} {fd : Fd} {n : Nat} {ns : List Nat}
  {x : Session} {s s' t : Server} {l : Label} {a : Act} {as bs : List Act} {w : Sid → List Act}

theorem exchanged_eq (h : s'.log = s.log ++ as) :
    exchanged s l s' j = as.filter fun a => ((a.over (l.opened s)).bind Desc.client) = some j := by
  unfold exchanged
  rw [h, List.drop_left]

theorem exchanged_none (h : s'.log = s.log ++ as) (hn : ∀ a ∈ as, (a.over (l.opened s)).bind Desc.client ≠ some j) :
    exchanged s l s' j = [] := by
  rw [exchanged_eq h]
  exact List.filter_eq_nil_iff.mpr fun a ha e => hn a ha (of_decide_eq_true e)

theorem exchanged_one (h : s'.log = s.log ++ [a]) (ha : (a.over (l.opened s)).bind Desc.client = some sid) :
    exchanged s l s' j = if j = sid then [a] else [] := by
  rw [exchanged_eq h]
  by_cases hj : j = sid
  · rw [if_pos hj]
    exact List.filter_cons_of_pos (decide_eq_true (ha.trans (congrArg some hj.symm)))
  · rw [if_neg hj]
    exact List.filter_cons_of_neg fun e => hj (Option.some.inj (ha.symm.trans (of_decide_eq_true e))).symm

/-! ## what is said belongs to the session that acts -/

/-- an entry in answer to line `n` of the session -/
def Act.Answers (sid : Sid) (x : Session) (n : Option Nat) : Act → Prop
  | .line _ _ => False
  | .reply i g m _ _ => i = sid ∧ g = x.ctrlFd ∧ m = n
  | .lreply i g m _ _ => i = sid ∧ g = x.ctrlFd ∧ m = n
  | .raw i g _ => i = sid ∧ g = x.ctrlFd
  | .data i g _ => i = sid ∧ g = x.dataFd
  | .fs i _ => i = sid
  | _ => True

theorem act_answers {v : Write} {n : Option Nat} : (v.act sid x n).Answers sid x n := by
  cases v with
  | raw text => exact ⟨rfl, rfl⟩
  | reply code text => exact ⟨rfl, rfl, rfl⟩

theorem Uttered.answers {n : Option Nat} (h : Uttered P sid x n as) : ∀ a ∈ as, a.Answers sid x n := by
  obtain ⟨us, h2, -, h4⟩ := h
  intro a ha
  cases hc : a.spoken with
  | false =>
    have haside := h4 a ha hc
    cases a with
    | line _ _ => exact haside
    | reply _ _ _ _ _ => cases hc
    | lreply _ _ _ _ _ => cases hc
    | raw _ _ _ => cases hc
    | data _ _ _ => exact haside
    | fs _ _ => exact haside
    | _ => trivial
  | true =>
    have hm : a ∈ us.flatMap (Speech.acts sid x.ctrlFd n) := by
      rw [← h2]
      exact List.mem_filter.mpr ⟨ha, hc⟩
    obtain ⟨u, -, hu⟩ := List.mem_flatMap.mp hm
    cases u with
    | one code text =>
      rw [List.mem_singleton.mp hu]
      exact ⟨rfl, rfl, rfl⟩
    | many code first mid last =>
      rcases List.mem_append.mp hu with hu | hu
      · rcases List.mem_cons.mp hu with rfl | hu
        · exact ⟨rfl, rfl, rfl⟩
        · obtain ⟨l, -, rfl⟩ := List.mem_map.mp hu
          exact ⟨rfl, rfl⟩
      · rw [List.mem_singleton.mp hu]
        exact ⟨rfl, rfl, rfl⟩

/-- what a session says with descriptors of its own, its own client gets -/
theorem answers_client {n : Option Nat} (hap : x.Apart s sid) (hx : s.heap sid = some x) (h : a.Answers sid x n)
    (hj : (a.over s).bind Desc.client = some j) : j = sid := by
  have hctrl : ∀ {g}, g = x.ctrlFd → (s.fds.get g).bind Desc.client = some j → j = sid := by
    rintro g rfl hg
    rw [hap.1] at hg
    exact (Option.some.inj hg).symm
  have hdata : (x.dataFd.bind s.fds.get).bind Desc.client = some j → j = sid := by
    intro hg
    obtain ⟨d, hd, hc⟩ := Option.bind_eq_some_iff.mp hg
    have hown := hap.2.1 d hd (by rw [hc]; exact nofun)
    rw [hown] at hc
    exact (Option.some.inj hc).symm
  cases a with
  | line _ _ => exact absurd h id
  | reply _ _ _ _ _ => exact hctrl h.2.1 hj
  | lreply _ _ _ _ _ => exact hctrl h.2.1 hj
  | raw _ _ _ => exact hctrl h.2 hj
  | data _ _ _ =>
    obtain ⟨rfl, rfl⟩ := h
    exact hdata hj
  | fs i op =>
    cases op with
    | send k =>
      cases h
      have hover : Act.over s (.fs sid (.send k)) = x.dataFd.bind s.fds.get := by
        show (s.heap sid).bind _ = _
        rw [hx]
        rfl
      rw [hover] at hj
      exact hdata hj
    | _ => cases hj
  | _ => cases hj

theorem line_client (hap : x.Apart s sid) (hx : s.heap sid = some x) :
    ((Act.line sid n).over s).bind Desc.client = some sid := by
  show ((s.heap sid).bind _).bind _ = _
  rw [hx, Option.bind_some, hap.1]
  rfl

theorem silent_over (h : a.peer = none) : a.over s = none := by
  cases a with
  | fs i op =>
    cases op with
    | send k => cases h
    | _ => rfl
  | line _ _ => cases h
  | reply _ _ _ _ _ => cases h
  | lreply _ _ _ _ _ => cases h
  | raw _ _ _ => cases h
  | data _ _ _ => cases h
  | _ => rfl

theorem Silent.exchanged (h : Silent s s') : exchanged s l s' j = [] := by
  obtain ⟨as, h1, h2⟩ := h
  refine exchanged_none h1 fun a ha e => ?_
  rw [silent_over (h2 a ha)] at e
  cases e

theorem first_client {m : Option Nat} {code : Nat} {text : List UInt8} :
    ((Act.reply s.nextSid s.fds.lowest m code text).over (beginConn s)).bind Desc.client = some s.nextSid := by
  show ((s.fds.alloc (.ctrl s.nextSid)).get s.fds.lowest).bind _ = _
  rw [Slots.alloc_get, if_pos rfl]
  rfl

theorem actor_command {env : Env} {evs : List Event} (hm : s.main = .command sid evs) :
    actor c s (.command env) = some sid := by
  show s.main.serves = _
  rw [hm]
  rfl

theorem actor_thread {env : TEnv} {tid : Tid} {th : Thread} (hth : s.threads tid = some th) :
    actor c s (.thread tid env) = some th.sess := by
  show (s.threads tid).map _ = _
  rw [hth]
  rfl

/-- a step that is about a session that is there opens no connection -/
theorem opened_self (hn : s.ledger.Numbered) (h : actor c s l = some sid) (hx : s.heap sid = some x) :
    l.opened s = s := by
  cases l with
  | acceptOne conn =>
    rw [← Option.some.inj h, next_unused hn] at hx
    cases hx
  | _ => rfl

/-- **What a step exchanges**, all of it with the client of the session that the step is about, which is there or
is new. -/
theorem Voice.exchanged_with (h : Voice c s l s') (hn : s.ledger.Numbered) (hap : Apart c s l)
    (ha : a ∈ exchanged s l s' j) : actor c s l = some j ∧ ((∃ x, s.heap j = some x) ∨ j = s.nextSid) := by
  have hown : ∀ {sid x as m}, actor c s l = some sid → s.heap sid = some x → s'.log = s.log ++ as →
      (∀ a ∈ as, a.Answers sid x m) → actor c s l = some j ∧ ((∃ x, s.heap j = some x) ∨ j = s.nextSid) := by
    intro sid x as m hact hx hlog has
    rw [exchanged_eq hlog, opened_self hn hact hx] at ha
    obtain ⟨hm, hc⟩ := List.mem_filter.mp ha
    rw [answers_client (hap sid hact x hx) hx (has a hm) (of_decide_eq_true hc)]
    exact ⟨hact, Or.inl ⟨x, hx⟩⟩
  have hnew : ∀ {conn code text}, l = .acceptOne conn →
      s'.log = s.log ++ [.reply s.nextSid s.fds.lowest none code text] →
      actor c s l = some j ∧ ((∃ x, s.heap j = some x) ∨ j = s.nextSid) := by
    rintro conn code text rfl hlog
    rw [exchanged_one (l := .acceptOne conn) hlog first_client] at ha
    split at ha
    · rename_i hj
      exact ⟨congrArg some hj.symm, Or.inr hj⟩
    · cases ha
  cases h with
  | quiet h _ =>
    rw [h.exchanged] at ha
    cases ha
  | @line sid x evs hact hx hlog _ _ _ _ =>
    have hover : ((Act.line sid (s.cmdNo + 1)).over (l.opened s)).bind Desc.client = some sid := by
      rw [opened_self hn hact hx]
      exact line_client (hap sid hact x hx) hx
    rw [exchanged_one hlog hover] at ha
    split at ha
    · rename_i hj
      exact ⟨hj ▸ hact, Or.inl ⟨x, hj ▸ hx⟩⟩
    · cases ha
  | greeted hl hlog _ _ _ => exact hnew hl hlog
  | refused hl _ hlog _ _ _ => exact hnew hl hlog
  | command hl hm hx hs _ _ _ _ =>
    obtain ⟨as, hlog, has⟩ := hs
    exact hown (hl ▸ actor_command hm) hx hlog fun a h => has.answers a (List.mem_append_left _ h)
  | @further sid as hact _ _ hlog hw hx _ _ _ _ =>
    have hne : as ≠ [] := by
      rintro rfl
      rw [exchanged_eq hlog] at ha
      cases ha
    obtain ⟨b, hb⟩ := List.exists_mem_of_ne_nil _ hne
    obtain ⟨x, hx⟩ := hx b hb
    refine hown (m := some s.cmdNo) hact hx hlog fun a h => ?_
    have hmem : a ∈ s.main.writes.map fun w => w.act sid x (some s.cmdNo) := by
      rw [hw x hx]
      exact List.mem_append_left _ h
    obtain ⟨v, -, rfl⟩ := List.mem_map.mp hmem
    exact act_answers
  | thread hact _ hs _ _ _ _ _ =>
    rcases hs with ⟨x, as, hx, hlog, has⟩ | hs
    · exact hown hact hx hlog has.answers
    · rw [hs.exchanged] at ha
      cases ha

/-! ## the protocol -/

/-- the conversation stands there, and in its state line `n` can be answered -/
def Phase.Heard (p : Phase) (n : Nat) : Prop := ∃ fd ns, p = .talking fd ns ∧ n ∈ ns

/-- the state of the server and that of the conversation -/
structure Along (s : Server) (sid : Sid) (p : Phase) : Prop where
  fresh : s.nextSid ≤ sid ↔ p = .fresh
  live : ∀ x, s.heap sid = some x → ∃ ns, p = .talking x.ctrlFd ns
  lines : ∀ fd ns, p = .talking fd ns → ∀ n ∈ ns, n ≤ s.cmdNo
  hand : s.main.serves = some sid → p.Heard s.cmdNo
  busy : ∀ tid th, s.threads tid = some th → th.sess = sid → p.Heard th.cmd

theorem answers_next (h : a.Answers sid x (some n)) (hn : n ∈ ns) (hj : (a.over s).bind Desc.client = some j) :
    Phase.next (.talking x.ctrlFd ns) a = some (.talking x.ctrlFd ns) := by
  have hne : ns ≠ [] := List.ne_nil_of_mem hn
  cases a with
  | line _ _ => exact absurd h id
  | reply _ _ _ _ _ =>
    obtain ⟨rfl, rfl, rfl⟩ := h
    exact if_pos ⟨rfl, hn⟩
  | lreply _ _ _ _ _ =>
    obtain ⟨rfl, rfl, rfl⟩ := h
    exact if_pos ⟨rfl, hn⟩
  | raw _ _ _ => exact if_pos ⟨h.2, hne⟩
  | data _ _ _ => exact if_pos hne
  | fs i op =>
    cases op with
    | send k => exact if_pos hne
    | _ => cases hj
  | _ => cases hj

/-- a record that is there after a step which admits nobody was there before -/
theorem record_before (hn : s.ledger.Numbered) (hen : enabled s l) (he : exec c s l = .ok s')
    (hnext : s'.nextSid = s.nextSid) {y : Session} (hy : s'.heap j = some y) :
    ∃ x, s.heap j = some x ∧ x.ctrlFd = y.ctrlFd := by
  obtain ⟨op, ho⟩ := exec_step hen he
  have hlt : j < s'.nextSid := (ho.step.numbered hn).sess j _ (ledger_sess hy)
  rcases (ho.step.born (ledger_sess hy)).2 with ⟨z, hz, e⟩ | ⟨fd, -, e, -⟩
  · obtain ⟨x, hx, rfl⟩ := Option.map_eq_some_iff.mp hz
    exact ⟨x, hx, e⟩
  · rw [e, hnext] at hlt
    exact absurd hlt (lt_irrefl _)

namespace Along

variable {p q : Phase}

/-- a step that admits nobody, with an effect on the conversation that keeps its control socket and its lines -/
theorem step (h : Along s j p) (hn : s.ledger.Numbered) (hen : enabled s l) (he : exec c s l = .ok s')
    (hnext : s'.nextSid = s.nextSid) (hcmd : s.cmdNo ≤ s'.cmdNo)
    (hq : q = p ∨ ∃ fd ns, p = .talking fd ns ∧ q = .talking fd (s'.cmdNo :: ns))
    (hand : s'.main.serves = some j → q.Heard s'.cmdNo)
    (busy : ∀ tid th, s'.threads tid = some th → th.sess = j → p.Heard th.cmd) : Along s' j q := by
  refine ⟨?_, fun y hy => ?_, fun fd ns e n hm => ?_, hand, fun tid th hth hj => ?_⟩
  · rw [hnext, h.fresh]
    rcases hq with rfl | ⟨fd, ns, rfl, rfl⟩
    · rfl
    · exact iff_of_false nofun nofun
  · obtain ⟨x, hx, e⟩ := record_before hn hen he hnext hy
    obtain ⟨ns, rfl⟩ := h.live x hx
    rw [← e]
    rcases hq with rfl | ⟨fd, ms, e', rfl⟩
    · exact ⟨ns, rfl⟩
    · cases e'
      exact ⟨_, rfl⟩
  · rcases hq with rfl | ⟨g, ms, rfl, rfl⟩
    · exact (h.lines fd ns e n hm).trans hcmd
    · cases e
      rcases List.mem_cons.mp hm with rfl | hm
      · exact le_refl _
      · exact (h.lines _ _ rfl n hm).trans hcmd
  · obtain ⟨fd, ns, e, hm⟩ := busy tid th hth hj
    rcases hq with rfl | ⟨fd', ms, rfl, rfl⟩
    · exact ⟨fd, ns, e, hm⟩
    · cases e
      exact ⟨_, _, rfl, List.mem_cons_of_mem _ hm⟩

theorem connect (h : Along s j p) (hun : Unmoved s { s' with nextSid := s.nextSid }) (hnext : s'.nextSid = s.nextSid + 1)
    (hkeep : j ≠ s.nextSid → ∀ y, s'.heap j = some y → ∃ x, s.heap j = some x ∧ x.ctrlFd = y.ctrlFd)
    (hq : if j = s.nextSid then q ≠ .fresh ∧ (∀ y, s'.heap j = some y → q = .talking y.ctrlFd []) ∧
      ∀ fd ns, q = .talking fd ns → ns = [] else q = p) : Along s' j q := by
  have hmain : s'.main.serves = some j → s.main.serves = some j := fun e => by
    rw [← hun.main (fun e' => absurd (e'.symm.trans e) nofun)]
    exact e
  by_cases hj : j = s.nextSid
  · rw [if_pos hj] at hq
    have hp : p = .fresh := h.fresh.mp hj.ge
    have hnone : ∀ n, ¬ p.Heard n := by
      rintro n ⟨fd, ns, e, -⟩
      rw [hp] at e
      cases e
    have hlt : ¬ s'.nextSid ≤ j := by
      rw [hnext, hj]
      exact Nat.not_succ_le_self _
    refine ⟨iff_of_false hlt hq.1, fun y hy => ⟨[], hq.2.1 y hy⟩, fun fd ns e n hm => ?_, fun e => ?_,
      fun tid th hth hs => ?_⟩
    · rw [hq.2.2 fd ns e] at hm
      cases hm
    · exact absurd (h.hand (hmain e)) (hnone _)
    · exact absurd (h.busy tid th (by rw [← hun.threads]; exact hth) hs) (hnone _)
  · rw [if_neg hj] at hq
    subst hq
    refine ⟨?_, fun y hy => ?_, fun fd ns e n hm => ?_, fun e => ?_, fun tid th hth hs => ?_⟩
    · rw [← h.fresh, hnext]
      exact ⟨Nat.le_of_succ_le, fun hle => Nat.lt_of_le_of_ne hle (Ne.symm hj)⟩
    · obtain ⟨x, hx, e⟩ := hkeep hj y hy
      rw [← e]
      exact h.live x hx
    · exact (h.lines fd ns e n hm).trans hun.cmdNo.ge
    · rw [show s'.cmdNo = s.cmdNo from hun.cmdNo]
      exact h.hand (hmain e)
    · exact h.busy tid th (by rw [← hun.threads]; exact hth) hs

end Along

theorem connect_keeps (hen : enabled s l) (he : exec c s l = .ok s') (hj : j ≠ s.nextSid)
    {y : Session} (hy : s'.heap j = some y) : ∃ x, s.heap j = some x ∧ x.ctrlFd = y.ctrlFd := by
  obtain ⟨op, ho⟩ := exec_step hen he
  rcases (ho.step.born (ledger_sess hy)).2 with ⟨z, hz, e⟩ | ⟨fd, -, e, -⟩
  · obtain ⟨x, hx, rfl⟩ := Option.map_eq_some_iff.mp hz
    exact ⟨x, hx, e⟩
  · exact absurd e hj

theorem replies_run {p : Phase} (hap : x.Apart s sid) (hx : s.heap sid = some x) (hopen : l.opened s = s)
    (hlog : s'.log = s.log ++ as) (h : ∀ a ∈ as, a.Answers sid x (some n))
    (hj : j = sid → ∃ ns, p = .talking x.ctrlFd ns ∧ n ∈ ns) :
    Runs.monitor Phase.next p (exchanged s l s' j) = some p := by
  rw [exchanged_eq hlog, hopen]
  refine Runs.monitor_stay fun a ha => ?_
  obtain ⟨hm, hc⟩ := List.mem_filter.mp ha
  have hto := of_decide_eq_true hc
  obtain ⟨ns, rfl, hns⟩ := hj (answers_client hap hx (h a hm) hto)
  exact answers_next (h a hm) hns hto

theorem leaves_serves {evs : List Event} {m : Main} (h : (Main.events evs).Leaves sid m) (hj : m.serves = some j) :
    j = sid := by
  cases h with
  | returned => cases hj
  | writes ws => exact (Option.some.inj hj).symm
  | listens text => exact (Option.some.inj hj).symm

/-- **A step** goes on with every conversation. -/
theorem conversation_step {p : Phase} (h : Along s j p) (hn : s.ledger.Numbered) (hap : Apart c s l)
    (hen : enabled s l) (he : exec c s l = .ok s') :
    ∃ q, Runs.monitor Phase.next p (exchanged s l s' j) = some q ∧ Along s' j q := by
  have hheard : ∀ {sid x m}, s.heap sid = some x → (j = sid → p.Heard m) →
      j = sid → ∃ ns, p = .talking x.ctrlFd ns ∧ m ∈ ns := by
    rintro sid x m hx hp rfl
    obtain ⟨fd, ns, rfl, hm⟩ := hp rfl
    obtain ⟨ms, e⟩ := h.live x hx
    cases e
    exact ⟨ns, rfl, hm⟩
  cases exec_voice hen he with
  | quiet hs hun =>
    refine ⟨p, by rw [hs.exchanged]; rfl, h.step hn hen he hun.nextSid hun.cmdNo.ge (Or.inl rfl) (fun e => ?_)
      fun tid th hth => h.busy tid th (by rw [← hun.threads]; exact hth)⟩
    rw [hun.cmdNo]
    exact h.hand (by rw [← hun.main (by rw [e]; exact nofun)]; exact e)
  | @line sid x evs hact hx hlog hno hnext hthr hmain =>
    have hbusy : ∀ tid th, s'.threads tid = some th → th.sess = j → p.Heard th.cmd := fun tid th hth =>
      h.busy tid th (by rw [← hthr]; exact hth)
    have hover : ((Act.line sid (s.cmdNo + 1)).over (l.opened s)).bind Desc.client = some sid := by
      rw [opened_self hn hact hx]
      exact line_client (hap sid hact x hx) hx
    rw [exchanged_one hlog hover]
    by_cases hj : j = sid
    · subst hj
      obtain ⟨ns, rfl⟩ := h.live x hx
      have hall : ∀ m ∈ ns, m < s.cmdNo + 1 := fun m hm => Nat.lt_succ_of_le (h.lines _ _ rfl m hm)
      rw [if_pos rfl]
      refine ⟨_, Runs.monitor_one.trans (Phase.next_line hall), h.step hn hen he hnext (by omega)
        (Or.inr ⟨_, ns, rfl, by rw [hno]⟩) (fun _ => ⟨_, _, rfl, by rw [hno]; exact List.mem_cons_self⟩) hbusy⟩
    · rw [if_neg hj]
      refine ⟨p, rfl, h.step hn hen he hnext (by omega) (Or.inl rfl) (fun e => ?_) hbusy⟩
      rw [hmain] at e
      exact absurd (Option.some.inj e).symm hj
  | @greeted conn hl hlog hy hun hnext =>
    subst hl
    obtain ⟨y, hy, hfd⟩ := hy
    rw [exchanged_one (l := .acceptOne conn) hlog first_client]
    by_cases hj : j = s.nextSid
    · have hp : p = .fresh := h.fresh.mp hj.ge
      subst hp
      rw [if_pos hj]
      refine ⟨_, Runs.monitor_one.trans Phase.next_greet, h.connect hun hnext (fun hne => absurd hj hne) ?_⟩
      rw [if_pos hj]
      refine ⟨nofun, fun z hz => ?_, fun fd ns e => (Phase.talking.inj e).2.symm⟩
      rw [hj, hy] at hz
      cases hz
      rw [hfd]
    · rw [if_neg hj]
      exact ⟨p, rfl, h.connect hun hnext (fun hne y => connect_keeps hen he hne) (by rw [if_neg hj])⟩
  | @refused conn text hl _ hlog hy hun hnext =>
    subst hl
    rw [exchanged_one (l := .acceptOne conn) hlog first_client]
    by_cases hj : j = s.nextSid
    · have hp : p = .fresh := h.fresh.mp hj.ge
      subst hp
      rw [if_pos hj]
      refine ⟨_, Runs.monitor_one.trans Phase.next_refuse, h.connect hun hnext (fun hne => absurd hj hne) ?_⟩
      rw [if_pos hj]
      refine ⟨nofun, fun z hz => ?_, nofun⟩
      rw [hj, hy] at hz
      cases hz
    · rw [if_neg hj]
      exact ⟨p, rfl, h.connect hun hnext (fun hne y => connect_keeps hen he hne) (by rw [if_neg hj])⟩
  | @command env sid x evs hl hm hx hs hno hnext hmain hthr =>
    obtain ⟨as, hlog, has⟩ := hs
    have hact : actor c s l = some sid := by rw [hl]; exact actor_command hm
    have hhand : j = sid → p.Heard s.cmdNo := fun e => h.hand (by rw [hm, e]; rfl)
    refine ⟨p, replies_run (hap sid hact x hx) hx (opened_self hn hact hx) hlog
      (fun a ha => has.answers a (List.mem_append_left _ ha)) (hheard hx hhand),
      h.step hn hen he hnext hno.ge (Or.inl rfl) (fun e => ?_) fun tid th hth hj => ?_⟩
    · rw [hno]
      exact hhand (leaves_serves hmain e)
    · rcases hthr with e | ⟨k, e⟩
      · exact h.busy tid th (by rw [← e]; exact hth) hj
      · rw [e, Function.update_apply] at hth
        split at hth
        · cases hth
          exact hhand hj.symm
        · exact h.busy tid th hth hj
  | @further sid as hact hi hi' hlog hw hex hheap hno hnext hthr =>
    have hstep : Along s' j p := by
      refine h.step hn hen he hnext hno.ge (Or.inl rfl) (fun e => ?_) fun tid th hth =>
        h.busy tid th (by rw [← hthr]; exact hth)
      rw [hno]
      rcases hi' with hi' | ⟨evs, hi'⟩
      · rw [serves_inside hi'] at e
        exact h.hand (by rw [← e]; exact serves_inside hi)
      · rw [hi'] at e
        cases e
    cases as with
    | nil =>
      refine ⟨p, ?_, hstep⟩
      rw [exchanged_eq hlog]
      rfl
    | cons b bs =>
      obtain ⟨x, hx⟩ := hex b List.mem_cons_self
      refine ⟨p, replies_run (hap sid hact x hx) hx (opened_self hn hact hx) hlog (fun a ha => ?_)
        (hheard hx fun e => h.hand (by rw [e]; exact serves_inside hi)), hstep⟩
      have hmem : a ∈ s.main.writes.map fun w => w.act sid x (some s.cmdNo) := by
        rw [hw x hx]
        exact List.mem_append_left _ ha
      obtain ⟨v, -, rfl⟩ := List.mem_map.mp hmem
      exact act_answers
  | @thread tid th o hact hth hs hno hnext hmain hthr ho =>
    have hbusy : ∀ i u, s'.threads i = some u → u.sess = j → p.Heard u.cmd := by
      intro i u hu hj
      rw [hthr, Function.update_apply] at hu
      split at hu
      · obtain ⟨h1, h2⟩ := ho u hu
        rw [h2]
        exact h.busy tid th hth (h1.symm.trans hj)
      · exact h.busy i u hu hj
    have hstep : Along s' j p := h.step hn hen he hnext hno.ge (Or.inl rfl)
      (fun e => by rw [hno]; exact h.hand (by rw [← hmain]; exact e)) hbusy
    rcases hs with ⟨x, as, hx, hlog, has⟩ | hs
    · exact ⟨p, replies_run (hap _ hact x hx) hx (opened_self hn hact hx) hlog has.answers
        (hheard hx fun e => h.busy tid th hth e.symm), hstep⟩
    · exact ⟨p, by rw [hs.exchanged]; rfl, hstep⟩

/-- **Every client is served by the protocol**, in every state of every run in which the sessions act with descriptors
of their own: what is exchanged with it is first the greeting, or a refusal and nothing more, then lines, answers to
lines that have come and, once a line has come, data. -/
theorem exchanges_follow_protocol (h : Wired c (Apart c) s w) (sid : Sid) :
    ∃ p, Runs.monitor Phase.next .fresh (w sid) = some p ∧ (s.nextSid ≤ sid ↔ p = .fresh) ∧
      ∀ x, s.heap sid = some x → ∃ ns, p = .talking x.ctrlFd ns ∧ ∀ n ∈ ns, n ≤ s.cmdNo := by
  obtain ⟨p, hp, hal⟩ := h.monitored (f := fun p => p.2 sid) (R := fun p q => Along p.1 sid q)
    (J := fun p => p.1.ledger.Numbered) (q := .fresh) (fun p hp => numbered_reach (hp.forget fun _ _ h => h)) (by
    rintro ⟨s, w⟩ ⟨⟨fds, -, rfl⟩, rfl⟩
    exact ⟨rfl, iff_of_true (Nat.zero_le _) rfl, nofun, nofun, nofun, nofun⟩) (by
    rintro ⟨s, w⟩ l ⟨s', w'⟩ p hn hal hap ⟨⟨hen, he⟩, hw⟩
    obtain ⟨q, hq, hal'⟩ := conversation_step hal hn hap hen he
    exact ⟨_, q, congrFun hw sid, hq, hal'⟩)
  refine ⟨p, hp, hal.fresh, fun x hx => ?_⟩
  obtain ⟨ns, e⟩ := hal.live x hx
  exact ⟨ns, e, hal.lines _ ns e⟩

/-- two lines and their answers -/
theorem exchanges_follow_noop : ∃ (s : Server) (w : Sid → List Act), (s.heap 0).isSome ∧ s.cmdNo = 2 ∧
    ∃ p, Runs.monitor Phase.next .fresh (w 0) = some p ∧ (s.nextSid ≤ 0 ↔ p = .fresh) ∧
      ∀ x, s.heap 0 = some x → ∃ ns, p = .talking x.ctrlFd ns ∧ ∀ n ∈ ns, n ≤ s.cmdNo := by
  obtain ⟨s, hs, hp⟩ := reach_of_play (p := fun s => (s.heap 0).isSome && decide (s.cmdNo = 2))
    (sampleReach (Apart sampleConf))
    (show (play sampleConf (Apart sampleConf) sampleBoot (connects ++ sends 5 "NOOP" ++ sends 5 "X")).any _ = true by
      decide +kernel)
  obtain ⟨h1, h2⟩ := Bool.and_eq_true_iff.mp hp
  obtain ⟨w, hw⟩ := hs.record (fun _ => []) fun w s l s' i => w i ++ exchanged s l s' i
  exact ⟨s, w, h1, of_decide_eq_true h2, exchanges_follow_protocol hw 0⟩

/-! ## sessions that have ended -/

/-- **Nothing is exchanged with the client of a session that has ended**, in a run in which the sessions act with
descriptors of their own, and the session does not come back. -/
theorem ended_silent {v : Sid → List Act} (hr : Reach c C s) (hlt : sid < s.nextSid) (hx : s.heap sid = none)
    (hp : Runs.Path (wired c) (fun p => Apart c p.1) (s, w) (t, v)) : t.heap sid = none ∧ v sid = w sid := by
  have hinv : t.ledger.Numbered ∧ sid < t.nextSid ∧ t.heap sid = none ∧ v sid = w sid := by
    refine hp.inv (I := fun p => p.1.ledger.Numbered ∧ sid < p.1.nextSid ∧ p.1.heap sid = none ∧ p.2 sid = w sid) ?_
      ⟨numbered_reach hr, hlt, hx, rfl⟩
    rintro ⟨t, u⟩ l ⟨t', u'⟩ ⟨hn, h1, h2, h3⟩ hap ⟨⟨hen, he⟩, hu⟩
    obtain ⟨op, ho⟩ := exec_step hen he
    refine ⟨ho.step.numbered hn, lt_of_lt_of_le h1 ho.step.nextSid_le, heap_stays_none hn hen he h1 h2, ?_⟩
    have hnone : exchanged t l t' sid = [] := List.eq_nil_iff_forall_not_mem.mpr fun a ha => by
      rcases ((exec_voice hen he).exchanged_with hn hap ha).2 with ⟨x, hx⟩ | e
      · exact absurd (h2.symm.trans hx) nofun
      · exact absurd h1 (by rw [e]; exact lt_irrefl _)
    have hgrow : u' sid = u sid ++ exchanged t l t' sid := congrFun hu sid
    rw [hnone, List.append_nil] at hgrow
    exact hgrow.trans h3
  exact hinv.2.2

/-- the first session quits, and another one says NOOP -/
theorem ended_silent_quit : ∃ (s t : Server) (w v : Sid → List Act), s.log ≠ t.log ∧ t.heap 0 = none ∧ v 0 = w 0 := by
  obtain ⟨s, hs, hp⟩ := reach_of_play (p := fun s => decide (0 < s.nextSid ∧ s.heap 0 = none) &&
      (play sampleConf (Apart sampleConf) s (connects ++ sends 5 "NOOP")).any fun t : Server => decide (s.log ≠ t.log))
    (sampleReach Runs.Any)
    (show (play sampleConf Runs.Any sampleBoot (connects ++ sends 5 "QUIT")).any _ = true by decide +kernel)
  obtain ⟨h1, h2⟩ := Bool.and_eq_true_iff.mp hp
  obtain ⟨t, ht, hlog⟩ := (Option.any_eq_true _ _).mp h2
  obtain ⟨v, hv⟩ := (play_trail ht).path.record (fun _ => []) (fun w s l s' i => w i ++ exchanged s l s' i) fun _ => []
  exact ⟨s, t, _, v, of_decide_eq_true hlog, ended_silent hs (of_decide_eq_true h1).1 (of_decide_eq_true h1).2 hv⟩

/-! ## the steps of the others -/

/-- the calls of the file system for the session -/
def deeds (sid : Sid) (log : List Act) : List Act := log.filter fun a => a.touches = some sid

/-- the file system is touched for the session that the step is about -/
theorem exec_touches (hen : enabled s l) (he : exec c s l = .ok s') :
    Adds (fun a => ∀ j, a.touches = some j → actor c s l = some j) s s' := by
  rcases exec_cases hen he with ⟨-, ht⟩ | ⟨env, sid, evs, rfl, hm, he⟩ | ⟨tid, env, th, rfl, hth, he⟩
  · exact ht.log.mono fun a ha j hj => absurd (ha.1.symm.trans hj) nofun
  · rw [actor_command hm]
    obtain ⟨x, hx, ⟨-, code, text, -, rfl⟩ | ⟨h, -, hr⟩⟩ := handleCmd_cases he
    · exact Adds.emit rfl nofun
    · obtain ⟨o, as, hd, hp⟩ := runCmd_did hx hr
      exact ⟨as, hd.log, fun a ha j hj => congrArg some ((hp.entries a ha).touch j hj).1.symm⟩
  · rw [actor_thread hth]
    obtain ⟨o, hr⟩ := thread_ran hth he
    exact hr.log.mono fun a ha j hj => congrArg some (ha.touch j hj).1.symm

theorem other_deeds (hen : enabled s l) (he : exec c s l = .ok s') (ha : actor c s l ≠ some j) :
    deeds j s'.log = deeds j s.log := by
  obtain ⟨as, h1, h2⟩ := exec_touches hen he
  have hnone : deeds j as = [] := List.filter_eq_nil_iff.mpr fun a hm hc => ha (h2 a hm j (of_decide_eq_true hc))
  show List.filter _ s'.log = _
  rw [h1, List.filter_append]
  exact (congrArg _ hnone).trans (List.append_nil _)

theorem other_exchanged (hn : s.ledger.Numbered) (hen : enabled s l) (he : exec c s l = .ok s') (hap : Apart c s l)
    (ha : actor c s l ≠ some j) : exchanged s l s' j = [] :=
  List.eq_nil_iff_forall_not_mem.mpr fun _ hm => ha ((exec_voice hen he).exchanged_with hn hap hm).1

theorem actor_dispatch {now : Int} {env : Env} {ev : Event} {evs : List Event} (hm : s.main = .events (ev :: evs)) :
    actor c s (.dispatch now env) = (s.sessinfo ev.fd).sess := by
  unfold actor
  simp only [hm]

theorem readsFrom_sess {now : Int} {env : Env} {ev : Event} {evs : List Event} {p : FdType × Sid}
    (hm : s.main = .events (ev :: evs)) (h : readsFrom c s (.dispatch now env) = some p) :
    (s.sessinfo ev.fd).sess = some p.2 := by
  unfold readsFrom at h
  simp only [hm] at h
  split at h
  · rename_i f sid hi
    split at h
    · cases h
      rw [hi]
    · cases h
  · cases h

theorem reads_from {p : Sid × List UInt8 × List UInt8} (h : reads c s l = some p) :
    readsFrom c s l = some (.ctrl, p.1) := by
  unfold reads at h
  split at h
  · rename_i sid hr
    rw [hr]
    obtain ⟨x, -, h⟩ := Option.bind_eq_some_iff.mp h
    split at h
    · obtain ⟨q, -, rfl⟩ := Option.map_eq_some_iff.mp h
      rfl
    · cases h
  · cases h

theorem accepts_from (h : accepts c s l = some j) : ∃ type, readsFrom c s l = some (type, j) := by
  unfold accepts at h
  split at h
  · rename_i type sid now env hr
    split at h
    · cases h
      exact ⟨type, hr⟩
    · cases h
  · cases h

theorem eventEnds_sess {ev : Event} (h : eventEnds c s ev = some j) : (s.sessinfo ev.fd).sess = some j := by
  unfold eventEnds at h
  split at h
  · rename_i f sid hi
    rw [hi]
    split at h
    · cases h
    · split at h
      · split at h
        · cases h
        · split at h
          · split at h
            · exact h
            · cases h
          · cases h
      · split at h
        · cases h
        · split at h
          · exact h
          · cases h
  · cases h

/-- the record of a session after a step that is about another one -/
theorem other_heap (hn : s.ledger.Numbered) (hen : enabled s l) (he : exec c s l = .ok s')
    (ha : actor c s l ≠ some j) : s'.heap j = s.heap j := by
  have hkeep : ends c s l ≠ some j → (j = s.nextSid → admits c s l = none) →
      (∀ x, rewritten c s l j x = x) → s'.heap j = s.heap j := by
    intro h1 h2 h3
    rw [exec_heap hn hen he]
    unfold heapAfter
    rw [if_neg h1]
    split
    · rename_i hj
      rw [h2 hj, hj, next_unused hn]
      rfl
    · rw [show rewritten c s l j = id from funext h3, Option.map_id]
      rfl
  cases l with
  | dispatch now env =>
    obtain ⟨ev, evs, hm⟩ := hen
    rw [actor_dispatch hm] at ha
    refine hkeep (fun e => ha (eventEnds_sess (ends_dispatch hm ▸ e))) (fun _ => rfl) fun x => ?_
    unfold rewritten
    dsimp only
    cases hr : reads c s (.dispatch now env) with
    | none => exact if_neg fun e => ha (readsFrom_sess hm (accepts_from e).choose_spec)
    | some p => exact if_neg fun e => ha (readsFrom_sess hm (e ▸ reads_from hr))
  | command env =>
    obtain ⟨sid, evs, hm⟩ := hen
    rw [actor_command hm] at ha
    have hj : ∀ p, handles s (.command env) = some p → j ≠ p.1 := fun p hp e =>
      ha (by rw [e, handles_sid hm hp])
    refine hkeep (fun e => ?_) (fun _ => rfl) fun x => ?_
    · unfold ends at e
      dsimp only at e
      split at e
      · rename_i sid x hh
        cases e
        exact hj _ hh rfl
      · cases e
    · unfold rewritten
      dsimp only
      split
      · rename_i hh
        exact if_neg (hj _ hh)
      · rfl
  | thread tid env =>
    obtain ⟨th, hth⟩ := Option.ne_none_iff_exists'.mp hen
    rw [actor_thread hth] at ha
    refine hkeep nofun (fun _ => rfl) fun x => ?_
    unfold rewritten
    simp only [hth]
    exact if_neg fun e => ha (by rw [e])
  | acceptOne conn => exact hkeep nofun (fun e => absurd (congrArg some e.symm) ha) fun _ => rfl
  | evictOne now => exact hkeep ha (fun _ => rfl) fun _ => rfl
  | _ => exact hkeep nofun (fun _ => rfl) fun _ => rfl

theorem other_threads (hn : s.ledger.Numbered) (hen : enabled s l) (he : exec c s l = .ok s')
    (ha : actor c s l ≠ some j) {tid : Tid} {th : Thread} (hj : th.sess = j) :
    s'.threads tid = some th ↔ s.threads tid = some th := by
  cases exec_voice hen he with
  | quiet _ hun => rw [hun.threads]
  | line _ _ _ _ _ hthr _ => rw [hthr]
  | greeted _ _ _ hun _ => rw [← hun.threads]
  | refused _ _ _ _ hun _ => rw [← hun.threads]
  | further _ _ _ _ _ _ _ _ _ hthr => rw [hthr]
  | @command env sid x evs hl hm _ _ _ _ _ hthr =>
    rw [hl, actor_command hm] at ha
    rcases hthr with e | ⟨k, e⟩
    · rw [e]
    · rw [e, Function.update_apply]
      split
      · rename_i ht
        constructor
        · intro h
          cases h
          exact absurd (congrArg some hj) ha
        · intro h
          exact absurd (hn.worker tid _ (ledger_worker h)) (by rw [ht]; exact lt_irrefl _)
      · rfl
  | @thread t u o hact ht _ _ _ _ hthr ho =>
    rw [hact] at ha
    rw [hthr, Function.update_apply]
    split
    · rename_i e
      subst e
      constructor
      · intro h
        exact absurd (congrArg some ((ho th h).1.symm.trans hj)) ha
      · intro h
        cases ht.symm.trans h
        exact absurd (congrArg some hj) ha
    · rfl

/-- **A session is touched by its own steps only**: in a run without them, in which the other sessions act with
descriptors of their own, its record and its transfers stay as they are, nothing is exchanged with its client, and the
file system is not used for it. -/
theorem touched_by_own_steps {v : Sid → List Act} (hr : Reach c C s)
    (hp : Runs.Path (wired c) (fun p l => actor c p.1 l ≠ some sid ∧ Apart c p.1 l) (s, w) (t, v)) :
    t.heap sid = s.heap sid ∧ v sid = w sid ∧ deeds sid t.log = deeds sid s.log ∧
      ∀ tid th, th.sess = sid → (t.threads tid = some th ↔ s.threads tid = some th) := by
  have hinv : t.ledger.Numbered ∧ t.heap sid = s.heap sid ∧ v sid = w sid ∧ deeds sid t.log = deeds sid s.log ∧
      ∀ tid th, th.sess = sid → (t.threads tid = some th ↔ s.threads tid = some th) := by
    refine hp.inv (I := fun p => p.1.ledger.Numbered ∧ p.1.heap sid = s.heap sid ∧ p.2 sid = w sid ∧
      deeds sid p.1.log = deeds sid s.log ∧
      ∀ tid th, th.sess = sid → (p.1.threads tid = some th ↔ s.threads tid = some th)) ?_
      ⟨numbered_reach hr, rfl, rfl, rfl, fun _ _ _ => Iff.rfl⟩
    rintro ⟨t, u⟩ l ⟨t', u'⟩ ⟨hn, h1, h2, h3, h4⟩ ⟨ha, hap⟩ ⟨⟨hen, he⟩, hu⟩
    obtain ⟨op, ho⟩ := exec_step hen he
    have hgrow : u' sid = u sid ++ exchanged t l t' sid := congrFun hu sid
    rw [other_exchanged hn hen he hap ha, List.append_nil] at hgrow
    exact ⟨ho.step.numbered hn, (other_heap hn hen he ha).trans h1, hgrow.trans h2, (other_deeds hen he ha).trans h3,
      fun tid th hs => (other_threads hn hen he ha hs).trans (h4 tid th hs)⟩
  exact hinv.2

/-- a second client connects and says NOOP -/
theorem touched_by_own_noop : ∃ (s t : Server) (w v : Sid → List Act), s.log ≠ t.log ∧ (s.heap 0).isSome = true ∧
    t.heap 0 = s.heap 0 ∧ v 0 = w 0 ∧ deeds 0 t.log = deeds 0 s.log ∧
    ∀ tid th, th.sess = 0 → (t.threads tid = some th ↔ s.threads tid = some th) := by
  obtain ⟨s, hs, hp⟩ := reach_of_play (p := fun s => (s.heap 0).isSome &&
      (play sampleConf (fun s l => actor sampleConf s l ≠ some 0 ∧ Apart sampleConf s l) s
        (connects ++ sends 6 "NOOP")).any fun t : Server => decide (s.log ≠ t.log)) (sampleReach Runs.Any)
    (show (play sampleConf Runs.Any sampleBoot connects).any _ = true by decide +kernel)
  obtain ⟨h1, h2⟩ := Bool.and_eq_true_iff.mp hp
  obtain ⟨t, ht, hlog⟩ := (Option.any_eq_true _ _).mp h2
  obtain ⟨v, hv⟩ := (play_trail ht).path.record (fun _ => []) (fun w s l s' i => w i ++ exchanged s l s' i) fun _ => []
  exact ⟨s, t, _, v, of_decide_eq_true hlog, h1, touched_by_own_steps hs hv⟩

end

end Myftpd
