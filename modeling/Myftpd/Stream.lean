import Myftpd.Epoll
import Mathlib.Data.List.DropRight

/-!
# Control lines across arrivals

`Ctl` is one control connection: the bytes that arrived and were not read, the lines that were
dispatched, and how it goes on.  `epollfd` reports edges, so an arrival is answered by one call of
`processCtrlRead`, and that call reads one line (`Ctl.step`); what the handler makes of the line is
left open (`Arrival.ends`).

* `dispatch_ctrl`      the event of a control socket does to the server what `Ctl.step` does here;
* `Ctl.run_conserves`  dispatched lines and unread bytes are the bytes that arrived;
* `cut_lines_iff`      the arrivals that keep and complete lines cut across them;
* `pipelined_iff`      the arrivals of whole lines that are all served.
-/

namespace Myftpd
open CMem

/-- How the connection goes on: `ended` by a handler, `lost` by `readline` (the process exits, or the
session is closed). -/
inductive Life where
  | opened | ended | lost
  deriving DecidableEq, Repr

structure Ctl where
  unread : List UInt8
  lines : List (List UInt8)
  life : Life
  deriving DecidableEq, Repr

/-- bytes that arrive together, and whether the handler of the line read then ends the session -/
structure Arrival where
  bytes : List UInt8
  ends : Bool
  deriving DecidableEq, Repr

namespace Ctl

def fresh : Ctl := ⟨[], [], .opened⟩

/-- an arrival, and the one call of `processCtrlRead` for it -/
def step (st : Ctl) (a : Arrival) : Ctl :=
  match st.life with
  | .opened =>
    let q := st.unread ++ a.bytes
    match ctrlRead ⟨q, false, []⟩ with
    | .ok (some (_, k)) =>
      { unread := k.queue
        lines := st.lines ++ [q.take (q.length - k.queue.length)]
        life := if a.ends then .ended else .opened }
    | _ => { st with unread := [], life := .lost }
  | _ => st

def run (st : Ctl) (as : List Arrival) : Ctl := as.foldl step st

/-- `P` holds at every arrival of a run, as long as the connection is open -/
def Along (P : Ctl → Arrival → Prop) : Ctl → List Arrival → Prop
  | _, [] => True
  | st, a :: as => (st.life = .opened → P st a) ∧ Along P (st.step a) as

end Ctl

/-- the end of the bytes that no newline has closed yet -/
def partialLine (q : List UInt8) : List UInt8 := q.rtakeWhile (· != LF)

/-! ## the first line -/

theorem mem_of_hasLine {q : List UInt8} (h : HasLine q) : LF ∈ q :=
  List.mem_of_mem_take ((cstr_isPrefix _).subset h)

theorem lineLen_eq {q : List UInt8} (h : HasLine q) : lineLen q = q.idxOf LF + 1 := by
  obtain ⟨t, ht⟩ := (cstr_isPrefix (q.take MAX_COMMAND_LINE)).trans (List.take_prefix _ _)
  have hm : LF ∈ cstr (q.take MAX_COMMAND_LINE) := h
  unfold lineLen
  conv_rhs => rw [← ht, List.idxOf_append, if_pos hm]

theorem partialLine_append (a b : List UInt8) : partialLine (a ++ LF :: b) = partialLine b := by
  unfold partialLine List.rtakeWhile
  rw [List.reverse_append, List.reverse_cons, List.append_assoc, List.takeWhile_append]
  split
  · rename_i hl
    rw [(List.takeWhile_prefix _).eq_of_length hl]
    simp
  · rfl

theorem partialLine_suffix (q : List UInt8) : partialLine q <:+ q := List.rtakeWhile_suffix _ _

theorem partialLine_of_notMem {q : List UInt8} (h : LF ∉ q) : partialLine q = q := by
  unfold partialLine
  rw [List.rtakeWhile_eq_self_iff]
  intro c hc
  simpa using fun e : c = LF => h (e ▸ hc)

theorem split_line {q : List UInt8} (h : LF ∈ q) :
    q = q.take (q.idxOf LF) ++ LF :: q.drop (q.idxOf LF + 1) := by
  have hi := List.idxOf_lt_length_of_mem h
  conv_lhs => rw [← List.take_append_drop (q.idxOf LF) q, List.drop_eq_getElem_cons hi,
    List.getElem_idxOf hi]

/-! ## one arrival -/

namespace Ctl

variable {st : Ctl} {a : Arrival}

theorem step_of_ne (h : st.life ≠ .opened) : st.step a = st := by
  unfold step
  split
  · rename_i ho
    exact absurd ho h
  · rfl

/-- a line can be read: it is dispatched, and only it is taken -/
theorem step_found (ho : st.life = .opened) (h : HasLine (st.unread ++ a.bytes)) :
    st.step a = ⟨(st.unread ++ a.bytes).drop (lineLen (st.unread ++ a.bytes)),
      st.lines ++ [(st.unread ++ a.bytes).take (lineLen (st.unread ++ a.bytes))],
      if a.ends then .ended else .opened⟩ := by
  have hl := h.lineLen_le_length
  unfold step
  rw [ho]
  simp only [ctrlRead_found h]
  rw [List.length_drop, Nat.sub_sub_self hl]

/-- no line can be read: the process exits or the session is closed -/
theorem step_lost (ho : st.life = .opened) (h : ¬ HasLine (st.unread ++ a.bytes)) :
    st.step a = ⟨[], st.lines, .lost⟩ := by
  unfold step
  rw [ho]
  by_cases hd : (st.unread ++ a.bytes).drop MAX_COMMAND_LINE = []
  · simp only [ctrlRead_exit h hd]
  · simp only [ctrlRead_close false h (fun hc => hd hc.1)]

theorem run_of_ne (h : st.life ≠ .opened) (as : List Arrival) : st.run as = st := by
  induction as with
  | nil => rfl
  | cons a as ih =>
    show (st.step a).run as = st
    rw [step_of_ne h, ih]

theorem run_cons (st : Ctl) (a : Arrival) (as : List Arrival) :
    st.run (a :: as) = (st.step a).run as := rfl

/-- **Nothing is lost, repeated or reordered while the connection is open.** -/
theorem run_conserves (st : Ctl) (as : List Arrival) (h : (st.run as).life = .opened) :
    (st.run as).lines.flatten ++ (st.run as).unread
      = st.lines.flatten ++ st.unread ++ (as.map Arrival.bytes).flatten := by
  induction as generalizing st with
  | nil => simp [run]
  | cons a as ih =>
    rw [run_cons] at h ⊢
    have ho : st.life = .opened := by
      by_contra hn
      rw [step_of_ne hn, run_of_ne hn] at h
      exact hn h
    by_cases hl : HasLine (st.unread ++ a.bytes)
    · rw [ih _ h, step_found ho hl]
      simp only [List.flatten_append, List.append_assoc, List.map_cons, List.flatten_cons,
        List.flatten_nil, List.nil_append]
      rw [← List.append_assoc (List.take _ _), List.take_append_drop, List.append_assoc]
    · rw [step_lost ho hl, run_of_ne (by simp)] at h
      cases h

theorem along_congr {P Q : Ctl → Arrival → Prop}
    (h : ∀ st a, st.life = .opened → (P st a ↔ Q st a)) (st : Ctl) (as : List Arrival) :
    Along P st as ↔ Along Q st as := by
  induction as generalizing st with
  | nil => exact Iff.rfl
  | cons a as ih => exact and_congr (imp_congr_right fun ho => h st a ho) (ih _)

end Ctl

/-! ## the server and one of its connections -/

/-- **The event of a control socket** does to the server what `Ctl.step` does to the connection: when
no line can be read the process exits or the session is closed, otherwise a command is left to handle
(or the parser has overrun its buffers). -/
theorem dispatch_ctrl {c : Conf} {env : Env} {now : Int} {ev : Event} {evs : List Event} {s : Server}
    {sid : Sid} {x : Session} {st : Ctl} {a : Arrival}
    (hi : s.sessinfo ev.fd = ⟨some ⟨.ctrl, x.ctrlFd⟩, some sid⟩) (hx : s.heap sid = some x)
    (hl : x.ctrlFd ≠ c.listenfd) (hb : x.ctrlFd < MAX_SESSIONS) (hin : ev.epollin = true)
    (ho : st.life = .opened) (hk : s.sock x.ctrlFd = ⟨st.unread ++ a.bytes, false, []⟩) :
    (st.step a).life = .lost ∧ (dispatch c env now ev evs s = .error (.exit .readline) ∨
        ∃ s', dispatch c env now ev evs s = .ok s' ∧ s'.heap sid = none) ∨
    (st.step a).life ≠ .lost ∧ (dispatch c env now ev evs s = .error (.crash .overlap) ∨
        ∃ s', dispatch c env now ev evs s = .ok s' ∧ s'.main = .command sid evs ∧
          s'.sock x.ctrlFd = ⟨(st.step a).unread, false, []⟩) := by
  rw [dispatch_read hi hl hb hin]
  show _ ∧ (processCtrlRead sid evs _ = _ ∨ ∃ s', processCtrlRead sid evs _ = _ ∧ _) ∨
    _ ∧ (processCtrlRead sid evs _ = _ ∨ ∃ s', processCtrlRead sid evs _ = _ ∧ _)
  unfold processCtrlRead
  simp only [Server.goto, hx, hk]
  by_cases h : HasLine (st.unread ++ a.bytes)
  · right
    refine ⟨?_, ?_⟩
    · rw [Ctl.step_found ho h]
      show (if a.ends then Life.ended else .opened) ≠ .lost
      split <;> decide
    · rw [Ctl.step_found ho h]
      simp only [ctrlRead_found h]
      rcases hp : parseCmdline (peeked (st.unread ++ a.bytes)) with _ | ⟨cmd, arg⟩
      · exact Or.inl rfl
      · exact Or.inr ⟨_, rfl, rfl, Function.update_self ..⟩
  · left
    rw [Ctl.step_lost ho h]
    refine ⟨rfl, ?_⟩
    by_cases he : (st.unread ++ a.bytes).drop MAX_COMMAND_LINE = []
    · rw [ctrlRead_exit h he]
      exact Or.inl rfl
    · rw [ctrlRead_close false h (fun hc => he hc.1)]
      refine Or.inr ⟨_, Server.closeSess_eq hx hb, ?_⟩
      rw [Server.closed_heap]
      exact Function.update_self ..

/-! ## lines cut across arrivals -/

/-- What an arrival must not do to a line that is still incomplete behind it, and must do to the line
that it completes. -/
structure KeepsCut (st : Ctl) (a : Arrival) : Prop where
  alive : partialLine (st.unread ++ a.bytes) ≠ [] → (st.step a).life ≠ .lost
  kept : partialLine (st.unread ++ a.bytes) ≠ [] →
    partialLine (st.unread ++ a.bytes) <:+ (st.step a).unread
  served : partialLine st.unread ≠ [] → LF ∈ a.bytes →
    (st.step a).lines
        = st.lines ++ [partialLine st.unread ++ a.bytes.take (a.bytes.idxOf LF + 1)] ∧
      (st.step a).unread = a.bytes.drop (a.bytes.idxOf LF + 1)

/-- Where an arrival leaves an incomplete line there is also a complete one to read, and where it
completes a line that line is the first. -/
structure CutReadable (st : Ctl) (a : Arrival) : Prop where
  open_ : partialLine (st.unread ++ a.bytes) ≠ [] → HasLine (st.unread ++ a.bytes)
  closed : partialLine st.unread ≠ [] → LF ∈ a.bytes →
    HasLine (st.unread ++ a.bytes) ∧ LF ∉ st.unread

theorem keepsCut_iff {st : Ctl} {a : Arrival} (ho : st.life = .opened) :
    KeepsCut st a ↔ CutReadable st a := by
  constructor
  · intro h
    refine ⟨fun hp => ?_, fun hp hb => ?_⟩
    · by_contra hl
      apply h.alive hp
      rw [Ctl.step_lost ho hl]
    · obtain ⟨h1, h2⟩ := h.served hp hb
      have hl : HasLine (st.unread ++ a.bytes) := by
        by_contra hl
        rw [Ctl.step_lost ho hl] at h1
        have := congrArg List.length h1
        simp at this
      refine ⟨hl, fun hm => ?_⟩
      rw [Ctl.step_found ho hl, lineLen_eq hl, List.idxOf_append, if_pos hm] at h2
      have h3 := congrArg List.length h2
      have h4 := List.idxOf_lt_length_of_mem hm
      have h5 := List.idxOf_lt_length_of_mem hb
      simp only [List.length_drop, List.length_append] at h3
      omega
  · intro h
    refine ⟨fun hp => ?_, fun hp => ?_, fun hp hb => ?_⟩
    · rw [Ctl.step_found ho (h.open_ hp)]
      show (if a.ends then Life.ended else .opened) ≠ .lost
      split <;> decide
    · have hl := h.open_ hp
      have hm := mem_of_hasLine hl
      rw [Ctl.step_found ho hl, lineLen_eq hl]
      conv_lhs => rw [split_line hm, partialLine_append]
      exact partialLine_suffix _
    · obtain ⟨hl, hn⟩ := h.closed hp hb
      rw [Ctl.step_found ho hl, lineLen_eq hl, List.idxOf_append, if_neg hn,
        show a.bytes.idxOf LF + st.unread.length + 1 = st.unread.length + (a.bytes.idxOf LF + 1) by
          omega, List.take_length_add_append, List.drop_length_add_append,
        partialLine_of_notMem hn]
      exact ⟨rfl, rfl⟩

/-- every arrival of a run respects cut lines, and the lines are dispatched once, whole and in
order -/
def CutSafe (as : List Arrival) : Prop :=
  Ctl.Along KeepsCut Ctl.fresh as ∧
    ∀ pre, pre <+: as → (Ctl.fresh.run pre).life = .opened →
      (Ctl.fresh.run pre).lines.flatten ++ (Ctl.fresh.run pre).unread
        = (pre.map Arrival.bytes).flatten

/-- **A run respects the lines cut across its arrivals exactly when every arrival leaves a line to
read**, and completes only the line that is read next. -/
theorem cut_lines_iff (as : List Arrival) :
    CutSafe as ↔ Ctl.Along CutReadable Ctl.fresh as := by
  unfold CutSafe
  rw [Ctl.along_congr (fun st a ho => keepsCut_iff ho)]
  apply and_iff_left
  intro pre _ ho
  rw [Ctl.run_conserves _ _ ho]
  rfl

/-- `NOO` alone, before the rest of the line -/
theorem cut_lines_exit : ¬ ∀ as, CutSafe as := by
  intro h
  have h1 := (h [⟨ascii "NOO", false⟩]).1.1 rfl
  exact h1.alive (by decide) (by decide)

/-! ## whole lines, several to an arrival -/

/-- a complete command line -/
structure CmdLine where
  body : List UInt8
  noLf : LF ∉ body

def CmdLine.bytes (l : CmdLine) : List UInt8 := l.body ++ [LF]

/-- lines that arrive together -/
structure Batch where
  first : CmdLine
  others : List CmdLine
  ends : Bool

namespace Batch

def lines (b : Batch) : List (List UInt8) := (b.first :: b.others).map CmdLine.bytes

def arrival (b : Batch) : Arrival := ⟨b.lines.flatten, b.ends⟩

end Batch

/-- after the event of every arrival no complete line is left unread in an open connection, and every
line was dispatched once and in order -/
def AllServed (st : Ctl) (bs : List Batch) : Prop :=
  ∀ pre, pre <+: bs →
    (st.run (pre.map Batch.arrival)).life ≠ .lost ∧
    ((st.run (pre.map Batch.arrival)).life = .opened →
      LF ∉ (st.run (pre.map Batch.arrival)).unread ∧
      (st.run (pre.map Batch.arrival)).lines = st.lines ++ (pre.map Batch.lines).flatten)

/-- Every arrival, up to one whose first line ends the session, is a single line; `readline` can see
the newline of every line that is read. -/
def OneEach : List Batch → Prop
  | [] => True
  | b :: bs => HasLine b.arrival.bytes ∧ (b.ends = true ∨ b.others = [] ∧ OneEach bs)

theorem allServed_cons (st : Ctl) (b : Batch) (bs : List Batch) (ho : st.life = .opened)
    (hu : LF ∉ st.unread) :
    AllServed st (b :: bs) ↔ ∀ pre, pre <+: bs →
      ((st.step b.arrival).run (pre.map Batch.arrival)).life ≠ .lost ∧
      (((st.step b.arrival).run (pre.map Batch.arrival)).life = .opened →
        LF ∉ ((st.step b.arrival).run (pre.map Batch.arrival)).unread ∧
        ((st.step b.arrival).run (pre.map Batch.arrival)).lines
          = st.lines ++ (b.lines ++ (pre.map Batch.lines).flatten)) := by
  constructor
  · intro h pre hp
    exact h (b :: pre) (List.cons_prefix_cons.mpr ⟨rfl, hp⟩)
  · intro h pre hp
    rcases List.prefix_cons_iff.mp hp with rfl | ⟨t, rfl, ht⟩
    · refine ⟨?_, fun _ => ⟨hu, (List.append_nil _).symm⟩⟩
      show st.life ≠ .lost
      rw [ho]; decide
    · exact h t ht

theorem Batch.idxOf_lf (b : Batch) : b.arrival.bytes.idxOf LF = b.first.body.length := by
  show ((b.first.body ++ [LF]) ++ (b.others.map CmdLine.bytes).flatten).idxOf LF = _
  rw [List.append_assoc, List.idxOf_append, if_neg b.first.noLf, List.singleton_append,
    List.idxOf_cons_self, Nat.zero_add]

theorem step_batch {st : Ctl} {b : Batch} (ho : st.life = .opened) (hu : st.unread = [])
    (h : HasLine b.arrival.bytes) :
    st.step b.arrival = ⟨(b.others.map CmdLine.bytes).flatten, st.lines ++ [b.first.bytes],
      if b.ends then .ended else .opened⟩ := by
  have hq : st.unread ++ b.arrival.bytes = b.arrival.bytes := by rw [hu, List.nil_append]
  have hl : lineLen b.arrival.bytes = b.first.bytes.length := by
    rw [lineLen_eq h, b.idxOf_lf]
    show _ = (b.first.body ++ [LF]).length
    rw [List.length_append, List.length_singleton]
  have hb : b.arrival.bytes = b.first.bytes ++ (b.others.map CmdLine.bytes).flatten := rfl
  rw [Ctl.step_found ho (hq.symm ▸ h), hq, hl, hb, List.drop_left, List.take_left]
  rfl

theorem flatten_lines_eq_nil {ls : List CmdLine} (h : LF ∉ (ls.map CmdLine.bytes).flatten) :
    ls = [] := by
  cases ls with
  | nil => rfl
  | cons l ls =>
    have hm : LF ∈ l.bytes := List.mem_append_right _ (List.mem_singleton.mpr rfl)
    exact absurd (List.mem_append_left _ hm) h

theorem allServed_iff (st : Ctl) (bs : List Batch) (ho : st.life = .opened) (hu : st.unread = []) :
    AllServed st bs ↔ OneEach bs := by
  induction bs generalizing st with
  | nil =>
    refine iff_of_true (fun pre hp => ?_) trivial
    rw [List.prefix_nil.mp hp]
    show st.life ≠ .lost ∧ (st.life = .opened → LF ∉ st.unread ∧ st.lines = st.lines ++ [])
    rw [ho, hu, List.append_nil]
    exact ⟨by decide, fun _ => ⟨List.not_mem_nil, rfl⟩⟩
  | cons b bs ih =>
    rw [allServed_cons st b bs ho (by rw [hu]; exact List.not_mem_nil)]
    by_cases hl : HasLine b.arrival.bytes
    · have hst := step_batch ho hu hl
      by_cases he : b.ends = true
      · -- the handler of the first line ends the session
        have hn : (st.step b.arrival).life = .ended := by rw [hst, he]; rfl
        refine iff_of_true (fun pre _ => ?_) ⟨hl, Or.inl he⟩
        rw [Ctl.run_of_ne (by rw [hn]; decide), hn]
        exact ⟨by decide, fun h => absurd h (by decide)⟩
      · have hn : (st.step b.arrival).life = .opened := by rw [hst]; exact if_neg he
        constructor
        · intro h
          have h0 := (h [] (List.nil_prefix)).2 hn
          have hone : b.others = [] := flatten_lines_eq_nil (by
            have := h0.1
            rwa [show (st.step b.arrival).run ([].map Batch.arrival) = st.step b.arrival from rfl,
              hst] at this)
          have hu' : (st.step b.arrival).unread = [] := by rw [hst, hone]; rfl
          refine ⟨hl, Or.inr ⟨hone, (ih _ hn hu').mp fun pre hp => ?_⟩⟩
          refine ⟨(h pre hp).1, fun h1 => ⟨((h pre hp).2 h1).1, ?_⟩⟩
          rw [((h pre hp).2 h1).2, hst, ← List.append_assoc]
          unfold Batch.lines
          rw [hone]
          rfl
        · rintro ⟨-, he' | ⟨hone, hrest⟩⟩
          · exact absurd he' he
          · have hu' : (st.step b.arrival).unread = [] := by rw [hst, hone]; rfl
            intro pre hp
            have h1 := (ih _ hn hu').mpr hrest pre hp
            refine ⟨h1.1, fun h2 => ⟨(h1.2 h2).1, ?_⟩⟩
            rw [(h1.2 h2).2, hst, ← List.append_assoc]
            unfold Batch.lines
            rw [hone]
            rfl
    · refine iff_of_false (fun h => ?_) (fun h => hl h.1)
      refine (h [] List.nil_prefix).1 ?_
      show (st.step b.arrival).life = .lost
      rw [Ctl.step_lost ho (by rwa [hu, List.nil_append])]

/-- **Every line of every arrival is served exactly when the lines arrive one at a time.** -/
theorem pipelined_iff (bs : List Batch) : AllServed Ctl.fresh bs ↔ OneEach bs :=
  allServed_iff Ctl.fresh bs rfl rfl

/-- `USER a` and `PASS b` in one segment: the second line stays unread -/
theorem pipelined_unread : ¬ ∀ bs, AllServed Ctl.fresh bs := by
  intro h
  have h1 := h [⟨⟨ascii "USER a\r", by decide⟩, [⟨ascii "PASS b\r", by decide⟩], false⟩] _
    (List.prefix_refl _)
  exact absurd (h1.2 (by decide)).1 (by decide)

end Myftpd
