import Myftpd.Epoll
import Mathlib.Data.List.Infix

/-!
# What a client gets on its control connection

`ftp_reply`, `ftp_lreply` and the handlers that send several lines hand one buffer after the other to
`writen`, and none of them looks at what it returns.  The control socket does not block, so `writen` can
give up in the middle of a buffer.

* `writen`      one buffer, on a socket that answers in a given way;
* `writeAll`    all buffers;
* `Torn`        a buffer is given up, and bytes of a later one get through;
* `intact_iff`  the answers of the socket with which every sequence of replies arrives whole.
-/

namespace Myftpd
open CMem Server

/-- The loop of `writen(fd, buf, cnt)` on a socket that answers `write` as in the list: the bytes that get
through, and what is left of the answers when the call returns, `none` if it has not returned yet. -/
def writen : List UInt8 → List IoRes → List UInt8 × Option (List IoRes)
  | [], os => ([], some os)
  | _ :: _, [] => ([], none)
  | b :: bs, .ok n :: os =>
    let r := writen ((b :: bs).drop n) os
    ((b :: bs).take n ++ r.1, r.2)
  | b :: bs, .intr :: os => writen (b :: bs) os
  | _ :: _, .err :: os => ([], some os)

/-- the bytes that get through when the buffers are written one after the other -/
def writeAll : List (List UInt8) → List IoRes → List UInt8
  | [], _ => []
  | buf :: bufs, os =>
    let r := writen buf os
    r.1 ++ r.2.elim [] (writeAll bufs)

/-- `sprintf(buf,"%d %s\r\n",status,text)` -/
def replyText (code : Nat) (text : List UInt8) : List UInt8 := fmtDec code ++ ascii " " ++ text ++ [CR, LF]

/-- `sprintf(buf,"%d-%s\r\n",status,text)` -/
def lreplyText (code : Nat) (text : List UInt8) : List UInt8 := fmtDec code ++ ascii "-" ++ text ++ [CR, LF]

/-- the buffer that an entry of the log hands to `writen` for the control socket of the session -/
def Act.ctrlText (sid : Sid) : Act → Option (List UInt8)
  | .reply i _ _ code text => if i = sid then some (replyText code text) else none
  | .lreply i _ _ code text => if i = sid then some (lreplyText code text) else none
  | .raw i _ text => if i = sid then some text else none
  | _ => none

/-- the buffers for the session, in their order -/
def ctrlTexts (sid : Sid) (log : List Act) : List (List UInt8) := log.filterMap (Act.ctrlText sid)

/-- a call fails, other than with `EINTR`, and a later one gets bytes through -/
def Torn : List IoRes → Prop
  | [] => False
  | .err :: os => ∃ n, 0 < n ∧ .ok n ∈ os
  | _ :: os => Torn os

section
variable {bufs : List (List UInt8)} {os rs : List IoRes} {b : UInt8} {bs r : List UInt8} {n : Nat}

theorem writeAll_empty : writeAll ([] :: bufs) os = writeAll bufs os := by
  have h : writen [] os = ([], some os) := by cases os <;> rfl
  conv_lhs => unfold writeAll
  rw [h]
  rfl

theorem writeAll_ok : writeAll ((b :: bs) :: bufs) (.ok n :: os) =
    (b :: bs).take n ++ writeAll ((b :: bs).drop n :: bufs) os := by
  conv_lhs => unfold writeAll writen
  rw [List.append_assoc]
  rfl

theorem writeAll_intr : writeAll ((b :: bs) :: bufs) (.intr :: os) = writeAll ((b :: bs) :: bufs) os := by
  conv_lhs => unfold writeAll writen
  rfl

theorem writeAll_err : writeAll ((b :: bs) :: bufs) (.err :: os) = writeAll bufs os := by
  conv_lhs => unfold writeAll writen
  rfl

/-! ## when the replies arrive whole -/

theorem writeAll_none (h : ∀ n, .ok n ∈ os → n = 0) : writeAll bufs os = [] := by
  induction os generalizing bufs with
  | nil =>
    induction bufs with
    | nil => rfl
    | cons buf bufs ihb =>
      cases buf with
      | nil => rw [writeAll_empty, ihb]
      | cons b bs => rfl
  | cons o os ih =>
    have hos : ∀ n, .ok n ∈ os → n = 0 := fun n hn => h n (List.mem_cons_of_mem _ hn)
    induction bufs with
    | nil => rfl
    | cons buf bufs ihb =>
      cases buf with
      | nil => rw [writeAll_empty, ihb]
      | cons b bs =>
        cases o with
        | ok n =>
          obtain rfl := h n List.mem_cons_self
          rw [writeAll_ok, List.take_zero, List.drop_zero, List.nil_append, ih hos]
        | intr => rw [writeAll_intr, ih hos]
        | err => rw [writeAll_err, ih hos]

/-- what gets through is a prefix, unless a reply is torn -/
theorem writeAll_prefix (h : ¬ Torn os) : writeAll bufs os <+: bufs.flatten := by
  induction os generalizing bufs with
  | nil =>
    rw [writeAll_none (fun n hn => absurd hn List.not_mem_nil)]
    exact List.nil_prefix
  | cons o os ih =>
    induction bufs with
    | nil => exact List.prefix_rfl
    | cons buf bufs ihb =>
      cases buf with
      | nil =>
        rw [writeAll_empty]
        exact ihb
      | cons b bs =>
        cases o with
        | ok n =>
          have h1 : writeAll ((b :: bs).drop n :: bufs) os <+: (b :: bs).drop n ++ bufs.flatten := ih h
          have h2 : (b :: bs) ++ bufs.flatten = (b :: bs).take n ++ ((b :: bs).drop n ++ bufs.flatten) := by
            rw [← List.append_assoc, List.take_append_drop]
          rw [writeAll_ok, List.flatten_cons, h2]
          exact (List.prefix_append_right_inj _).mpr h1
        | intr =>
          rw [writeAll_intr]
          exact ih h
        | err =>
          have h1 : ∀ n, .ok n ∈ os → n = 0 := fun n hn => by
            by_contra h0
            exact h ⟨n, Nat.pos_of_ne_zero h0, hn⟩
          rw [writeAll_err, writeAll_none h1]
          exact List.nil_prefix

theorem Torn.of_prefix (h : Torn rs) (hp : rs <+: os) : Torn os := by
  induction rs generalizing os with
  | nil => exact h.elim
  | cons r rs ih =>
    obtain ⟨t, rfl⟩ := hp
    cases r with
    | ok n =>
      show Torn (rs ++ t)
      exact ih h (List.prefix_append rs t)
    | intr =>
      show Torn (rs ++ t)
      exact ih h (List.prefix_append rs t)
    | err =>
      obtain ⟨n, h0, hn⟩ := h
      exact ⟨n, h0, List.mem_append_left t hn⟩

/-! ## replies that are torn -/

/-- the answer to NOOP -/
def noopText : List UInt8 := replyText FTP_NOOPOK (ascii "NOOP ok.")

/-- the answer to an unknown command -/
def unknownText : List UInt8 := replyText FTP_BADCMD (ascii "Unknown command.")

theorem unknownText_eq : ∃ t, unknownText = 53 :: t := ⟨_, rfl⟩

/-- the first byte of an answer to an unknown command gets through, if there are answers enough -/
theorem writeAll_unknown {m : Nat} (h0 : 0 < n) (hn : .ok n ∈ os) (hm : os.length ≤ m) :
    ∃ t, writeAll (List.replicate m unknownText) os = 53 :: t := by
  obtain ⟨u, hu⟩ := unknownText_eq
  induction os generalizing m with
  | nil => cases hn
  | cons o os ih =>
    obtain ⟨m, rfl⟩ : ∃ k, m = k + 1 := ⟨m - 1, by rw [List.length_cons] at hm; omega⟩
    rw [List.length_cons] at hm
    have hin : o ≠ .ok n → .ok n ∈ os := fun hne => (List.mem_cons.mp hn).resolve_left fun e => hne e.symm
    rw [List.replicate_succ, hu]
    cases o with
    | ok k =>
      cases k with
      | zero =>
        obtain ⟨t, ht⟩ := ih (m := m + 1) (hin (by rintro ⟨⟩; omega)) (by omega)
        rw [List.replicate_succ, hu] at ht
        exact ⟨t, by rw [writeAll_ok, List.take_zero, List.drop_zero, List.nil_append, ht]⟩
      | succ k => exact ⟨_, by rw [writeAll_ok, List.take_succ_cons, List.cons_append]⟩
    | intr =>
      obtain ⟨t, ht⟩ := ih (m := m + 1) (hin (by rintro ⟨⟩)) (by omega)
      rw [List.replicate_succ, hu] at ht
      exact ⟨t, by rw [writeAll_intr, ht]⟩
    | err =>
      obtain ⟨t, ht⟩ := ih (m := m) (hin (by rintro ⟨⟩)) (by omega)
      rw [hu] at ht
      exact ⟨t, by rw [writeAll_err, ht]⟩

/-- after `r`, the rest of a reply, some answers to NOOP and to unknown commands do not arrive whole -/
theorem torn_breaks (h : Torn os) (hr : r ≠ []) (h5 : 53 ∉ r) : ∃ k m, ¬ writeAll (r ::
      (List.replicate k noopText ++ List.replicate m unknownText)) os <+:
    (r :: (List.replicate k noopText ++ List.replicate m unknownText)).flatten := by
  induction os generalizing r with
  | nil => exact h.elim
  | cons o os ih =>
    obtain ⟨b, bs, rfl⟩ := List.exists_cons_of_ne_nil hr
    cases o with
    | ok n =>
      have hsplit : ∀ l : List UInt8, (b :: bs) ++ l = (b :: bs).take n ++ ((b :: bs).drop n ++ l) :=
        fun l => by rw [← List.append_assoc, List.take_append_drop]
      by_cases hd : (b :: bs).drop n = []
      · obtain ⟨k, m, hkm⟩ := ih (r := noopText) h (by decide) (by decide)
        refine ⟨k + 1, m, fun hp => hkm ?_⟩
        rw [writeAll_ok, hd, writeAll_empty, List.flatten_cons, hsplit, hd, List.nil_append] at hp
        exact (List.prefix_append_right_inj _).mp hp
      · obtain ⟨k, m, hkm⟩ := ih (r := (b :: bs).drop n) h hd fun hm => h5 (List.mem_of_mem_drop hm)
        refine ⟨k, m, fun hp => hkm ?_⟩
        rw [writeAll_ok, List.flatten_cons, hsplit] at hp
        exact (List.prefix_append_right_inj _).mp hp
    | intr =>
      obtain ⟨k, m, hkm⟩ := ih h hr h5
      exact ⟨k, m, by rw [writeAll_intr]; exact hkm⟩
    | err =>
      obtain ⟨n, h0, hn⟩ := h
      obtain ⟨t, ht⟩ := writeAll_unknown h0 hn (Nat.le_refl os.length)
      refine ⟨0, os.length, fun hp => h5 ?_⟩
      rw [writeAll_err, List.replicate_zero, List.nil_append, ht] at hp
      obtain ⟨u, hu⟩ := hp
      cases (List.cons.inj hu).1
      exact List.mem_cons_self

end

/-- **The replies arrive whole**, whatever is sent and at whatever moment we look, exactly if no write on
the control socket fails, other than with `EINTR`, and is followed by one that gets bytes through. -/
theorem intact_iff (sid : Sid) (os : List IoRes) : (∀ log rs, rs <+: os →
    writeAll (ctrlTexts sid log) rs <+: (ctrlTexts sid log).flatten) ↔ ¬ Torn os := by
  refine ⟨fun h ht => ?_, fun h log rs hp => writeAll_prefix fun ht => h (ht.of_prefix hp)⟩
  obtain ⟨k, m, hkm⟩ := torn_breaks ht (r := noopText) (by decide) (by decide)
  let noop : Act := .reply sid 0 none FTP_NOOPOK (ascii "NOOP ok.")
  let unknown : Act := .reply sid 0 none FTP_BADCMD (ascii "Unknown command.")
  have hlog : ctrlTexts sid (noop :: (List.replicate k noop ++ List.replicate m unknown)) =
      noopText :: (List.replicate k noopText ++ List.replicate m unknownText) := by
    have h1 : noop.ctrlText sid = some noopText := if_pos rfl
    have h2 : unknown.ctrlText sid = some unknownText := if_pos rfl
    unfold ctrlTexts
    rw [List.filterMap_cons_some h1, List.filterMap_append, List.filterMap_replicate_of_some h1,
      List.filterMap_replicate_of_some h2]
  apply hkm
  rw [← hlog]
  exact h _ os List.prefix_rfl

/-- The client does not read; the socket takes three bytes of the answer to NOOP, is full, and has room
again when the next line is answered. -/
theorem torn_reply : ¬ ∀ c s sid os, Reach c Runs.Any s →
    writeAll (ctrlTexts sid s.log) os <+: (ctrlTexts sid s.log).flatten := by
  intro h
  obtain ⟨s, hs, hp⟩ := reach_of_play
    (p := fun s => !decide (writeAll (ctrlTexts 0 s.log) [.ok 18, .ok 3, .err, .ok 22] <+:
      (ctrlTexts 0 s.log).flatten))
    (sampleReach Runs.Any)
    (show (play sampleConf Runs.Any sampleBoot (connects ++ sends 5 "NOOP" ++ sends 5 "X")).any _ = true by
      decide +kernel)
  exact of_decide_eq_false ((Bool.not_eq_true' _).mp hp) (h _ s 0 _ hs)

end Myftpd
