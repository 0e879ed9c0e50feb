import Myftpd.Discipline
import Myftpd.Transfers

/-!
# Downloads

`threadRetr` sends what lies between the restart offset and the size that `fstat` has given, with as many calls of
`sendfile` as it takes.

* `Downloads`         the transfers of a regular file that does not change, from an offset that is accepted;
* `download_content`  what they send, and their answer;
* `opens_at_iff`      the offsets at which a transfer is opened when `lseek` succeeds.
-/

namespace Myftpd
open CMem Server

/-- The step does not disturb the download of a file of `size` bytes from the offset `k`: no call before the loop is
refused, `fstat` gives the size, and `sendfile` gives a positive count or -1. -/
def Downloads (tid : Tid) (k size : Nat) : Server × Tape → Label → Prop :=
  During tid fun env th x _ => (th.pc = .offset → x.restartPos = k) ∧ th.refused env x = false ∧
    (th.pc = .stat → env.fstat.2 = size) ∧ env.sendfile ≠ some 0

instance (tid : Tid) (k size : Nat) (p : Server × Tape) (l : Label) : Decidable (Downloads tid k size p l) :=
  inferInstanceAs (Decidable (During tid _ p l))

/-- all bytes behind the offset have been sent, or `sendfile` has failed and some of them have been sent -/
def Fetched (bs : List UInt8) (k : Nat) (g : Tape) (flag : Nat) : Prop :=
  g.calls ≤ bs.length ∧ (flag = 0 ∧ .sendFailed ∉ g.tale ∧ g.data = bs.drop k ∨
    flag = 2 ∧ .sendFailed ∈ g.tale ∧ g.data <+: bs.drop k)

/-- the answer to what has been fetched -/
def Delivered (bs : List UInt8) (k : Nat) (g : Tape) : Prop :=
  g.codes = [FTP_DATACONN, FTP_TRANSFEROK] ∧ Fetched bs k g 0 ∨
    g.codes = [FTP_DATACONN, FTP_BADSENDNET] ∧ Fetched bs k g 2

/-- the download in its loop: the position is behind what has been sent, and `left` is what remains -/
structure Sending (bs : List UInt8) (k : Nat) (left : Int) (g : Tape) : Prop where
  codes : g.codes = [FTP_DATACONN]
  ok : .sendFailed ∉ g.tale
  pos : g.file.pos = k + g.data.length
  data : g.data = (bs.drop k).take g.data.length
  eq : left = ((bs.length - k : Nat) : Int) - g.data.length
  calls : g.calls ≤ g.data.length

/-- the download from its start to its end -/
def Fetching (bs : List UInt8) (k : Nat) (o : Option Thread) (g : Tape) : Prop :=
  g.file.bytes = bs ∧ match o with
  | none => Delivered bs k g
  | some th => th.kind = .retr ∧ match th.pc with
    | .offset => g.Unused ∧ g.file.pos = 0
    | .clear => g.Unused ∧ g.file.pos = 0 ∧ th.offset = k
    | .open => g.Unused ∧ g.file.pos = 0 ∧ th.offset = k
    | .lock => g.Unused ∧ g.file.pos = 0 ∧ th.offset = k
    | .stat => g.Unused ∧ g.file.pos = 0 ∧ th.offset = k
    | .seek => g.Unused ∧ th.offset = k ∧ th.size = bs.length
    | .opening => g.Unused ∧ g.file.pos = k ∧ th.offset = k ∧ th.size = bs.length
    | .loop => Sending bs k th.left g
    | .trunc => False
    | .write _ => False
    | .checkAbor => Delivered bs k g
    | _ => g.codes = [FTP_DATACONN] ∧ Fetched bs k g th.flag

section
variable {c : Conf} {peer : Nat → UInt8} {env : TEnv} {tid : Tid} {th : Thread} {s : Server} {x : Session} {fd : Fd}
  {g : Tape} {q : Server × Tape} {bs : List UInt8} {k : Nat}

/-! ## before the loop -/

theorem fetching_enter (h : Fetching bs k (some th) g) (hs : th.pc.said = 0) (hr : th.refused env x = false)
    (hoff : th.pc = .offset → x.restartPos = k) (hsize : th.pc = .stat → env.fstat.2 = bs.length) :
    Fetching bs k (some (th.goes env x fd)) (g.turn peer (th.deeds env x)) := by
  obtain ⟨hb, hk, hst⟩ := h
  cases hpc : th.pc with
  | offset =>
    simp only [hpc] at hst
    rw [goes_offset hpc, deeds_enters (by rw [hpc]; rfl) hr]
    exact ⟨hb, hk, unused_quiet hst.1, hst.2, hoff hpc⟩
  | clear =>
    simp only [hpc] at hst
    rw [goes_clear hpc, deeds_enters (by rw [hpc]; rfl) hr]
    exact ⟨hb, hk, unused_quiet hst.1, hst.2⟩
  | «open» =>
    simp only [hpc] at hst
    rw [goes_open hpc, deeds_enters (by rw [hpc]; rfl) hr]
    exact ⟨hb, hk, unused_quiet hst.1, hst.2⟩
  | lock =>
    simp only [hpc] at hst
    have hgoes : th.goes env x fd = { th with pc := .stat } := by
      unfold Thread.goes
      simp only [hpc, hk]
    rw [hgoes, deeds_enters (by rw [hpc]; rfl) hr]
    exact ⟨hb, hk, unused_quiet hst.1, hst.2⟩
  | stat =>
    simp only [hpc] at hst
    obtain ⟨hun, hpos, hk0⟩ := hst
    have hgoes : th.goes env x fd =
        { th with size := bs.length, pc := if th.offset = 0 then .opening else .seek } := by
      unfold Thread.goes
      simp only [hpc, hk, hsize hpc]
    rw [hgoes, deeds_enters (by rw [hpc]; rfl) hr]
    refine ⟨hb, hk, ?_⟩
    by_cases h0 : th.offset = 0
    · simp only [if_pos h0]
      have hkz : k = 0 := by omega
      exact ⟨unused_quiet hun, hpos.trans hkz.symm, hk0, trivial⟩
    · simp only [if_neg h0]
      exact ⟨unused_quiet hun, hk0, trivial⟩
  | seek =>
    simp only [hpc] at hst
    obtain ⟨hun, hk0, hlen⟩ := hst
    have hgoes : th.goes env x fd = { th with pc := .opening } := by
      unfold Thread.goes
      simp only [hpc, hk]
    have hl : env.lseek = true := by
      unfold Thread.refused at hr
      simp only [hpc, hk, decide_eq_false_iff_not, not_or, Bool.not_eq_false] at hr
      exact hr.1
    have hdeeds : th.deeds env x = [.sought k] := by
      rw [deeds_silent (by rw [hpc]; rfl) hr]
      unfold Thread.calls
      simp only [hpc, hk, hl, if_true, hk0]
    rw [hgoes, hdeeds]
    refine ⟨hb, hk, unused_turn hun (fun d hd => ?_) rfl, rfl, hk0, hlen⟩
    cases List.mem_singleton.mp hd
    exact ⟨rfl, rfl⟩
  | opening =>
    simp only [hpc] at hst
    obtain ⟨hun, hpos, hk0, hlen⟩ := hst
    rw [goes_opening hpc, deeds_opening hpc]
    refine ⟨hb, hk, ?_, ?_, ?_, ?_, ?_, ?_⟩
    · rw [turn_codes, hun.codes]
      rfl
    · rw [turn_tale, List.mem_append]
      rintro (hm | hm)
      · exact hun.ok hm
      · cases List.mem_singleton.mp hm
    · show g.file.pos = k + g.data.length
      rw [hun.data]
      exact hpos
    · show g.data = (bs.drop k).take g.data.length
      rw [hun.data]
      rfl
    · show (if th.offset > th.size then 0 else th.size - th.offset) = ((bs.length - k : Nat) : Int) - g.data.length
      rw [hun.data, hk0, hlen]
      split
      · simp; omega
      · simp; omega
    · rw [turn_calls, hun.calls]
      exact Nat.zero_le _
  | trunc => simp only [hpc] at hst
  | _ => rw [hpc] at hs; cases hs

/-! ## the loop -/

theorem sends_le {n : Nat} (h : th.sends env x = some n) : n ≤ th.num := by
  unfold Thread.sends at h
  obtain ⟨fd, -, h⟩ := Option.bind_eq_some_iff.mp h
  obtain ⟨m, -, rfl⟩ := Option.map_eq_some_iff.mp h
  exact Nat.min_le_right _ _

theorem num_le : (th.num : Int) ≤ max th.left 0 := by
  unfold Thread.num
  split <;> omega

theorem sends_pos {n : Nat} (hl : 0 < th.left) (h0 : env.sendfile ≠ some 0) (h : th.sends env x = some n) :
    0 < n := by
  unfold Thread.sends at h
  obtain ⟨fd, -, h⟩ := Option.bind_eq_some_iff.mp h
  obtain ⟨m, hm, rfl⟩ := Option.map_eq_some_iff.mp h
  have hmpos : m ≠ 0 := fun e => h0 (by rw [hm, e])
  have hnum : 0 < th.num := by
    unfold Thread.num
    split <;> omega
  omega

theorem sending_sent {n : Nat} {left : Int} (h : Sending bs k left g) (hb : g.file.bytes = bs) (hn : 0 < n)
    (hle : (n : Int) ≤ left) : Sending bs k (left - n) (g.turn peer [.sent n]) := by
  have hleft := h.eq
  have hroom : g.file.pos + n ≤ g.file.bytes.length := by
    rw [hb, h.pos]
    omega
  have hlen : (g.turn peer [.sent n]).data.length = g.data.length + n := by
    show (g.data ++ g.file.slice n).length = _
    rw [List.length_append, ByteFile.slice_length hroom]
  refine ⟨?_, ?_, ?_, ?_, ?_, ?_⟩
  · rw [turn_codes, h.codes]
    rfl
  · rw [turn_tale, List.mem_append]
    rintro (hm | hm)
    · exact h.ok hm
    · cases List.mem_singleton.mp hm
  · rw [hlen, ← Nat.add_assoc, ← h.pos]
    rfl
  · rw [hlen, List.take_add, ← h.data]
    show g.data ++ (g.file.bytes.drop g.file.pos).take n = _
    rw [hb, h.pos, List.drop_drop]
  · rw [hlen]
    omega
  · rw [turn_calls, hlen]
    exact Nat.add_le_add h.calls hn

theorem fetching_loop (h : Fetching bs k (some th) g) (hpc : th.pc = .loop) (ha : x.aborReceived = false)
    (hn : env.sendfile ≠ some 0) : Fetching bs k (some (th.goes env x fd)) (g.turn peer (th.deeds env x)) := by
  obtain ⟨hb, hk, hst⟩ := h
  simp only [hpc] at hst
  have hdeeds : th.deeds env x = th.calls env x :=
    deeds_silent (by rw [hpc]; rfl) (refused_other (by rw [hpc]; rfl))
  have hshort : g.data.length ≤ bs.length - k := by
    rw [hst.data, List.length_take, List.length_drop]
    exact Nat.min_le_right _ _
  have hleft := hst.eq
  have hcalls := hst.calls
  rw [hdeeds]
  unfold Thread.goes Thread.calls
  simp only [hpc, hk]
  by_cases h0 : th.left = 0
  · rw [if_pos h0, if_pos h0]
    refine ⟨hb, rfl, ?_, ?_, Or.inl ⟨rfl, ?_, ?_⟩⟩
    · rw [turn_codes, hst.codes]
      rfl
    · rw [turn_calls]
      show g.calls ≤ bs.length
      omega
    · rw [turn_tale, List.append_nil]
      exact hst.ok
    · -- nothing is left
      show g.data = bs.drop k
      rw [hst.data]
      apply List.take_of_length_le
      rw [List.length_drop]
      omega
  rw [if_neg h0, if_neg h0]
  cases hs : th.sends env x with
  | none =>
    refine ⟨hb, rfl, ?_, ?_, Or.inr ⟨rfl, ?_, ?_⟩⟩
    · rw [turn_codes, hst.codes]
      rfl
    · rw [turn_calls]
      show g.calls + 1 ≤ bs.length
      omega
    · rw [turn_tale]
      exact List.mem_append_right _ (List.mem_singleton_self _)
    · show g.data <+: bs.drop k
      rw [hst.data]
      exact List.take_prefix _ _
  | some n =>
    simp only [ha, Bool.false_eq_true, if_false]
    have hle : (n : Int) ≤ th.left := by
      have h1 := sends_le hs
      have h2 : (th.num : Int) ≤ max th.left 0 := num_le
      omega
    have hpos : 0 < n := sends_pos (by omega) hn hs
    have hsent : Sending bs k (th.left - n) (g.turn peer [.sent n]) := sending_sent hst hb hpos hle
    exact ⟨hb, rfl, hsent⟩

/-! ## after the loop -/

theorem fetched_replies {flag : Nat} (h : Fetched bs k g flag) (codes : List Nat) :
    Fetched bs k (g.turn peer (codes.map .reply)) flag := by
  have hcalls : (g.turn peer (codes.map .reply)).calls = g.calls := by
    rw [turn_calls, replies_calls, Nat.add_zero]
  have hdata : (g.turn peer (codes.map .reply)).data = g.data := (foldl_replies codes).2.1
  unfold Fetched
  rw [replies_mem rfl, hcalls, hdata]
  exact h

theorem fetched_quiet {flag : Nat} (h : Fetched bs k g flag) : Fetched bs k (g.turn peer []) flag :=
  fetched_replies h []

theorem fetched_verdict (h : Fetched bs k g th.flag) (ha : x.aborReceived = false) :
    th.flag = 0 ∧ th.verdict x = some FTP_TRANSFEROK ∨ th.flag = 2 ∧ th.verdict x = some FTP_BADSENDNET := by
  unfold Thread.verdict
  rcases h.2 with ⟨hf, -⟩ | ⟨hf, -⟩
  · exact Or.inl ⟨hf, if_pos ⟨hf, ha⟩⟩
  · refine Or.inr ⟨hf, ?_⟩
    rw [hf]
    rfl

theorem delivered_quiet (h : Delivered bs k g) : Delivered bs k (g.turn peer []) := by
  unfold Delivered
  rw [turn_quiet.1]
  exact h.imp (fun h => ⟨h.1, fetched_quiet h.2⟩) fun h => ⟨h.1, fetched_quiet h.2⟩

theorem fetching_cleans {r : Pc} (h : Fetching bs k (some th) g) (hc : th.pc.cleans = some r) :
    Fetching bs k (some (th.goes env x fd)) (g.turn peer (th.deeds env x)) := by
  obtain ⟨hb, hk, hst⟩ := h
  obtain ⟨-, hgoes, hdeeds⟩ : th.refused env x = false ∧ th.goes env x fd = { th with pc := r } ∧ _ := cleans_step hc
  rw [hgoes, hdeeds]
  cases hpc : th.pc <;> rw [hpc] at hc <;> cases hc
  all_goals
    simp only [hpc] at hst
    exact ⟨hb, hk, turn_quiet.1.trans hst.1, fetched_quiet hst.2⟩

theorem fetching_final (h : Fetching bs k (some th) g) (hpc : th.pc = .final) (ha : x.aborReceived = false) :
    Fetching bs k (some (th.goes env x fd)) (g.turn peer (th.deeds env x)) := by
  obtain ⟨hb, hk, hst⟩ := h
  simp only [hpc] at hst
  obtain ⟨h150, hf⟩ := hst
  rw [goes_final hpc, deeds_final hpc]
  rcases fetched_verdict hf ha with ⟨h0, hv⟩ | ⟨h2, hv⟩
  · rw [hv]
    refine ⟨hb, hk, Or.inl ⟨?_, h0 ▸ fetched_replies hf _⟩⟩
    rw [turn_codes, h150]
    rfl
  · rw [hv]
    refine ⟨hb, hk, Or.inr ⟨?_, h2 ▸ fetched_replies hf _⟩⟩
    rw [turn_codes, h150]
    rfl

theorem fetching_step (h : Fetching bs k (some th) g) (ha : x.aborReceived = false)
    (hoff : th.pc = .offset → x.restartPos = k) (hr : th.refused env x = false)
    (hsize : th.pc = .stat → env.fstat.2 = bs.length) (hn : env.sendfile ≠ some 0) :
    Fetching bs k (th.after env x fd) (g.turn peer (th.deeds env x)) := by
  by_cases hdone : th.pc = .checkAbor
  · obtain ⟨hb, hk, hst⟩ := h
    simp only [hdone] at hst
    rw [after_done hdone, deeds_done hdone]
    exact ⟨hb, delivered_quiet hst⟩
  · rw [after_on hdone hr]
    by_cases hs : th.pc.said = 0
    · exact fetching_enter h hs hr hoff hsize
    cases hpc : th.pc with
    | loop => exact fetching_loop h hpc ha hn
    | final => exact fetching_final h hpc ha
    | checkAbor => exact absurd hpc hdone
    | write n =>
      obtain ⟨-, -, hst⟩ := h
      simp only [hpc] at hst
    | rmData => exact fetching_cleans h (r := .rmPasv) (by rw [hpc]; rfl)
    | rmPasv => exact fetching_cleans h (r := .setPasv) (by rw [hpc]; rfl)
    | setPasv => exact fetching_cleans h (r := .setData) (by rw [hpc]; rfl)
    | setData => exact fetching_cleans h (r := .closeFile) (by rw [hpc]; rfl)
    | closeFile => exact fetching_cleans h (r := .final) (by rw [hpc]; rfl)
    | _ => rw [hpc] at hs; exact absurd rfl hs

/-! ## a whole download -/

/-- the calls of the loop: each sends a byte at least, but for one that fails at the end -/
theorem fetching_calls {o : Option Thread} (h : Fetching bs k o g) : g.calls ≤ bs.length := by
  have hunused : g.Unused → g.calls ≤ bs.length := fun hun => hun.calls.trans_le (Nat.zero_le _)
  obtain ⟨-, h⟩ := h
  cases o with
  | none => exact h.elim (·.2.1) (·.2.1)
  | some th =>
    obtain ⟨-, hst⟩ := h
    cases hpc : th.pc <;> simp only [hpc] at hst
    case offset => exact hunused hst.1
    case clear => exact hunused hst.1
    case «open» => exact hunused hst.1
    case lock => exact hunused hst.1
    case stat => exact hunused hst.1
    case seek => exact hunused hst.1
    case opening => exact hunused hst.1
    case loop =>
      have hlen : g.data.length ≤ bs.length := by
        rw [hst.data, List.length_take, List.length_drop]
        omega
      exact hst.calls.trans hlen
    case checkAbor => exact hst.elim (·.2.1) (·.2.1)
    all_goals exact hst.2.1

/-- **The bytes of a download and its answer.**  It is answered 226 exactly when no `sendfile` has failed, and the
bytes from the offset to the end have then been sent; otherwise it is answered 426, and some of them have. -/
theorem download_content (hb : Begun .retr tid s)
    (h : Runs.Path (taped c peer tid) (Downloads tid k bs.length) (s, Tape.start bs) q) :
    (Proceeds c tid q ∧ q.2.calls ≤ bs.length) ∧ (q.1.threads tid = none →
      (FTP_TRANSFEROK ∈ q.2.codes ↔ .sendFailed ∉ q.2.tale) ∧
      (FTP_TRANSFEROK ∈ q.2.codes → q.2.data = bs.drop k) ∧
      (FTP_TRANSFEROK ∉ q.2.codes → FTP_BADSENDNET ∈ q.2.codes ∧ q.2.data <+: bs.drop k)) := by
  have hfetch : Fetching bs k (q.1.threads tid) q.2 := by
    refine hb.inv (I := Fetching bs k) h (fun th hk hpc => ⟨rfl, hk, ?_⟩) fun s g env th ha hd hth hi => ?_
    · rw [hpc]
      exact ⟨⟨rfl, rfl, nofun, rfl⟩, rfl⟩
    · obtain ⟨h1, h2, h3, h4⟩ := hd rfl th (Option.mem_toList.mpr hth)
      exact fetching_step hi (seen_abor ha _) h1 h2 h3 h4
  have hend : q.1.threads tid = none → Delivered bs k q.2 := by
    intro hnone
    rw [hnone] at hfetch
    exact hfetch.2
  refine ⟨⟨begun_proceeds hb h, fetching_calls hfetch⟩, fun hnone => ?_⟩
  rcases hend hnone with ⟨hcodes, -, ⟨-, hok, hdata⟩ | ⟨e, -⟩⟩ | ⟨hcodes, -, ⟨e, -⟩ | ⟨-, hfail, hdata⟩⟩
  · have hyes : FTP_TRANSFEROK ∈ q.2.codes := by
      rw [hcodes]
      decide
    exact ⟨iff_of_true hyes hok, fun _ => hdata, fun hno => absurd hyes hno⟩
  · cases e
  · cases e
  · have hno : FTP_TRANSFEROK ∉ q.2.codes := by
      rw [hcodes]
      decide
    refine ⟨iff_of_false hno fun hok => hok hfail, fun hyes => absurd hyes hno, fun _ => ⟨?_, hdata⟩⟩
    rw [hcodes]
    decide

/-! ## the offset -/

/-- `lseek` succeeds for the offset `k`, and the other calls before the loop too -/
def Seeks (tid : Tid) (k : Nat) : Server × Tape → Label → Prop :=
  During tid fun env th x _ => (th.pc = .offset → x.restartPos = k) ∧ (th.pc = .seek → env.lseek = true) ∧
    (th.pc ≠ .seek → th.refused env x = false)

instance (tid : Tid) (k : Nat) (p : Server × Tape) (l : Label) : Decidable (Seeks tid k p l) :=
  inferInstanceAs (Decidable (During tid _ p l))

/-- the transfer is opened at the offset `k`, and not refused -/
def OpenedAt (k : Nat) (g : Tape) : Prop :=
  [.sought k, .reply FTP_DATACONN] <+: g.tale ∧ FTP_FILEFAIL ∉ g.codes

instance (k : Nat) (g : Tape) : Decidable (OpenedAt k g) := inferInstanceAs (Decidable (_ ∧ _))

/-- the download on its way to the offset -/
def Seeking (k : Nat) (o : Option Thread) (g : Tape) : Prop :=
  match o with
  | none => [.sought k, .reply FTP_DATACONN] <+: g.tale ∧ k % 2^32 ≠ 2^32 - 1 ∨
      g.tale = [.sought k, .reply FTP_FILEFAIL] ∧ k % 2^32 = 2^32 - 1
  | some th => th.kind = .retr ∧ match th.pc with
    | .offset => g.tale = []
    | .clear => g.tale = [] ∧ th.offset = k
    | .open => g.tale = [] ∧ th.offset = k
    | .lock => g.tale = [] ∧ th.offset = k
    | .stat => g.tale = [] ∧ th.offset = k
    | .seek => g.tale = [] ∧ th.offset = k
    | .opening => g.tale = [.sought k] ∧ k % 2^32 ≠ 2^32 - 1
    | .trunc => False
    | _ => [.sought k, .reply FTP_DATACONN] <+: g.tale ∧ k % 2^32 ≠ 2^32 - 1

theorem wrapS_offset {k : Nat} : wrapS 32 (k : Int) = -1 ↔ k % 2^32 = 2^32 - 1 := by
  unfold wrapS
  omega

/-- a stage before the seek: nothing is done, and the thread goes on -/
theorem seeking_enter (h : Seeking k (some th) g) (h0 : 0 < k) (hs : th.pc.said = 0) (h1 : th.pc ≠ .opening)
    (h2 : th.pc ≠ .seek) (hr : th.refused env x = false) (hoff : th.pc = .offset → x.restartPos = k) :
    Seeking k (some (th.goes env x fd)) (g.turn peer (th.deeds env x)) := by
  obtain ⟨hk, hst⟩ := h
  have htale : th.pc.enters = true → (g.turn peer (th.deeds env x)).tale = g.tale := by
    intro he
    rw [deeds_enters he hr]
    exact turn_quiet.2.2
  unfold Thread.goes
  cases hpc : th.pc with
  | offset =>
    simp only [hpc] at hst
    exact ⟨hk, (htale (by rw [hpc]; rfl)).trans hst, hoff hpc⟩
  | clear =>
    simp only [hpc] at hst
    exact ⟨hk, (htale (by rw [hpc]; rfl)).trans hst.1, hst.2⟩
  | «open» =>
    simp only [hpc] at hst
    exact ⟨hk, (htale (by rw [hpc]; rfl)).trans hst.1, hst.2⟩
  | lock =>
    simp only [hpc] at hst
    simp only [hk]
    exact ⟨rfl, (htale (by rw [hpc]; rfl)).trans hst.1, hst.2⟩
  | stat =>
    simp only [hpc] at hst
    have hne : th.offset ≠ 0 := by omega
    simp only [hk, if_neg hne]
    exact ⟨rfl, (htale (by rw [hpc]; rfl)).trans hst.1, hst.2⟩
  | trunc => simp only [hpc] at hst
  | opening => exact absurd hpc h1
  | seek => exact absurd hpc h2
  | _ => rw [hpc] at hs; cases hs

/-- the seek: the answer of `lseek` is taken for -1 exactly when its lower 32 bits are all ones -/
theorem seeking_seek (h : Seeking k (some th) g) (hpc : th.pc = .seek) (hl : env.lseek = true) :
    Seeking k (th.after env x fd) (g.turn peer (th.deeds env x)) := by
  obtain ⟨hk, hst⟩ := h
  simp only [hpc] at hst
  obtain ⟨htale, hoff⟩ := hst
  have hrefused : th.refused env x = decide (k % 2^32 = 2^32 - 1) := by
    unfold Thread.refused
    simp only [hpc, hk, hl, Bool.true_eq_false, false_or, hoff]
    exact decide_eq_decide.mpr wrapS_offset
  have hcalls : th.calls env x = [.sought k] := by
    unfold Thread.calls
    simp only [hpc, hk, hl, if_true, hoff]
  by_cases hbad : k % 2^32 = 2^32 - 1
  · have hr : th.refused env x = true := hrefused.trans (decide_eq_true hbad)
    have hdeeds : th.deeds env x = [.sought k, .reply FTP_FILEFAIL] := by
      unfold Thread.deeds
      rw [hcalls, show th.tells env x = _ from if_pos hr, hk]
      rfl
    rw [after_refused hr, hdeeds]
    refine Or.inr ⟨?_, hbad⟩
    rw [turn_tale, htale]
    rfl
  · have hr : th.refused env x = false := hrefused.trans (decide_eq_false hbad)
    have hdeeds : th.deeds env x = [.sought k] := (deeds_silent (by rw [hpc]; rfl) hr).trans hcalls
    have hgoes : th.goes env x fd = { th with pc := .opening } := by
      unfold Thread.goes
      simp only [hpc, hk]
    rw [after_on (by rw [hpc]; nofun) hr, hdeeds, hgoes]
    refine ⟨hk, ?_, hbad⟩
    rw [turn_tale, htale]
    rfl

theorem seeking_step (h : Seeking k (some th) g) (h0 : 0 < k) (hoff : th.pc = .offset → x.restartPos = k)
    (hl : th.pc = .seek → env.lseek = true) (hr : th.pc ≠ .seek → th.refused env x = false) :
    Seeking k (th.after env x fd) (g.turn peer (th.deeds env x)) := by
  by_cases hseek : th.pc = .seek
  · exact seeking_seek h hseek (hl hseek)
  replace hr := hr hseek
  by_cases hop : th.pc = .opening
  · obtain ⟨hk, hst⟩ := h
    simp only [hop] at hst
    rw [after_on (by rw [hop]; nofun) hr, deeds_opening hop, goes_opening hop]
    refine ⟨hk, ?_, hst.2⟩
    rw [turn_tale, hst.1]
    exact List.prefix_rfl
  by_cases hs : th.pc.said = 0
  · rw [after_on (fun e => by rw [e] at hs; cases hs) hr]
    exact seeking_enter h h0 hs hop hseek hr hoff
  -- the transfer has been opened
  obtain ⟨hk, hst⟩ := h
  have hopen : [.sought k, .reply FTP_DATACONN] <+: g.tale ∧ k % 2^32 ≠ 2^32 - 1 := by
    cases hpc : th.pc <;> simp only [hpc] at hst hs hop hseek <;>
      first | exact hst | exact absurd rfl hs
  have hopen' : [.sought k, .reply FTP_DATACONN] <+: (g.turn peer (th.deeds env x)).tale := by
    rw [turn_tale]
    exact hopen.1.trans (List.prefix_append _ _)
  unfold Thread.after
  split
  · exact Or.inl ⟨hopen', hopen.2⟩
  · have hsaid : (th.goes env x fd).pc.said ≠ 0 := by
      by_cases hfi : th.pc = .final
      · rw [goes_final hfi]
        nofun
      · rw [said_goes hop hfi]
        exact hs
    refine ⟨goes_kind.trans hk, ?_⟩
    cases hpc : (th.goes env x fd).pc <;> rw [hpc] at hsaid <;>
      first | exact ⟨hopen', hopen.2⟩ | exact absurd rfl hsaid

theorem opened_spoken {o : Option Thread} (h : Spoken .retr o g) {d : Deed} (hd : (d.isReply || d.moves) = false)
    (hp : [d, .reply FTP_DATACONN] <+: g.tale) : FTP_FILEFAIL ∉ g.codes := by
  obtain ⟨rest, hrest⟩ := hp
  have hloud : g.loud = .reply FTP_DATACONN :: rest.filter fun d => d.isReply || d.moves := by
    unfold Tape.loud
    rw [← hrest, List.cons_append, List.filter_cons_of_neg (by rw [hd]; exact Bool.false_ne_true)]
    rfl
  have hdone : Disciplined .retr g.loud → FTP_FILEFAIL ∉ g.codes := by
    rintro (e | ⟨ms, code, e, hms, hcode⟩)
    · rw [hloud] at e
      exact absurd (List.cons.inj e).1 (by decide)
    · have hcodes : g.codes = [FTP_DATACONN, code] := by
        rw [codes_loud, e, List.filterMap_append, List.filterMap_cons_some (rfl : Deed.code (.reply _) = some _),
          moves_code hms]
        rfl
      rw [hcodes]
      rcases hcode with rfl | rfl | rfl <;> decide
  cases o with
  | none => exact hdone h
  | some th =>
    obtain ⟨-, h0, h1, h2⟩ := h
    have hsaid : th.pc.said ≤ 2 := by
      unfold Pc.said
      split <;> decide
    rcases (by omega : th.pc.said = 0 ∨ th.pc.said = 1 ∨ th.pc.said = 2) with e | e | e
    · rw [h0 e] at hloud
      cases hloud
    · obtain ⟨-, ms, hms, hmove⟩ := h1 e
      have hcodes : g.codes = [FTP_DATACONN] := by
        rw [codes_loud, hms, List.filterMap_cons_some (rfl : Deed.code (.reply _) = some _), moves_code hmove]
      rw [hcodes]
      decide
    · exact hdone (h2 e)

theorem seeking_cases {o : Option Thread} (h : Seeking k o g) :
    (∃ th, o = some th ∧ th.pc.rank th.kind ≤ 7 ∧ (g.tale = [] ∨ g.tale = [.sought k])) ∨
      ([.sought k, .reply FTP_DATACONN] <+: g.tale ∧ k % 2^32 ≠ 2^32 - 1) ∨
        (g.tale = [.sought k, .reply FTP_FILEFAIL] ∧ k % 2^32 = 2^32 - 1) := by
  cases o with
  | none => exact Or.inr h
  | some th =>
    obtain ⟨hk, hst⟩ := h
    have hearly : th.pc.rank .retr ≤ 7 → g.tale = [] ∨ g.tale = [.sought k] →
        ∃ u, some th = some u ∧ u.pc.rank u.kind ≤ 7 ∧ (g.tale = [] ∨ g.tale = [.sought k]) :=
      fun h1 h2 => ⟨th, rfl, by rw [hk]; exact h1, h2⟩
    cases hpc : th.pc <;> simp only [hpc] at hst hearly
    case offset => exact Or.inl (hearly (by decide) (Or.inl hst))
    case clear => exact Or.inl (hearly (by decide) (Or.inl hst.1))
    case «open» => exact Or.inl (hearly (by decide) (Or.inl hst.1))
    case lock => exact Or.inl (hearly (by decide) (Or.inl hst.1))
    case stat => exact Or.inl (hearly (by decide) (Or.inl hst.1))
    case seek => exact Or.inl (hearly (by decide) (Or.inl hst.1))
    case opening => exact Or.inl (hearly (by decide) (Or.inr hst.1))
    all_goals exact Or.inr (Or.inl hst)

/-- **The offset of a download** for which `lseek` succeeds: the transfer is opened there exactly when the lower 32
bits of the offset are not all ones. -/
theorem opens_at_iff (hb : Begun .retr tid s) (h0 : 0 < k)
    (h : Runs.Path (taped c peer tid) (Seeks tid k) (s, Tape.start bs) q) :
    (Proceeds c tid q ∧ (q.2.codes = [] → q.2.steps ≤ 7)) ∧
      (q.2.codes ≠ [] → (OpenedAt k q.2 ↔ k % 2^32 ≠ 2^32 - 1)) := by
  have hseek : Seeking k (q.1.threads tid) q.2 := by
    refine hb.inv (I := Seeking k) h (fun th hk hpc => ⟨hk, ?_⟩) fun s g env th _ hd hth hi => ?_
    · rw [hpc]
      rfl
    · obtain ⟨h1, h2, h3⟩ := hd rfl th (Option.mem_toList.mpr hth)
      exact seeking_step hi h0 h1 h2 h3
  have hcodes : ∀ {ds : List Deed}, q.2.tale = ds → q.2.codes = ds.filterMap Deed.code := by
    rintro ds rfl
    rfl
  rcases seeking_cases hseek with ⟨th, hth, hrank, htale⟩ | ⟨hp, hk⟩ | ⟨e, hk⟩
  · have hnone : q.2.codes = [] ∧ q.2.calls = 0 := by
      unfold Tape.codes Tape.calls
      rcases htale with e | e <;> rw [e] <;> exact ⟨rfl, rfl⟩
    have hpaced : Paced (q.1.threads tid) q.2 := paced_run hb h
    rw [hth] at hpaced
    have hle : q.2.steps ≤ th.pc.rank th.kind + q.2.calls := hpaced.2
    rw [hnone.2] at hle
    exact ⟨⟨begun_proceeds hb h, fun _ => hle.trans hrank⟩, fun hyes => absurd hnone.1 hyes⟩
  · have hsent : q.2.codes ≠ [] := by
      obtain ⟨rest, hrest⟩ := hp
      rw [hcodes hrest.symm]
      exact List.cons_ne_nil _ _
    exact ⟨⟨begun_proceeds hb h, fun hno => absurd hno hsent⟩,
      fun _ => iff_of_true ⟨hp, opened_spoken (spoken_run hb h) rfl hp⟩ hk⟩
  · have hsent : q.2.codes = [FTP_FILEFAIL] := hcodes e
    refine ⟨⟨begun_proceeds hb h, fun hno => absurd (hsent.symm.trans hno) (List.cons_ne_nil _ _)⟩, fun _ => ?_⟩
    refine iff_of_false (fun hp => hp.2 ?_) (not_not.mpr hk)
    rw [hsent]
    exact List.mem_singleton_self _

end

/-- what the system answers to a download of four bytes -/
def fourTEnv : TEnv := { sampleTEnv with fstat := (true, 4), sendfile := some 1 }

/-- a download of the bytes behind the second -/
theorem download_content_tail : ∃ s q, Begun .retr 0 s ∧
    Runs.Path (taped sampleConf (fun _ => 0) 0) (Downloads 0 2 4) (s, Tape.start (ascii "abcd")) q ∧
    q.1.threads 0 = none ∧ FTP_TRANSFEROK ∈ q.2.codes ∧ q.2.data = (ascii "abcd").drop 2 := by
  obtain ⟨s, q, hb, hq, ht⟩ := sample_transfer .retr (fun _ => 0) (ascii "abcd")
    (dataReady 5 ++ sends 5 "REST 2" ++ sends 5 "RETR f")
    (List.replicate 17 (.thread 0 fourTEnv)) (Downloads 0 2 4)
    (fun q => (q.1.threads 0).isNone && decide (FTP_TRANSFEROK ∈ q.2.codes))
    (by decide +kernel)
  rw [Bool.and_eq_true, Option.isNone_iff_eq_none, decide_eq_true_eq] at ht
  exact ⟨s, q, hb, hq, ht.1, ht.2, ((download_content hb hq).2 ht.1).2.1 ht.2⟩

theorem opens_at_iff_two : ∃ s q, Begun .retr 0 s ∧
    Runs.Path (taped sampleConf (fun _ => 0) 0) (Seeks 0 2) (s, Tape.start (ascii "abcd")) q ∧ q.2.codes ≠ [] ∧
      OpenedAt 2 q.2 := by
  obtain ⟨s, q, hb, hq, ht⟩ := sample_transfer .retr (fun _ => 0) (ascii "abcd")
    (dataReady 5 ++ sends 5 "REST 2" ++ sends 5 "RETR f")
    (List.replicate 7 (.thread 0 fourTEnv)) (Seeks 0 2)
    (fun q => decide (q.2.codes ≠ []))
    (by decide +kernel)
  rw [decide_eq_true_eq] at ht
  exact ⟨s, q, hb, hq, ht, ((opens_at_iff hb (by decide) hq).2 ht).mpr (by decide)⟩

/-- **`2^32 - 1`** is refused. -/
theorem offset_truncated : ¬ ∀ c peer tid k s bs q, 0 < k → k < 2^63 → Begun .retr tid s →
    Runs.Path (taped c peer tid) (Seeks tid k) (s, Tape.start bs) q → q.2.codes ≠ [] → OpenedAt k q.2 := by
  intro h
  obtain ⟨s, q, hb, hq, ht⟩ := sample_transfer .retr (fun _ => 0) ([])
    (dataReady 5 ++ sends 5 "REST 4294967295" ++ sends 5 "RETR f")
    (List.replicate 6 (.thread 0 fourTEnv)) (Seeks 0 (2^32 - 1))
    (fun q => decide (q.2.codes ≠ [] ∧ ¬ OpenedAt (2^32 - 1) q.2))
    (by decide +kernel)
  obtain ⟨hcodes, hnot⟩ := of_decide_eq_true ht
  exact hnot (h _ _ _ _ _ _ _ (by decide) (by decide) hb hq hcodes)

end Myftpd
