import Myftpd.Upload

/-!
# Interrupted transfers

A transfer that is cut short is taken up again with REST, at the length of what has arrived.

* `Stored`            the file after uploads that were taken up at its length;
* `resumed_upload`    it is what the client has sent so far, and all of it after a 226;
* `Obtained`          the bytes of a client that takes a download up at the number of bytes that it has;
* `resumed_download`  they are the start of the file, and the file after a 226.
-/

namespace Myftpd
open CMem Server

section
variable {c : Conf} {peer : Nat → UInt8} {env : TEnv} {tid : Tid} {th : Thread} {s : Server} {x : Session} {fd : Fd}
  {g : Tape} {q : Server × Tape} {bs got : List UInt8} {k : Nat} {f : ByteFile UInt8} {d : Deed}

/-! ## what is in the file -/

/-- Before 150 the file is as it was, or has been cut; after it, it holds what has come and has been written. -/
structure Partial (k : Nat) (bs : List UInt8) (g : Tape) : Prop where
  before : FTP_DATACONN ∉ g.codes → g.file.bytes = bs ∨ g.file.bytes = uploadBase false k bs
  after : FTP_DATACONN ∈ g.codes → g.Holds ⟨uploadBase false k bs, k⟩

theorem holds_add (h : g.Holds f) (hc : ∀ n, d = .got n → g.chunk = [])
    (hd : d.isReply = true ∨ d.isCall = true) (hs : ∀ n, d ≠ .sent n) : (g.add peer d).Holds f := by
  obtain ⟨done, hfile, hdata⟩ := h
  cases d with
  | reply code => exact ⟨done, hfile, hdata⟩
  | truncated => exact hd.elim nofun nofun
  | sought i => exact hd.elim nofun nofun
  | sent n => exact absurd rfl (hs n)
  | sendFailed => exact ⟨done, hfile, hdata⟩
  | got n =>
    rw [hc n rfl, List.append_nil] at hdata
    exact ⟨done, hfile, congrArg (· ++ _) hdata⟩
  | readFailed => exact ⟨done, hfile, hdata⟩
  | interrupted => exact ⟨done, hfile, hdata⟩
  | wrote n =>
    refine ⟨done ++ g.chunk.take n, ?_, ?_⟩
    · show g.file.store 0 (g.chunk.take n) = _
      rw [hfile, ByteFile.store_append]
    · show g.data = done ++ g.chunk.take n ++ g.chunk.drop n
      rw [List.append_assoc, List.take_append_drop]
      exact hdata
  | writeFailed => exact ⟨done, hfile, hdata⟩

theorem holds_replies (codes : List Nat) (h : g.Holds f) : (g.turn peer (codes.map .reply)).Holds f := by
  have hfold : ((codes.map Deed.reply).foldl (Tape.add peer) g).Holds f := by
    induction codes generalizing g with
    | nil => exact h
    | cons code codes ih => exact ih (holds_add (d := .reply code) h nofun (Or.inl rfl) nofun)
  exact hfold

theorem holds_call (h : g.Holds f) (hc : ∀ n, d = .got n → g.chunk = []) (hd : d.isCall = true)
    (hs : ∀ n, d ≠ .sent n) : (g.turn peer [d]).Holds f := by
  have hadd : (g.add peer d).Holds f := holds_add h hc (Or.inr hd) hs
  exact hadd

/-- the calls of the loop of an upload: one of `read`, or one of `write` -/
theorem stor_calls {a : Bool} (hk : th.kind = .stor a) (hpc : th.pc = .loop ∨ ∃ n, th.pc = .write n) :
    ∃ d, th.calls env x = [d] ∧ d.isCall = true ∧ (∀ n, d ≠ .sent n) ∧ (∀ n, d = .got n → th.pc = .loop) := by
  unfold Thread.calls
  rcases hpc with hpc | ⟨n, hpc⟩
  · simp only [hpc, hk]
    cases Thread.reads env x with
    | ok n => exact ⟨_, rfl, rfl, nofun, fun _ _ => trivial⟩
    | intr => exact ⟨_, rfl, rfl, nofun, nofun⟩
    | err => exact ⟨_, rfl, rfl, nofun, nofun⟩
  · simp only [hpc, hk]
    cases env.write with
    | ok n => exact ⟨_, rfl, rfl, nofun, nofun⟩
    | intr => exact ⟨_, rfl, rfl, nofun, nofun⟩
    | err => exact ⟨_, rfl, rfl, nofun, nofun⟩

/-! ## one step -/

theorem partial_quiet (h : Partial k bs g) : Partial k bs (g.turn peer []) := by
  refine ⟨fun hno => h.before ?_, fun hyes => holds_replies [] (h.after ?_)⟩
  · rw [← turn_quiet.1]
    exact hno
  · rw [← turn_quiet.1]
    exact hyes

theorem partial_later {ds : List Deed} (hin : FTP_DATACONN ∈ g.codes)
    (h : (g.turn peer ds).Holds ⟨uploadBase false k bs, k⟩) : Partial k bs (g.turn peer ds) := by
  refine ⟨fun hno => absurd ?_ hno, fun _ => h⟩
  rw [turn_codes]
  exact List.mem_append_left _ hin

theorem partial_early (h : Uploading false bs k (some th) g) (hs : th.pc.said = 0) : Partial k bs g := by
  obtain ⟨-, -, hst⟩ := h
  have hfresh : ∀ f : ByteFile UInt8, f.bytes = bs ∨ f.bytes = uploadBase false k bs → g.Fresh f → Partial k bs g := by
    intro f hf hg
    refine ⟨fun _ => ?_, fun hyes => ?_⟩
    · rw [hg.file]
      exact hf
    · rw [hg.unused.codes] at hyes
      exact absurd hyes List.not_mem_nil
  cases hpc : th.pc with
  | trunc =>
    simp only [hpc] at hst
    exact hfresh _ (Or.inl rfl) hst.1
  | seek =>
    simp only [hpc] at hst
    exact hfresh _ (Or.inr rfl) hst
  | stat =>
    simp only [hpc] at hst
    exact hfresh _ (Or.inr rfl) hst
  | opening =>
    simp only [hpc] at hst
    exact hfresh _ (Or.inr rfl) hst
  | offset =>
    simp only [hpc] at hst
    exact hfresh _ (Or.inl rfl) hst
  | clear =>
    simp only [hpc] at hst
    exact hfresh _ (Or.inl rfl) hst
  | «open» =>
    simp only [hpc] at hst
    exact hfresh _ (Or.inl rfl) hst
  | lock =>
    simp only [hpc] at hst
    exact hfresh _ (Or.inl rfl) hst
  | _ => rw [hpc] at hs; cases hs

theorem partial_refused (h : Partial k bs g) (hk : th.kind = .stor false) (hr : th.refused env x = true)
    (hcodes : g.codes = []) : Partial k bs (g.turn peer (th.deeds env x)) := by
  have hcalls : th.calls env x = [] := by
    have hp := refused_refuses hr
    unfold Thread.refused at hr
    unfold Thread.calls
    cases hpc : th.pc with
    | seek =>
      simp only [hpc, hk, Bool.not_eq_true'] at hr ⊢
      rw [hr]
      rfl
    | «open» => rfl
    | lock => rfl
    | stat => rfl
    | _ => exact absurd ((congrArg Pc.refuses hpc).symm.trans hp : false = true) Bool.false_ne_true
  have hdeeds : th.deeds env x = [FTP_UPLOADFAIL].map .reply := by
    unfold Thread.deeds
    rw [hcalls, show th.tells env x = _ from if_pos hr, hk]
    rfl
  rw [hdeeds]
  refine ⟨fun _ => h.before ?_, fun hyes => ?_⟩
  · rw [hcodes]
    exact List.not_mem_nil
  · rw [turn_codes, hcodes] at hyes
    exact absurd hyes (by decide)

theorem partial_step (hu : Uploading false bs k (some th) g) (h : Partial k bs g) (ha : x.aborReceived = false)
    (hoff : th.pc = .offset → x.restartPos = k) (hcut : th.pc = .trunc → env.ftruncate = true) :
    Partial k bs (g.turn peer (th.deeds env x)) := by
  have hnext : Uploading false bs k (th.after env x 0) (g.turn peer (th.deeds env x)) :=
    uploading_step hu ha (fun hpc _ => hoff hpc) fun hpc _ => hcut hpc
  obtain ⟨hk, -, hst⟩ := hu
  by_cases hr : th.refused env x = true
  · refine partial_refused h hk hr ?_
    have hp := refused_refuses hr
    cases hpc : th.pc <;> simp only [hpc] at hst <;> rw [hpc] at hp <;> first | exact hst.unused.codes | cases hp
  rw [Bool.not_eq_true] at hr
  have hin : g.codes = [FTP_DATACONN] → FTP_DATACONN ∈ g.codes := fun e => e ▸ List.mem_singleton_self _
  have hcleans : ∀ r, th.pc.cleans = some r → Partial k bs (g.turn peer (th.deeds env x)) := by
    intro r hc
    obtain ⟨-, -, hdeeds⟩ : _ ∧ th.goes env x 0 = { th with pc := r } ∧ _ := cleans_step hc
    rw [hdeeds]
    exact partial_quiet h
  cases hpc : th.pc with
  | checkAbor =>
    rw [deeds_done hpc]
    exact partial_quiet h
  | opening =>
    simp only [hpc] at hst
    rw [deeds_opening hpc]
    have hholds : g.Holds ⟨uploadBase false k bs, k⟩ := by
      refine ⟨[], ?_, ?_⟩
      · rw [hst.file, ByteFile.store_nil]
        rfl
      · rw [hst.unused.data, hst.chunk]
        rfl
    refine ⟨fun hno => absurd ?_ hno, fun _ => holds_replies [FTP_DATACONN] hholds⟩
    rw [turn_codes]
    exact List.mem_append_right _ (List.mem_singleton_self _)
  | loop =>
    simp only [hpc] at hst
    obtain ⟨d, hd, hcall, hsent, -⟩ : ∃ d, th.calls env x = [d] ∧ _ := stor_calls hk (Or.inl hpc)
    rw [deeds_loop (Or.inl hpc), hd]
    exact partial_later (hin hst.1.codes) (holds_call hst.1.holds (fun _ _ => hst.2) hcall hsent)
  | write n =>
    simp only [hpc] at hst
    obtain ⟨d, hd, hcall, hsent, hgot⟩ : ∃ d, th.calls env x = [d] ∧ _ := stor_calls hk (Or.inr ⟨n, hpc⟩)
    rw [deeds_loop (Or.inr ⟨n, hpc⟩), hd]
    refine partial_later (hin hst.1.codes) (holds_call hst.1.holds (fun m e => ?_) hcall hsent)
    exact absurd (hpc.symm.trans (hgot m e)) nofun
  | final =>
    simp only [hpc] at hst
    rw [deeds_final hpc]
    exact partial_later (hin hst.1) (holds_replies _ (h.after (hin hst.1)))
  | rmData => exact hcleans _ (by rw [hpc]; rfl)
  | rmPasv => exact hcleans _ (by rw [hpc]; rfl)
  | setPasv => exact hcleans _ (by rw [hpc]; rfl)
  | setData => exact hcleans _ (by rw [hpc]; rfl)
  | closeFile => exact hcleans _ (by rw [hpc]; rfl)
  | _ =>
    rw [after_on (by rw [hpc]; nofun) hr] at hnext
    refine partial_early hnext ?_
    unfold Thread.goes
    simp only [hpc, hk]
    try split
    all_goals rfl

/-! ## uploads -/

theorem partial_run (hb : Begun (.stor false) tid s)
    (h : Runs.Path (taped c peer tid) (StartsAt tid k) (s, Tape.start bs) q) : Partial k bs q.2 := by
  have hboth : Uploading false bs k (q.1.threads tid) q.2 ∧ Partial k bs q.2 := by
    refine hb.inv (I := fun o g => Uploading false bs k o g ∧ Partial k bs g) h (fun th hk hpc => ?_) ?_
    · refine ⟨⟨hk, fun hne => absurd hpc hne, ?_⟩, fun _ => Or.inl rfl, fun hyes => absurd hyes List.not_mem_nil⟩
      rw [hpc]
      exact ⟨⟨rfl, rfl, nofun, rfl⟩, rfl, rfl⟩
    · rintro s g env th ha hd hth ⟨hu, hp⟩
      obtain ⟨hoff, hcut⟩ := hd rfl th (Option.mem_toList.mpr hth)
      exact ⟨uploading_step hu (seen_abor ha _) (fun hpc _ => hoff hpc) fun hpc _ => hcut hpc,
        partial_step hu hp (seen_abor ha _) hoff hcut⟩
  exact hboth.2

def sentBy (peer : Nat → UInt8) (n : Nat) : List UInt8 := (List.range n).map peer

theorem sentBy_length (n : Nat) : (sentBy peer n).length = n := by
  rw [sentBy, List.length_map, List.length_range]

theorem sentBy_add (n m : Nat) : sentBy peer (n + m) = sentBy peer n ++ sentBy (fun i => peer (n + i)) m := by
  unfold sentBy
  rw [List.range_add, List.map_append, List.map_map]
  rfl

theorem sentBy_take (h : got <+: sentBy peer k) : got = sentBy peer got.length := by
  have hle : got.length ≤ k := by
    have hlen := h.length_le
    rwa [sentBy_length] at hlen
  obtain ⟨m, rfl⟩ := Nat.exists_eq_add_of_le hle
  rw [sentBy_add] at h
  exact (List.prefix_of_prefix_length_le h (List.prefix_append _ _) (sentBy_length _).ge).eq_of_length
    (sentBy_length _).symm

/-- The file after uploads: the first from the offset 0 over any file, and every later one from the length of the
file, with the bytes that the client has not got into it. -/
inductive Stored (c : Conf) (peer : Nat → UInt8) : List UInt8 → Prop where
  | first {tid : Tid} {s : Server} {bs : List UInt8} {q : Server × Tape} : Begun (.stor false) tid s →
      Runs.Path (taped c peer tid) (StartsAt tid 0) (s, Tape.start bs) q → q.1.threads tid = none →
      FTP_DATACONN ∈ q.2.codes → Stored c peer q.2.file.bytes
  | next {tid : Tid} {s : Server} {bs : List UInt8} {q : Server × Tape} : Stored c peer bs →
      Begun (.stor false) tid s →
      Runs.Path (taped c (fun i => peer (bs.length + i)) tid) (StartsAt tid bs.length) (s, Tape.start bs) q →
      q.1.threads tid = none → Stored c peer q.2.file.bytes

theorem overlay_end : ByteFile.overlay 0 bs bs.length got = bs ++ got := by
  by_cases h : got = []
  · rw [h, ByteFile.overlay_nil, List.append_nil]
  · rw [ByteFile.overlay_of_ne h, Nat.sub_self, List.replicate_zero, List.append_nil, List.take_length,
      List.drop_of_length_le (Nat.le_add_right _ _), List.append_nil]

theorem uploadBase_length : uploadBase false bs.length bs = bs := by
  unfold uploadBase
  split
  · rename_i h
    exact (List.eq_nil_of_length_eq_zero h.2).symm
  · rfl

theorem holds_bytes (h : g.Holds f) (hr : Received peer g) :
    ∃ n, g.file.bytes = ByteFile.overlay 0 f.bytes f.pos (sentBy peer n) ∧ n ≤ g.data.length := by
  obtain ⟨done, hfile, hdata⟩ := h
  have hpre : done <+: sentBy peer g.data.length := by
    rw [sentBy, ← hr, hdata]
    exact List.prefix_append _ _
  refine ⟨done.length, ?_, ?_⟩
  · rw [hfile, ← sentBy_take hpre]
    rfl
  · rw [hdata, List.length_append]
    exact Nat.le_add_right _ _

theorem stored_file (h : Stored c peer bs) : bs = sentBy peer bs.length := by
  induction h with
  | @first tid s bs q hb hp _ hyes =>
    obtain ⟨n, hn, -⟩ := holds_bytes ((partial_run hb hp).after hyes) (received_run hb hp)
    have hfile : q.2.file.bytes = sentBy peer n := by
      rw [hn, ByteFile.overlay_start]
      show _ ++ List.drop _ (uploadBase false 0 bs) = _
      rw [show uploadBase false 0 bs = [] from if_pos ⟨rfl, rfl⟩, List.drop_nil, List.append_nil]
    rw [hfile, sentBy_length]
  | @next tid s bs q _ hb hp _ ih =>
    have hpart := partial_run hb hp
    obtain ⟨n, hn⟩ : ∃ n, q.2.file.bytes = bs ++ sentBy (fun i => peer (bs.length + i)) n := by
      by_cases hyes : FTP_DATACONN ∈ q.2.codes
      · obtain ⟨n, hn, -⟩ := holds_bytes (hpart.after hyes) (received_run hb hp)
        refine ⟨n, hn.trans ?_⟩
        show ByteFile.overlay 0 (uploadBase false bs.length bs) bs.length _ = _
        rw [uploadBase_length, overlay_end]
      · refine ⟨0, ?_⟩
        have hsame := hpart.before hyes
        rw [uploadBase_length, or_self] at hsame
        exact hsame.trans (List.append_nil bs).symm
    have hlen : (bs ++ sentBy (fun i => peer (bs.length + i)) n).length = bs.length + n := by
      rw [List.length_append, sentBy_length]
    rw [hn, hlen, sentBy_add, ← ih]

/-- an upload of two bytes breaks off when one of them is in the file -/
def brokenUpload : List Label :=
  threadSteps 0 8 ++ [.thread 0 { sampleTEnv with read := .ok 2 }, .thread 0 { sampleTEnv with write := .ok 1 },
    .thread 0 { sampleTEnv with write := .err }] ++ threadSteps 0 7

theorem stored_one : Stored sampleConf twoPeer (ascii "x") := by
  obtain ⟨s, q, hb, hq, ht⟩ := sample_transfer (.stor false) twoPeer (ascii "abc")
    (dataReady 5 ++ sends 5 "STOR f") brokenUpload (StartsAt 0 0)
    (fun q => (q.1.threads 0).isNone && decide (FTP_DATACONN ∈ q.2.codes ∧ q.2.file.bytes = ascii "x"))
    (by decide +kernel)
  rw [Bool.and_eq_true, Option.isNone_iff_eq_none, decide_eq_true_eq] at ht
  obtain ⟨hnone, hyes, hfile⟩ := ht
  exact hfile ▸ .first hb hq hnone hyes

theorem fetching_run (hb : Begun .retr tid s)
    (h : Runs.Path (taped c peer tid) (Downloads tid k bs.length) (s, Tape.start bs) q) :
    Fetching bs k (q.1.threads tid) q.2 := by
  refine hb.inv (I := Fetching bs k) h (fun th hk hpc => ⟨rfl, hk, ?_⟩) fun s g env th ha hd hth hi => ?_
  · rw [hpc]
    exact ⟨⟨rfl, rfl, nofun, rfl⟩, rfl⟩
  · obtain ⟨h1, h2, h3, h4⟩ := hd rfl th (Option.mem_toList.mpr hth)
    exact fetching_step hi (seen_abor ha _) h1 h2 h3 h4

/-- What a client has of the file `bs` after downloads, each from the number of bytes that it has; of what a download
has sent the client may have got only a beginning. -/
inductive Obtained (c : Conf) (bs : List UInt8) : List UInt8 → Prop where
  | start : Obtained c bs []
  | next {peer : Nat → UInt8} {tid : Tid} {s : Server} {got part : List UInt8} {q : Server × Tape} :
      Obtained c bs got → Begun .retr tid s →
      Runs.Path (taped c peer tid) (Downloads tid got.length bs.length) (s, Tape.start bs) q →
      q.1.threads tid = none → part <+: q.2.data → Obtained c bs (got ++ part)

theorem delivered_data (h : Delivered bs k g) : g.data <+: bs.drop k ∧
    (FTP_TRANSFEROK ∈ g.codes → g.data = bs.drop k) := by
  rcases h with ⟨hcodes, -, ⟨-, -, hdata⟩ | ⟨e, -⟩⟩ | ⟨hcodes, -, ⟨e, -⟩ | ⟨-, -, hdata⟩⟩
  · exact ⟨hdata ▸ List.prefix_rfl, fun _ => hdata⟩
  · cases e
  · cases e
  · refine ⟨hdata, fun hyes => ?_⟩
    rw [hcodes] at hyes
    exact absurd hyes (by decide)

theorem obtained_start (h : Obtained c bs got) : got <+: bs := by
  induction h with
  | start => exact List.nil_prefix
  | @next peer tid s got part q _ hb hp hnone hpart ih =>
    have hf : Fetching bs got.length (q.1.threads tid) q.2 := fetching_run hb hp
    rw [hnone] at hf
    obtain ⟨rest, hrest⟩ := hpart.trans (delivered_data hf.2).1
    obtain ⟨tail, rfl⟩ := ih
    rw [List.drop_left] at hrest
    exact ⟨rest, by rw [List.append_assoc, hrest]⟩

/-- a download of four bytes breaks off behind the first -/
def brokenDownload : List Label :=
  List.replicate 7 (.thread 0 fourTEnv) ++
    .thread 0 { fourTEnv with sendfile := none } :: List.replicate 7 (.thread 0 fourTEnv)

theorem obtained_one : Obtained sampleConf (ascii "abcd") (ascii "a") := by
  obtain ⟨s, q, hb, hq, ht⟩ := sample_transfer .retr (fun _ => 0) (ascii "abcd")
    (dataReady 5 ++ sends 5 "RETR f") brokenDownload (Downloads 0 0 (ascii "abcd").length)
    (fun q => (q.1.threads 0).isNone && decide (q.2.data = ascii "a"))
    (by decide +kernel)
  rw [Bool.and_eq_true, Option.isNone_iff_eq_none, decide_eq_true_eq] at ht
  have hgot : Obtained sampleConf (ascii "abcd") ([] ++ q.2.data) := .next .start hb hq ht.1 List.prefix_rfl
  rw [ht.2] at hgot
  exact hgot

end

end Myftpd
