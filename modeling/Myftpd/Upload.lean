import Myftpd.Download

/-!
# Uploads

`upload_common` writes what it reads from the data connection, with as many calls of `write` as it takes.

* `Received`        what has come over the data connection is what the peer has sent;
* `upload_content`  the file after an upload from a restart offset, and its answer;
* `append_iff`      the appending uploads that keep what was there.
-/

namespace Myftpd
open CMem Server

/-- the file when the loop begins: cut to nothing by `ftruncate`, or as it was -/
def uploadBase (isAppend : Bool) (k : Nat) (bs : List UInt8) : List UInt8 :=
  if isAppend = false ∧ k = 0 then [] else bs

/-- the position that `lseek` sets -/
def uploadStart (isAppend : Bool) (k : Nat) : Nat := if isAppend = true then 0 else k

/-- the end of the data has come, and neither `read` nor `write` has failed -/
def Tape.Complete (g : Tape) : Prop := .got 0 ∈ g.tale ∧ .readFailed ∉ g.tale ∧ .writeFailed ∉ g.tale

instance (g : Tape) : Decidable g.Complete := inferInstanceAs (Decidable (_ ∧ _))

/-- nothing has been sent or received, and the file is `f` -/
structure Tape.Fresh (f : ByteFile UInt8) (g : Tape) : Prop where
  unused : g.Unused
  chunk : g.chunk = []
  file : g.file = f

/-- the file `f`, with everything that has been received and is not in the buffer any more -/
def Tape.Holds (f : ByteFile UInt8) (g : Tape) : Prop :=
  ∃ bs, g.file = f.store 0 bs ∧ g.data = bs ++ g.chunk

/-- the upload in its loop -/
structure Storing (f : ByteFile UInt8) (g : Tape) : Prop where
  codes : g.codes = [FTP_DATACONN]
  going : .got 0 ∉ g.tale
  read : .readFailed ∉ g.tale
  write : .writeFailed ∉ g.tale
  holds : g.Holds f

/-- after the loop: everything that was received is in the file, or a call has failed -/
def Settled (f : ByteFile UInt8) (flag : Nat) (g : Tape) : Prop :=
  flag = 0 ∧ g.Complete ∧ g.file = f.store 0 g.data ∨ (flag = 1 ∨ flag = 2) ∧ ¬ g.Complete

/-- the answer to that -/
def Acknowledged (f : ByteFile UInt8) (g : Tape) : Prop :=
  FTP_TRANSFEROK ∈ g.codes ∧ g.Complete ∧ g.file = f.store 0 g.data ∨ FTP_TRANSFEROK ∉ g.codes ∧ ¬ g.Complete

/-- the upload from its start to its end; with `isAppend` the restart offset does not matter -/
def Uploading (isAppend : Bool) (bs : List UInt8) (k : Nat) (o : Option Thread) (g : Tape) : Prop :=
  let f : ByteFile UInt8 := ⟨uploadBase isAppend k bs, uploadStart isAppend k⟩
  match o with
  | none => Acknowledged f g
  | some th => th.kind = .stor isAppend ∧ (th.pc ≠ .offset → isAppend = false → th.offset = k) ∧ match th.pc with
    | .offset => g.Fresh ⟨bs, 0⟩
    | .clear => g.Fresh ⟨bs, 0⟩
    | .open => g.Fresh ⟨bs, 0⟩
    | .lock => g.Fresh ⟨bs, 0⟩
    | .trunc => g.Fresh ⟨bs, 0⟩ ∧ uploadBase isAppend k bs = []
    | .seek => g.Fresh ⟨uploadBase isAppend k bs, 0⟩
    | .stat => g.Fresh f
    | .opening => g.Fresh f
    | .loop => Storing f g ∧ g.chunk = []
    | .write n => Storing f g ∧ g.chunk.length = n
    | .checkAbor => Acknowledged f g
    | _ => g.codes = [FTP_DATACONN] ∧ Settled f th.flag g

section
variable {c : Conf} {peer : Nat → UInt8} {env : TEnv} {tid : Tid} {th : Thread} {s : Server} {x : Session} {fd : Fd}
  {g : Tape} {q : Server × Tape} {bs : List UInt8} {k : Nat} {a : Bool} {f : ByteFile UInt8}
  {D : Server × Tape → Label → Prop}

/-! ## before the loop -/

theorem fresh_quiet (h : g.Fresh f) : (g.turn peer []).Fresh f := ⟨unused_quiet h.unused, h.chunk, h.file⟩

theorem fresh_turn (h : g.Fresh f) {d : Deed} (hd : d.code = none ∧ d.isCall = false) (ho : d.isReply = false) :
    (g.turn peer [d]).Fresh ((g.add peer d).file) := by
  have hdata : (g.turn peer [d]).data = g.data ∧ (g.turn peer [d]).chunk = g.chunk := by
    cases d with
    | reply code => cases ho
    | truncated => exact ⟨rfl, rfl⟩
    | sought i => exact ⟨rfl, rfl⟩
    | _ => cases hd.2
  refine ⟨unused_turn h.unused (fun e he => ?_) hdata.1, hdata.2.trans h.chunk, rfl⟩
  rw [List.mem_singleton.mp he]
  exact hd

theorem fresh_incomplete (h : g.calls = 0) : ¬ g.Complete := by
  rintro ⟨hgot, -⟩
  have hcalls : 0 < g.calls := List.countP_pos_iff.mpr ⟨_, hgot, rfl⟩
  omega

theorem fresh_refused (h : g.Unused) (hr : th.refused env x = true) (hk : th.kind = .stor a) :
    FTP_TRANSFEROK ∉ (g.turn peer (th.deeds env x)).codes ∧ ¬ (g.turn peer (th.deeds env x)).Complete := by
  have hcalls : th.calls env x = [] := by
    have hp := refused_refuses hr
    unfold Thread.refused at hr
    unfold Thread.calls
    cases hpc : th.pc <;> simp only [hpc, hk] at hp hr ⊢
    all_goals first | rfl | cases hp
    -- the seek
    rw [if_neg]
    rw [Bool.not_eq_true'] at hr
    rw [hr]
    exact Bool.false_ne_true
  have hdeeds : th.deeds env x = [.reply FTP_UPLOADFAIL] := by
    unfold Thread.deeds
    rw [hcalls, show th.tells env x = _ from if_pos hr, hk]
    rfl
  rw [hdeeds]
  constructor
  · rw [turn_codes, h.codes]
    decide
  · exact fresh_incomplete ((turn_calls _).trans h.calls)

theorem uploading_enter (h : Uploading a bs k (some th) g) (hs : th.pc.said = 0) (hr : th.refused env x = false)
    (hoff : th.pc = .offset → a = false → x.restartPos = k) (hcut : th.pc = .trunc → a = false → env.ftruncate = true) :
    Uploading a bs k (some (th.goes env x fd)) (g.turn peer (th.deeds env x)) := by
  obtain ⟨hk, hoffset, hst⟩ := h
  cases hpc : th.pc with
  | offset =>
    simp only [hpc] at hst
    rw [goes_offset hpc, deeds_enters (by rw [hpc]; rfl) hr]
    exact ⟨hk, fun _ => hoff hpc, fresh_quiet hst⟩
  | clear =>
    simp only [hpc] at hst
    rw [goes_clear hpc, deeds_enters (by rw [hpc]; rfl) hr]
    exact ⟨hk, fun _ => hoffset (by rw [hpc]; nofun), fresh_quiet hst⟩
  | «open» =>
    simp only [hpc] at hst
    rw [goes_open hpc, deeds_enters (by rw [hpc]; rfl) hr]
    exact ⟨hk, fun _ => hoffset (by rw [hpc]; nofun), fresh_quiet hst⟩
  | lock =>
    simp only [hpc] at hst
    replace hoffset := hoffset (by rw [hpc]; nofun)
    have hgoes : th.goes env x fd = { th with pc := if a = false ∧ th.offset = 0 then .trunc else .seek } := by
      unfold Thread.goes
      simp only [hpc, hk]
    rw [hgoes, deeds_enters (by rw [hpc]; rfl) hr]
    refine ⟨hk, fun _ => hoffset, ?_⟩
    by_cases hcut : a = false ∧ th.offset = 0
    · have hkz : k = 0 := by
        have hoff := hoffset hcut.1
        omega
      simp only [if_pos hcut]
      exact ⟨fresh_quiet hst, if_pos ⟨hcut.1, hkz⟩⟩
    · have hkz : ¬ (a = false ∧ k = 0) := by
        rintro ⟨ha, hkz⟩
        refine hcut ⟨ha, ?_⟩
        rw [hoffset ha, hkz]
        rfl
      have hbase : uploadBase a k bs = bs := if_neg hkz
      simp only [if_neg hcut, hbase]
      exact fresh_quiet hst
  | trunc =>
    simp only [hpc] at hst
    have hgoes : th.goes env x fd = { th with pc := .seek } := by
      unfold Thread.goes
      simp only [hpc, hk]
    have hdeeds : th.deeds env x = if env.ftruncate = true then [.truncated] else [] := by
      rw [deeds_silent (by rw [hpc]; rfl) hr]
      unfold Thread.calls
      simp only [hpc, hk]
    rw [hgoes, hdeeds]
    refine ⟨hk, fun _ => hoffset (by rw [hpc]; nofun), ?_⟩
    by_cases hdone : env.ftruncate = true
    case neg =>
      -- only an appending upload may fail to cut its file, and there is nothing to cut
      have ha : ¬ (a = false ∧ k = 0) := fun h => hdone (hcut hpc h.1)
      rw [if_neg hdone, show uploadBase a k bs = bs from if_neg ha]
      exact fresh_quiet hst.1
    rw [if_pos hdone]
    have hfresh : (g.turn peer [.truncated]).Fresh (g.add peer .truncated).file := fresh_turn hst.1 ⟨rfl, rfl⟩ rfl
    have hfile : (g.add peer .truncated).file = ⟨[], 0⟩ := by
      show g.file.truncate = _
      rw [hst.1.file]
      rfl
    rw [hfile] at hfresh
    simp only [hst.2]
    exact hfresh
  | seek =>
    simp only [hpc] at hst
    replace hoffset := hoffset (by rw [hpc]; nofun)
    have hgoes : th.goes env x fd = { th with pc := .stat } := by
      unfold Thread.goes
      simp only [hpc, hk]
    have hl : env.lseek = true := by
      unfold Thread.refused at hr
      simp only [hpc, hk, Bool.not_eq_false'] at hr
      exact hr
    have hdeeds : th.deeds env x = [.sought (if a = true then 0 else th.offset)] := by
      rw [deeds_silent (by rw [hpc]; rfl) hr]
      unfold Thread.calls
      simp only [hpc, hk, hl, if_true]
    have hto : (if a = true then 0 else th.offset) = (uploadStart a k : Int) := by
      unfold uploadStart
      cases a with
      | true => rfl
      | false => exact hoffset rfl
    rw [hgoes, hdeeds, hto]
    refine ⟨hk, fun _ => hoffset, ?_⟩
    have hfresh : (g.turn peer [.sought (uploadStart a k)]).Fresh (g.add peer (.sought (uploadStart a k))).file :=
      fresh_turn hst ⟨rfl, rfl⟩ rfl
    have hfile : (g.add peer (.sought (uploadStart a k))).file = ⟨uploadBase a k bs, uploadStart a k⟩ := by
      show g.file.seek _ = _
      rw [hst.file]
      rfl
    rw [hfile] at hfresh
    exact hfresh
  | stat =>
    simp only [hpc] at hst
    have hgoes : th.goes env x fd = { th with size := env.fstat.2, pc := .opening } := by
      unfold Thread.goes
      simp only [hpc, hk]
    rw [hgoes, deeds_enters (by rw [hpc]; rfl) hr]
    exact ⟨hk, fun _ => hoffset (by rw [hpc]; nofun), fresh_quiet hst⟩
  | opening =>
    simp only [hpc] at hst
    have hmem : ∀ d : Deed, d.isCall = true → d ∉ (g.turn peer [.reply FTP_DATACONN]).tale := by
      intro d hd hm
      have hcalls : (g.turn peer [.reply FTP_DATACONN]).calls = 0 := (turn_calls _).trans hst.unused.calls
      exact absurd hcalls (Nat.ne_of_gt (List.countP_pos_iff.mpr ⟨d, hm, hd⟩))
    rw [goes_opening hpc, deeds_opening hpc]
    refine ⟨hk, fun _ => hoffset (by rw [hpc]; nofun), ?_, hst.chunk⟩
    refine ⟨?_, hmem _ rfl, hmem _ rfl, hmem _ rfl, [], ?_, ?_⟩
    · rw [turn_codes, hst.unused.codes]
      rfl
    · rw [ByteFile.store_nil]
      exact hst.file
    · show g.data = [] ++ g.chunk
      rw [hst.unused.data, hst.chunk]
      rfl
  | _ => rw [hpc] at hs; cases hs

/-! ## the loop -/

/-- in the loop everything that is said and done is in the calls -/
theorem deeds_loop (hpc : th.pc = .loop ∨ ∃ n, th.pc = .write n) : th.deeds env x = th.calls env x := by
  rcases hpc with hpc | ⟨n, hpc⟩
  · exact deeds_silent (by rw [hpc]; rfl) (refused_other (by rw [hpc]; rfl))
  · exact deeds_silent (by rw [hpc]; rfl) (refused_other (by rw [hpc]; rfl))

/-- a call that brings no end and does not fail -/
theorem storing_call {d : Deed} (h : Storing f g) (hd : d.code = none)
    (hend : d ≠ .got 0 ∧ d ≠ .readFailed ∧ d ≠ .writeFailed) (hh : (g.turn peer [d]).Holds f) :
    Storing f (g.turn peer [d]) := by
  have hmem : ∀ e : Deed, e ∉ g.tale → d ≠ e → e ∉ (g.turn peer [d]).tale := by
    intro e he hne hm
    rw [turn_tale, List.mem_append, List.mem_singleton] at hm
    exact hm.elim he fun e => hne e.symm
  refine ⟨?_, hmem _ h.going hend.1, hmem _ h.read hend.2.1, hmem _ h.write hend.2.2, hh⟩
  rw [turn_codes, h.codes, List.filterMap_cons_none hd]
  rfl

theorem storing_failed {d : Deed} {flag : Nat} (h : Storing f g) (hd : d = .readFailed ∨ d = .writeFailed)
    (hf : flag = 1 ∨ flag = 2) :
    (g.turn peer [d]).codes = [FTP_DATACONN] ∧ Settled f flag (g.turn peer [d]) := by
  constructor
  · rw [turn_codes, h.codes]
    rcases hd with rfl | rfl <;> rfl
  · refine Or.inr ⟨hf, ?_⟩
    rintro ⟨-, hread, hwrite⟩
    rw [turn_tale] at hread hwrite
    rcases hd with rfl | rfl
    · exact hread (List.mem_append_right _ (List.mem_singleton_self _))
    · exact hwrite (List.mem_append_right _ (List.mem_singleton_self _))

theorem uploading_read (h : Uploading a bs k (some th) g) (hpc : th.pc = .loop) (ha : x.aborReceived = false) :
    Uploading a bs k (some (th.goes env x fd)) (g.turn peer (th.deeds env x)) := by
  obtain ⟨hk, hoffset, hst⟩ := h
  replace hoffset := hoffset (by rw [hpc]; nofun)
  simp only [hpc] at hst
  obtain ⟨hst, hchunk⟩ := hst
  obtain ⟨done, hfile, hdata⟩ := hst.holds
  rw [hchunk, List.append_nil] at hdata
  rw [deeds_loop (Or.inl hpc)]
  unfold Thread.goes Thread.calls
  simp only [hpc, hk]
  cases hr : Thread.reads env x with
  | intr =>
    have hmore : Storing ⟨uploadBase a k bs, uploadStart a k⟩ (g.turn peer [.interrupted]) :=
      storing_call hst rfl ⟨nofun, nofun, nofun⟩ hst.holds
    refine ⟨hk, fun _ => hoffset, ?_⟩
    simp only [hpc]
    exact ⟨hmore, hchunk⟩
  | err => exact ⟨rfl, fun _ => hoffset, storing_failed hst (Or.inl rfl) (Or.inr rfl)⟩
  | ok n =>
    cases n with
    | zero =>
      refine ⟨rfl, fun _ => hoffset, ?_, Or.inl ⟨rfl, ⟨?_, ?_, ?_⟩, ?_⟩⟩
      · rw [turn_codes, hst.codes]
        rfl
      · rw [turn_tale]
        exact List.mem_append_right _ (List.mem_singleton_self _)
      · rw [turn_tale, List.mem_append, List.mem_singleton]
        exact fun hm => hm.elim hst.read nofun
      · rw [turn_tale, List.mem_append, List.mem_singleton]
        exact fun hm => hm.elim hst.write nofun
      · -- the end of the data: the buffer is empty
        show g.file = ByteFile.store 0 _ (g.data ++ [])
        rw [List.append_nil, hdata]
        exact hfile
    | succ n =>
      simp only [ha, Bool.false_eq_true, if_false]
      have hlen : (g.turn peer [.got (n + 1)]).chunk.length = n + 1 :=
        (List.length_map _).trans List.length_range
      have hmore : Storing ⟨uploadBase a k bs, uploadStart a k⟩ (g.turn peer [.got (n + 1)]) := by
        refine storing_call hst rfl ⟨nofun, nofun, nofun⟩ ⟨done, hfile, ?_⟩
        rw [← hdata]
        rfl
      exact ⟨rfl, fun _ => hoffset, hmore, hlen⟩

theorem uploading_write {n : Nat} (h : Uploading a bs k (some th) g) (hpc : th.pc = .write n) :
    Uploading a bs k (some (th.goes env x fd)) (g.turn peer (th.deeds env x)) := by
  obtain ⟨hk, hoffset, hst⟩ := h
  replace hoffset := hoffset (by rw [hpc]; nofun)
  simp only [hpc] at hst
  obtain ⟨hst, hchunk⟩ := hst
  rw [deeds_loop (Or.inr ⟨n, hpc⟩)]
  unfold Thread.goes Thread.calls
  simp only [hpc, hk]
  cases hw : env.write with
  | intr =>
    have hmore : Storing ⟨uploadBase a k bs, uploadStart a k⟩ (g.turn peer [.interrupted]) :=
      storing_call hst rfl ⟨nofun, nofun, nofun⟩ hst.holds
    refine ⟨hk, fun _ => hoffset, ?_⟩
    simp only [hpc]
    exact ⟨hmore, hchunk⟩
  | err => exact ⟨rfl, fun _ => hoffset, storing_failed hst (Or.inr rfl) (Or.inl rfl)⟩
  | ok m =>
    obtain ⟨done, hfile, hdata⟩ := hst.holds
    have hrest : (g.turn peer [.wrote (min m n)]).chunk.length = n - m := by
      show (g.chunk.drop (min m n)).length = n - m
      rw [List.length_drop, hchunk]
      omega
    have hmore : Storing ⟨uploadBase a k bs, uploadStart a k⟩ (g.turn peer [.wrote (min m n)]) := by
      refine storing_call hst rfl ⟨nofun, nofun, nofun⟩ ⟨done ++ g.chunk.take (min m n), ?_, ?_⟩
      · show g.file.store 0 (g.chunk.take (min m n)) = _
        rw [hfile, ByteFile.store_append]
      · show g.data = done ++ g.chunk.take (min m n) ++ g.chunk.drop (min m n)
        rw [List.append_assoc, List.take_append_drop]
        exact hdata
    refine ⟨rfl, fun _ => hoffset, ?_⟩
    by_cases hall : n - m = 0
    · simp only [if_pos hall]
      exact ⟨hmore, List.eq_nil_of_length_eq_zero (hrest.trans hall)⟩
    · simp only [if_neg hall]
      exact ⟨hmore, hrest⟩

/-! ## after the loop -/

theorem complete_replies (codes : List Nat) : (g.turn peer (codes.map .reply)).Complete ↔ g.Complete := by
  unfold Tape.Complete
  rw [replies_mem rfl, replies_mem rfl, replies_mem rfl]

theorem stored_replies (codes : List Nat) :
    (g.turn peer (codes.map .reply)).Complete ∧ (g.turn peer (codes.map .reply)).file =
      f.store 0 (g.turn peer (codes.map .reply)).data ↔ g.Complete ∧ g.file = f.store 0 g.data := by
  obtain ⟨hfile, hdata, -⟩ : ((codes.map .reply).foldl (Tape.add peer) g).file = g.file ∧ _ ∧ _ := foldl_replies codes
  rw [complete_replies]
  show _ ∧ ((codes.map .reply).foldl (Tape.add peer) g).file = _ ↔ _
  rw [hfile]
  show _ ∧ g.file = f.store 0 ((codes.map .reply).foldl (Tape.add peer) g).data ↔ _
  rw [hdata]

theorem settled_quiet {flag : Nat} (h : Settled f flag g) : Settled f flag (g.turn peer []) := by
  rcases h with ⟨h0, hdone⟩ | ⟨hflag, hnot⟩
  · exact Or.inl ⟨h0, (stored_replies []).mpr hdone⟩
  · exact Or.inr ⟨hflag, fun hc => hnot ((complete_replies []).mp hc)⟩

theorem acknowledged_quiet (h : Acknowledged f g) : Acknowledged f (g.turn peer []) := by
  unfold Acknowledged
  rw [turn_quiet.1]
  rcases h with ⟨hyes, hdone⟩ | ⟨hno, hnot⟩
  · exact Or.inl ⟨hyes, (stored_replies []).mpr hdone⟩
  · exact Or.inr ⟨hno, fun hc => hnot ((complete_replies []).mp hc)⟩

theorem uploading_cleans {r : Pc} (h : Uploading a bs k (some th) g) (hc : th.pc.cleans = some r) :
    Uploading a bs k (some (th.goes env x fd)) (g.turn peer (th.deeds env x)) := by
  obtain ⟨hk, hoffset, hst⟩ := h
  obtain ⟨-, hgoes, hdeeds⟩ : th.refused env x = false ∧ th.goes env x fd = { th with pc := r } ∧ _ := cleans_step hc
  rw [hgoes, hdeeds]
  cases hpc : th.pc <;> rw [hpc] at hc <;> cases hc
  all_goals
    simp only [hpc] at hst
    exact ⟨hk, fun _ => hoffset (by rw [hpc]; nofun), turn_quiet.1.trans hst.1, settled_quiet hst.2⟩

theorem uploading_final (h : Uploading a bs k (some th) g) (hpc : th.pc = .final) (ha : x.aborReceived = false) :
    Uploading a bs k (some (th.goes env x fd)) (g.turn peer (th.deeds env x)) := by
  obtain ⟨hk, hoffset, hst⟩ := h
  simp only [hpc] at hst
  obtain ⟨h150, hf⟩ := hst
  rw [goes_final hpc, deeds_final hpc]
  refine ⟨hk, fun _ => hoffset (by rw [hpc]; nofun), ?_⟩
  have hcodes : ∀ code, (g.turn peer ([code].map .reply)).codes = [FTP_DATACONN, code] := by
    intro code
    rw [turn_codes, h150]
    rfl
  rcases hf with ⟨h0, hdone⟩ | ⟨hflag, hnot⟩
  · have hv : th.verdict x = some FTP_TRANSFEROK := if_pos ⟨h0, ha⟩
    rw [hv]
    refine Or.inl ⟨?_, (stored_replies [FTP_TRANSFEROK]).mpr hdone⟩
    show FTP_TRANSFEROK ∈ (g.turn peer ([FTP_TRANSFEROK].map .reply)).codes
    rw [hcodes]
    decide
  · obtain ⟨code, hv, hne⟩ : ∃ code, th.verdict x = some code ∧ FTP_TRANSFEROK ∉ [FTP_DATACONN, code] := by
      unfold Thread.verdict
      rcases hflag with h1 | h2
      · rw [h1]
        exact ⟨_, rfl, by decide⟩
      · rw [h2]
        exact ⟨_, rfl, by decide⟩
    rw [hv]
    refine Or.inr ⟨?_, fun hc => hnot ((complete_replies [code]).mp hc)⟩
    show FTP_TRANSFEROK ∉ (g.turn peer ([code].map .reply)).codes
    rw [hcodes]
    exact hne

theorem uploading_step (h : Uploading a bs k (some th) g) (ha : x.aborReceived = false)
    (hoff : th.pc = .offset → a = false → x.restartPos = k) (hcut : th.pc = .trunc → a = false → env.ftruncate = true) :
    Uploading a bs k (th.after env x fd) (g.turn peer (th.deeds env x)) := by
  cases hr : th.refused env x with
  | true =>
    obtain ⟨hk, -, hst⟩ := h
    have hp := refused_refuses hr
    have hunused : g.Unused := by
      cases hpc : th.pc <;> simp only [hpc] at hst <;> rw [hpc] at hp <;> first | exact hst.unused | cases hp
    rw [after_refused hr]
    exact Or.inr (fresh_refused hunused hr hk)
  | false =>
    by_cases hdone : th.pc = .checkAbor
    · obtain ⟨hk, -, hst⟩ := h
      simp only [hdone] at hst
      rw [after_done hdone, deeds_done hdone]
      exact acknowledged_quiet hst
    rw [after_on hdone hr]
    by_cases hs : th.pc.said = 0
    · exact uploading_enter h hs hr hoff hcut
    cases hpc : th.pc with
    | loop => exact uploading_read h hpc ha
    | write n => exact uploading_write h hpc
    | final => exact uploading_final h hpc ha
    | checkAbor => exact absurd hpc hdone
    | rmData => exact uploading_cleans h (r := .rmPasv) (by rw [hpc]; rfl)
    | rmPasv => exact uploading_cleans h (r := .setPasv) (by rw [hpc]; rfl)
    | setPasv => exact uploading_cleans h (r := .setData) (by rw [hpc]; rfl)
    | setData => exact uploading_cleans h (r := .closeFile) (by rw [hpc]; rfl)
    | closeFile => exact uploading_cleans h (r := .final) (by rw [hpc]; rfl)
    | _ => rw [hpc] at hs; exact absurd rfl hs

/-! ## whole uploads -/

/-- the restart offset of the upload, whose `ftruncate` does not fail -/
def StartsAt (tid : Tid) (k : Nat) : Server × Tape → Label → Prop :=
  During tid fun env th x _ => (th.pc = .offset → x.restartPos = k) ∧ (th.pc = .trunc → env.ftruncate = true)

instance (tid : Tid) (k : Nat) (p : Server × Tape) (l : Label) : Decidable (StartsAt tid k p l) :=
  inferInstanceAs (Decidable (During tid _ p l))

/-- what has come is what the peer has sent -/
def Received (peer : Nat → UInt8) (g : Tape) : Prop := g.data = (List.range g.data.length).map peer

theorem received_add (h : Received peer g) {d : Deed} (hd : ∀ n, d ≠ .sent n) : Received peer (g.add peer d) := by
  cases d with
  | got n =>
    show g.data ++ (List.range n).map (fun i => peer (g.data.length + i)) = _
    have hlen : (g.add peer (.got n)).data.length = g.data.length + n := by
      show (g.data ++ (List.range n).map (fun i => peer (g.data.length + i))).length = _
      rw [List.length_append, List.length_map, List.length_range]
    rw [hlen, List.range_add, List.map_append, ← h, List.map_map]
    rfl
  | sent n => exact absurd rfl (hd n)
  | _ => exact h

theorem received_turn (h : Received peer g) (hk : th.kind = .stor a) :
    Received peer (g.turn peer (th.deeds env x)) := by
  have hfold : ∀ (ds : List Deed) (g : Tape), (∀ d ∈ ds, ∀ n, d ≠ .sent n) → Received peer g →
      Received peer (ds.foldl (Tape.add peer) g) := by
    intro ds
    induction ds with
    | nil => exact fun g _ hg => hg
    | cons d ds ih =>
      intro g hds hg
      exact ih _ (fun e he => hds e (List.mem_cons_of_mem d he)) (received_add hg (hds d List.mem_cons_self))
  refine hfold _ g (fun d hd n => ?_) h
  rintro rfl
  rcases List.mem_append.mp hd with hd | hd
  · unfold Thread.calls at hd
    rw [hk] at hd
    revert hd
    repeat' split
    all_goals first | contradiction | simp
  · obtain ⟨code, -, e⟩ := List.mem_map.mp hd
    cases e

theorem received_run (hb : Begun (.stor a) tid s) (h : Runs.Path (taped c peer tid) D (s, Tape.start bs) q) :
    Received peer q.2 := by
  have hrun : (∀ th ∈ (q.1.threads tid).toList, th.kind = .stor a) ∧ Received peer q.2 := by
    refine hb.inv (I := fun o g => (∀ th ∈ o.toList, th.kind = .stor a) ∧ Received peer g) h
      (fun th hk _ => ⟨fun u hu => by cases Option.mem_toList.mp hu; exact hk, rfl⟩) ?_
    rintro s g env th - - - ⟨hk, hg⟩
    have hkind : th.kind = .stor a := hk th (Option.mem_toList.mpr rfl)
    refine ⟨fun u hu => ?_, received_turn hg hkind⟩
    rw [Option.mem_toList] at hu
    unfold Thread.after at hu
    split at hu
    · cases hu
    · cases hu
      exact goes_kind.trans hkind
  exact hrun.2

theorem uploading_run (hb : Begun (.stor a) tid s) (h : Runs.Path (taped c peer tid) D (s, Tape.start bs) q)
    (hd : ∀ s g env th, D (s, g) (.thread tid env) → s.threads tid = some th → a = false →
      (th.pc = .offset → (s.seen th.sess).restartPos = k) ∧ (th.pc = .trunc → env.ftruncate = true)) : Uploading a bs k (q.1.threads tid) q.2 := by
  refine hb.inv (I := Uploading a bs k) h (fun th hk hpc => ⟨hk, fun hne => absurd hpc hne, ?_⟩) ?_
  · rw [hpc]
    exact ⟨⟨rfl, rfl, nofun, rfl⟩, rfl, rfl⟩
  · intro s g env th ha hD hth hi
    have hcond := hd s g env th hD hth
    exact uploading_step hi (seen_abor ha _) (fun hpc hf => (hcond hf).1 hpc) fun hpc hf => (hcond hf).2 hpc

theorem acknowledged_iff (h : Acknowledged f g) : (FTP_TRANSFEROK ∈ g.codes ↔ g.Complete) ∧
    (FTP_TRANSFEROK ∈ g.codes → g.file.bytes = ByteFile.overlay 0 f.bytes f.pos g.data) := by
  rcases h with ⟨hyes, hc, hfile⟩ | ⟨hno, hc⟩
  · refine ⟨iff_of_true hyes hc, fun _ => ?_⟩
    rw [hfile]
    rfl
  · exact ⟨iff_of_false hno hc, fun hyes => absurd hyes hno⟩

/-- **The content of an upload and its answer.**  It is answered 226 exactly when the end of the data has come without
an error; the file is then what has been received, or with an offset what has been received over the old content. -/
theorem upload_content (hb : Begun (.stor false) tid s)
    (h : Runs.Path (taped c peer tid) (StartsAt tid k) (s, Tape.start bs) q) :
    (Proceeds c tid q ∧ Received peer q.2) ∧ (q.1.threads tid = none →
      (FTP_TRANSFEROK ∈ q.2.codes ↔ q.2.Complete) ∧
      (FTP_TRANSFEROK ∈ q.2.codes →
        q.2.file.bytes = if k = 0 then q.2.data else ByteFile.overlay 0 bs k q.2.data)) := by
  have hup : Uploading false bs k (q.1.threads tid) q.2 :=
    uploading_run hb h fun s g env th hd hth _ => hd rfl th (Option.mem_toList.mpr hth)
  refine ⟨⟨begun_proceeds hb h, received_run hb h⟩, fun hnone => ?_⟩
  rw [hnone] at hup
  obtain ⟨hiff, hbytes⟩ := acknowledged_iff hup
  refine ⟨hiff, fun hyes => (hbytes hyes).trans ?_⟩
  show ByteFile.overlay 0 (uploadBase false k bs) k q.2.data = _
  unfold uploadBase
  by_cases hk : k = 0
  · rw [if_pos ⟨rfl, hk⟩, if_pos hk, hk, ByteFile.overlay_start, List.drop_nil, List.append_nil]
  · rw [if_neg fun h => hk h.2, if_neg hk]

/-- **An appending upload** writes over the start of the file: it keeps what was there exactly when there was
nothing, or nothing has come. -/
theorem append_iff (hb : Begun (.stor true) tid s)
    (h : Runs.Path (taped c peer tid) Runs.Any (s, Tape.start bs) q) :
    (Proceeds c tid q ∧ Received peer q.2) ∧ (q.1.threads tid = none → FTP_TRANSFEROK ∈ q.2.codes →
      (q.2.file.bytes = bs ++ q.2.data ↔ bs = [] ∨ q.2.data = [])) := by
  have hup : Uploading true bs 0 (q.1.threads tid) q.2 :=
    uploading_run hb h fun s g env th _ _ hfalse => Bool.noConfusion hfalse
  refine ⟨⟨begun_proceeds hb h, received_run hb h⟩, fun hnone hyes => ?_⟩
  rw [hnone] at hup
  have hbytes : q.2.file.bytes = q.2.data ++ bs.drop q.2.data.length := by
    rw [(acknowledged_iff hup).2 hyes]
    exact ByteFile.overlay_start
  rw [hbytes]
  constructor
  · intro e
    have hlen := congrArg List.length e
    rw [List.length_append, List.length_append, List.length_drop] at hlen
    by_cases hempty : bs.length = 0
    · exact Or.inl (List.eq_nil_of_length_eq_zero hempty)
    · exact Or.inr (List.eq_nil_of_length_eq_zero (by omega))
  · rintro (rfl | e)
    · simp
    · rw [e]
      simp

end

/-- an upload of two bytes, which takes `enter` steps up to 150; one `write` is short, and one is interrupted -/
def twoBytes (enter : Nat) : List Label :=
  threadSteps 0 enter ++
    [.thread 0 { sampleTEnv with read := .ok 2 }, .thread 0 { sampleTEnv with write := .ok 1 },
      .thread 0 { sampleTEnv with write := .intr }, .thread 0 { sampleTEnv with write := .ok 1 }] ++
    threadSteps 0 8

/-- the peer sends `xy` -/
def twoPeer (i : Nat) : UInt8 := (ascii "xy").getD i 0

/-- an upload from the offset 2 -/
theorem upload_content_two : ∃ s q, Begun (.stor false) 0 s ∧
    Runs.Path (taped sampleConf twoPeer 0) (StartsAt 0 2) (s, Tape.start (ascii "abcdef")) q ∧
    q.1.threads 0 = none ∧ FTP_TRANSFEROK ∈ q.2.codes ∧ q.2.data = ascii "xy" ∧ q.2.file.bytes = ascii "abxyef" := by
  obtain ⟨s, q, hb, hq, ht⟩ := sample_transfer (.stor false) twoPeer (ascii "abcdef")
    (dataReady 5 ++ sends 5 "REST 2" ++ sends 5 "STOR f") (twoBytes 7) (StartsAt 0 2)
    (fun q => (q.1.threads 0).isNone && decide (FTP_TRANSFEROK ∈ q.2.codes ∧ q.2.data = ascii "xy"))
    (by decide +kernel)
  rw [Bool.and_eq_true, Option.isNone_iff_eq_none, decide_eq_true_eq] at ht
  obtain ⟨hnone, hyes, hdata⟩ := ht
  have hbytes := ((upload_content hb hq).2 hnone).2 hyes
  rw [hdata] at hbytes
  exact ⟨s, q, hb, hq, hnone, hyes, hdata, hbytes.trans (by decide)⟩

/-- **No byte comes for an offset behind the end** of the file: the file is not filled up to the offset. -/
theorem upload_gap : ¬ ∀ c peer tid k s bs q, Begun (.stor false) tid s →
    Runs.Path (taped c peer tid) (StartsAt tid k) (s, Tape.start bs) q → q.1.threads tid = none →
    FTP_TRANSFEROK ∈ q.2.codes → q.2.file.bytes = if k = 0 then q.2.data else
      bs.take k ++ List.replicate (k - bs.length) 0 ++ q.2.data ++ bs.drop (k + q.2.data.length) := by
  intro h
  obtain ⟨s, q, hb, hq, ht⟩ := sample_transfer (.stor false) twoPeer (ascii "a")
    (dataReady 5 ++ sends 5 "REST 5" ++ sends 5 "STOR f") (threadSteps 0 15) (StartsAt 0 5)
    (fun q => (q.1.threads 0).isNone && decide (FTP_TRANSFEROK ∈ q.2.codes ∧ q.2.data = [] ∧
      q.2.file.bytes = ascii "a"))
    (by decide +kernel)
  rw [Bool.and_eq_true, Option.isNone_iff_eq_none, decide_eq_true_eq] at ht
  obtain ⟨hnone, hyes, hdata, hbytes⟩ := ht
  have hfull := h _ _ _ _ _ _ _ hb hq hnone hyes
  rw [hdata, hbytes] at hfull
  exact absurd hfull (by decide)

theorem sample_append (peer : Nat → UInt8) (bs : List UInt8) (ls ls' : List Label) (t : Server × Tape → Bool)
    (h : (play sampleConf Runs.Any sampleBoot ls).any (fun s =>
      (s.threads 0).any fun th => decide (th.pc = .offset) &&
        (playNoted sampleConf (taping peer 0) Runs.Any (setThread 0 s { th with kind := .stor true }, Tape.start bs)
          ls').any t) = true) :
    ∃ s q, Begun (.stor true) 0 s ∧
      Runs.Path (taped sampleConf peer 0) Runs.Any (s, Tape.start bs) q ∧ t q = true := by
  obtain ⟨s, hs, hp⟩ := reach_of_play (sampleReach Runs.Any) h
  obtain ⟨th, hth, hp⟩ := (Option.any_eq_true _ _).mp hp
  rw [Bool.and_eq_true, decide_eq_true_eq] at hp
  obtain ⟨hpc, hplay⟩ := hp
  obtain ⟨q, hq, ht⟩ : ∃ q, Runs.Trail (taped sampleConf peer 0) Runs.Any _ ls' q ∧ t q = true := trail_of_play hplay
  have hledger : (setThread 0 s { th with kind := .stor true }).ledger = s.ledger := by
    rw [setThread_ledger]
    show { s.ledger with workers := Function.update s.ledger.workers 0 (some th.worker) } = s.ledger
    rw [← ledger_worker hth, Function.update_eq_self]
  have hself : (setThread 0 s { th with kind := .stor true }).threads 0 = some { th with kind := .stor true } := by
    simp [setThread]
  have hnumbered : (setThread 0 s { th with kind := .stor true }).ledger.Numbered := by
    rw [hledger]
    exact numbered_reach hs
  have habor : NoAbor s := noAbor_reach hs
  exact ⟨_, q, ⟨⟨_, hself, rfl, hpc⟩, hnumbered, habor⟩, hq.path, ht⟩

/-- the file was empty -/
theorem append_iff_empty : ∃ s q, Begun (.stor true) 0 s ∧
    Runs.Path (taped sampleConf twoPeer 0) Runs.Any (s, Tape.start []) q ∧
    q.1.threads 0 = none ∧ FTP_TRANSFEROK ∈ q.2.codes ∧ q.2.data = ascii "xy" ∧ q.2.file.bytes = [] ++ q.2.data := by
  obtain ⟨s, q, hb, hq, ht⟩ := sample_append twoPeer ([])
    (dataReady 5 ++ sends 5 "STOR f") (twoBytes 7)
    (fun q => (q.1.threads 0).isNone && decide (FTP_TRANSFEROK ∈ q.2.codes ∧ q.2.data = ascii "xy"))
    (by decide +kernel)
  rw [Bool.and_eq_true, Option.isNone_iff_eq_none, decide_eq_true_eq] at ht
  obtain ⟨hnone, hyes, hdata⟩ := ht
  exact ⟨s, q, hb, hq, hnone, hyes, hdata, ((append_iff hb hq).2 hnone hyes).mpr (Or.inl rfl)⟩

/-- **Two bytes appended to six** replace the first two. -/
theorem append_over : ¬ ∀ c peer tid s bs q, Begun (.stor true) tid s →
    Runs.Path (taped c peer tid) Runs.Any (s, Tape.start bs) q → q.1.threads tid = none →
    FTP_TRANSFEROK ∈ q.2.codes → q.2.file.bytes = bs ++ q.2.data := by
  intro h
  obtain ⟨s, q, hb, hq, ht⟩ := sample_append twoPeer (ascii "abcdef")
    (dataReady 5 ++ sends 5 "STOR f") (twoBytes 7)
    (fun q => (q.1.threads 0).isNone && decide (FTP_TRANSFEROK ∈ q.2.codes ∧ q.2.data = ascii "xy" ∧
      q.2.file.bytes = ascii "xycdef"))
    (by decide +kernel)
  rw [Bool.and_eq_true, Option.isNone_iff_eq_none, decide_eq_true_eq] at ht
  obtain ⟨hnone, hyes, hdata, hbytes⟩ := ht
  have hall := h _ _ _ _ _ _ hb hq hnone hyes
  rw [hdata, hbytes] at hall
  exact absurd hall (by decide)

end Myftpd
