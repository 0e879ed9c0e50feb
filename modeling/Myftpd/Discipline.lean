import Myftpd.Tape
import Myftpd.Effect

/-!
# The replies of a transfer and its data

A transfer is refused with one reply, or it is opened with 150, carries its data, and is closed with one reply.

* `Tape.loud`     the replies and the moves of data, in their order;
* `Disciplined`   the two forms that they can have;
* `transfer_told` every transfer that returns has one of them.
-/

namespace Myftpd
open CMem Server

def Deed.moves : Deed → Bool
  | .sent n => decide (n ≠ 0)
  | .got n => decide (n ≠ 0)
  | _ => false

def Deed.isReply : Deed → Bool
  | .reply _ => true
  | _ => false

/-- the replies and the moves of data -/
def Tape.loud (g : Tape) : List Deed := g.tale.filter fun d => d.isReply || d.moves

/-- One reply that refuses the transfer, or 150, the moves of data, and one of 226, 426 and 451. -/
def Disciplined (k : Kind) (ds : List Deed) : Prop :=
  ds = [.reply (failReply k).1] ∨ ∃ ms code, ds = .reply FTP_DATACONN :: ms ++ [.reply code] ∧
    (∀ d ∈ ms, d.moves = true) ∧
    (code = FTP_TRANSFEROK ∨ code = FTP_BADSENDNET ∨ code = FTP_BADSENDFILE)

/-- what a transfer has said and moved when it stands at a stage, or has returned -/
def Spoken (k : Kind) (o : Option Thread) (g : Tape) : Prop :=
  match o with
  | none => Disciplined k g.loud
  | some th => th.kind = k ∧ (th.pc.said = 0 → g.loud = []) ∧
    (th.pc.said = 1 → th.flag ≤ 2 ∧ ∃ ms, g.loud = .reply FTP_DATACONN :: ms ∧ ∀ d ∈ ms, d.moves = true) ∧
    (th.pc.said = 2 → Disciplined k g.loud)

section
variable {c : Conf} {peer : Nat → UInt8} {env : TEnv} {tid : Tid} {th : Thread} {s : Server} {x : Session} {fd : Fd}
  {g : Tape} {k : Kind} {D : Server × Tape → Label → Prop} {q : Server × Tape} {bs : List UInt8}

/-! ## one step -/

theorem codes_loud : g.codes = g.loud.filterMap Deed.code := by
  unfold Tape.codes Tape.loud
  rw [List.filterMap_filter]
  apply List.filterMap_congr
  intro d _
  cases d with
  | reply code => rfl
  | _ => exact (ite_self none).symm

theorem moves_code {ms : List Deed} (h : ∀ d ∈ ms, d.moves = true) : ms.filterMap Deed.code = [] := by
  apply List.filterMap_eq_nil_iff.mpr
  intro d hd
  cases d with
  | reply code => exact absurd (h _ hd) Bool.false_ne_true
  | _ => rfl

theorem calls_still (h : th.pc ≠ .loop) : (th.calls env x).filter (fun d => d.isReply || d.moves) = [] := by
  unfold Thread.calls
  split
  · split <;> rfl
  · split <;> rfl
  · split <;> rfl
  · rename_i e _
    exact absurd e h
  · rename_i e _
    exact absurd e h
  · split <;> rfl
  · rfl

theorem calls_moving : ∀ d ∈ (th.calls env x).filter (fun d => d.isReply || d.moves), d.moves = true := by
  intro d hd
  obtain ⟨hd, hl⟩ := List.mem_filter.mp hd
  have hreply : d.isReply = false := by
    unfold Thread.calls at hd
    repeat' split at hd
    all_goals first
      | exact absurd hd List.not_mem_nil
      | (cases List.mem_singleton.mp hd; rfl)
  rw [hreply, Bool.false_or] at hl
  exact hl

theorem turn_loud : (g.turn peer (th.deeds env x)).loud =
    g.loud ++ (th.calls env x).filter (fun d => d.isReply || d.moves) ++ (th.tells env x).map .reply := by
  have hreplies : ((th.tells env x).map Deed.reply).filter (fun d => d.isReply || d.moves) =
      (th.tells env x).map .reply := by
    apply List.filter_eq_self.mpr
    intro d hd
    obtain ⟨code, -, rfl⟩ := List.mem_map.mp hd
    rfl
  unfold Tape.loud Thread.deeds
  rw [turn_tale, List.filter_append, List.filter_append, hreplies, List.append_assoc]

theorem spoken_refused (h : Spoken k (some th) g) (hr : th.refused env x = true) :
    Disciplined k (g.turn peer (th.deeds env x)).loud := by
  obtain ⟨hk, h0, -, -⟩ := h
  have hpc : th.pc ≠ .loop := by
    intro e
    have hp := refused_refuses hr
    rw [e] at hp
    cases hp
  have htells : th.tells env x = [(failReply th.kind).1] := if_pos hr
  left
  rw [turn_loud, h0 (refuses_said (refused_refuses hr)), calls_still hpc, htells, hk]
  rfl

theorem verdict_told (hf : th.flag ≤ 2) (ha : x.aborReceived = false) : ∃ code, th.verdict x = some code ∧
    (code = FTP_TRANSFEROK ∨ code = FTP_BADSENDNET ∨ code = FTP_BADSENDFILE) := by
  unfold Thread.verdict
  split
  · exact ⟨_, rfl, Or.inl rfl⟩
  · rename_i h0
    split
    · exact ⟨_, rfl, Or.inr (Or.inr rfl)⟩
    · split
      · exact ⟨_, rfl, Or.inr (Or.inl rfl)⟩
      · have hz : th.flag = 0 := by omega
        exact absurd ⟨hz, ha⟩ h0

theorem goes_flag (h : th.flag ≤ 2) : (th.goes env x fd).flag ≤ 2 := by
  unfold Thread.goes
  repeat' split
  all_goals first | exact h | exact Nat.zero_le 2 | exact Nat.le_refl 2 | exact Nat.le_succ 1

theorem said_goes (h1 : th.pc ≠ .opening) (h2 : th.pc ≠ .final) :
    (th.goes env x fd).pc.said = th.pc.said := by
  unfold Thread.goes
  repeat' split
  all_goals first
    | rfl
    | simp_all [Pc.said]

theorem spoken_goes (h : Spoken k (some th) g) (hr : th.refused env x = false) (ha : x.aborReceived = false) :
    Spoken k (some (th.goes env x fd)) (g.turn peer (th.deeds env x)) := by
  obtain ⟨hk, h0, h1, h2⟩ := h
  have hkind : (th.goes env x fd).kind = k := goes_kind.trans hk
  by_cases hop : th.pc = .opening
  · have hgoes : (th.goes env x fd).pc = .loop ∧ (th.goes env x fd).flag = 0 := by
      rw [goes_opening hop]
      exact ⟨rfl, rfl⟩
    have htells : th.tells env x = [FTP_DATACONN] := by
      unfold Thread.tells
      rw [hr, hop]
      rfl
    have hloud : (g.turn peer (th.deeds env x)).loud = [.reply FTP_DATACONN] := by
      rw [turn_loud, h0 (by rw [hop]; rfl), calls_still (by rw [hop]; nofun), htells]
      rfl
    refine ⟨hkind, ?_, ?_, ?_⟩
    · rw [hgoes.1]
      nofun
    · intro _
      exact ⟨by rw [hgoes.2]; exact Nat.zero_le 2, [], hloud, nofun⟩
    · rw [hgoes.1]
      nofun
  by_cases hfi : th.pc = .final
  · obtain ⟨hf, ms, hms, hmove⟩ := h1 (by rw [hfi]; rfl)
    obtain ⟨code, hv, hcode⟩ := verdict_told hf ha
    have hgoes : (th.goes env x fd).pc = .checkAbor := by rw [goes_final hfi]
    have htells : th.tells env x = [code] := by
      unfold Thread.tells
      rw [hr, hfi]
      show (th.verdict x).toList = _
      rw [hv]
      rfl
    have hloud : (g.turn peer (th.deeds env x)).loud = .reply FTP_DATACONN :: ms ++ [.reply code] := by
      rw [turn_loud, hms, calls_still (by rw [hfi]; nofun), htells, List.append_nil]
      rfl
    refine ⟨hkind, ?_, ?_, fun _ => Or.inr ⟨ms, code, hloud, hmove, hcode⟩⟩
    · rw [hgoes]
      nofun
    · rw [hgoes]
      nofun
  · have htells : th.tells env x = [] := by
      unfold Thread.tells
      rw [hr]
      cases hpc : th.pc with
      | opening => exact absurd hpc hop
      | final => exact absurd hpc hfi
      | _ => rfl
    have hloud : (g.turn peer (th.deeds env x)).loud =
        g.loud ++ (th.calls env x).filter (fun d => d.isReply || d.moves) := by
      rw [turn_loud, htells]
      exact List.append_nil _
    have hsaid : (th.goes env x fd).pc.said = th.pc.said := said_goes hop hfi
    have hstill : th.pc.said ≠ 1 → (g.turn peer (th.deeds env x)).loud = g.loud := by
      intro hne
      rw [hloud, calls_still (fun e => hne (by rw [e]; rfl)), List.append_nil]
    refine ⟨hkind, ?_, ?_, ?_⟩
    · intro e
      rw [hsaid] at e
      rw [hstill (by omega), h0 e]
    · intro e
      rw [hsaid] at e
      obtain ⟨hf, ms, hms, hmove⟩ := h1 e
      refine ⟨goes_flag hf, ms ++ (th.calls env x).filter (fun d => d.isReply || d.moves), ?_, ?_⟩
      · rw [hloud, hms]
        rfl
      · intro d hd
        exact (List.mem_append.mp hd).elim (hmove d) (calls_moving d)
    · intro e
      rw [hsaid] at e
      rw [hstill (by omega)]
      exact h2 e

theorem spoken_step (h : Spoken k (some th) g) (ha : x.aborReceived = false) :
    Spoken k (th.after env x fd) (g.turn peer (th.deeds env x)) := by
  cases hr : th.refused env x with
  | true =>
    rw [after_refused hr]
    exact spoken_refused h hr
  | false =>
    by_cases hpc : th.pc = .checkAbor
    · have htells : th.tells env x = [] := by
        unfold Thread.tells
        rw [hr, hpc]
        rfl
      have hloud : (g.turn peer (th.deeds env x)).loud = g.loud := by
        rw [turn_loud, calls_still (by rw [hpc]; nofun), htells, List.append_nil]
        exact List.append_nil _
      rw [after_done hpc]
      show Disciplined k (g.turn peer (th.deeds env x)).loud
      rw [hloud]
      exact h.2.2.2 (by rw [hpc]; rfl)
    · rw [after_on hpc hr]
      exact spoken_goes h hr ha

/-! ## a whole transfer -/

theorem spoken_run (hb : Begun k tid s) (h : Runs.Path (taped c peer tid) D (s, Tape.start bs) q) :
    Spoken k (q.1.threads tid) q.2 :=
  hb.inv (I := Spoken k) h
    (fun th hk hpc => ⟨hk, fun _ => rfl, by rw [hpc]; nofun, by rw [hpc]; nofun⟩)
    fun s g env th ha _ _ hi => spoken_step hi (seen_abor ha _)

/-- **The replies of a transfer and its data**, for every run of the server around it and whatever the calls of the
thread return. -/
theorem transfer_told (hb : Begun k tid s) (h : Runs.Path (taped c peer tid) Runs.Any (s, Tape.start bs) q) :
    Proceeds c tid q ∧ (q.1.threads tid = none → Disciplined k q.2.loud) := by
  refine ⟨begun_proceeds hb h, fun hnone => ?_⟩
  have hspoken : Spoken k (q.1.threads tid) q.2 := spoken_run hb h
  rw [hnone] at hspoken
  exact hspoken

end

/-- a download of four bytes -/
theorem transfer_told_retr : ∃ s q, Begun .retr 0 s ∧
    Runs.Path (taped sampleConf (fun _ => 0) 0) Runs.Any (s, Tape.start (ascii "abcd")) q ∧
    q.1.threads 0 = none ∧ q.2.data ≠ [] ∧ Disciplined .retr q.2.loud := by
  obtain ⟨s, q, hb, hq, ht⟩ := sample_transfer .retr (fun _ => 0) (ascii "abcd")
    retrRun (List.replicate 16 (.thread 0 { sampleTEnv with fstat := (true, 4), sendfile := some 3 }))
    Runs.Any (fun q => (q.1.threads 0).isNone && decide (q.2.data ≠ []))
    (by decide +kernel)
  rw [Bool.and_eq_true, Option.isNone_iff_eq_none, decide_eq_true_eq] at ht
  exact ⟨s, q, hb, hq, ht.1, ht.2, (transfer_told hb hq).2 ht.1⟩

end Myftpd
