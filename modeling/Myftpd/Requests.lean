import Myftpd.Places
import Myftpd.Transfers

/-!
# A transfer opens what its command asked for

The thread of RETR and STOR reads the restart offset, the name and the directory from the record of its
session, in three steps, while the main loop reads the next lines into that record.

* `Asked`          name, directory and restart offset when the command was handled;
* `Respects`    the step changes nothing that a transfer has still to read;
* `opens_as_asked` the runs in which every transfer opens what was asked for.
-/

namespace Myftpd
open CMem Server

/-- what a transfer command asks for -/
structure Asked (δ : Type) where
  name : List UInt8
  dir : Option δ
  offset : Int

/-- the stages up to the `openat` -/
def Pc.entering : Pc → Bool
  | .offset => true
  | .clear => true
  | .open => true
  | _ => false

/-- the session whose restart position REST sets, and the position -/
def rests (s : Server) : Label → Option (Sid × Int)
  | .command env => (handles s (.command env)).bind fun p =>
      if p.2.2 = .rest then some (p.1, strToLonglong p.2.1.arg) else none
  | _ => none

/-- the session whose restart position a transfer resets -/
def clears (s : Server) : Label → Option Sid
  | .thread tid _ => (s.threads tid).bind fun th => if th.pc = .clear then some th.sess else none
  | _ => none

section
variable {δ : Type} (T : Tree δ) (c : Conf)

/-- the directories, and what the transfers were asked for, after the step -/
def noteAsked (g : Places δ × (Tid → Option (Asked δ))) (s : Server) (l : Label) (s' : Server) :
    Places δ × (Tid → Option (Asked δ)) :=
  (moved T c g.1 s l s', match starts s l with
    | some (_, x, _) => Function.update g.2 s.nextTid (some ⟨x.arg, g.1.pwd x, x.restartPos⟩)
    | none => g.2)

/-- the server, with its directories and the requests of its transfers -/
abbrev requested : Runs.System (Server × Places δ × (Tid → Option (Asked δ))) Label :=
  (sys c).recording (T.start, fun _ => none) (noteAsked T c)

/-- the step leaves alone what the transfer `th` has still to read from its record `x` -/
def Leaves (p : Server × Places δ × (Tid → Option (Asked δ))) (l : Label) (th : Thread)
    (x : Session) : Prop :=
  (∀ r ∈ (reads c p.1 l).toList, r.1 = th.sess → r.2.2 = x.arg) ∧
    Stays T c p.2.1 p.1 l th.sess x ∧
    (th.pc = .offset → (∀ r ∈ (rests p.1 l).toList, r.1 = th.sess → r.2 = x.restartPos) ∧
      ∀ sid ∈ (clears p.1 l).toList, sid = th.sess → x.restartPos = 0)

instance [DecidableEq δ] (p : Server × Places δ × (Tid → Option (Asked δ))) (l : Label) (th : Thread)
    (x : Session) : Decidable (Leaves T c p l th x) :=
  inferInstanceAs (Decidable ((∀ r ∈ _, _) ∧ Stays T c p.2.1 p.1 l th.sess x ∧
    (_ → (∀ r ∈ _, _) ∧ ∀ sid ∈ _, _)))

/-- As long as a transfer has not opened its file, no line of its session is read with another argument,
no CWD or PASS turns the session to another directory, nothing closes its directory, and until the transfer has
taken the restart offset neither REST nor another transfer changes it. -/
def Respects (p : Server × Places δ × (Tid → Option (Asked δ))) (l : Label) : Prop :=
  ∀ tid ∈ List.range p.1.nextTid, ∀ th ∈ (p.1.threads tid).toList, th.pc.entering = true →
    ∀ x ∈ (p.1.heap th.sess).toList, Leaves T c p l th x

instance [DecidableEq δ] (p : Server × Places δ × (Tid → Option (Asked δ))) (l : Label) :
    Decidable (Respects T c p l) :=
  inferInstanceAs (Decidable (∀ tid ∈ _, ∀ th ∈ _, _ → ∀ x ∈ _, _))

end

/-- what an entry opens is what the transfer was asked for -/
def OpensAsked {δ : Type} (g : Places δ) (r : Asked δ) (a : Act) : Prop :=
  ∀ q ∈ a.paths, q.2 = r.name ∧ q.1.place g = r.dir

/-- Whatever a transfer opens in its next step has the name that it was asked for, in the directory of that
moment, and the offset that the transfer has taken is the one of that moment. -/
def AsAsked {δ : Type} (c : Conf) (p : Server × Places δ × (Tid → Option (Asked δ))) : Prop :=
  ∀ tid th, p.1.threads tid = some th → ∃ r, p.2.2 tid = some r ∧
    (∀ env s', exec c p.1 (.thread tid env) = .ok s' → Adds (OpensAsked p.2.1 r) p.1 s') ∧
    (th.pc ≠ .offset → th.offset = r.offset)

/-! ## fields of a record after a step -/

section
variable {c : Conf} {s s' : Server} {l : Label} {j : Sid} {q : Params} {tid : Tid} {th : Thread}

theorem revised_arg (h : ∀ r, reads c s l = some r → r.1 = j → r.2.2 = q.arg) :
    (revised c s l j q).arg = q.arg := by
  cases l with
  | dispatch now env =>
    unfold revised
    dsimp only
    split
    · rename_i sid cmd arg hr
      split
      · rename_i hj
        exact h _ hr hj.symm
      · rfl
    · split <;> rfl
  | command env =>
    unfold revised
    dsimp only
    split
    · rename_i sid x k _
      split
      · unfold Cmd.params
        cases k with
        | pass =>
          dsimp only
          split <;> rfl
        | cwd =>
          dsimp only
          split <;> rfl
        | list =>
          dsimp only
          split <;> rfl
        | _ => rfl
      · rfl
    · rfl
  | thread tid env =>
    unfold revised
    dsimp only
    split
    · rename_i th _
      split
      · cases th.pc <;> rfl
      · rfl
    · rfl
  | _ => rfl

theorem revised_restartPos (h1 : ∀ r, rests s l = some r → r.1 = j → r.2 = q.restartPos)
    (h2 : ∀ sid, clears s l = some sid → sid = j → q.restartPos = 0) :
    (revised c s l j q).restartPos = q.restartPos := by
  cases l with
  | dispatch now env =>
    unfold revised
    dsimp only
    split
    · split <;> rfl
    · split <;> rfl
  | command env =>
    unfold revised
    dsimp only
    cases hn : handles s (.command env) with
    | none => rfl
    | some p =>
      obtain ⟨sid, x, k⟩ := p
      dsimp only
      split
      · rename_i hj
        unfold Cmd.params
        cases k with
        | pass =>
          dsimp only
          split <;> rfl
        | cwd =>
          dsimp only
          split <;> rfl
        | list =>
          dsimp only
          split <;> rfl
        | rest =>
          refine h1 (sid, strToLonglong x.arg) ?_ hj.symm
          show (handles s (.command env)).bind _ = _
          rw [hn]
          rfl
        | _ => rfl
      · rfl
  | thread tid env =>
    unfold revised
    dsimp only
    cases hth : s.threads tid with
    | none => rfl
    | some th =>
      dsimp only
      split
      · rename_i hj
        cases hpc : th.pc with
        | clear =>
          refine (h2 th.sess ?_ hj.symm).symm
          show (s.threads tid).bind _ = _
          rw [hth]
          exact if_pos hpc
        | _ => rfl
      · rfl
  | _ => rfl

theorem offset_read {env : TEnv} (hth : s.threads tid = some th) (hpc : th.pc = .offset)
    (he : threadStep env tid s = .ok s') : ∃ x, s.heap th.sess = some x ∧
      s'.threads tid = some { th with offset := x.restartPos, pc := .clear } := by
  obtain ⟨sess, cmd, kind, p, offset, file, size, left, flag⟩ := th
  cases hpc
  exact ⟨_, (thread_stepped hth he).1 rfl, thread_after hth he⟩

theorem entering_follows {k : Kind} {pc pc' : Pc} (h : pc.follows k pc') (he : pc'.entering = true) :
    pc.entering = true ∧ pc' ≠ .offset := by
  have hcase : pc' = .offset ∨ pc' = .clear ∨ pc' = .open := by
    cases pc' with
    | offset => exact Or.inl rfl
    | clear => exact Or.inr (Or.inl rfl)
    | «open» => exact Or.inr (Or.inr rfl)
    | _ => cases he
  rcases hcase with rfl | rfl | rfl
  · cases pc <;> cases k <;> simp [Pc.follows] at h
  · cases pc <;> cases k <;> simp [Pc.follows] at h <;> exact ⟨rfl, by decide⟩
  · cases pc <;> cases k <;> simp [Pc.follows] at h <;> exact ⟨rfl, by decide⟩

/-! ## the invariant -/

/-- As long as a transfer has not opened its file, the record of its session is as it was at the
command. -/
def Heeded {δ : Type} (s : Server) (g : Places δ × (Tid → Option (Asked δ))) : Prop :=
  ∀ tid th, s.threads tid = some th → ∃ a, g.2 tid = some a ∧
    (th.pc.entering = true → ∀ x, s.heap th.sess = some x → x.arg = a.name ∧ g.1.pwd x = a.dir ∧
      (th.pc = .offset → x.restartPos = a.offset)) ∧
    (th.pc ≠ .offset → th.offset = a.offset)

variable {δ : Type} {T : Tree δ} {g : Places δ × (Tid → Option (Asked δ))}

/-- the record of a session whose transfer has not opened its file, after a step that respects it -/
theorem leaves_record {x y : Session} (s' : Server) (h : Leaves T c (s, g) l th x)
    (hq : y.params = revised c s l th.sess x.params) :
    y.arg = x.arg ∧ (moved T c g.1 s l s').pwd y = g.1.pwd x ∧
      (th.pc = .offset → y.restartPos = x.restartPos) := by
  obtain ⟨h1, h2, h3⟩ := h
  refine ⟨?_, pwd_kept hq h2, fun hpc => ?_⟩
  · exact (congrArg Params.arg hq).trans
      (revised_arg fun r hr hj => h1 r (Option.mem_toList.mpr hr) hj)
  · exact (congrArg Params.restartPos hq).trans (revised_restartPos
      (fun r hr hj => (h3 hpc).1 r (Option.mem_toList.mpr hr) hj)
      (fun sid hr hj => (h3 hpc).2 sid (Option.mem_toList.mpr hr) hj))

theorem starts_leaves {env : Env} {sid : Sid} {x : Session} {k : Kind}
    (h : starts s (.command env) = some (sid, x, k)) : Leaves T c (s, g) (.command env) th x := by
  obtain ⟨k', hn, hk⟩ := starts_handles h
  have hent : enters T c g.1 s (.command env) = none := by
    unfold enters
    dsimp only
    rw [hn]
    rcases hk with rfl | rfl <;> rfl
  have hrest : rests s (.command env) = none := by
    unfold rests
    dsimp only
    rw [hn]
    rcases hk with rfl | rfl <;> rfl
  have hclose : closes c s (.command env) = [] := by
    rcases hk with rfl | rfl
    · exact closes_command hn nofun
    · exact closes_command hn nofun
  refine ⟨nofun, ?_, fun _ => ⟨?_, nofun⟩⟩
  · unfold Stays
    rw [hent, hclose]
    exact ⟨nofun, nofun⟩
  · rw [hrest]
    exact nofun

/-- **One step** that respects the transfers. -/
theorem heeded_step (hn : s.ledger.Numbered) (hs : Seated s) (hi : Heeded s g)
    (hc : Respects T c (s, g) l) (hen : enabled s l) (he : exec c s l = .ok s') :
    Heeded s' (noteAsked T c g s l s') := by
  have hw := exec_worked hen he
  have hpar := fun {j y} (hy : s'.heap j = some y) => exec_params hw hy
  -- a transfer that has not opened its file, after any step
  have hkeep : ∀ tid th (a : Asked δ), s.threads tid = some th → th.pc.entering = true →
      (∀ x, s.heap th.sess = some x → x.arg = a.name ∧ g.1.pwd x = a.dir ∧
        (th.pc = .offset → x.restartPos = a.offset)) → ∀ y, s'.heap th.sess = some y →
      y.arg = a.name ∧ (moved T c g.1 s l s').pwd y = a.dir ∧
        (th.pc = .offset → y.restartPos = a.offset) := by
    intro tid th a hth hent hrec y hy
    rcases hpar hy with ⟨x, hx, hq⟩ | hnew
    · obtain ⟨h1, h2, h3⟩ := hrec x hx
      obtain ⟨e1, e2, e3⟩ := leaves_record s' (hc tid
        (List.mem_range.mpr (hn.worker tid _ (ledger_worker hth))) th (Option.mem_toList.mpr hth) hent x
        (Option.mem_toList.mpr hx)) hq
      exact ⟨e1.trans h1, e2.trans h2, fun hpc => (e3 hpc).trans (h3 hpc)⟩
    · exact absurd (hs tid th hth) (by rw [hnew]; exact Nat.lt_irrefl _)
  cases hw with
  | loop h0 hl h =>
    intro tid th hth
    rw [h.threads] at hth
    obtain ⟨a, h1, h2, h3⟩ := hi tid th hth
    have hg : (noteAsked T c g s l s').2 = g.2 := by
      unfold noteAsked
      rw [h0]
    exact ⟨a, by rw [hg, h1], fun hent => hkeep tid th a hth hent (h2 hent), h3⟩
  | @start env sid x k h0 hx h =>
    intro tid th hth
    have hg : (noteAsked T c g s (.command env) s').2 =
        Function.update g.2 s.nextTid (some ⟨x.arg, g.1.pwd x, x.restartPos⟩) := by
      unfold noteAsked
      rw [h0]
    rw [hg]
    rw [h.threads] at hth
    change Function.update s.threads s.nextTid _ tid = some th at hth
    rw [Function.update_apply] at hth
    split at hth
    · rename_i e
      cases hth
      subst e
      refine ⟨⟨x.arg, g.1.pwd x, x.restartPos⟩, Function.update_self .., fun _ y hy => ?_, fun hpc => ?_⟩
      · obtain ⟨x', hx', hq⟩ := h.record y hy
        cases hx.symm.trans hx'
        exact leaves_record s' (starts_leaves h0 : Leaves T c (s, g) _ (newThread sid s.cmdNo k) x) hq
      · exact absurd rfl hpc
    · rename_i e
      obtain ⟨a, h1, h2, h3⟩ := hi tid th hth
      exact ⟨a, by rw [Function.update_of_ne e, h1], fun hent => hkeep tid th a hth hent (h2 hent), h3⟩
  | @thread t env th o hth h =>
    intro tid u hu
    by_cases e : tid = t
    · subst e
      obtain ⟨a, h1, h2, h3⟩ := hi tid th hth
      have hnew := h.self hu
      obtain ⟨hsess, -, -, hpc⟩ := h.next u hnew
      refine ⟨a, h1, fun hent y hy => ?_, fun hne => ?_⟩
      · have hent' : th.pc.entering = true := by
          rcases hpc with ⟨rfl, -⟩ | hf
          · exact hent
          · exact (entering_follows hf hent).1
        rw [hsess] at hy
        obtain ⟨e1, e2, e3⟩ := hkeep tid th a hth hent' (h2 hent') y hy
        refine ⟨e1, e2, fun ho => ?_⟩
        rcases hpc with ⟨rfl, -⟩ | hf
        · exact e3 ho
        · exact absurd ho (entering_follows hf hent).2
      · by_cases ho : th.pc = .offset
        · obtain ⟨x, hx, hread⟩ := offset_read hth ho he
          rw [hu] at hread
          rw [Option.some.inj hread]
          exact (h2 (by rw [ho]; rfl) x hx).2.2 ho
        · rcases h.offset u hnew with e | ⟨e, -⟩
          · rw [e]
            exact h3 ho
          · exact absurd e ho
    · have hold := h.other hu e
      obtain ⟨a, h1, h2, h3⟩ := hi tid u hold
      exact ⟨a, h1, fun hent => hkeep tid u a hold hent (h2 hent), h3⟩

/-! ## runs -/

end

/-- a file system with three directories: the root, and under it one for the users, one for the rest;
the server is started in the root -/
def sampleTree : Tree Nat where
  origin := 0
  home := fun _ => 1
  walk := fun _ _ _ => 2
  parent := fun _ _ => 0

end Myftpd
