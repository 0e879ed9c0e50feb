import Myftpd.Tape
import Myftpd.Transfers

/-!
# What a transfer leaves behind

After its loop a transfer thread removes the data connection and the listener, resets the two fields of the record
and closes its file.  A thread that returns before the loop does none of this.

* `Sweep`        what the thread has opened and closed, and the call at which it was refused;
* `CleanedUp`    what the routine owes to the server when it returns;
* `cleaned_iff`  the outcomes of the calls after which it has done that.
-/

namespace Myftpd
open CMem Server

/-- what a transfer thread has opened and closed -/
structure Sweep where
  opened : Option Fd         -- what `openat` has returned
  shut : List Fd             -- closed by the thread, and then neither open nor watched
  refused : Option Pc        -- the stage of the call that was refused
  deriving DecidableEq

def shutBy (c : Conf) (s : Server) (l : Label) (s' : Server) : List Fd :=
  (closes c s l).filter fun fd => (s'.fds.get fd).isNone && !s'.watch fd

/-- the account of the thread `tid` after a step of the server -/
def sweeping (c : Conf) (tid : Tid) (g : Sweep) (s : Server) (l : Label) (s' : Server) : Sweep :=
  match l with
  | .thread t env =>
    if t = tid then (s.threads tid).elim g fun th =>
      let refused := th.refused env (s.seen th.sess)
      { opened := if th.pc = .open ∧ refused = false then some s.fds.lowest else g.opened
        shut := g.shut ++ shutBy c s l s'
        refused := if refused = true then some th.pc else g.refused }
    else g
  | _ => g

/-- the server, with the account of the thread `tid` -/
abbrev swept (c : Conf) (tid : Tid) : Runs.System (Server × Sweep) Label :=
  (sys c).recording ⟨none, [], none⟩ (sweeping c tid)

def Label.by (tid : Tid) : Label → Bool
  | .thread t _ => decide (t = tid)
  | _ => false

/-- The two descriptor fields of the session are written by the thread `tid` only. -/
def OwnsFields (c : Conf) (tid : Tid) (sid : Sid) (p : Server × Sweep) (l : Label) : Prop :=
  l.by tid = true ∨ ∀ x ∈ (p.1.heap sid).toList,
    (rewritten c p.1 l sid x).dataFd = x.dataFd ∧ (rewritten c p.1 l sid x).pasvListenFd = x.pasvListenFd

instance (c : Conf) (tid : Tid) (sid : Sid) (p : Server × Sweep) (l : Label) : Decidable (OwnsFields c tid sid p l) :=
  inferInstanceAs (Decidable (_ ∨ ∀ x ∈ _, _))

/-- The thread `tid` of the session `sid` is about to run its routine; `data` and `pasv` are the two fields. -/
structure Enters (tid : Tid) (sid : Sid) (data pasv : Option Fd) (s : Server) : Prop where
  thread : ∃ th, s.threads tid = some th ∧ th.sess = sid ∧ th.pc = .offset ∧ th.file = none
  record : ∃ x, s.heap sid = some x ∧ x.dataFd = data ∧ x.pasvListenFd = pasv
  numbered : s.ledger.Numbered

/-- The file that was opened, the data connection and the listener have been closed, and the fields are reset. -/
structure CleanedUp (sid : Sid) (data pasv : Option Fd) (p : Server × Sweep) : Prop where
  file : ∀ fd ∈ p.2.opened, fd ∈ p.2.shut
  data : ∀ fd ∈ data, fd ∈ p.2.shut
  pasv : ∀ fd ∈ pasv, fd ∈ p.2.shut
  fields : ∀ x, p.1.heap sid = some x → x.dataFd = none ∧ x.pasvListenFd = none

/-- how much of the cleaning up is behind the thread; at 0 it has not opened its file -/
def Pc.swept : Pc → Nat
  | .offset => 0
  | .clear => 0
  | .open => 0
  | .rmPasv => 2
  | .setPasv => 3
  | .setData => 4
  | .closeFile => 5
  | .final => 6
  | .checkAbor => 6
  | _ => 1

/-- the account of a thread at its stage -/
structure Sweeping (sid : Sid) (data pasv : Option Fd) (th : Thread) (g : Sweep) : Prop where
  sess : th.sess = sid
  refused : g.refused = none
  file : th.file = g.opened
  before : th.pc.swept = 0 → g.opened = none
  opened : 1 ≤ th.pc.swept → g.opened ≠ none
  none : th.pc.swept ≤ 1 → g.shut = []
  data : 2 ≤ th.pc.swept → ∀ fd ∈ data, fd ∈ g.shut
  pasv : 3 ≤ th.pc.swept → ∀ fd ∈ pasv, fd ∈ g.shut
  closed : 6 ≤ th.pc.swept → ∀ fd ∈ g.opened, fd ∈ g.shut

/-- the account of a thread that has returned -/
def Swept (data pasv : Option Fd) (g : Sweep) : Prop :=
  g.refused = none ∧ (∀ fd ∈ g.opened, fd ∈ g.shut) ∧ (∀ fd ∈ data, fd ∈ g.shut) ∧ (∀ fd ∈ pasv, fd ∈ g.shut) ∨
    ∃ pc, g.refused = some pc ∧ g.shut = [] ∧ (g.opened = none ↔ pc = .open)

/-- the two fields, when the thread stands at its stage or has returned -/
def fieldsAt (data pasv : Option Fd) (g : Sweep) : Option Thread → Option Fd × Option Fd
  | none => if g.refused = none then (none, none) else (data, pasv)
  | some th => (if 5 ≤ th.pc.swept then none else data, if 4 ≤ th.pc.swept then none else pasv)

section
variable {c : Conf} {env : TEnv} {tid : Tid} {th : Thread} {s s' : Server} {l : Label} {x : Session} {fd : Fd} {sid : Sid}
  {data pasv : Option Fd} {g : Sweep} {q : Server × Sweep}

/-! ## one step of the thread -/

/-- the account after a step; `fd` is the lowest free descriptor -/
def Sweep.step (env : TEnv) (x : Session) (fd : Fd) (th : Thread) (g : Sweep) : Sweep where
  opened := if th.pc = .open ∧ th.refused env x = false then some fd else g.opened
  shut := g.shut ++ threadCloses th (some x)
  refused := if th.refused env x = true then some th.pc else g.refused

theorem shutBy_eq (hen : enabled s l) (he : exec c s l = .ok s') : shutBy c s l s' = closes c s l := by
  apply List.filter_eq_self.mpr
  intro fd hfd
  obtain ⟨op, ho⟩ := exec_step hen he
  obtain ⟨hdesc, hwatch⟩ := ho.step.closed (by rw [ho.closesEq]; exact hfd)
  rw [show s'.fds.get fd = none from hdesc, show s'.watch fd = false from hwatch]
  rfl

/-- the stages up to the removal of the data connection close nothing -/
theorem threadCloses_early (h : th.pc.swept ≤ 1) (hr : th.pc ≠ .rmData) : threadCloses th (some x) = [] := by
  unfold threadCloses
  cases hpc : th.pc with
  | rmData => exact absurd hpc hr
  | closeFile => exact absurd (hpc ▸ h) (by decide)
  | rmPasv => exact absurd (hpc ▸ h) (by decide)
  | _ => rfl

theorem refuses_swept {pc : Pc} (h : pc.refuses = true) : pc.swept ≤ 1 ∧ pc ≠ .rmData ∧ (pc.swept = 0 ↔ pc = .open) := by
  cases pc <;> first | exact absurd h Bool.false_ne_true | decide

theorem step_goes (hr : th.refused env x = false) (ho : th.pc ≠ .open) :
    g.step env x fd th = { g with shut := g.shut ++ threadCloses th (some x) } := by
  unfold Sweep.step
  rw [if_neg fun h => ho h.1, hr]
  rfl

theorem swept_refused (h : Sweeping sid data pasv th g) (hf : (x.dataFd, x.pasvListenFd) = fieldsAt data pasv g (some th))
    (hr : th.refused env x = true) : Swept data pasv (g.step env x fd th) ∧
      ((th.pc.record x).dataFd, (th.pc.record x).pasvListenFd) = fieldsAt data pasv (g.step env x fd th) none := by
  obtain ⟨hlow, hne, hopen⟩ := refuses_swept (refused_refuses hr)
  have hstep : g.step env x fd th = { g with refused := some th.pc } := by
    unfold Sweep.step
    rw [if_neg fun h => Bool.false_ne_true (h.2.symm.trans hr), if_pos hr, threadCloses_early hlow hne, List.append_nil]
  have hrecord : th.pc.record x = x := by
    have hp := refused_refuses hr
    cases hpc : th.pc <;> first | rfl | (rw [hpc] at hp; cases hp)
  rw [hstep, hrecord, hf]
  constructor
  · refine Or.inr ⟨th.pc, rfl, h.none hlow, ?_⟩
    rw [← hopen]
    constructor
    · intro hnone
      by_contra hne
      exact h.opened (by omega) hnone
    · exact h.before
  · show (if 5 ≤ th.pc.swept then none else data, if 4 ≤ th.pc.swept then none else pasv) = (data, pasv)
    rw [if_neg (by omega), if_neg (by omega)]

theorem sweeping_same {u : Thread} (h : Sweeping sid data pasv th g) (hs : u.sess = th.sess) (hf : u.file = th.file)
    (hp : u.pc.swept = th.pc.swept) : Sweeping sid data pasv u g := by
  refine ⟨hs.trans h.sess, h.refused, hf.trans h.file, ?_, ?_, ?_, ?_, ?_, ?_⟩
  all_goals rw [hp]
  exacts [h.before, h.opened, h.none, h.data, h.pasv, h.closed]

theorem goes_swept (h : th.pc.swept ≤ 1 ∨ th.pc = .final) (hr : th.pc ≠ .rmData) (ho : th.pc ≠ .open) :
    (th.goes env x fd).pc.swept = th.pc.swept ∧ (th.goes env x fd).file = th.file := by
  unfold Thread.goes
  cases hpc : th.pc with
  | «open» => exact absurd hpc ho
  | rmData => exact absurd hpc hr
  | checkAbor => exact ⟨by simp [hpc], rfl⟩
  | rmPasv => rw [hpc] at h; exact absurd h (by decide)
  | setPasv => rw [hpc] at h; exact absurd h (by decide)
  | setData => rw [hpc] at h; exact absurd h (by decide)
  | closeFile => rw [hpc] at h; exact absurd h (by decide)
  | _ =>
    cases hk : th.kind
    all_goals
      dsimp only
      repeat' split
      all_goals simp [Pc.swept, hpc]

theorem record_fields {pc : Pc} (h1 : pc ≠ .setPasv) (h2 : pc ≠ .setData) :
    (pc.record x).dataFd = x.dataFd ∧ (pc.record x).pasvListenFd = x.pasvListenFd := by
  cases pc with
  | setPasv => exact absurd rfl h1
  | setData => exact absurd rfl h2
  | _ => exact ⟨rfl, rfl⟩

theorem sweeping_next {pc : Pc} {ds : List Fd} (h : Sweeping sid data pasv th g) (hp : pc.swept = th.pc.swept + 1)
    (h1 : 1 ≤ th.pc.swept) (hd : th.pc.swept = 1 → ∀ fd ∈ data, fd ∈ ds) (hq : th.pc.swept = 2 → ∀ fd ∈ pasv, fd ∈ ds)
    (hf : th.pc.swept = 5 → ∀ fd ∈ g.opened, fd ∈ ds) :
    Sweeping sid data pasv { th with pc := pc } { g with shut := g.shut ++ ds } where
  sess := h.sess
  refused := h.refused
  file := h.file
  before := fun e => absurd (hp.symm.trans e) (Nat.succ_ne_zero _)
  opened := fun _ => h.opened h1
  none := fun e => by
    have hle : pc.swept ≤ 1 := e
    omega
  data := fun e fd hfd => by
    have hle : 2 ≤ pc.swept := e
    rw [List.mem_append]
    by_cases hone : th.pc.swept = 1
    · exact Or.inr (hd hone fd hfd)
    · exact Or.inl (h.data (by omega) fd hfd)
  pasv := fun e fd hfd => by
    have hle : 3 ≤ pc.swept := e
    rw [List.mem_append]
    by_cases htwo : th.pc.swept = 2
    · exact Or.inr (hq htwo fd hfd)
    · exact Or.inl (h.pasv (by omega) fd hfd)
  closed := fun e fd hfd => by
    have hle : 6 ≤ pc.swept := e
    rw [List.mem_append]
    by_cases hfive : th.pc.swept = 5
    · exact Or.inr (hf hfive fd hfd)
    · exact Or.inl (h.closed (by omega) fd hfd)

theorem swept_goes (h : Sweeping sid data pasv th g) (hf : (x.dataFd, x.pasvListenFd) = fieldsAt data pasv g (some th))
    (hr : th.refused env x = false) (hdone : th.pc ≠ .checkAbor) :
    Sweeping sid data pasv (th.goes env x fd) (g.step env x fd th) ∧
      ((th.pc.record x).dataFd, (th.pc.record x).pasvListenFd) =
        fieldsAt data pasv (g.step env x fd th) (some (th.goes env x fd)) := by
  obtain ⟨hdata, hpasv⟩ := Prod.mk.inj hf
  by_cases hopen : th.pc = .open
  · have hstep : g.step env x fd th = { g with opened := some fd } := by
      unfold Sweep.step
      rw [if_pos ⟨hopen, hr⟩, if_neg (Bool.eq_false_iff.mp hr),
        threadCloses_early (by rw [hopen]; decide) (by rw [hopen]; nofun), List.append_nil]
    rw [goes_open hopen, hstep, hopen]
    rw [hopen] at hdata hpasv
    refine ⟨⟨h.sess, h.refused, rfl, nofun, fun _ => Option.some_ne_none fd, fun _ => h.none (by rw [hopen]; decide),
      fun e => ?_, fun e => ?_, fun e => ?_⟩, Prod.ext hdata hpasv⟩
    · exact absurd (show 2 ≤ 1 from e) (by decide)
    · exact absurd (show 3 ≤ 1 from e) (by decide)
    · exact absurd (show 6 ≤ 1 from e) (by decide)
  rw [step_goes hr hopen]
  by_cases hearly : (th.pc.swept ≤ 1 ∨ th.pc = .final) ∧ th.pc ≠ .rmData
  · -- nothing is closed
    obtain ⟨hlow, hne⟩ := hearly
    have hcloses : threadCloses th (some x) = [] := by
      rcases hlow with hlow | hfinal
      · exact threadCloses_early hlow hne
      · unfold threadCloses
        rw [hfinal]
    obtain ⟨hswept, hfile⟩ : (th.goes env x fd).pc.swept = th.pc.swept ∧ _ := goes_swept hlow hne hopen
    have hrecord : (th.pc.record x).dataFd = x.dataFd ∧ (th.pc.record x).pasvListenFd = x.pasvListenFd := by
      apply record_fields
      · intro e
        rw [e] at hlow
        exact absurd hlow (by decide)
      · intro e
        rw [e] at hlow
        exact absurd hlow (by decide)
    rw [hcloses, List.append_nil, hrecord.1, hrecord.2]
    refine ⟨sweeping_same h goes_sess hfile hswept, hf.trans ?_⟩
    unfold fieldsAt
    dsimp only
    rw [hswept]
  cases hpc : th.pc with
  | rmData =>
    have hgoes : th.goes env x fd = { th with pc := .rmPasv } := (cleans_step (by rw [hpc]; rfl)).2.1
    have hcloses : threadCloses th (some x) = x.dataFd.toList := by
      unfold threadCloses
      rw [hpc]
      rfl
    rw [hgoes, hcloses]
    rw [hpc] at hdata hpasv
    refine ⟨sweeping_next h (by rw [hpc]; rfl) (by rw [hpc]; decide) (fun _ fd hfd => ?_) ?_ ?_, Prod.ext hdata hpasv⟩
    · rw [hdata]
      exact Option.mem_toList.mpr hfd
    · rw [hpc]
      nofun
    · rw [hpc]
      nofun
  | rmPasv =>
    have hgoes : th.goes env x fd = { th with pc := .setPasv } := (cleans_step (by rw [hpc]; rfl)).2.1
    have hcloses : threadCloses th (some x) = x.pasvListenFd.toList := by
      unfold threadCloses
      rw [hpc]
      rfl
    rw [hgoes, hcloses]
    rw [hpc] at hdata hpasv
    refine ⟨sweeping_next h (by rw [hpc]; rfl) (by rw [hpc]; decide) ?_ (fun _ fd hfd => ?_) ?_, Prod.ext hdata hpasv⟩
    · rw [hpc]
      nofun
    · rw [hpasv]
      exact Option.mem_toList.mpr hfd
    · rw [hpc]
      nofun
  | setPasv =>
    have hgoes : th.goes env x fd = { th with pc := .setData } := (cleans_step (by rw [hpc]; rfl)).2.1
    rw [hgoes]
    rw [hpc] at hdata
    refine ⟨sweeping_next h (by rw [hpc]; rfl) (by rw [hpc]; decide) ?_ ?_ ?_, Prod.ext hdata rfl⟩
    all_goals
      rw [hpc]
      nofun
  | setData =>
    have hgoes : th.goes env x fd = { th with pc := .closeFile } := (cleans_step (by rw [hpc]; rfl)).2.1
    rw [hgoes]
    rw [hpc] at hpasv
    refine ⟨sweeping_next h (by rw [hpc]; rfl) (by rw [hpc]; decide) ?_ ?_ ?_, Prod.ext rfl hpasv⟩
    all_goals
      rw [hpc]
      nofun
  | closeFile =>
    have hgoes : th.goes env x fd = { th with pc := .final } := (cleans_step (by rw [hpc]; rfl)).2.1
    have hcloses : threadCloses th (some x) = g.opened.toList := by
      unfold threadCloses
      rw [hpc, ← h.file]
    rw [hgoes, hcloses]
    rw [hpc] at hdata hpasv
    refine ⟨sweeping_next h (by rw [hpc]; rfl) (by rw [hpc]; decide) ?_ ?_ (fun _ fd hfd => ?_), Prod.ext hdata hpasv⟩
    · rw [hpc]
      nofun
    · rw [hpc]
      nofun
    · exact Option.mem_toList.mpr hfd
  | checkAbor => exact absurd hpc hdone
  | final => exact absurd ⟨Or.inr hpc, by rw [hpc]; nofun⟩ hearly
  | _ => exact absurd ⟨Or.inl (by rw [hpc]; exact Nat.le_of_ble_eq_true rfl), by rw [hpc]; nofun⟩ hearly

/-- the account of a thread, or of one that has returned -/
def SweptAt (sid : Sid) (data pasv : Option Fd) (o : Option Thread) (g : Sweep) : Prop :=
  match o with
  | none => Swept data pasv g
  | some th => Sweeping sid data pasv th g

theorem swept_step (h : Sweeping sid data pasv th g)
    (hf : (x.dataFd, x.pasvListenFd) = fieldsAt data pasv g (some th)) :
    SweptAt sid data pasv (th.after env x fd) (g.step env x fd th) ∧
      ((th.pc.record x).dataFd, (th.pc.record x).pasvListenFd) =
        fieldsAt data pasv (g.step env x fd th) (th.after env x fd) := by
  cases hr : th.refused env x with
  | true =>
    rw [after_refused hr]
    exact swept_refused h hf hr
  | false =>
    by_cases hdone : th.pc = .checkAbor
    · have hcloses : threadCloses th (some x) = [] := by
        unfold threadCloses
        rw [hdone]
      have hsix : th.pc.swept = 6 := by
        rw [hdone]
        rfl
      rw [after_done hdone, step_goes hr (by rw [hdone]; nofun), hcloses, List.append_nil]
      refine ⟨Or.inl ⟨h.refused, h.closed (by omega), h.data (by omega), h.pasv (by omega)⟩, ?_⟩
      obtain ⟨hdata, hpasv⟩ := record_fields (x := x) (by rw [hdone]; nofun : th.pc ≠ .setPasv) (by rw [hdone]; nofun)
      rw [hdata, hpasv, hf]
      show (if 5 ≤ th.pc.swept then none else data, if 4 ≤ th.pc.swept then none else pasv) =
        if g.refused = none then (none, none) else (data, pasv)
      rw [h.refused, if_pos (by omega), if_pos (by omega), if_pos rfl]
    · rw [after_on hdone hr]
      exact swept_goes h hf hr hdone

/-! ## whole transfers -/

/-- The thread has lost its session and never returns, or its account is right and the fields are as they should. -/
def Accountable (sid : Sid) (data pasv : Option Fd) (tid : Tid) (p : Server × Sweep) : Prop :=
  (∃ th, p.1.threads tid = some th ∧ th.sess = sid ∧ p.1.heap sid = none) ∨
    SweptAt sid data pasv (p.1.threads tid) p.2 ∧
      ∀ x, p.1.heap sid = some x → (x.dataFd, x.pasvListenFd) = fieldsAt data pasv p.2 (p.1.threads tid)

theorem accountable_thread (hn : s.ledger.Numbered) (hlt : sid < s.nextSid) (hen : enabled s (.thread tid env))
    (he : exec c s (.thread tid env) = .ok s') (h : Accountable sid data pasv tid (s, g)) :
    Accountable sid data pasv tid (s', sweeping c tid g s (.thread tid env) s') := by
  obtain ⟨th, hth⟩ := Option.ne_none_iff_exists'.mp (show s.threads tid ≠ none from hen)
  obtain ⟨o, hran⟩ := thread_ran hth he
  have hsess : th.sess = sid := by
    rcases h with ⟨u, hu, hs, -⟩ | ⟨hacc, -⟩
    · cases hth.symm.trans hu
      exact hs
    · change SweptAt sid data pasv (s.threads tid) g at hacc
      rw [hth] at hacc
      exact hacc.sess
  cases hx : s.heap sid with
  | none =>
    obtain ⟨u, hu⟩ := Option.ne_none_iff_exists'.mp (thread_orphan (hsess ▸ hx) hth he)
    have ho : s'.threads tid = o := by rw [hran.threads, Function.update_self]
    exact Or.inl ⟨u, hu, (hran.next u (ho.symm.trans hu)).1.trans hsess, heap_stays_none hn hen he hlt hx⟩
  | some x =>
    rcases h with ⟨-, -, -, hnone⟩ | ⟨hacc, hfields⟩
    · cases hx.symm.trans hnone
    have hturn : Turn env tid th s s' := thread_turn hth he
    have hseen : s.seen th.sess = x := seen_of (hsess ▸ hx)
    have hshut : shutBy c s (.thread tid env) s' = threadCloses th (some x) := by
      rw [shutBy_eq hen he, closes_thread hth, hsess, hx]
    have hsweep : sweeping c tid g s (.thread tid env) s' = g.step env x s.fds.lowest th := by
      show (if tid = tid then _ else g) = _
      rw [if_pos rfl, hth, Option.elim_some, hseen, hshut]
      rfl
    have hrecord : s'.heap sid = some (th.pc.record x) := by
      rw [hran.beside, if_pos hsess.symm, hx]
      rfl
    change SweptAt sid data pasv (s.threads tid) g at hacc
    rw [hth] at hacc
    have hx' := hfields x hx
    change _ = fieldsAt data pasv g (s.threads tid) at hx'
    rw [hth] at hx'
    obtain ⟨hacc', hfields'⟩ : SweptAt sid data pasv (th.after env x s.fds.lowest) (g.step env x s.fds.lowest th) ∧ _ :=
      swept_step hacc hx'
    right
    show SweptAt sid data pasv (s'.threads tid) _ ∧ ∀ y, s'.heap sid = some y → _ = fieldsAt data pasv _ (s'.threads tid)
    rw [hturn.thread, hseen, hsweep]
    refine ⟨hacc', fun y hy => ?_⟩
    cases hrecord.symm.trans hy
    exact hfields'

theorem accountable_other (hn : s.ledger.Numbered) (ht : tid < s.nextTid) (hlt : sid < s.nextSid) (hen : enabled s l)
    (he : exec c s l = .ok s') (hl : l.by tid = false) (hd : OwnsFields c tid sid (s, g) l)
    (h : Accountable sid data pasv tid (s, g)) : Accountable sid data pasv tid (s', sweeping c tid g s l s') := by
  have hno : ∀ env, l ≠ .thread tid env := by
    rintro env rfl
    exact absurd ((decide_eq_true rfl).symm.trans hl) (by decide)
  have hsweep : sweeping c tid g s l s' = g := by
    cases l with
    | thread t env => exact if_neg (of_decide_eq_false hl)
    | _ => rfl
  have hkept : s'.threads tid = s.threads tid := threads_kept ht hen he hno
  rw [hsweep]
  rcases h with ⟨th, hth, hs, hx⟩ | ⟨hacc, hfields⟩
  · exact Or.inl ⟨th, hkept.trans hth, hs, heap_stays_none hn hen he hlt hx⟩
  right
  show SweptAt sid data pasv (s'.threads tid) g ∧ ∀ y, s'.heap sid = some y → _ = fieldsAt data pasv g (s'.threads tid)
  rw [hkept]
  refine ⟨hacc, fun y hy => ?_⟩
  obtain ⟨-, ⟨e, -⟩ | ⟨-, x, hx, rfl⟩⟩ := exec_record hn hen he hy
  · exact absurd e (Nat.ne_of_lt hlt)
  · rcases hd with hd | hd
    · exact absurd (hl.symm.trans hd) Bool.false_ne_true
    obtain ⟨h1, h2⟩ := hd x (Option.mem_toList.mpr hx)
    rw [h1, h2]
    exact hfields x hx

theorem accountable_run (hb : Enters tid sid data pasv s)
    (h : Runs.Path (swept c tid) (OwnsFields c tid sid) (s, ⟨none, [], none⟩) q) :
    Accountable sid data pasv tid q := by
  obtain ⟨th, hth, hs, hpc, hfile⟩ := hb.thread
  obtain ⟨x, hx, rfl, rfl⟩ := hb.record
  refine (Runs.Path.inv (I := fun p => p.1.ledger.Numbered ∧ tid < p.1.nextTid ∧ sid < p.1.nextSid ∧
    Accountable sid x.dataFd x.pasvListenFd tid p) ?_ h ⟨hb.numbered, hb.numbered.worker tid _ (ledger_worker hth),
      hb.numbered.sess sid _ (ledger_sess hx), Or.inr ?_⟩).2.2.2
  · rintro ⟨s, g⟩ l ⟨s', g'⟩ ⟨hn, ht, hlt, hi⟩ hd ⟨⟨hen, he⟩, e⟩
    dsimp only at e hn ht hlt hen he
    subst e
    obtain ⟨op, ho⟩ := exec_step hen he
    refine ⟨ho.step.numbered hn, Nat.lt_of_lt_of_le ht ho.step.nextTid_le, Nat.lt_of_lt_of_le hlt ho.step.nextSid_le, ?_⟩
    cases hl : l.by tid with
    | false => exact accountable_other hn ht hlt hen he hl hd hi
    | true =>
      cases l with
      | thread t env =>
        cases of_decide_eq_true hl
        exact accountable_thread hn hlt hen he hi
      | _ => cases hl
  · show SweptAt sid x.dataFd x.pasvListenFd (s.threads tid) _ ∧
      ∀ y, s.heap sid = some y → _ = fieldsAt x.dataFd x.pasvListenFd _ (s.threads tid)
    rw [hth]
    have hzero : th.pc.swept = 0 := by
      rw [hpc]
      rfl
    refine ⟨⟨hs, rfl, hfile, fun _ => rfl, fun e => ?_, fun _ => rfl, fun e => ?_, fun e => ?_, fun e => ?_⟩, fun y hy => ?_⟩
    · omega
    · omega
    · omega
    · omega
    · cases hx.symm.trans hy
      show _ = (if 5 ≤ th.pc.swept then none else x.dataFd, if 4 ≤ th.pc.swept then none else x.pasvListenFd)
      rw [if_neg (by omega), if_neg (by omega)]

/-- **Whether a transfer cleans up**: exactly when none of its calls before 150 has been refused, or `openat` has and
there was nothing to clean up. -/
theorem cleaned_iff (hb : Enters tid sid data pasv s)
    (h : Runs.Path (swept c tid) (OwnsFields c tid sid) (s, ⟨none, [], none⟩) q) (hret : q.1.threads tid = none) :
    CleanedUp sid data pasv q ↔ q.2.refused = none ∨ q.2.refused = some .open ∧ data = none ∧ pasv = none := by
  obtain ⟨hacc, hfields⟩ : SweptAt sid data pasv (q.1.threads tid) q.2 ∧ _ := by
    rcases accountable_run hb h with ⟨th, hth, -⟩ | h
    · cases hret.symm.trans hth
    · exact h
  rw [hret] at hacc hfields
  rcases hacc with ⟨hok, hfile, hdata, hpasv⟩ | ⟨pc, hpc, hshut, hopened⟩
  · refine iff_of_true ⟨hfile, hdata, hpasv, fun x hx => ?_⟩ (Or.inl hok)
    have hx' := hfields x hx
    unfold fieldsAt at hx'
    rw [if_pos hok] at hx'
    exact Prod.mk.inj hx'
  · have hnone : ∀ {o : Option Fd}, (∀ fd ∈ o, fd ∈ q.2.shut) → o = none := by
      intro o ho
      cases o with
      | none => rfl
      | some fd =>
        have hmem := ho fd rfl
        rw [hshut] at hmem
        cases hmem
    constructor
    · intro hc
      have hopen : pc = .open := hopened.mp (hnone hc.file)
      exact Or.inr ⟨hopen ▸ hpc, hnone hc.data, hnone hc.pasv⟩
    · rintro (hok | ⟨hopen, rfl, rfl⟩)
      · cases hok.symm.trans hpc
      · have he : pc = .open := Option.some.inj (hpc.symm.trans hopen)
        refine ⟨?_, nofun, nofun, fun x hx => ?_⟩
        · rw [hopened.mpr he]
          nofun
        · have hx' := hfields x hx
          unfold fieldsAt at hx'
          rw [if_neg (by rw [hpc]; nofun)] at hx'
          exact Prod.mk.inj hx'

end

/-- a download of the sample server: its listener is 7 and its data connection 8 -/
theorem sample_sweep (ls : List Label) (t : Server × Sweep → Bool)
    (h : (play sampleConf Runs.Any sampleBoot retrRun).any (fun s =>
      (s.threads 0).any (fun th => decide (th.sess = 0 ∧ th.pc = .offset ∧ th.file = none)) &&
        ((s.heap 0).any (fun x => decide (x.dataFd = some 8 ∧ x.pasvListenFd = some 7)) &&
          (playNoted sampleConf (sweeping sampleConf 0) (OwnsFields sampleConf 0 0) (s, ⟨none, [], none⟩) ls).any t)) =
        true) :
    ∃ s q, Enters 0 0 (some 8) (some 7) s ∧
      Runs.Path (swept sampleConf 0) (OwnsFields sampleConf 0 0) (s, ⟨none, [], none⟩) q ∧ t q = true := by
  obtain ⟨s, hs, hp⟩ := reach_of_play (sampleReach Runs.Any) h
  rw [Bool.and_eq_true, Bool.and_eq_true] at hp
  obtain ⟨hthread, hrecord, hplay⟩ := hp
  obtain ⟨th, hth, ht⟩ := (Option.any_eq_true _ _).mp hthread
  obtain ⟨x, hx, hf⟩ := (Option.any_eq_true _ _).mp hrecord
  obtain ⟨q, hq, ht'⟩ : ∃ q, Runs.Trail (swept sampleConf 0) _ _ ls q ∧ t q = true := trail_of_play hplay
  exact ⟨s, q, ⟨⟨th, hth, of_decide_eq_true ht⟩, ⟨x, hx, of_decide_eq_true hf⟩, numbered_reach hs⟩, hq.path, ht'⟩

/-- a download of three bytes -/
theorem cleaned_iff_retr : ∃ s q, Enters 0 0 (some 8) (some 7) s ∧
    Runs.Path (swept sampleConf 0) (OwnsFields sampleConf 0 0) (s, ⟨none, [], none⟩) q ∧ q.1.threads 0 = none ∧
    q.2.opened ≠ none ∧ CleanedUp 0 (some 8) (some 7) q := by
  obtain ⟨s, q, hb, hq, ht⟩ := sample_sweep (threadSteps 0 15)
    (fun q => (q.1.threads 0).isNone && decide (q.2.opened ≠ none ∧ q.2.refused = none)) (by decide +kernel)
  rw [Bool.and_eq_true, Option.isNone_iff_eq_none, decide_eq_true_eq] at ht
  obtain ⟨hret, hopened, hok⟩ := ht
  exact ⟨s, q, hb, hq, hret, hopened, (cleaned_iff hb hq hret).mpr (Or.inl hok)⟩

/-- **RETR of a directory**: what was opened, the data connection and the listener stay open. -/
theorem retr_directory : ¬ ∀ c tid sid data pasv s q, Enters tid sid data pasv s →
    Runs.Path (swept c tid) (OwnsFields c tid sid) (s, ⟨none, [], none⟩) q → q.1.threads tid = none →
    CleanedUp sid data pasv q := by
  intro h
  obtain ⟨s, q, hb, hq, ht⟩ := sample_sweep (threadSteps 0 4 ++ [.thread 0 { sampleTEnv with fstat := (false, 0) }])
    (fun q => (q.1.threads 0).isNone && decide (q.2.shut = [])) (by decide +kernel)
  rw [Bool.and_eq_true, Option.isNone_iff_eq_none, decide_eq_true_eq] at ht
  have hdata := (h _ _ _ _ _ _ _ hb hq ht.1).data 8 rfl
  rw [ht.2] at hdata
  cases hdata

end Myftpd
