import Myftpd.Descs

/-!
# What a descriptor is open for

A descriptor is open for one purpose (`Role`), and the field of a record, or the local of a thread, names
it.  While a transfer thread cleans up, the fields of its session still name descriptors that it has
closed already; otherwise the table and the fields agree (`Ledger.Exact`).

* `Ledger.names`         the descriptor that is named for a purpose;
* `Exact.opened`, `Exact.closed`   one descriptor is opened, or closed;
* `Exact.freed`, `Exact.admitted`  a session ends, or a connection is admitted;
* `Exact.moved`, `Exact.rmData`, …  a transfer thread goes on.
-/

namespace Myftpd
open CMem Server Matching

/-- what a descriptor is open for -/
inductive Role where
  | listen
  | epoll
  | ctrl (sid : Sid)
  | data (sid : Sid)
  | pasv (sid : Sid)
  | dir (sid : Sid)
  | file (tid : Tid)
  deriving DecidableEq

def Desc.role : Desc → Option Role
  | .std => none
  | .listen => some .listen
  | .epoll => some .epoll
  | .ctrl sid => some (.ctrl sid)
  | .data sid => some (.data sid)
  | .pasv sid => some (.pasv sid)
  | .cwd sid _ => some (.dir sid)
  | .file tid => some (.file tid)

/-- the listener has been closed, and the field not yet reset -/
def Pc.closing : Pc → Bool
  | .setPasv => true
  | _ => false

def Pc.holding : Pc → Bool
  | .offset => false
  | .clear => false
  | .open => false
  | .final => false
  | .checkAbor => false
  | _ => true

def Worker.holds (w : Worker) : Option Fd := if w.pc.holding = true then w.file else none

namespace Ledger

/-- a thread of the session is at one of the stages -/
def anyAt (L : Ledger) (sid : Sid) (p : Pc → Bool) : Bool :=
  (List.range L.nextTid).any fun tid => (L.workers tid).any fun w => w.sess == sid && p w.pc

/-- the file that a thread has open -/
def held (L : Ledger) (tid : Tid) : Option Fd := (L.workers tid).bind Worker.holds

/-- the descriptor that is named for a purpose, and not closed yet -/
def names (c : Conf) (L : Ledger) : Role → Option Fd
  | .listen => some c.listenfd
  | .epoll => some c.epollfd
  | .ctrl sid => (L.sess sid).map Core.ctrl
  | .data sid => if L.anyAt sid Pc.cleaning = true then none else (L.sess sid).bind Core.data
  | .pasv sid => if L.anyAt sid Pc.closing = true then none else (L.sess sid).bind Core.pasv
  | .dir sid => (L.sess sid).bind Core.dir
  | .file tid => L.held tid

def roles (L : Ledger) (fd : Fd) : Option Role := (L.desc fd).bind Desc.role

/-- the descriptors that are open are those that are named -/
def Exact (c : Conf) (L : Ledger) : Prop := Inverse L.roles (L.names c)

section
variable {c : Conf} {L L' : Ledger} {sid j : Sid} {tid : Tid} {x y : Core} {fd : Fd} {o : Option Fd}
  {d : Desc} {p : Pc → Bool} {r : Role} {w : Worker}

theorem anyAt_iff (hn : L.Numbered) :
    L.anyAt sid p = true ↔ ∃ tid w, L.workers tid = some w ∧ w.sess = sid ∧ p w.pc = true := by
  unfold anyAt
  rw [List.any_eq_true]
  constructor
  · rintro ⟨tid, -, h⟩
    obtain ⟨w, hw, h⟩ := (Option.any_eq_true _ _).mp h
    obtain ⟨h1, h2⟩ := Bool.and_eq_true_iff.mp h
    exact ⟨tid, w, hw, beq_iff_eq.mp h1, h2⟩
  · rintro ⟨tid, w, hw, hs, hp⟩
    refine ⟨tid, List.mem_range.mpr (hn.worker tid w hw), ?_⟩
    rw [hw]
    show (w.sess == sid && p w.pc) = true
    rw [hs, hp, beq_self_eq_true]
    rfl

theorem roles_open (h : L'.desc = Function.update L.desc fd (some d)) :
    L'.roles = Function.update L.roles fd d.role := by
  show (fun a => (L'.desc a).bind Desc.role) = _
  rw [h]
  exact update_bind Desc.role

theorem roles_shut (h : L'.desc = shut o L.desc) : L'.roles = shut o L.roles := by
  show (fun a => (L'.desc a).bind Desc.role) = _
  rw [h]
  exact shut_bind Desc.role

theorem roles_same (h : L'.desc = L.desc) : L'.roles = L.roles := by
  show (fun a => (L'.desc a).bind Desc.role) = _
  rw [h]
  rfl

theorem roles_free (h : L.desc fd = none) : L.roles fd = none := by
  unfold roles
  rw [h]
  rfl

theorem names_update {v : Option Fd} (h : ∀ r', r' ≠ r → L'.names c r' = L.names c r')
    (hr : L'.names c r = v) : L'.names c = Function.update (L.names c) r v := by
  funext r'
  rw [Function.update_apply]
  split
  · rename_i e
    rw [e, hr]
  · rename_i e
    exact h r' e

/-- the threads hold the same files, and the sessions have the same threads at work -/
structure SameWork (L L' : Ledger) : Prop where
  cleaning : ∀ sid, L'.anyAt sid Pc.cleaning = L.anyAt sid Pc.cleaning
  closing : ∀ sid, L'.anyAt sid Pc.closing = L.anyAt sid Pc.closing
  file : ∀ tid, L'.held tid = L.held tid

theorem SameWork.of (h1 : L'.workers = L.workers) (h2 : L'.nextTid = L.nextTid) : SameWork L L' where
  cleaning := by
    intro sid
    unfold anyAt
    rw [h1, h2]
  closing := by
    intro sid
    unfold anyAt
    rw [h1, h2]
  file := by
    intro tid
    unfold held
    rw [h1]

theorem names_same (hw : SameWork L L') (hs : L'.sess = L.sess) : L'.names c = L.names c := by
  funext r
  cases r with
  | listen => rfl
  | epoll => rfl
  | ctrl sid =>
    show (L'.sess sid).map _ = (L.sess sid).map _
    rw [hs]
  | data sid =>
    show (if L'.anyAt sid _ = true then _ else (L'.sess sid).bind _) = if L.anyAt sid _ = true then _ else _
    rw [hs, hw.cleaning sid]
  | pasv sid =>
    show (if L'.anyAt sid _ = true then _ else (L'.sess sid).bind _) = if L.anyAt sid _ = true then _ else _
    rw [hs, hw.closing sid]
  | dir sid =>
    show (L'.sess sid).bind _ = (L.sess sid).bind _
    rw [hs]
  | file tid => exact hw.file tid

theorem names_put (hw : SameWork L L') (hx : L.sess sid = some x)
    (hs : L'.sess = Function.update L.sess sid (some y)) (hc : y.ctrl = x.ctrl) (r : Role) :
    L'.names c r = match r with
      | .data j => if j = sid then (if L.anyAt sid Pc.cleaning = true then none else y.data) else L.names c r
      | .pasv j => if j = sid then (if L.anyAt sid Pc.closing = true then none else y.pasv) else L.names c r
      | .dir j => if j = sid then y.dir else L.names c r
      | r => L.names c r := by
  have hself : L'.sess sid = some y := by rw [hs, Function.update_self]
  have hother : ∀ j, j ≠ sid → L'.sess j = L.sess j := fun j hj => by rw [hs, Function.update_of_ne hj]
  cases r with
  | listen => rfl
  | epoll => rfl
  | ctrl j =>
    show (L'.sess j).map _ = (L.sess j).map _
    by_cases hj : j = sid
    · rw [hj, hself, hx, Option.map_some, Option.map_some, hc]
    · rw [hother j hj]
  | data j =>
    show (if L'.anyAt j _ = true then _ else (L'.sess j).bind _) = if j = sid then _ else
      if L.anyAt j _ = true then _ else (L.sess j).bind _
    rw [hw.cleaning j]
    by_cases hj : j = sid
    · rw [if_pos hj, hj, hself]
      rfl
    · rw [if_neg hj, hother j hj]
  | pasv j =>
    show (if L'.anyAt j _ = true then _ else (L'.sess j).bind _) = if j = sid then _ else
      if L.anyAt j _ = true then _ else (L.sess j).bind _
    rw [hw.closing j]
    by_cases hj : j = sid
    · rw [if_pos hj, hj, hself]
      rfl
    · rw [if_neg hj, hother j hj]
  | dir j =>
    show (L'.sess j).bind _ = if j = sid then _ else (L.sess j).bind _
    by_cases hj : j = sid
    · rw [if_pos hj, hj, hself]
      rfl
    · rw [if_neg hj, hother j hj]
  | file tid => exact hw.file tid

theorem named_data (hx : L.sess sid = some x) :
    L.names c (.data sid) = if L.anyAt sid Pc.cleaning = true then none else x.data := by
  show (if L.anyAt sid _ = true then none else (L.sess sid).bind _) = _
  rw [hx]
  rfl

theorem named_pasv (hx : L.sess sid = some x) :
    L.names c (.pasv sid) = if L.anyAt sid Pc.closing = true then none else x.pasv := by
  show (if L.anyAt sid _ = true then none else (L.sess sid).bind _) = _
  rw [hx]
  rfl

theorem named_dir (hx : L.sess sid = some x) : L.names c (.dir sid) = x.dir := by
  show (L.sess sid).bind _ = _
  rw [hx]
  rfl

theorem names_data (hw : SameWork L L') (hx : L.sess sid = some x)
    (hs : L'.sess = Function.update L.sess sid (some { x with data := o })) :
    (∀ r, r ≠ .data sid → L'.names c r = L.names c r) ∧
      L'.names c (.data sid) = if L.anyAt sid Pc.cleaning = true then none else o := by
  refine ⟨fun r hr => ?_, ?_⟩
  · rw [names_put hw hx hs rfl]
    cases r with
    | data j => exact if_neg fun e => hr (congrArg Role.data e)
    | pasv j =>
      by_cases hj : j = sid
      · subst hj
        exact (if_pos rfl).trans (named_pasv hx).symm
      · exact if_neg hj
    | dir j =>
      by_cases hj : j = sid
      · subst hj
        exact (if_pos rfl).trans (named_dir hx).symm
      · exact if_neg hj
    | _ => rfl
  · rw [names_put hw hx hs rfl]
    exact if_pos rfl

theorem names_pasv (hw : SameWork L L') (hx : L.sess sid = some x)
    (hs : L'.sess = Function.update L.sess sid (some { x with pasv := o })) :
    (∀ r, r ≠ .pasv sid → L'.names c r = L.names c r) ∧
      L'.names c (.pasv sid) = if L.anyAt sid Pc.closing = true then none else o := by
  refine ⟨fun r hr => ?_, ?_⟩
  · rw [names_put hw hx hs rfl]
    cases r with
    | pasv j => exact if_neg fun e => hr (congrArg Role.pasv e)
    | data j =>
      by_cases hj : j = sid
      · subst hj
        exact (if_pos rfl).trans (named_data hx).symm
      · exact if_neg hj
    | dir j =>
      by_cases hj : j = sid
      · subst hj
        exact (if_pos rfl).trans (named_dir hx).symm
      · exact if_neg hj
    | _ => rfl
  · rw [names_put hw hx hs rfl]
    exact if_pos rfl

theorem names_dir (hw : SameWork L L') (hx : L.sess sid = some x)
    (hs : L'.sess = Function.update L.sess sid (some { x with dir := o })) :
    (∀ r, r ≠ .dir sid → L'.names c r = L.names c r) ∧ L'.names c (.dir sid) = o := by
  refine ⟨fun r hr => ?_, ?_⟩
  · rw [names_put hw hx hs rfl]
    cases r with
    | dir j => exact if_neg fun e => hr (congrArg Role.dir e)
    | data j =>
      by_cases hj : j = sid
      · subst hj
        exact (if_pos rfl).trans (named_data hx).symm
      · exact if_neg hj
    | pasv j =>
      by_cases hj : j = sid
      · subst hj
        exact (if_pos rfl).trans (named_pasv hx).symm
      · exact if_neg hj
    | _ => rfl
  · rw [names_put hw hx hs rfl]
    exact if_pos rfl

/-! ## what keeps them in agreement -/

theorem Exact.same (h : L.Exact c) (hw : SameWork L L') (hs : L'.sess = L.sess)
    (hd : L'.desc = L.desc) : L'.Exact c := by
  unfold Exact
  rw [roles_same hd, names_same hw hs]
  exact h

theorem Exact.opened (h : L.Exact c) (hf : L.desc fd = none)
    (hd : L'.desc = Function.update L.desc fd (some d)) (hr : d.role = some r)
    (hn : L.names c r = none) (ho : ∀ r', r' ≠ r → L'.names c r' = L.names c r')
    (hn' : L'.names c r = some fd) : L'.Exact c := by
  unfold Exact
  rw [roles_open hd, hr, names_update ho hn']
  exact h.insert (roles_free hf) hn

/-- A descriptor is closed and its name taken back.  The number may be out of date, if nothing else has been
opened under it. -/
theorem Exact.closed (h : L.Exact c) (hd : L'.desc = shut o L.desc)
    (hn : L.names c r = none ∨ L.names c r = o)
    (hown : ∀ fd, o = some fd → L.roles fd = none ∨ L.roles fd = some r)
    (ho : ∀ r', r' ≠ r → L'.names c r' = L.names c r') (hn' : L'.names c r = none) : L'.Exact c := by
  unfold Exact
  rw [roles_shut hd, names_update ho hn']
  exact Inverse.shut h hn hown

theorem anyAt_idle (hb : ∀ tid w, L.workers tid = some w → w.sess ≠ sid) : L.anyAt sid p = false := by
  unfold anyAt
  rw [List.any_eq_false]
  intro tid _ h
  obtain ⟨w, hw, h⟩ := (Option.any_eq_true _ _).mp h
  exact hb tid w hw (beq_iff_eq.mp (Bool.and_eq_true_iff.mp h).1)

theorem Exact.freed (h : L.Exact c) (hx : L.sess sid = some x) (hdir : x.dir = none)
    (hb : ∀ tid w, L.workers tid = some w → w.sess ≠ sid) : (L.freed sid x).Exact c := by
  have hidle : ∀ p, L.anyAt sid p = false := fun p => anyAt_idle hb
  have h1 : Inverse (shut (some x.ctrl) L.roles) (Function.update (L.names c) (.ctrl sid) none) := by
    have hc : L.names c (.ctrl sid) = some x.ctrl := by
      show (L.sess sid).map _ = _
      rw [hx]
      rfl
    rw [← hc]
    exact Inverse.drop h _
  have h2 := Inverse.drop h1 (.data sid)
  have h3 := Inverse.drop h2 (.pasv sid)
  have hdata : Function.update (L.names c) (.ctrl sid) none (.data sid) = x.data := by
    rw [Function.update_of_ne (show Role.data sid ≠ .ctrl sid from nofun), named_data hx, hidle]
    rfl
  have hpasv : Function.update (Function.update (L.names c) (.ctrl sid) none) (.data sid) none
      (.pasv sid) = x.pasv := by
    rw [Function.update_of_ne (show Role.pasv sid ≠ .data sid from nofun),
      Function.update_of_ne (show Role.pasv sid ≠ .ctrl sid from nofun), named_pasv hx, hidle]
    rfl
  rw [hpasv, hdata] at h3
  have hroles : (L.freed sid x).roles = shut x.pasv (shut x.data (shut (some x.ctrl) L.roles)) := by
    rw [roles_shut (L := (L.close x.ctrl).closeOpt x.data) (o := x.pasv), roles_shut (L := L.close x.ctrl)
      (o := x.data), roles_shut (L := L) (o := some x.ctrl)]
    · exact shut_some.symm
    · funext g
      exact closeOpt_desc
    · funext g
      exact closeOpt_desc
  have hnames : (L.freed sid x).names c = Function.update (Function.update (Function.update (L.names c)
      (.ctrl sid) none) (.data sid) none) (.pasv sid) none := by
    have hs : ∀ j, (L.freed sid x).sess j = if j = sid then none else L.sess j := fun j => freed_sess
    have hat : ∀ j p, (L.freed sid x).anyAt j p = L.anyAt j p := by
      intro j p
      unfold anyAt
      rw [freed_workers, freed_nextTid]
    funext r
    rw [Function.update_apply, Function.update_apply, Function.update_apply]
    cases r with
    | listen => rfl
    | epoll => rfl
    | ctrl j =>
      show ((L.freed sid x).sess j).map _ = _
      rw [hs, if_neg (show Role.ctrl j ≠ .pasv sid from nofun),
        if_neg (show Role.ctrl j ≠ .data sid from nofun)]
      by_cases hj : j = sid
      · rw [if_pos hj, if_pos (congrArg Role.ctrl hj)]
        rfl
      · rw [if_neg hj, if_neg fun e => hj (Role.ctrl.inj e)]
        rfl
    | data j =>
      show (if (L.freed sid x).anyAt j _ = true then none else ((L.freed sid x).sess j).bind _) = _
      rw [hs, hat, if_neg (show Role.data j ≠ .pasv sid from nofun),
        if_neg (show Role.data j ≠ .ctrl sid from nofun)]
      by_cases hj : j = sid
      · rw [if_pos hj, if_pos (congrArg Role.data hj)]
        exact ite_self _
      · rw [if_neg hj, if_neg fun e => hj (Role.data.inj e)]
        rfl
    | pasv j =>
      show (if (L.freed sid x).anyAt j _ = true then none else ((L.freed sid x).sess j).bind _) = _
      rw [hs, hat, if_neg (show Role.pasv j ≠ .data sid from nofun),
        if_neg (show Role.pasv j ≠ .ctrl sid from nofun)]
      by_cases hj : j = sid
      · rw [if_pos hj, if_pos (congrArg Role.pasv hj)]
        exact ite_self _
      · rw [if_neg hj, if_neg fun e => hj (Role.pasv.inj e)]
        rfl
    | dir j =>
      show ((L.freed sid x).sess j).bind _ = (L.sess j).bind _
      rw [hs]
      by_cases hj : j = sid
      · rw [if_pos hj, hj, hx]
        exact hdir.symm
      · rw [if_neg hj]
    | file tid =>
      show ((L.freed sid x).workers tid).bind _ = _
      rw [freed_workers]
      rfl
  unfold Exact
  rw [hroles, hnames]
  exact h3

theorem Exact.admitted (h : L.Exact c) (hf : L.desc fd = none) (hn : L.sess L.nextSid = none) :
    (L.admitted fd).Exact c := by
  have hs : ∀ j, j ≠ L.nextSid → (L.admitted fd).sess j = L.sess j := fun j hj => Function.update_of_ne hj _ _
  have hself : (L.admitted fd).sess L.nextSid = some ⟨fd, none, none, none⟩ := Function.update_self ..
  refine h.opened (d := .ctrl L.nextSid) (r := .ctrl L.nextSid) hf rfl rfl ?_ (fun r hr => ?_) ?_
  · show (L.sess L.nextSid).map _ = none
    rw [hn]
    rfl
  · cases r with
    | listen => rfl
    | epoll => rfl
    | ctrl j =>
      show ((L.admitted fd).sess j).map _ = (L.sess j).map _
      rw [hs j fun e => hr (congrArg Role.ctrl e)]
    | data j =>
      show (if L.anyAt j _ = true then none else ((L.admitted fd).sess j).bind _) =
        if L.anyAt j _ = true then none else (L.sess j).bind _
      by_cases hj : j = L.nextSid
      · rw [hj, hself, hn]
        rfl
      · rw [hs j hj]
    | pasv j =>
      show (if L.anyAt j _ = true then none else ((L.admitted fd).sess j).bind _) =
        if L.anyAt j _ = true then none else (L.sess j).bind _
      by_cases hj : j = L.nextSid
      · rw [hj, hself, hn]
        rfl
      · rw [hs j hj]
    | dir j =>
      show ((L.admitted fd).sess j).bind _ = (L.sess j).bind _
      by_cases hj : j = L.nextSid
      · rw [hj, hself, hn]
        rfl
      · rw [hs j hj]
    | file tid => rfl
  · show ((L.admitted fd).sess L.nextSid).map _ = some fd
    rw [hself]
    rfl

end

/-! ## a thread goes on -/

section
variable {c : Conf} {L L' : Ledger} {j : Sid} {tid t : Tid} {x : Core} {fd : Fd} {p : Pc → Bool} {r : Role}
  {w : Worker} {v : Option Worker} {pc : Pc}

theorem anyAt_setWorker (hw : L.workers tid = some w)
    (hv : (v.any fun u => u.sess == j && p u.pc) = (w.sess == j && p w.pc)) :
    (L.setWorker tid v).anyAt j p = L.anyAt j p := by
  unfold anyAt
  show (List.range L.nextTid).any _ = _
  congr 1
  funext t
  show (Function.update L.workers tid v t).any _ = (L.workers t).any _
  rw [Function.update_apply]
  split
  · rename_i e
    rw [e, hw]
    exact hv
  · rfl

theorem anyAt_moved (hw : L.workers tid = some w) (hs : ∀ u, v = some u → u.sess = w.sess)
    (hp : (v.elim false fun u => p u.pc) = p w.pc) : (L.setWorker tid v).anyAt j p = L.anyAt j p := by
  apply anyAt_setWorker hw
  cases v with
  | none =>
    show false = (w.sess == j && p w.pc)
    rw [← show false = p w.pc from hp, Bool.and_false]
  | some u =>
    show (u.sess == j && p u.pc) = (w.sess == j && p w.pc)
    rw [hs u rfl, show p u.pc = p w.pc from hp]

theorem anyAt_other (hw : L.workers tid = some w) (hs : ∀ u, v = some u → u.sess = w.sess)
    (hj : j ≠ w.sess) : (L.setWorker tid v).anyAt j p = L.anyAt j p := by
  have hne : (w.sess == j) = false := beq_false_of_ne (Ne.symm hj)
  apply anyAt_setWorker hw
  rw [hne, Bool.false_and]
  cases v with
  | none => rfl
  | some u =>
    show (u.sess == j && p u.pc) = false
    rw [hs u rfl, hne, Bool.false_and]

theorem anyAt_at (ht : tid < L.nextTid) (hw : L.workers tid = some w) (hp : p w.pc = true) :
    L.anyAt w.sess p = true := by
  refine List.any_eq_true.mpr ⟨tid, List.mem_range.mpr ht, ?_⟩
  rw [hw]
  show (w.sess == w.sess && p w.pc) = true
  rw [hp, beq_self_eq_true]
  rfl

theorem held_self : (L.setWorker tid v).held tid = v.bind Worker.holds := by
  show (Function.update L.workers tid v tid).bind _ = _
  rw [Function.update_self]

theorem held_other (h : t ≠ tid) : (L.setWorker tid v).held t = L.held t := by
  show (Function.update L.workers tid v t).bind _ = _
  rw [Function.update_of_ne h]
  rfl

theorem names_moved (hw : L.workers tid = some w) (hs : ∀ u, v = some u → u.sess = w.sess)
    (hd : r = .data w.sess → (v.elim false fun u => u.pc.cleaning) = w.pc.cleaning)
    (hp : r = .pasv w.sess → (v.elim false fun u => u.pc.closing) = w.pc.closing)
    (hf : r = .file tid → v.bind Worker.holds = w.holds) :
    (L.setWorker tid v).names c r = L.names c r := by
  cases r with
  | listen => rfl
  | epoll => rfl
  | ctrl j => rfl
  | data j =>
    have h : (L.setWorker tid v).anyAt j Pc.cleaning = L.anyAt j Pc.cleaning := by
      by_cases hj : j = w.sess
      · exact anyAt_moved hw hs (hd (congrArg Role.data hj))
      · exact anyAt_other hw hs hj
    show (if (L.setWorker tid v).anyAt j _ = true then none else _) = if L.anyAt j _ = true then none else _
    rw [h]
    rfl
  | pasv j =>
    have h : (L.setWorker tid v).anyAt j Pc.closing = L.anyAt j Pc.closing := by
      by_cases hj : j = w.sess
      · exact anyAt_moved hw hs (hp (congrArg Role.pasv hj))
      · exact anyAt_other hw hs hj
    show (if (L.setWorker tid v).anyAt j _ = true then none else _) = if L.anyAt j _ = true then none else _
    rw [h]
    rfl
  | dir j => rfl
  | file t =>
    show (L.setWorker tid v).held t = L.held t
    by_cases ht : t = tid
    · rw [ht, held_self, hf (congrArg Role.file ht)]
      show _ = (L.workers tid).bind _
      rw [hw]
      rfl
    · exact held_other ht

theorem closeOpt_shut {o : Option Fd} : (L.closeOpt o).desc = shut o L.desc := by
  funext g
  exact closeOpt_desc

theorem closeOpt_names {o : Option Fd} : (L.closeOpt o).names c = L.names c :=
  names_same (.of closeOpt_workers closeOpt_nextTid) closeOpt_sess

theorem Exact.moved (h : L.Exact c) (hw : L.workers tid = some w) (hs : ∀ u, v = some u → u.sess = w.sess)
    (hd : (v.elim false fun u => u.pc.cleaning) = w.pc.cleaning)
    (hp : (v.elim false fun u => u.pc.closing) = w.pc.closing) (hf : v.bind Worker.holds = w.holds) :
    (L.setWorker tid v).Exact c := by
  have hn : (L.setWorker tid v).names c = L.names c := by
    funext r
    exact names_moved hw hs (fun _ => hd) (fun _ => hp) fun _ => hf
  unfold Exact
  rw [hn]
  exact h

theorem onward_sess : ∀ u, some { w with pc := pc } = some u → u.sess = w.sess := by
  rintro u ⟨rfl⟩
  rfl

/-- the data connection is closed; the field keeps its number -/
theorem Exact.rmData (h : L.Exact c) (ht : tid < L.nextTid) (hw : L.workers tid = some w)
    (hpc : w.pc = .rmData) (hx : L.sess w.sess = some x)
    (hown : ∀ fd, x.data = some fd → L.roles fd = none ∨ L.roles fd = some (.data w.sess)) :
    ((L.closeOpt x.data).setWorker tid (some { w with pc := .rmPasv })).Exact c := by
  have hwM : (L.closeOpt x.data).workers tid = some w := by rw [closeOpt_workers, hw]
  refine h.closed (r := .data w.sess) closeOpt_shut ?_ hown (fun r hr => ?_) ?_
  · rw [named_data hx]
    split
    · exact Or.inl rfl
    · exact Or.inr rfl
  · rw [names_moved hwM onward_sess (fun e => absurd e hr) (fun _ => by rw [hpc]; rfl) fun _ => ?_,
      closeOpt_names]
    unfold Worker.holds
    rw [hpc]
    rfl
  · have hself : ((L.closeOpt x.data).setWorker tid (some { w with pc := .rmPasv })).workers tid =
        some { w with pc := .rmPasv } := Function.update_self ..
    refine if_pos (anyAt_at ?_ hself rfl)
    show tid < (L.closeOpt x.data).nextTid
    rw [closeOpt_nextTid]
    exact ht

/-- the listener is closed; the field keeps its number -/
theorem Exact.rmPasv (h : L.Exact c) (ht : tid < L.nextTid) (hw : L.workers tid = some w)
    (hpc : w.pc = .rmPasv) (hx : L.sess w.sess = some x)
    (hown : ∀ fd, x.pasv = some fd → L.roles fd = none ∨ L.roles fd = some (.pasv w.sess)) :
    ((L.closeOpt x.pasv).setWorker tid (some { w with pc := .setPasv })).Exact c := by
  have hwM : (L.closeOpt x.pasv).workers tid = some w := by rw [closeOpt_workers, hw]
  refine h.closed (r := .pasv w.sess) closeOpt_shut ?_ hown (fun r hr => ?_) ?_
  · rw [named_pasv hx]
    split
    · exact Or.inl rfl
    · exact Or.inr rfl
  · rw [names_moved hwM onward_sess (fun _ => by rw [hpc]; rfl) (fun e => absurd e hr) fun _ => ?_,
      closeOpt_names]
    unfold Worker.holds
    rw [hpc]
    rfl
  · have hself : ((L.closeOpt x.pasv).setWorker tid (some { w with pc := .setPasv })).workers tid =
        some { w with pc := .setPasv } := Function.update_self ..
    refine if_pos (anyAt_at ?_ hself rfl)
    show tid < (L.closeOpt x.pasv).nextTid
    rw [closeOpt_nextTid]
    exact ht

/-- the field of the listener is reset, after the listener has been closed -/
theorem Exact.setPasv (h : L.Exact c) (ht : tid < L.nextTid) (hw : L.workers tid = some w)
    (hpc : w.pc = .setPasv) (hx : L.sess w.sess = some x) :
    ((L.setSess w.sess (some { x with pasv := none })).setWorker tid
      (some { w with pc := .setData })).Exact c := by
  have hwork : SameWork L (L.setSess w.sess (some { x with pasv := none })) := .of rfl rfl
  have hwM : (L.setSess w.sess (some { x with pasv := none })).workers tid = some w := hw
  obtain ⟨h1, -⟩ := names_pasv (c := c) hwork hx rfl
  have hold : L.names c (.pasv w.sess) = none := if_pos (anyAt_at ht hw (by rw [hpc]; rfl))
  have hn : ((L.setSess w.sess (some { x with pasv := none })).setWorker tid
      (some { w with pc := .setData })).names c = L.names c := by
    funext r
    by_cases hr : r = .pasv w.sess
    · rw [hr, hold]
      show (if _ = true then none else (Function.update L.sess w.sess _ w.sess).bind _) = none
      rw [Function.update_self]
      exact ite_self _
    · rw [names_moved hwM onward_sess (fun _ => by rw [hpc]; rfl) (fun e => absurd e hr) fun _ => ?_,
        h1 r hr]
      unfold Worker.holds
      rw [hpc]
      rfl
  unfold Exact
  rw [hn]
  exact h

/-- the field of the data connection is reset, after the data connection has been closed -/
theorem Exact.setData (h : L.Exact c) (ht : tid < L.nextTid) (hw : L.workers tid = some w)
    (hpc : w.pc = .setData) (hx : L.sess w.sess = some x) :
    ((L.setSess w.sess (some { x with data := none })).setWorker tid
      (some { w with pc := .closeFile })).Exact c := by
  have hwork : SameWork L (L.setSess w.sess (some { x with data := none })) := .of rfl rfl
  have hwM : (L.setSess w.sess (some { x with data := none })).workers tid = some w := hw
  obtain ⟨h1, -⟩ := names_data (c := c) hwork hx rfl
  have hold : L.names c (.data w.sess) = none := if_pos (anyAt_at ht hw (by rw [hpc]; rfl))
  have hn : ((L.setSess w.sess (some { x with data := none })).setWorker tid
      (some { w with pc := .closeFile })).names c = L.names c := by
    funext r
    by_cases hr : r = .data w.sess
    · rw [hr, hold]
      show (if _ = true then none else (Function.update L.sess w.sess _ w.sess).bind _) = none
      rw [Function.update_self]
      exact ite_self _
    · rw [names_moved hwM onward_sess (fun e => absurd e hr) (fun _ => by rw [hpc]; rfl) fun _ => ?_,
        h1 r hr]
      unfold Worker.holds
      rw [hpc]
      rfl
  unfold Exact
  rw [hn]
  exact h

theorem Exact.openFile (h : L.Exact c) (hf : L.desc fd = none) (hw : L.workers tid = some w)
    (hpc : w.pc = .open) :
    ((L.alloc fd (.file tid)).setWorker tid (some { w with pc := .lock, file := some fd })).Exact c := by
  have hsess : ∀ u, some { w with pc := Pc.lock, file := some fd } = some u → u.sess = w.sess := by
    rintro u ⟨rfl⟩
    rfl
  have hold : L.names c (.file tid) = none := by
    show (L.workers tid).bind _ = none
    rw [hw]
    show w.holds = none
    unfold Worker.holds
    rw [hpc]
    rfl
  refine h.opened (d := .file tid) (r := .file tid) hf rfl rfl hold (fun r hr => ?_) held_self
  exact (names_moved (L := L.alloc fd (.file tid)) hw hsess (fun _ => by rw [hpc]; rfl)
    (fun _ => by rw [hpc]; rfl) fun e => absurd e hr).trans (congrFun (names_same (.of rfl rfl) rfl) r)

theorem Exact.closeFile (h : L.Exact c) (hw : L.workers tid = some w) (hpc : w.pc = .closeFile) :
    ((L.closeOpt w.file).setWorker tid (some { w with pc := .final })).Exact c := by
  have hwM : (L.closeOpt w.file).workers tid = some w := by rw [closeOpt_workers, hw]
  have hold : L.names c (.file tid) = w.file := by
    show (L.workers tid).bind _ = _
    rw [hw]
    show w.holds = _
    unfold Worker.holds
    rw [hpc]
    rfl
  refine h.closed (r := .file tid) closeOpt_shut (Or.inr hold) (fun fd e => Or.inr ?_) (fun r hr => ?_)
    held_self
  · exact (h fd (.file tid)).mpr (hold.trans e)
  · rw [names_moved hwM onward_sess (fun _ => by rw [hpc]; rfl) (fun _ => by rw [hpc]; rfl)
      fun e => absurd e hr, closeOpt_names]

end

end Ledger

end Myftpd
