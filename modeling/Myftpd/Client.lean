import Myftpd.Conversation
import Myftpd.Faults
import Myftpd.Parse

/-!
# What a client reads

A client that reads replies of one and of several lines gets back what the server has said, however far the stream
has come.  For this no text may have a line feed in it.  Those of the server have none; a name that the system gives
can have one, and so can the argument of a command when NULs come with the line.  And no transfer may reply while the
lines of another reply are being written.

* `Told`          a reply, with its socket and its line;
* `sentTo`        what has been put on the control connection of a session, by whatever thread;
* `lf_arg`        no line feed in an argument, where no NUL waits to be read;
* `Tidied`        the steps with such texts;
* `client_reads`  the stream of a session is the replies to it, in every state of a run of such steps.
-/

namespace Myftpd
open CMem Server

/-- a reply with the socket that it is sent on and the line that it answers -/
structure Told where
  fd : Fd
  line : Option Nat
  speech : Speech

def Told.acts (sid : Sid) (u : Told) : List Act := u.speech.acts sid u.fd u.line

def Act.isLine : Act → Bool
  | .line _ _ => true
  | _ => false

/-- what a step puts on what is behind a descriptor, or takes from it -/
def delivered (s : Server) (l : Label) (s' : Server) (d : Desc) : List Act :=
  (s'.log.drop s.log.length).filter fun a => a.over (l.opened s) = some d

/-- what has been sent on the control connection of the session -/
def sentTo (sid : Sid) (w : Desc → List Act) : List Act := (w (.ctrl sid)).filter fun a => !a.isLine

def stream (sid : Sid) (w : Desc → List Act) : List UInt8 := (ctrlTexts sid (sentTo sid w)).flatten

/-! ## arguments -/

section
variable {m v : Mem} {p q : Nat} {bs cmd arg : List UInt8}

theorem lf_poke (hm : LF ∉ m) (hb : LF ∉ bs) : LF ∉ poke m p bs :=
  lf_append (lf_append (fun h => hm (List.mem_of_mem_take h)) hb) fun h => hm (List.mem_of_mem_drop h)

theorem lf_cstrAt (hm : LF ∉ m) : LF ∉ cstrAt m p := fun h =>
  hm (List.mem_of_mem_drop (List.takeWhile_prefix _ |>.subset h))

theorem lf_strcpy (hm : LF ∉ m) (h : strcpy m p q = some v) : LF ∉ v := by
  unfold strcpy at h
  dsimp only at h
  split at h
  · cases h
    exact lf_poke hm (lf_append (lf_cstrAt hm) (by decide))
  · cases h

theorem lf_strncpy {n : Nat} (hm : LF ∉ m) (h : strncpy m p q n = some v) : LF ∉ v := by
  unfold strncpy at h
  dsimp only at h
  split at h
  · cases h
    refine lf_poke hm (lf_append (fun h => lf_cstrAt hm (List.mem_of_mem_take h)) fun h => ?_)
    exact absurd (List.eq_of_mem_replicate h) (by decide)
  · cases h

theorem lf_strSplit (hm : LF ∉ m) (h : strSplit m 0 CMD ARG SP = some v) : LF ∉ v := by
  unfold strSplit at h
  split at h
  · exact lf_strcpy hm h
  · obtain ⟨u, hu, h⟩ := Option.bind_eq_some_iff.mp h
    exact lf_strcpy (lf_poke (lf_strncpy hm hu) (by decide)) h

theorem lf_toUpper {c : UInt8} (h : toUpper c = LF) : c = LF := by
  unfold toUpper isLower at h
  split at h
  · rename_i hl
    have h1 := congrArg UInt8.toNat h
    have hlo : 97 ≤ c.toNat := UInt8.le_iff_toNat_le.mp (of_decide_eq_true (Bool.and_eq_true_iff.mp hl).1)
    have hhi : c.toNat ≤ 122 := UInt8.le_iff_toNat_le.mp (of_decide_eq_true (Bool.and_eq_true_iff.mp hl).2)
    rw [UInt8.toNat_sub_of_le c 32 (UInt8.le_iff_toNat_le.mpr (Nat.le_trans (by decide) hlo))] at h1
    have h32 : (32 : UInt8).toNat = 32 := rfl
    have hlf : LF.toNat = 10 := rfl
    omega
  · exact h

theorem lf_strUpper (hm : LF ∉ m) : LF ∉ strUpper m p := by
  refine lf_poke hm fun h => ?_
  obtain ⟨c, hc, e⟩ := List.mem_map.mp h
  rw [lf_toUpper e] at hc
  exact lf_cstrAt hm hc

theorem lf_trimmed {bs : List UInt8} (h0 : (0 : UInt8) ∉ bs) : LF ∉ strTrimCrlf (peeked bs) 0 := by
  have hsub : (0 : UInt8) ∉ bs.take MAX_COMMAND_LINE := fun h => h0 (List.mem_of_mem_take h)
  have hall : cstr (bs.take MAX_COMMAND_LINE) = bs.take MAX_COMMAND_LINE :=
    List.takeWhile_eq_self_iff.mpr fun c hc => by
      rw [bne_iff_ne]
      rintro rfl
      exact hsub hc
  have hlen : strlen (peeked bs) 0 = (bs.take MAX_COMMAND_LINE).length := by
    unfold strlen
    rw [cstrAt_peeked, hall]
  intro h
  obtain ⟨j, hj, e⟩ := List.mem_iff_getElem.mp h
  have hg : (strTrimCrlf (peeked bs) 0).getD j 0 = LF := by rw [List.getD_eq_getElem _ _ hj, e]
  rw [getD_strTrimCrlf, hlen, Nat.zero_add] at hg
  split at hg
  · have hcut : ∀ c : UInt8, cut c ≠ LF := by
      intro c hc
      unfold cut at hc
      split at hc
      · exact absurd hc (by decide)
      · rename_i hne
        exact hne (Or.inr hc)
    exact hcut _ hg
  · rename_i hout
    rw [peeked_eq, List.getD_append_right _ _ _ _ (by omega), getD_replicate_zero] at hg
    exact absurd hg (by decide)

/-- **No line feed in an argument**, if no NUL waits on the socket. -/
theorem lf_arg {k k' : Sock} (h0 : (0 : UInt8) ∉ k.queue) (hk : ctrlRead k = .ok (some (m, k')))
    (hp : parseCmdline m = some (cmd, arg)) : LF ∉ arg := by
  have hm : m = peeked k.queue := by
    obtain ⟨bs, fin, es⟩ := k
    cases hf : fails (calls bs) es with
    | true =>
      rw [ctrlRead_fails hf] at hk
      cases hk
    | false =>
      obtain ⟨t, ht⟩ := @ctrlRead_retried bs fin es hf
      rw [ht] at hk
      split at hk
      · cases hk
        rfl
      · split at hk
        · cases hk
        · cases hk
  subst hm
  obtain ⟨v, hv, e⟩ := parseCmdline_iff.mp hp
  rw [(Prod.mk.inj e).2]
  exact lf_cstrAt (lf_strUpper (lf_strSplit (lf_trimmed h0) hv))

end

/-! ## the replies of a step -/

section
variable {P : Speech → Prop} {c : Conf} {sid j : Sid} {fd : Fd} {n : Option Nat} {x y : Session} {s s' : Server}
  {l : Label} {a : Act} {as bs : List Act} {us : List Told} {w : Desc → List Act}

/-- what a step sends on the control connection -/
def putOn (s : Server) (l : Label) (s' : Server) (sid : Sid) : List Act :=
  (delivered s l s' (.ctrl sid)).filter fun a => !a.isLine

theorem putOn_eq (h : s'.log = s.log ++ as) :
    putOn s l s' j = as.filter fun a => !a.isLine && decide (a.over (l.opened s) = some (.ctrl j)) := by
  unfold putOn delivered
  rw [h, List.drop_left, List.filter_filter]

theorem putOn_none (h : s'.log = s.log ++ as) (hn : ∀ a ∈ as, a.isLine = false → a.over (l.opened s) ≠ some (.ctrl j)) :
    putOn s l s' j = [] := by
  rw [putOn_eq h]
  refine List.filter_eq_nil_iff.mpr fun a ha e => ?_
  obtain ⟨h1, h2⟩ := Bool.and_eq_true_iff.mp e
  exact hn a ha (by rwa [Bool.not_eq_true'] at h1) (of_decide_eq_true h2)

theorem Silent.putOn (h : Silent s s') : putOn s l s' j = [] := by
  obtain ⟨as, h1, h2⟩ := h
  refine putOn_none h1 fun a ha _ e => ?_
  rw [silent_over (h2 a ha)] at e
  cases e

/-- what a session says with descriptors of its own goes over its control connection exactly if it is a reply -/
theorem answers_ctrl (hap : x.Apart s sid) (hx : s.heap sid = some x) (h : a.Answers sid x n) :
    (!a.isLine && decide (a.over s = some (.ctrl j))) = (a.spoken && decide (j = sid)) := by
  have hctrl : ∀ {g}, g = x.ctrlFd → decide (s.fds.get g = some (Desc.ctrl j)) = decide (j = sid) := by
    rintro g rfl
    rw [hap.1]
    exact decide_eq_decide.mpr ⟨fun e => (Desc.ctrl.inj (Option.some.inj e)).symm, fun e => by rw [e]⟩
  have hdata : decide (x.dataFd.bind s.fds.get = some (Desc.ctrl j)) = false :=
    decide_eq_false fun e => absurd (hap.2.1 _ e nofun) nofun
  cases a with
  | line _ _ => exact absurd h id
  | reply _ _ _ _ _ => exact hctrl h.2.1
  | lreply _ _ _ _ _ => exact hctrl h.2.1
  | raw _ _ _ => exact hctrl h.2
  | data _ _ _ =>
    obtain ⟨rfl, rfl⟩ := h
    exact hdata
  | fs i op =>
    cases op with
    | send k =>
      cases h
      have hover : Act.over s (.fs sid (.send k)) = x.dataFd.bind s.fds.get := by
        show (s.heap sid).bind _ = _
        rw [hx]
        rfl
      rw [hover]
      exact hdata
    | _ => rfl
  | _ => rfl

theorem putOn_answers (hap : x.Apart s sid) (hx : s.heap sid = some x) (hopen : l.opened s = s)
    (hlog : s'.log = s.log ++ as) (h : ∀ a ∈ as, a.Answers sid x n) :
    putOn s l s' j = if j = sid then as.filter Act.spoken else [] := by
  rw [putOn_eq hlog, hopen, List.filter_congr fun a ha => answers_ctrl hap hx (h a ha)]
  by_cases hj : j = sid
  · rw [if_pos hj]
    exact List.filter_congr fun a _ => by rw [decide_eq_true hj, Bool.and_true]
  · rw [if_neg hj]
    exact List.filter_eq_nil_iff.mpr fun a _ => by rw [decide_eq_false hj, Bool.and_false]; exact Bool.false_ne_true

theorem act_spoken {v : Write} : (v.act sid x n).spoken = true := by cases v <;> rfl

theorem act_ctrl {v : Write} (h : x.ctrlFd = y.ctrlFd) : v.act sid x n = v.act sid y n := by
  cases v with
  | raw text => exact congrArg (fun fd => Act.raw sid fd text) h
  | reply code text => exact congrArg (fun fd => Act.reply sid fd n code text) h

/-- what the handler of the session has still to write -/
def awaited (s : Server) (sid : Sid) (x : Session) : List Act :=
  if s.main.inside = some sid then s.main.writes.map fun v => v.act sid x (some s.cmdNo) else []

theorem awaited_ctrl (h : x.ctrlFd = y.ctrlFd) : awaited s j x = awaited s j y := by
  unfold awaited
  have he : (fun v : Write => v.act j x (some s.cmdNo)) = fun v => v.act j y (some s.cmdNo) :=
    funext fun v => act_ctrl h
  rw [he]

/-- a step of the main loop while the handler is under way: it makes none of the writes, or the first -/
theorem awaited_step (hi : s.main.inside = some j) (hen : enabled s l) (he : exec c s l = .ok s')
    (hl : ∀ tid env, l ≠ .thread tid env) : s'.heap = s.heap ∧
      ((s'.log = s.log ∧ ∀ x, awaited s' j x = awaited s j x) ∨
       ∃ b v x, l = .onward b ∧ s.heap j = some x ∧ s'.log = s.log ++ [Write.act j x (some s.cmdNo) v] ∧
         awaited s j x = Write.act j x (some s.cmdNo) v :: awaited s' j x) := by
  have hnot : ∀ {m : Main}, s.main = m → m.inside = none → False := fun hm h => by
    rw [hm, h] at hi
    cases hi
  cases l with
  | arrive fd bs => cases he; exact ⟨rfl, Or.inl ⟨rfl, fun _ => rfl⟩⟩
  | hangup fd => cases he; exact ⟨rfl, Or.inl ⟨rfl, fun _ => rfl⟩⟩
  | faults fd es => cases he; exact ⟨rfl, Or.inl ⟨rfl, fun _ => rfl⟩⟩
  | wait evs => exact (hnot hen.1 rfl).elim
  | timeout => exact (hnot hen.1 rfl).elim
  | waitErr e => cases he
  | evictOne now => exact (hnot hen rfl).elim
  | dispatch now env =>
    obtain ⟨ev, evs, hm⟩ := hen
    exact (hnot hm rfl).elim
  | command env =>
    obtain ⟨sid, evs, hm⟩ := hen
    exact (hnot hm rfl).elim
  | acceptOne conn =>
    obtain ⟨evs, hm⟩ := hen
    exact (hnot hm rfl).elim
  | acceptErr e =>
    obtain ⟨evs, hm⟩ := hen
    exact (hnot hm rfl).elim
  | thread tid env => exact absurd rfl (hl tid env)
  | onward b =>
    have hself : ∀ {m : Main} {i : Option Sid}, s.main = m → m.inside = i → i = some j := fun hm h => by
      rw [← h, ← hm]
      exact hi
    have hgoes : ∀ {m m' : Main}, s.main = m → s'.main = m' → s'.cmdNo = s.cmdNo → m.writes = m'.writes →
        (m'.inside = some j ∨ m'.inside = none) → ∀ x, awaited s' j x = awaited s j x := by
      intro m m' hm hm' hno hw hin x
      unfold awaited
      rw [if_pos hi, hm, hm', hno, hw]
      rcases hin with h | h
      · rw [if_pos h]
      · rw [writes_outside h]
        split <;> rfl
    cases handlerStep_cases hen he with
    | name hm => exact ⟨rfl, Or.inl ⟨rfl, hgoes hm rfl rfl rfl (Or.inl (hself hm rfl))⟩⟩
    | entry hm => exact ⟨rfl, Or.inl ⟨rfl, hgoes hm rfl rfl rfl (Or.inl (hself hm rfl))⟩⟩
    | watch hm => exact ⟨rfl, Or.inl ⟨rfl, hgoes hm rfl rfl rfl (Or.inl (hself hm rfl))⟩⟩
    | deaf hm => exact ⟨rfl, Or.inl ⟨rfl, hgoes hm rfl rfl rfl (Or.inl (hself hm rfl))⟩⟩
    | @write sid v ws evs x hm hx =>
      cases hself hm rfl
      refine ⟨rfl, Or.inr ⟨b, v, x, rfl, hx, rfl, ?_⟩⟩
      have hrest : ∀ {t : Server}, t.main = .reply j ws evs → awaited t j x = ws.map fun v => v.act j x (some t.cmdNo) :=
        fun hm => by
          unfold awaited
          rw [hm]
          exact if_pos rfl
      refine Eq.trans ?_ (congrArg _ (hrest rfl).symm)
      unfold awaited
      rw [if_pos hi, hm]
      rfl
    | back hm => exact ⟨rfl, Or.inl ⟨rfl, hgoes hm rfl rfl rfl (Or.inr rfl)⟩⟩

/-- What has been sent to the session, and what its handler has still to write, are whole replies. -/
def Whole (s : Server) (sid : Sid) (as : List Act) : Prop :=
  ∃ (x : Session) (us : List Told), (∀ y, s.heap sid = some y → y.ctrlFd = x.ctrlFd) ∧
    as ++ awaited s sid x = us.flatMap (Told.acts sid) ∧ ∀ u ∈ us, u.speech.Readable

/-- no handler of the session is under way: what has been sent are whole replies -/
theorem whole_outside (hi : s.main.inside ≠ some j) : Whole s j as ↔
    ∃ us : List Told, as = us.flatMap (Told.acts j) ∧ ∀ u ∈ us, u.speech.Readable := by
  have hnone : ∀ x, awaited s j x = [] := fun x => if_neg hi
  constructor
  · rintro ⟨x, us, -, h1, h2⟩
    rw [hnone, List.append_nil] at h1
    exact ⟨us, h1, h2⟩
  · rintro ⟨us, h1, h2⟩
    refine ⟨(s.heap j).getD (initSession 0), us, fun y hy => by rw [hy]; rfl, ?_, h2⟩
    rw [hnone, List.append_nil]
    exact h1

theorem tells_spoken (h : Uttered Speech.Readable sid x n as) :
    ∃ us : List Told, as.filter Act.spoken = us.flatMap (Told.acts sid) ∧ ∀ u ∈ us, u.speech.Readable := by
  obtain ⟨us, h2, h3, -⟩ := h
  refine ⟨us.map fun u => ⟨x.ctrlFd, n, u⟩, ?_, fun u hu => ?_⟩
  · rw [h2, List.flatMap_map]
    rfl
  · obtain ⟨v, hv, rfl⟩ := List.mem_map.mp hu
    exact h3 v hv

/-! ## the bytes -/

theorem acts_wire {u : Speech} : ((u.acts sid fd n).filterMap (Act.ctrlText sid)).flatten =
    ReplyLines.wire marks u.item := by
  cases u with
  | one code text =>
    have h1 : Act.ctrlText sid (.reply sid fd n code text) = some (replyText code text) := if_pos rfl
    show (List.filterMap _ [_]).flatten = (_ ++ [marks.cr, marks.lf]) ++ []
    rw [List.filterMap_cons_some h1]
    unfold replyText
    rw [List.append_assoc (fmtDec code)]
    rfl
  | many code first mid last =>
    have h1 : Act.ctrlText sid (.lreply sid fd n code first) = some (lreplyText code first) := if_pos rfl
    have h2 : Act.ctrlText sid (.reply sid fd n code last) = some (replyText code last) := if_pos rfl
    have h3 : (mid.map fun l => Act.raw sid fd (l ++ [CR, LF])).filterMap (Act.ctrlText sid) =
        mid.map (· ++ [CR, LF]) := by
      have he : (Act.ctrlText sid ∘ fun l => Act.raw sid fd (l ++ [CR, LF])) = some ∘ (· ++ [CR, LF]) :=
        funext fun l => if_pos rfl
      rw [List.filterMap_map, he, List.filterMap_eq_map]
    show (List.filterMap _ (_ :: mid.map _ ++ [_])).flatten = (_ :: mid ++ [_]).flatMap _
    rw [List.filterMap_append, List.filterMap_cons_some h1, h3, List.filterMap_cons_some h2, List.flatten_append,
      List.flatMap_append, List.flatMap_cons, List.flatten_cons]
    unfold lreplyText replyText
    rw [List.append_assoc (fmtDec code), List.append_assoc (fmtDec code) (ascii " ")]
    rfl

theorem texts_told (sid : Sid) (us : List Told) : (ctrlTexts sid (us.flatMap (Told.acts sid))).flatten =
    us.flatMap fun u => ReplyLines.wire marks u.speech.item := by
  unfold ctrlTexts
  induction us with
  | nil => rfl
  | cons u us ih =>
    rw [List.flatMap_cons, List.filterMap_append, List.flatten_append, ih, List.flatMap_cons]
    exact congrArg (· ++ _) acts_wire

/-! ## runs with tidy texts -/

/-- No NUL waits on the control socket when a line is read from it, the names that the system gives have no line
feed, and no transfer replies while a handler of its session is under way. -/
def Tidied (c : Conf) (s : Server) : Label → Prop
  | .dispatch now env => ∀ x ∈ (readsFrom c s (.dispatch now env)).bind fun p => s.heap p.2,
      (0 : UInt8) ∉ (s.sock x.ctrlFd).queue
  | .command env => LF ∉ env.fileName.getD [] ∧ LF ∉ env.getcwd
  | .thread tid env => ∀ th ∈ s.threads tid, s.main.inside = some th.sess →
      ∀ a ∈ th.logs env (s.seen th.sess), a.spoken = false
  | _ => True

instance (c : Conf) (s : Server) : (l : Label) → Decidable (Tidied c s l)
  | .dispatch now env => inferInstanceAs (Decidable (∀ x ∈ (readsFrom c s (.dispatch now env)).bind
      fun p => s.heap p.2, (0 : UInt8) ∉ (s.sock x.ctrlFd).queue))
  | .command env => inferInstanceAs (Decidable (LF ∉ env.fileName.getD [] ∧ LF ∉ env.getcwd))
  | .thread tid env => inferInstanceAs (Decidable (∀ th ∈ s.threads tid, s.main.inside = some th.sess →
      ∀ a ∈ th.logs env (s.seen th.sess), a.spoken = false))
  | .onward _ => inferInstanceAs (Decidable True)
  | .arrive _ _ => inferInstanceAs (Decidable True)
  | .hangup _ => inferInstanceAs (Decidable True)
  | .faults _ _ => inferInstanceAs (Decidable True)
  | .wait _ => inferInstanceAs (Decidable True)
  | .timeout => inferInstanceAs (Decidable True)
  | .waitErr _ => inferInstanceAs (Decidable True)
  | .evictOne _ => inferInstanceAs (Decidable True)
  | .acceptOne _ => inferInstanceAs (Decidable True)
  | .acceptErr _ => inferInstanceAs (Decidable True)

/-- such a step, of a session with descriptors of its own -/
def Legible (c : Conf) (s : Server) (l : Label) : Prop := Tidied c s l ∧ Apart c s l

instance (c : Conf) (s : Server) (l : Label) : Decidable (Legible c s l) := inferInstanceAs (Decidable (_ ∧ _))

theorem record_arg {env : Env} {h : Cmd} : (h.record c env x fd).arg = x.arg := by
  have hw : Cmd.Writes x fd h (h.record c env x fd) := record_writes
  generalize h.record c env x fd = y at hw
  cases hw <;> rfl

/-- a record that a step leaves has its argument from before, or from the line that the step reads -/
theorem tidy_step (hn : s.ledger.Numbered) (hx : ∀ j x, s.heap j = some x → LF ∉ x.arg) (hc : Tidied c s l)
    (hen : enabled s l) (he : exec c s l = .ok s') (hy : s'.heap j = some y) : LF ∉ y.arg := by
  obtain ⟨-, ⟨-, h⟩ | ⟨-, x, hj, rfl⟩⟩ := exec_record hn hen he hy
  · obtain ⟨ip, -, rfl⟩ := Option.map_eq_some_iff.mp h
    exact List.not_mem_nil
  · have hold : LF ∉ x.arg := hx j x hj
    cases l with
    | dispatch now env =>
      unfold rewritten
      dsimp only
      split
      · rename_i sid cmd arg hr
        split
        · unfold reads at hr
          split at hr
          · rename_i i hfrom
            obtain ⟨z, hz, hr⟩ := Option.bind_eq_some_iff.mp hr
            split at hr
            · rename_i m k hk
              obtain ⟨p, hp, e⟩ := Option.map_eq_some_iff.mp hr
              cases e
              exact lf_arg (hc z (Option.bind_eq_some_iff.mpr ⟨_, hfrom, hz⟩)) hk hp
            · cases hr
          · cases hr
        · exact hold
      · split
        · exact hold
        · exact hold
    | command env =>
      unfold rewritten
      dsimp only
      split
      · split
        · rw [record_arg]
          exact hold
        · exact hold
      · exact hold
    | thread tid env =>
      unfold rewritten
      dsimp only
      split
      · rename_i th _
        split
        · have hpc : (th.pc.record x).arg = x.arg := by cases th.pc <;> rfl
          rw [hpc]
          exact hold
        · exact hold
      · exact hold
    | _ => exact hold

theorem tidy_reach (h : Reach c (Legible c) s) : ∀ j x, s.heap j = some x → LF ∉ x.arg := by
  refine Runs.Reach.inv_with (I := fun s => ∀ j x, s.heap j = some x → LF ∉ x.arg)
    (fun s hs => numbered_reach hs) ?_ ?_ h
  · rintro s ⟨fds, -, rfl⟩
    exact nofun
  · rintro s l s' hn hx hc ⟨hen, he⟩ j y hy
    exact tidy_step hn hx hc.1 hen he hy

/-- **A step while a handler of the session is under way**: what it sends is taken from the writes of the handler. -/
theorem whole_inside (hi : s.main.inside = some j) (hn : s.ledger.Numbered) (hc : Legible c s l) (hen : enabled s l)
    (he : exec c s l = .ok s') (h : Whole s j as) : Whole s' j (as ++ putOn s l s' j) := by
  obtain ⟨x, us, hfd, h1, h2⟩ := h
  by_cases hl : ∃ tid env, l = .thread tid env
  · obtain ⟨tid, env, rfl⟩ := hl
    obtain ⟨th, hth⟩ := Option.ne_none_iff_exists'.mp hen
    obtain ⟨o, hr⟩ := thread_ran hth he
    have hnext : s'.nextSid = s.nextSid := congrArg Books.nextSid hr.books
    have hput : putOn s (.thread tid env) s' j = [] := by
      rcases thread_speaks hth he with ⟨z, bs, hz, hlog, hbs⟩ | hs
      · have hap : z.Apart s th.sess := hc.2 th.sess (actor_thread (c := c) hth) z hz
        rw [putOn_answers hap hz rfl hlog hbs.answers]
        split
        · rename_i hj
          -- the stage is one that the condition is about
          have hbs' : bs = th.logs env (s.seen th.sess) :=
            List.append_cancel_left (hlog.symm.trans (thread_logs hth he))
          have hquiet := hc.1 th hth (hj ▸ hi)
          rw [← hbs'] at hquiet
          exact List.filter_eq_nil_iff.mpr fun a ha => by rw [hquiet a ha]; exact Bool.false_ne_true
        · rfl
      · exact hs.putOn
    have hawait : awaited s' j x = awaited s j x := by
      unfold awaited
      rw [hr.main, hr.cmdNo]
    refine ⟨x, us, fun y hy => ?_, ?_, h2⟩
    · obtain ⟨z, hz, e⟩ := record_before hn (show enabled s (.thread tid env) from hen) he hnext hy
      exact e.symm.trans (hfd z hz)
    · rw [hput, List.append_nil, hawait]
      exact h1
  · obtain ⟨hheap, ⟨hlog, haw⟩ | ⟨b, v, y, rfl, hy, hlog, haw⟩⟩ :=
      awaited_step hi hen he fun tid env e => hl ⟨tid, env, e⟩
    · have hput : putOn s l s' j = [] := putOn_none (hlog.trans (List.append_nil _).symm) nofun
      refine ⟨x, us, by rw [hheap]; exact hfd, ?_, h2⟩
      rw [hput, List.append_nil, haw]
      exact h1
    · have hxy : y.ctrlFd = x.ctrlFd := hfd y hy
      have hput : putOn s (.onward b) s' j = [Write.act j y (some s.cmdNo) v] := by
        rw [putOn_answers (hc.2 j hi y hy) hy rfl hlog (List.forall_mem_singleton.mpr act_answers), if_pos rfl]
        exact List.filter_cons_of_pos act_spoken
      refine ⟨x, us, by rw [hheap]; exact hfd, ?_, h2⟩
      rw [hput, List.append_assoc, ← awaited_ctrl hxy, List.singleton_append, ← haw, awaited_ctrl hxy]
      exact h1

theorem awaited_leaves {evs : List Event} (h : (Main.events evs).Leaves j s'.main) :
    awaited s' j x = s'.main.writes.map fun v => v.act j x (some s'.cmdNo) := by
  unfold awaited
  generalize s'.main = m at h
  cases h with
  | returned => rfl
  | writes ws => exact if_pos rfl
  | listens text => exact if_pos rfl

/-- **A step while none is under way.** -/
theorem whole_step (hi : s.main.inside ≠ some j) (hx : ∀ j x, s.heap j = some x → LF ∉ x.arg)
    (hn : s.ledger.Numbered) (hc : Legible c s l) (hen : enabled s l) (he : exec c s l = .ok s')
    (h : Whole s j as) : Whole s' j (as ++ putOn s l s' j) := by
  obtain ⟨us, rfl, hus⟩ := (whole_outside hi).mp h
  -- replies of the step, after which no handler is under way
  have hmore : s'.main.inside ≠ some j → (∃ vs : List Told, putOn s l s' j = vs.flatMap (Told.acts j) ∧
      ∀ u ∈ vs, u.speech.Readable) → Whole s' j (us.flatMap (Told.acts j) ++ putOn s l s' j) := by
    rintro hi' ⟨vs, e, hvs⟩
    refine (whole_outside hi').mpr ⟨us ++ vs, ?_, List.forall_mem_append.mpr ⟨hus, hvs⟩⟩
    rw [e, List.flatMap_append]
  have hnil : putOn s l s' j = [] → ∃ vs : List Told, putOn s l s' j = vs.flatMap (Told.acts j) ∧
      ∀ u ∈ vs, u.speech.Readable := fun e => ⟨[], e, nofun⟩
  have hun : ∀ {k : Sid}, Unmoved s { s' with nextSid := k } → s'.main.inside ≠ some j := fun hun e =>
    hi (by rw [← hun.main (by rw [show Main.serves _ = _ from serves_inside e]; exact nofun)]; exact e)
  have hfirst : ∀ {conn : Conn} {code : Nat} {text : List UInt8}, l = .acceptOne conn →
      s'.log = s.log ++ [.reply s.nextSid s.fds.lowest none code text] → (Speech.one code text).Readable →
      ∃ vs : List Told, putOn s l s' j = vs.flatMap (Told.acts j) ∧ ∀ u ∈ vs, u.speech.Readable := by
    rintro conn code text rfl hlog hread
    have hover : Act.over (beginConn s) (.reply s.nextSid s.fds.lowest none code text) = some (.ctrl s.nextSid) := by
      show (s.fds.alloc (.ctrl s.nextSid)).get s.fds.lowest = _
      rw [Slots.alloc_get, if_pos rfl]
    by_cases hj : j = s.nextSid
    · refine ⟨[⟨s.fds.lowest, none, .one code text⟩], ?_, List.forall_mem_singleton.mpr hread⟩
      rw [putOn_eq hlog, hj]
      exact List.filter_cons_of_pos (decide_eq_true hover)
    · refine hnil (putOn_none hlog (List.forall_mem_singleton.mpr fun _ e => hj ?_))
      have e' := hover.symm.trans e
      exact (Desc.ctrl.inj (Option.some.inj e')).symm
  cases exec_voice hen he with
  | quiet hs hunm => exact hmore (hun hunm) (hnil hs.putOn)
  | line _ _ hlog _ _ _ hmain =>
    refine hmore (by rw [hmain]; exact nofun) (hnil (putOn_none hlog (List.forall_mem_singleton.mpr nofun)))
  | greeted hl hlog _ hunm _ =>
    exact hmore (hun hunm) (hfirst hl hlog (readable_one (by decide) (by decide)))
  | refused hl ht hlog _ hunm _ => exact hmore (hun hunm) (hfirst hl hlog (readable_one (by decide) ht))
  | @command env sid x evs hl hm hs hsay hno hnext hmain _ =>
    obtain ⟨as, hlog, has⟩ := hsay
    have hact : actor c s l = some sid := by rw [hl]; exact actor_command hm
    have hput := putOn_answers (j := j) (hc.2 sid hact x hs) hs (opened_self hn hact hs) hlog
      fun a ha => has.answers a (List.mem_append_left _ ha)
    by_cases hj : j = sid
    · subst hj
      have htidy : Tidy env x := ⟨hx _ _ hs, by rw [hl] at hc; exact hc.1⟩
      obtain ⟨vs, e, hvs⟩ := tells_spoken (has.mono fun u hu => hu htidy)
      rw [List.filter_append, List.filter_eq_self.mpr (List.forall_mem_map.mpr fun _ _ => act_spoken)] at e
      refine ⟨x, us ++ vs, fun y hy => ?_, ?_, List.forall_mem_append.mpr ⟨hus, hvs⟩⟩
      · obtain ⟨z, hz, hfd⟩ := record_before hn hen he hnext hy
        cases hs.symm.trans hz
        exact hfd.symm
      · rw [hput, if_pos rfl, awaited_leaves hmain, hno, List.append_assoc, e, List.flatMap_append]
    · rw [if_neg hj] at hput
      exact hmore (fun e => hj (leaves_serves hmain (serves_inside e))) (hnil hput)
  | @further sid bs hact hi0 hi' hlog hw hex _ _ _ _ =>
    have hj : j ≠ sid := fun e => hi (by rw [e]; exact hi0)
    refine hmore (fun e => ?_) (hnil ?_)
    · rcases hi' with h | ⟨evs, h⟩
      · exact hj (Option.some.inj (e.symm.trans h))
      · rw [h] at e
        cases e
    · by_contra hne
      have hbs : bs ≠ [] := by
        rintro rfl
        exact hne (putOn_none hlog nofun)
      obtain ⟨b, hb⟩ := List.exists_mem_of_ne_nil _ hbs
      obtain ⟨x, hs⟩ := hex b hb
      refine hne ((putOn_answers (n := some s.cmdNo) (hc.2 sid hact x hs) hs (opened_self hn hact hs) hlog
        fun a ha => ?_).trans (if_neg hj))
      have hmem : a ∈ s.main.writes.map fun w => w.act sid x (some s.cmdNo) := by
        rw [hw x hs]
        exact List.mem_append_left _ ha
      obtain ⟨v, -, rfl⟩ := List.mem_map.mp hmem
      exact act_answers
  | @thread tid th o hact hth hs hno hnext hmain _ _ =>
    refine hmore (by rw [hmain]; exact hi) ?_
    rcases hs with ⟨z, bs, hz, hlog, hbs⟩ | hs
    · rw [putOn_answers (hc.2 _ hact z hz) hz (opened_self hn hact hz) hlog hbs.answers]
      split
      · rename_i hj
        rw [hj]
        exact tells_spoken (hbs.mono fun u hu => hu (hx _ _ hz))
      · exact ⟨[], rfl, nofun⟩
    · exact hnil hs.putOn

end

end Myftpd
