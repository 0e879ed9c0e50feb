import Myftpd.Effect
import Myftpd.Course
import Myftpd.Output
import Myftpd.Listing
import Myftpd.Numbers
import Myftpd.Lib.ReplyLines

/-!
# What a step says on the control connections

Everything that the server sends on a control connection is a whole reply, of one line or of several, and a step
says what it says in one session.

* `Speech`        a reply, and the calls that send it;
* `Uttered`        entries that are whole replies in answer to one line;
* `runCmd_speaks` a handler, with the writes that it has still to make;
* `Voice`         what is said and heard in a step, and `exec_voice`, every step.
-/

namespace Myftpd
open CMem Server

/-- a reply of one line, or one of several with the lines between the first and the last -/
inductive Speech where
  | one (code : Nat) (text : List UInt8)
  | many (code : Nat) (first : List UInt8) (mid : List (List UInt8)) (last : List UInt8)

/-- the calls of `ftp_reply`, `ftp_lreply` and `writen` -/
def Speech.acts (sid : Sid) (fd : Fd) (n : Option Nat) : Speech → List Act
  | .one code text => [.reply sid fd n code text]
  | .many code first mid last => .lreply sid fd n code first ::
      (mid.map fun l => .raw sid fd (l ++ [CR, LF])) ++ [.reply sid fd n code last]

/-- what is sent on a control connection -/
def Act.spoken : Act → Bool
  | .reply .. => true
  | .lreply .. => true
  | .raw .. => true
  | _ => false

/-- the session whose client the entry is an exchange with -/
def Act.peer : Act → Option Sid
  | .line sid _ => some sid
  | .reply sid _ _ _ _ => some sid
  | .lreply sid _ _ _ _ => some sid
  | .raw sid _ _ => some sid
  | .data sid _ _ => some sid
  | .fs sid (.send _) => some sid
  | _ => none

/-- no control line, data and calls of this session only, and the data over its data connection -/
def Act.Aside (sid : Sid) (x : Session) : Act → Prop
  | .line _ _ => False
  | .data i fd _ => i = sid ∧ fd = x.dataFd
  | .fs i _ => i = sid
  | _ => True

/-- The entries are replies to the line `n`, all with `P`, and entries of other kinds. -/
def Uttered (P : Speech → Prop) (sid : Sid) (x : Session) (n : Option Nat) (as : List Act) : Prop :=
  ∃ us : List Speech, as.filter Act.spoken = us.flatMap (Speech.acts sid x.ctrlFd n) ∧ (∀ u ∈ us, P u) ∧
    ∀ a ∈ as, a.spoken = false → a.Aside sid x

/-! ## replies that a client can read -/

def marks : ReplyLines.Marks UInt8 := ⟨CR, LF, SP, 45, by decide, by decide⟩

/-- the reply as the client knows it -/
def Speech.item : Speech → ReplyLines.Item UInt8
  | .one code text => .one (fmtDec code) text
  | .many code first mid last => .many (fmtDec code) first mid last

def Speech.Readable (u : Speech) : Prop := u.item.WellFormed marks 3

/-- neither the argument of the command nor a name that the system gives has a line feed in it -/
def Tidy (env : Env) (x : Session) : Prop := LF ∉ x.arg ∧ LF ∉ env.fileName.getD [] ∧ LF ∉ env.getcwd

theorem lf_fmtDec (z : Int) : LF ∉ fmtDec z := by
  rw [fmtDec_eq]
  intro h
  obtain ⟨c, hc, e⟩ := List.mem_map.mp h
  have hb := mem_decChars hc
  have e' := congrArg UInt8.toNat e
  rw [show c.toNat.toUInt8.toNat = c.toNat from Nat.mod_eq_of_lt (by omega)] at e'
  have hlf : LF.toNat = 10 := rfl
  omega

theorem lf_fmtOct (n : Nat) : LF ∉ fmtOct n := fun h =>
  absurd ((octalNum_fmtOct n).1 LF h) (by decide)

theorem lf_append {a b : List UInt8} (ha : LF ∉ a) (hb : LF ∉ b) : LF ∉ a ++ b := by
  rw [List.mem_append]
  exact fun h => h.elim ha hb

theorem lf_ascii {cs : List Char} (h : (cs.all fun c => c.toNat % 256 != 10) = true) :
    LF ∉ ascii (String.ofList cs) := by
  unfold ascii
  rw [String.toList_ofList]
  intro hm
  obtain ⟨c, hc, e⟩ := List.mem_map.mp hm
  exact bne_iff_ne.mp (List.all_eq_true.mp h c hc) (congrArg UInt8.toNat e)

theorem length_fmtDec {n : Nat} (h : 100 ≤ n ∧ n < 1000) : (fmtDec n).length = 3 := by
  obtain ⟨a, b, d, ha, ha', hb, hd, rfl⟩ :
      ∃ a b d, 0 < a ∧ a < 10 ∧ b < 10 ∧ d < 10 ∧ n = 10 * (10 * a + b) + d :=
    ⟨n / 100, n / 10 % 10, n % 10, by omega, by omega, by omega, by omega, by omega⟩
  rw [fmtDec_eq, List.length_map]
  show (Nat.toDigits 10 (10 * (10 * a + b) + d)).length = 3
  rw [← Nat.toDigits_append_toDigits (by decide) (by omega) hd, ← Nat.toDigits_append_toDigits (by decide) ha hb,
    Nat.toDigits_of_lt_base ha', Nat.toDigits_of_lt_base hb, Nat.toDigits_of_lt_base hd]
  rfl

theorem readable_one {code : Nat} {text : List UInt8} (hc : 100 ≤ code ∧ code < 1000) (ht : LF ∉ text) :
    (Speech.one code text).Readable := ⟨length_fmtDec hc, lf_fmtDec _, ht⟩

/-! ## the handlers -/

section
variable {P Q : Speech → Prop} {c : Conf} {env : Env} {sid : Sid} {fd : Fd} {n : Option Nat} {x : Session}
  {s s' t u : Server} {h : Cmd} {a : Act} {as bs : List Act} {code : Nat} {text : List UInt8}

namespace Uttered

theorem nil : Uttered P sid x n [] := ⟨[], rfl, nofun, nofun⟩

theorem append (h : Uttered P sid x n as) (h' : Uttered P sid x n bs) : Uttered P sid x n (as ++ bs) := by
  obtain ⟨us, h2, h3, h4⟩ := h
  obtain ⟨vs, g2, g3, g4⟩ := h'
  refine ⟨us ++ vs, ?_, List.forall_mem_append.mpr ⟨h3, g3⟩, List.forall_mem_append.mpr ⟨h4, g4⟩⟩
  rw [List.filter_append, List.flatMap_append, h2, g2]

theorem mono (h : Uttered P sid x n as) (hpq : ∀ u, P u → Q u) : Uttered Q sid x n as := by
  obtain ⟨us, h2, h3, h4⟩ := h
  exact ⟨us, h2, fun u hu => hpq u (h3 u hu), h4⟩

theorem aside (h : ∀ a ∈ as, a.spoken = false ∧ a.Aside sid x) : Uttered P sid x n as :=
  ⟨[], List.filter_eq_nil_iff.mpr fun a ha => by rw [(h a ha).1]; exact Bool.false_ne_true, nofun,
    fun a ha _ => (h a ha).2⟩

theorem cons (ha : a.spoken = false ∧ a.Aside sid x) (h : Uttered P sid x n as) : Uttered P sid x n (a :: as) :=
  append (aside (List.forall_mem_singleton.mpr ha)) h

theorem call {op : FsOp} {b : Bool} : Uttered P sid x n (called sid op b) := by
  unfold called
  split
  · exact aside (List.forall_mem_singleton.mpr ⟨rfl, rfl⟩)
  · exact nil

theorem ite {p : Prop} [Decidable p] (ha : Uttered P sid x n as) (hb : Uttered P sid x n bs) :
    Uttered P sid x n (if p then as else bs) := by
  split
  · exact ha
  · exact hb

theorem one (hp : P (.one code text)) : Uttered P sid x n [.reply sid x.ctrlFd n code text] :=
  ⟨[.one code text], rfl, List.forall_mem_singleton.mpr hp,
    List.forall_mem_singleton.mpr fun e => absurd e nofun⟩

theorem many {first last : List UInt8} {mid : List (List UInt8)} (hp : P (.many code first mid last)) :
    Uttered P sid x n ((Speech.many code first mid last).acts sid x.ctrlFd n) := by
  have hacts : ∀ a ∈ (Speech.many code first mid last).acts sid x.ctrlFd n, a.spoken = true := by
    intro a ha
    rcases List.mem_append.mp ha with ha | ha
    · rcases List.mem_cons.mp ha with rfl | ha
      · rfl
      · obtain ⟨l, -, rfl⟩ := List.mem_map.mp ha
        rfl
    · rw [List.mem_singleton.mp ha]
      rfl
  refine ⟨[.many code first mid last], ?_, List.forall_mem_singleton.mpr hp,
    fun a ha e => absurd ((hacts a ha).symm.trans e) nofun⟩
  rw [List.flatMap_singleton]
  exact List.filter_eq_self.mpr hacts

end Uttered

/-- The entries answer the line `n`, and a client can read the replies if the texts that they are given are tidy. -/
abbrev Replying (env : Env) (sid : Sid) (n : Nat) (x : Session) (as : List Act) : Prop :=
  Uttered (fun u => Tidy env x → u.Readable) sid x (some n) as

theorem speaks_answer {n : Nat} {text : String} (hc : 100 ≤ code ∧ code < 1000) (ht : LF ∉ ascii text) :
    Replying env sid n x (replied sid n x code (ascii text)) := .one fun _ => readable_one hc ht

theorem speaks_text {n : Nat} {text : List UInt8} (hc : 100 ≤ code ∧ code < 1000) (ht : Tidy env x → LF ∉ text) :
    Replying env sid n x (replied sid n x code text) := .one fun hT => readable_one hc (ht hT)

theorem lf_pasv (ip : List Nat) (port : Nat) : LF ∉ pasvText ip port := by
  unfold pasvText
  have h1 : LF ∉ ascii "Entering Passive Mode (" := lf_ascii rfl
  have h2 : LF ∉ ascii "," := lf_ascii rfl
  have h3 : LF ∉ ascii ")." := lf_ascii rfl
  simp only [List.mem_append, h1, h2, h3, lf_fmtDec, or_self, not_false_eq_true]

/-- LIST: the data of the entries stand between the two replies -/
theorem listed_speaks {n : Nat} : Replying env sid n x (listed env sid x) := by
  unfold listed
  cases env.opendir with
  | none => exact .nil
  | some es =>
    refine .cons ⟨rfl, rfl⟩ (.aside fun a ha => ?_)
    obtain ⟨e, -, rfl⟩ := List.mem_map.mp ha
    exact ⟨rfl, rfl, rfl⟩

theorem chmod_speaks {n : Nat} {arg : List UInt8} : Replying env sid n x (chmodLogs env sid n x arg) := by
  unfold chmodLogs
  refine .ite (speaks_answer (by decide) (lf_ascii rfl)) ?_
  cases split100 arg with
  | none => exact .nil
  | some p =>
    refine .ite (speaks_answer (by decide) (lf_ascii rfl)) (.append .call ?_)
    split
    · exact speaks_answer (by decide) (lf_ascii rfl)
    · exact speaks_answer (by decide) (lf_ascii rfl)

theorem umask_speaks {n : Nat} {arg : List UInt8} : Replying env sid n x (umaskLogs c sid n x arg) :=
  .ite (speaks_text (by decide) fun _ => lf_append (lf_ascii rfl) (lf_fmtOct _))
    (.cons ⟨rfl, trivial⟩ (speaks_text (by decide) fun _ => lf_append (lf_ascii rfl) (lf_fmtOct _)))

theorem site_speaks {n : Nat} : Replying env sid n x (Cmd.site.logs c env sid n x) := by
  show Uttered _ _ _ _ ((split100 x.arg).elim [] _)
  cases split100 x.arg with
  | none => exact .nil
  | some p =>
    exact .ite chmod_speaks (.ite umask_speaks
      (.ite (speaks_answer (by decide) (lf_ascii rfl)) (speaks_answer (by decide) (lf_ascii rfl))))

/-- a line that begins with a blank closes no reply -/
theorem blank_line {code : Nat} {l : List UInt8} (hl : LF ∉ l) (h : l.head? = some SP) :
    LF ∉ l ∧ ¬ ReplyLines.Closes marks 3 (fmtDec code) l := by
  refine ⟨hl, fun ⟨h1, _⟩ => (fmtDec_column code).1 ?_⟩
  obtain ⟨t, rfl⟩ := List.head?_eq_some_iff.mp h
  rw [← h1]
  exact List.mem_cons_self

/-- a whole line that can stand between the first and the last of a reply -/
def MidLine (l : List UInt8) : Prop := ∃ t, l = t ++ [CR, LF] ∧ LF ∉ t ∧ t.head? = some SP

theorem midLine_fixed {cs : List Char} (h1 : cs = cs.dropLast.dropLast ++ ['\r', '\n'])
    (h2 : cs.dropLast.dropLast.head? = some ' ')
    (h3 : (cs.dropLast.dropLast.all fun c => c.toNat % 256 != 10) = true) : MidLine (ascii (String.ofList cs)) := by
  refine ⟨ascii (String.ofList cs.dropLast.dropLast), ?_, lf_ascii h3, ?_⟩
  · unfold ascii
    rw [String.toList_ofList, String.toList_ofList]
    conv_lhs => rw [h1]
    exact List.map_append
  · unfold ascii
    rw [String.toList_ofList, List.head?_map, h2]
    rfl

theorem midLine_number {cs : List Char} {z : Int} (h : ((' ' :: cs).all fun c => c.toNat % 256 != 10) = true) :
    MidLine (ascii (String.ofList (' ' :: cs)) ++ fmtDec z ++ ascii "\r\n") := by
  refine ⟨_, rfl, lf_append (lf_ascii h) (lf_fmtDec z), ?_⟩
  unfold ascii
  rw [String.toList_ofList]
  rfl

/-- a reply of several lines: the first is written, the others have still to be -/
theorem speaks_lines {n : Nat} {ts : List (List UInt8)} {first last : String}
    (hm : ∀ l ∈ ts, MidLine l) (hc : 100 ≤ code ∧ code < 1000) (h1 : LF ∉ ascii first) (h2 : LF ∉ ascii last) :
    Replying env sid n x (begun sid n x code first ++
      (linesThen ts code last).map fun w => w.act sid x (some n)) := by
  obtain ⟨mid, rfl, hblank⟩ : ∃ mid : List (List UInt8), ts = mid.map (· ++ [CR, LF]) ∧
      ∀ t ∈ mid, LF ∉ t ∧ t.head? = some SP := by
    induction ts with
    | nil => exact ⟨[], rfl, nofun⟩
    | cons l ls ih =>
      obtain ⟨mid, rfl, hblank⟩ := ih fun i hi => hm i (List.mem_cons_of_mem _ hi)
      obtain ⟨t, rfl, hb⟩ := hm l List.mem_cons_self
      exact ⟨t :: mid, rfl, List.forall_mem_cons.mpr ⟨hb, hblank⟩⟩
  have hread : (Speech.many code (ascii first) mid (ascii last)).Readable :=
    ⟨length_fmtDec hc, lf_fmtDec _, h1, h2, fun t ht => blank_line (hblank t ht).1 (hblank t ht).2⟩
  have hmany : Replying env sid n x ((Speech.many code (ascii first) mid (ascii last)).acts sid x.ctrlFd (some n)) :=
    .many fun _ => hread
  unfold linesThen
  rw [List.map_append, List.map_map, List.map_map]
  exact hmany

theorem statLines_mid (x : Session) : ∀ l ∈ statLines x, MidLine l := by
  unfold statLines
  rw [List.forall_mem_append]
  constructor
  · split
    · exact List.forall_mem_singleton.mpr (midLine_fixed rfl rfl rfl)
    · exact List.forall_mem_singleton.mpr (midLine_number rfl)
  · split
    · exact List.forall_mem_singleton.mpr (midLine_fixed rfl rfl rfl)
    · split
      · exact List.forall_mem_singleton.mpr (midLine_number rfl)
      · exact nofun

theorem featLines_mid : ∀ t ∈ featLines.map ascii, MidLine t := by
  rw [List.forall_mem_map]
  simp only [featLines, List.forall_mem_cons]
  exact ⟨midLine_fixed rfl rfl rfl, midLine_fixed rfl rfl rfl, midLine_fixed rfl rfl rfl,
    midLine_fixed rfl rfl rfl, midLine_fixed rfl rfl rfl, midLine_fixed rfl rfl rfl, midLine_fixed rfl rfl rfl,
    midLine_fixed rfl rfl rfl, nofun⟩

theorem helpLines_mid : ∀ t ∈ helpLines.map ascii, MidLine t := by
  rw [List.forall_mem_map]
  simp only [helpLines, List.forall_mem_cons]
  exact ⟨midLine_fixed rfl rfl rfl, midLine_fixed rfl rfl rfl, midLine_fixed rfl rfl rfl,
    midLine_fixed rfl rfl rfl, nofun⟩

theorem lf_pwd (hT : Tidy env x) : LF ∉ ascii "\"" ++ fmtStr (getFileName env x.dirfd) ++ ascii "\"" := by
  refine lf_append (lf_append (lf_ascii rfl) ?_) (lf_ascii rfl)
  cases hn : getFileName env x.dirfd with
  | none => exact lf_ascii rfl
  | some name =>
    obtain ⟨-, h⟩ := getFileName_some hn
    have hname := hT.2.1
    rw [h] at hname
    exact hname

theorem lf_mkd (hT : Tidy env x) : LF ∉ mkdText env x := by
  unfold mkdText
  split
  · exact lf_append hT.1 (lf_ascii rfl)
  · split
    · exact lf_append (lf_append hT.2.2 hT.1) (lf_ascii rfl)
    · exact lf_append (lf_append (lf_append hT.2.2 (lf_ascii rfl)) hT.1) (lf_ascii rfl)

/-- what a handler adds to the log, with the writes that it has still to make -/
theorem logs_speak {n : Nat} {m : Main} (hm : m.writes = []) : Replying env sid n x (h.logs c env sid n x ++
    (h.leads env sid x m).writes.map fun w => w.act sid x (some n)) := by
  -- only PASV and the replies of several lines leave something to be written
  have hrest : ∀ {as}, Replying env sid n x as → Replying env sid n x (as ++ m.writes.map fun w => w.act sid x (some n)) := by
    intro as h
    rw [hm]
    exact (List.append_nil as).symm ▸ h
  have hfix : ∀ {code : Nat} {text : String}, 100 ≤ code ∧ code < 1000 → LF ∉ ascii text →
      Replying env sid n x (replied sid n x code (ascii text)) := fun h1 h2 => speaks_answer h1 h2
  cases h with
  | user =>
    refine hrest ?_
    show Uttered _ _ _ _ ((c.getpwnam x.arg).elim _ _)
    cases c.getpwnam x.arg with
    | none => exact hfix (by decide) (lf_ascii rfl)
    | some pw => exact hfix (by decide) (lf_ascii rfl)
  | pass => exact hrest (.ite (hfix (by decide) (lf_ascii rfl)) (hfix (by decide) (lf_ascii rfl)))
  | cwd => exact hrest (.ite (.cons ⟨rfl, rfl⟩ (hfix (by decide) (lf_ascii rfl))) (hfix (by decide) (lf_ascii rfl)))
  | cdup => exact hrest (.ite (.cons ⟨rfl, trivial⟩ (hfix (by decide) (lf_ascii rfl))) (hfix (by decide) (lf_ascii rfl)))
  | type =>
    exact hrest (.ite (hfix (by decide) (lf_ascii rfl)) (.ite (hfix (by decide) (lf_ascii rfl))
      (hfix (by decide) (lf_ascii rfl))))
  | pasv => exact .one fun _ => readable_one (by decide) (lf_pasv _ _)
  | list => exact hrest (.ite .nil (.append (hfix (by decide) (lf_ascii rfl))
      (.append listed_speaks (hfix (by decide) (lf_ascii rfl)))))
  | rest =>
    exact hrest (speaks_text (by decide) fun _ => lf_append (lf_append (lf_ascii rfl) (lf_fmtDec _)) (lf_ascii rfl))
  | pwd => exact hrest (speaks_text (by decide) lf_pwd)
  | mkd => exact hrest (.append .call (.ite (speaks_text (by decide) lf_mkd) (hfix (by decide) (lf_ascii rfl))))
  | rmd => exact hrest (.append .call (.ite (hfix (by decide) (lf_ascii rfl)) (hfix (by decide) (lf_ascii rfl))))
  | dele => exact hrest (.append .call (.ite (hfix (by decide) (lf_ascii rfl)) (hfix (by decide) (lf_ascii rfl))))
  | rnto =>
    refine hrest ?_
    show Uttered _ _ _ _ (x.rnfrName.elim _ _)
    cases x.rnfrName with
    | none => exact hfix (by decide) (lf_ascii rfl)
    | some old => exact .append .call (hfix (by decide) (lf_ascii rfl))
  | site => exact hrest site_speaks
  | size =>
    refine hrest ?_
    show Uttered _ _ _ _ (env.stat.elim _ _)
    cases env.stat with
    | none => exact hfix (by decide) (lf_ascii rfl)
    | some p =>
      exact .cons ⟨rfl, rfl⟩ (.ite (speaks_text (by decide) fun _ => lf_fmtDec _) (hfix (by decide) (lf_ascii rfl)))
  | feat => exact speaks_lines featLines_mid (by decide) (lf_ascii rfl) (lf_ascii rfl)
  | stat => exact speaks_lines (statLines_mid x) (by decide) (lf_ascii rfl) (lf_ascii rfl)
  | help => exact speaks_lines helpLines_mid (by decide) (lf_ascii rfl) (lf_ascii rfl)
  | retr => exact hrest .nil
  | stor => exact hrest .nil
  | appe => exact hrest .nil
  | nlst => exact hrest .nil
  | _ => exact hrest (hfix (by decide) (lf_ascii rfl))

/-- **The second half of `processCtrlRead`** answers in its own session only, with whole replies. -/
theorem handleCmd_speaks (hm : s.main.writes = []) (hx : s.heap sid = some x) (he : handleCmd c env sid s = .ok s') :
    ∃ as, s'.log = s.log ++ as ∧
      Replying env sid s.cmdNo x (as ++ s'.main.writes.map fun w => w.act sid x (some s.cmdNo)) := by
  have hone : ∀ {code : Nat} {text : String}, 100 ≤ code ∧ code < 1000 → LF ∉ ascii text →
      s' = answer sid x s code text → ∃ as, s'.log = s.log ++ as ∧
        Replying env sid s.cmdNo x (as ++ s'.main.writes.map fun w => w.act sid x (some s.cmdNo)) := by
    rintro code text hc ht rfl
    refine ⟨_, rfl, ?_⟩
    rw [show (answer sid x s code text).main = s.main from rfl, hm]
    exact (List.append_nil _).symm ▸ speaks_answer hc ht
  unfold handleCmd at he
  rw [hx] at he
  dsimp only at he
  split at he
  · exact hone (by decide) (lf_ascii rfl) (Except.ok.inj he).symm
  · exact hone (by decide) (lf_ascii rfl) (Except.ok.inj he).symm
  · refine ⟨_, runCmd_log hx he, ?_⟩
    rw [runCmd_main hx he]
    exact logs_speak hm

end

/-! ## a transfer thread -/

/-- no exchange with a client -/
def Silent (s s' : Server) : Prop := Adds (fun a => a.peer = none) s s'

/-- the replies of a transfer, if the argument of its session is tidy -/
abbrev Telling (th : Thread) (x : Session) (as : List Act) : Prop :=
  Uttered (fun u => LF ∉ x.arg → u.Readable) th.sess x (some th.cmd) as

section
variable {env : TEnv} {tid : Tid} {th : Thread} {x : Session} {s s' : Server}

theorem lf_opening {size : Int} (h : LF ∉ x.arg) : LF ∉ openingText x size := by
  unfold openingText
  have hmode : LF ∉ ascii (if x.isAscii = true then "ASCII" else "BINARY") := by
    split
    · exact lf_ascii rfl
    · exact lf_ascii rfl
  exact lf_append (lf_append (lf_append (lf_append (lf_append (lf_append (lf_ascii rfl) hmode)
    (lf_ascii rfl)) h) (lf_ascii rfl)) (lf_fmtDec _)) (lf_ascii rfl)

theorem tells_reply {code : Nat} {text : List UInt8} (hc : 100 ≤ code ∧ code < 1000) (ht : LF ∉ x.arg → LF ∉ text) :
    Telling th x (replied th.sess th.cmd x code text) := .one fun h => readable_one hc (ht h)

theorem tells_fs {op : FsOp} : Telling th x [.fs th.sess op] := .aside (List.forall_mem_singleton.mpr ⟨rfl, rfl⟩)

theorem closing_tells : Telling th x (th.closing x) := by
  have htexts : LF ∉ ascii (badFileText th.kind) ∧ LF ∉ ascii (badNetText th.kind) := by
    cases th.kind with
    | retr => exact ⟨lf_ascii rfl, lf_ascii rfl⟩
    | stor a => exact ⟨lf_ascii rfl, lf_ascii rfl⟩
  exact .ite (tells_reply (by decide) fun _ => lf_ascii rfl) (.ite (tells_reply (by decide) fun _ => htexts.1)
    (.ite (tells_reply (by decide) fun _ => htexts.2) .nil))

/-- **Every stage of a transfer** tells its session one reply or none. -/
theorem logs_tell : Telling th x (th.logs env x) := by
  have htext : (100 ≤ (failReply th.kind).1 ∧ (failReply th.kind).1 < 1000) ∧ LF ∉ ascii (failReply th.kind).2 := by
    cases th.kind with
    | retr => exact ⟨(by decide : 100 ≤ FTP_FILEFAIL ∧ FTP_FILEFAIL < 1000), lf_ascii rfl⟩
    | stor a => exact ⟨(by decide : 100 ≤ FTP_UPLOADFAIL ∧ FTP_UPLOADFAIL < 1000), lf_ascii rfl⟩
  refine .ite (tells_reply htext.1 fun _ => htext.2) ?_
  unfold Thread.acts
  split
  · exact tells_fs
  · exact tells_fs
  · exact tells_fs
  · exact tells_reply (by decide) lf_opening
  · refine .ite .nil ?_
    cases th.sends env x with
    | none => exact .nil
    | some n => exact tells_fs
  · split
    · exact tells_fs
    · exact .nil
  · exact closing_tells
  · exact .ite (.aside (List.forall_mem_singleton.mpr ⟨rfl, trivial⟩)) .nil
  · exact .nil

theorem logs_send {n : Nat} (h : .fs th.sess (.send n) ∈ th.logs env x) :
    th.pc = .loop ∧ th.kind = .retr ∧ th.left ≠ 0 := by
  unfold Thread.logs at h
  split at h
  · exact absurd (List.mem_singleton.mp h) nofun
  · unfold Thread.acts at h
    split at h
    · exact absurd (List.mem_singleton.mp h) nofun
    · exact absurd (List.mem_singleton.mp h) nofun
    · exact absurd (List.mem_singleton.mp h) nofun
    · exact absurd (List.mem_singleton.mp h) nofun
    · rename_i hpc hk
      refine ⟨hpc, hk, fun h0 => ?_⟩
      rw [if_pos h0] at h
      cases h
    · split at h
      · exact absurd (List.mem_singleton.mp h) nofun
      · cases h
    · exfalso
      unfold Thread.closing at h
      split at h
      · exact absurd (List.mem_singleton.mp h) nofun
      · split at h
        · exact absurd (List.mem_singleton.mp h) nofun
        · split at h
          · exact absurd (List.mem_singleton.mp h) nofun
          · cases h
    · split at h
      · exact absurd (List.mem_singleton.mp h) nofun
      · cases h
    · cases h

theorem thread_speaks (hth : s.threads tid = some th) (he : threadStep env tid s = .ok s') :
    (∃ x as, s.heap th.sess = some x ∧ s'.log = s.log ++ as ∧ Telling th x as) ∨ Silent s s' := by
  have hlog := thread_logs hth he
  cases hx : s.heap th.sess with
  | some x =>
    rw [seen_of hx] at hlog
    exact Or.inl ⟨x, _, rfl, hlog, logs_tell⟩
  | none =>
    refine Or.inr ?_
    cases thread_round hth he with
    | @file op u _ hop _ =>
      rcases hop with rfl | ⟨n, rfl⟩ | ⟨n, rfl⟩
      · exact .emit rfl rfl
      · exfalso
        -- `sendfile` takes its socket from the record
        have hmem : .fs th.sess (.send n) ∈ th.logs env (s.seen th.sess) := by
          rw [List.append_cancel_left (hlog.symm.trans (show _ = s.log ++ [.fs th.sess (.send n)] from rfl))]
          exact List.mem_singleton_self _
        obtain ⟨hpc, hk, h0⟩ := logs_send hmem
        have huse : th.usesRecord env = true := by
          unfold Thread.usesRecord
          rw [hpc, hk]
          exact decide_eq_true h0
        exact absurd (hx.symm.trans ((thread_stepped hth he).1 huse)) nofun
      · exact .emit rfl rfl
    | on _ _ => exact .of rfl
    | closeFile _ => exact .of (closeOpt_log _)
    | idle _ => exact .refl s
    | refuse _ hx' _ => exact absurd (hx.symm.trans hx') nofun
    | offset _ hx' => exact absurd (hx.symm.trans hx') nofun
    | clear _ hx' => exact absurd (hx.symm.trans hx') nofun
    | openat _ hx' _ _ => exact absurd (hx.symm.trans hx') nofun
    | opening _ hx' _ => exact absurd (hx.symm.trans hx') nofun
    | rmData _ hx' => exact absurd (hx.symm.trans hx') nofun
    | rmPasv _ hx' => exact absurd (hx.symm.trans hx') nofun
    | setPasv _ hx' => exact absurd (hx.symm.trans hx') nofun
    | setData _ hx' => exact absurd (hx.symm.trans hx') nofun
    | final _ hx' _ => exact absurd (hx.symm.trans hx') nofun
    | silent _ hx' _ => exact absurd (hx.symm.trans hx') nofun
    | aborted _ hx' _ => exact absurd (hx.symm.trans hx') nofun
    | returns _ hx' _ => exact absurd (hx.symm.trans hx') nofun

end

/-! ## every step -/

/-- The count of lines, the sessions that there have been and the transfers are those before, and the main loop has
not got to a line. -/
structure Unmoved (s s' : Server) : Prop where
  cmdNo : s'.cmdNo = s.cmdNo
  nextSid : s'.nextSid = s.nextSid
  threads : s'.threads = s.threads
  main : s'.main.serves ≠ none → s'.main = s.main

/-- the session that a step of the server is about -/
def actor (c : Conf) (s : Server) : Label → Option Sid
  | .dispatch _ _ =>
    match s.main with
    | .events (ev :: _) => (s.sessinfo ev.fd).sess
    | _ => none
  | .command _ => s.main.serves
  | .onward _ => s.main.inside
  | .thread tid _ => (s.threads tid).map Thread.sess
  | .evictOne now => overdue c now s
  | .acceptOne _ => some s.nextSid
  | _ => none

/-- What is said and heard in a step: nothing; a line; the greeting or a refusal; the replies to the line in hand, or
the next of its writes; those of a transfer. -/
inductive Voice (c : Conf) (s : Server) (l : Label) (s' : Server) : Prop where
  | quiet : Silent s s' → Unmoved s s' → Voice c s l s'
  | line {sid : Sid} {x : Session} {evs : List Event} : actor c s l = some sid → s.heap sid = some x →
      s'.log = s.log ++ [.line sid (s.cmdNo + 1)] → s'.cmdNo = s.cmdNo + 1 → s'.nextSid = s.nextSid →
      s'.threads = s.threads → s'.main = .command sid evs → Voice c s l s'
  | greeted {conn : Conn} : l = .acceptOne conn →
      s'.log = s.log ++ [.reply s.nextSid s.fds.lowest none FTP_GREET (ascii "(myftpd 0.1)")] →
      (∃ y, s'.heap s.nextSid = some y ∧ y.ctrlFd = s.fds.lowest) →
      Unmoved s { s' with nextSid := s.nextSid } → s'.nextSid = s.nextSid + 1 → Voice c s l s'
  | refused {conn : Conn} {text : String} : l = .acceptOne conn → LF ∉ ascii text →
      s'.log = s.log ++ [.reply s.nextSid s.fds.lowest none FTP_TOO_MANY_USERS (ascii text)] →
      s'.heap s.nextSid = none → Unmoved s { s' with nextSid := s.nextSid } → s'.nextSid = s.nextSid + 1 →
      Voice c s l s'
  | command {env : Env} {sid : Sid} {x : Session} {evs : List Event} : l = .command env →
      s.main = .command sid evs → s.heap sid = some x → (∃ as, s'.log = s.log ++ as ∧
        Replying env sid s.cmdNo x (as ++ s'.main.writes.map fun w => w.act sid x (some s.cmdNo))) →
      s'.cmdNo = s.cmdNo → s'.nextSid = s.nextSid → (Main.events evs).Leaves sid s'.main →
      (s'.threads = s.threads ∨ ∃ k,
        s'.threads = Function.update s.threads s.nextTid (some (newThread sid s.cmdNo k))) → Voice c s l s'
  | further {sid : Sid} {as : List Act} : actor c s l = some sid → s.main.inside = some sid →
      s'.main.inside = some sid ∨ (∃ evs, s'.main = .events evs) →
      s'.log = s.log ++ as → (∀ x, s.heap sid = some x → (s.main.writes.map fun w => w.act sid x (some s.cmdNo)) =
        as ++ s'.main.writes.map fun w => w.act sid x (some s.cmdNo)) → (∀ a ∈ as, ∃ x, s.heap sid = some x) →
      s'.heap = s.heap → s'.cmdNo = s.cmdNo → s'.nextSid = s.nextSid → s'.threads = s.threads → Voice c s l s'
  | thread {tid : Tid} {th : Thread} {o : Option Thread} : actor c s l = some th.sess → s.threads tid = some th →
      (∃ x as, s.heap th.sess = some x ∧ s'.log = s.log ++ as ∧ Telling th x as) ∨ Silent s s' → s'.cmdNo = s.cmdNo →
      s'.nextSid = s.nextSid → s'.main = s.main → s'.threads = Function.update s.threads tid o →
      (∀ u, o = some u → u.sess = th.sess ∧ u.cmd = th.cmd) → Voice c s l s'

section
variable {c : Conf} {env : Env} {now : Int} {sid : Sid} {x : Session} {s s' t : Server} {l : Label}
  {ev : Event} {evs : List Event}

theorem Unmoved.refl (s : Server) : Unmoved s s := ⟨rfl, rfl, rfl, fun _ => rfl⟩

theorem Unmoved.trans (h : Unmoved s t) (h' : Unmoved t s') : Unmoved s s' where
  cmdNo := h'.cmdNo.trans h.cmdNo
  nextSid := h'.nextSid.trans h.nextSid
  threads := h'.threads.trans h.threads
  main := fun e => (h'.main e).trans (h.main (by rw [← h'.main e]; exact e))

theorem goto_unmoved {m : Main} (h : m.serves = none) : Unmoved s (s.goto m) :=
  ⟨rfl, rfl, rfl, fun e => absurd h e⟩

theorem closed_unmoved : Unmoved s (closed s sid x) where
  cmdNo := closed_cmdNo
  nextSid := congrArg Books.nextSid (@closed_books s sid x)
  threads := closed_threads
  main := fun _ => closed_main

theorem closeSess_quiet (h2 : Unmoved s t) (h1 : t.log = s.log) (he : t.closeSess sid = .ok s') :
    Silent s s' ∧ Unmoved s s' := by
  obtain ⟨y, -, -, rfl⟩ := closeSess_inv he
  exact ⟨.of (closed_log.trans h1), h2.trans closed_unmoved⟩

theorem dispatch_voice (hm : s.main = .events (ev :: evs)) (he : dispatch c env now ev evs s = .ok s') :
    Voice c s (.dispatch now env) s' := by
  have hgo : Unmoved s (s.goto (.events evs)) := goto_unmoved rfl
  cases dispatch_cases he with
  | listen _ _ => exact .quiet (.of rfl) (goto_unmoved rfl)
  | @ctrl f sid _ hi _ _ _ he =>
    have hact : actor c s (.dispatch now env) = some sid := by
      unfold actor
      simp only [hm, hi]
    have hread : Unmoved s (readied s evs f.fd now) := ⟨rfl, rfl, rfl, hgo.main⟩
    obtain ⟨x, hx, ⟨-, he⟩ | ⟨m, k, cmd, arg, -, -, rfl⟩⟩ := processCtrlRead_cases he
    · obtain ⟨h1, h2⟩ := closeSess_quiet hread rfl he
      exact .quiet h1 h2
    · exact .line hact hx rfl rfl rfl rfl rfl
  | data _ _ _ _ he =>
    obtain ⟨x, p, -, -, ⟨-, rfl⟩ | ⟨-, rfl⟩⟩ := processDataRead_cases he
    · exact .quiet (.of rfl) ⟨rfl, rfl, rfl, hgo.main⟩
    · exact .quiet (.of rfl) ⟨rfl, rfl, rfl, hgo.main⟩
  | hup _ _ _ _ _ he =>
    obtain ⟨h1, h2⟩ := closeSess_quiet hgo rfl he
    exact .quiet h1 h2
  | quiet _ _ => exact .quiet (.of rfl) hgo

theorem isValid_text {r : Nat × String} (h : isValid c x = some r) : LF ∉ ascii r.2 := by
  unfold isValid at h
  split at h
  · cases h
    exact lf_ascii rfl
  · split at h
    · cases h
      exact lf_ascii rfl
    · cases h

theorem handleNewConn_voice {conn : Conn} (he : handleNewConn c conn s = .ok s') :
    Voice c s (.acceptOne conn) s' := by
  unfold handleNewConn at he
  dsimp only at he
  split at he
  · rename_i code text hv
    obtain ⟨rfl, -⟩ := Prod.mk.inj (isValid_code hv)
    obtain ⟨y, -, -, rfl⟩ := closeSess_inv he
    have hst : Unmoved ((beginConn s).ftpReply s.nextSid (newSession s) none FTP_TOO_MANY_USERS (ascii text))
        (closed _ s.nextSid y) := closed_unmoved
    refine .refused rfl (isValid_text hv) closed_log ?_ ⟨hst.cmdNo, rfl, hst.threads, hst.main⟩ hst.nextSid
    rw [closed_heap, Function.update_self]
  · obtain ⟨t, ht, he⟩ := bind_ok.mp he
    unfold setSessinfo at ht
    split at ht
    · cases ht
      cases he
      exact .greeted rfl rfl ⟨_, Function.update_self .., rfl⟩ ⟨rfl, rfl, rfl, fun _ => rfl⟩ rfl
    · cases ht

theorem evictOne_voice (he : Myftpd.evictOne c now s = .ok s') : Voice c s l s' := by
  obtain ⟨rfl, -⟩ | ⟨n, node, x, t, -, -, -, -, hc, rfl⟩ := evictOne_cases he
  · exact .quiet (.of rfl) (goto_unmoved rfl)
  · obtain ⟨h1, h2⟩ := closeSess_quiet (.refl s) rfl hc
    exact .quiet (Adds.trans h1 (.of rfl)) ⟨h2.cmdNo, h2.nextSid, h2.threads, h2.main⟩

theorem command_voice (hm : s.main = .command sid evs)
    (he : handleCmd c env sid (s.goto (.events evs)) = .ok s') : Voice c s (.command env) s' := by
  obtain ⟨x, hx, hcase⟩ := handleCmd_cases he
  have hsay := handleCmd_speaks (s := s.goto (.events evs)) rfl hx he
  have hnext : s'.nextSid = s.nextSid := congrArg Books.nextSid (handleCmd_books he)
  rcases hcase with ⟨-, code, text, -, rfl⟩ | ⟨h, -, hr⟩
  · exact .command rfl hm hx hsay rfl hnext .returned (Or.inl rfl)
  · obtain ⟨o, as, hd, -⟩ := runCmd_did hx hr
    refine .command rfl hm hx hsay hd.cmdNo hnext hd.main ?_
    have hthr := hd.threads
    cases hk : h.starts env x with
    | none =>
      rw [hk] at hthr
      exact Or.inl hthr
    | some k =>
      rw [hk] at hthr
      exact Or.inr ⟨k, hthr⟩

/-- the next step of a handler that is under way: it makes the first of its writes, or none -/
theorem handlerStep_voice {b : Bool} (h : HandlerStep s s') : Voice c s (.onward b) s' := by
  have hquiet : ∀ {sid : Sid}, s.main.inside = some sid → s'.main.inside = some sid ∨ (∃ evs, s'.main = .events evs) →
      s'.log = s.log → s'.main.writes = s.main.writes → s'.heap = s.heap → s'.cmdNo = s.cmdNo →
      s'.nextSid = s.nextSid → s'.threads = s.threads → Voice c s (.onward b) s' := by
    intro sid hi hi' hlog hw hh hno hnext hthr
    have hlog : s'.log = s.log ++ [] := hlog.trans (List.append_nil _).symm
    refine .further hi hi hi' hlog (fun x _ => ?_) nofun hh hno hnext hthr
    rw [hw]
    rfl
  cases h with
  | name hm => exact hquiet (by rw [hm]; rfl) (Or.inl rfl) rfl (by rw [hm]; rfl) rfl rfl rfl rfl
  | entry hm => exact hquiet (by rw [hm]; rfl) (Or.inl rfl) rfl (by rw [hm]; rfl) rfl rfl rfl rfl
  | watch hm => exact hquiet (by rw [hm]; rfl) (Or.inl rfl) rfl (by rw [hm]; rfl) rfl rfl rfl rfl
  | deaf hm => exact hquiet (by rw [hm]; rfl) (Or.inl rfl) rfl (by rw [hm]; rfl) rfl rfl rfl rfl
  | @write sid w ws evs x hm hx =>
    have hi : s.main.inside = some sid := by rw [hm]; rfl
    refine .further hi hi (Or.inl rfl) rfl (fun y hy => ?_) (fun _ _ => ⟨x, hx⟩) rfl rfl rfl rfl
    cases hx.symm.trans hy
    rw [hm]
    rfl
  | back hm => exact hquiet (by rw [hm]; rfl) (Or.inr ⟨_, rfl⟩) rfl (by rw [hm]; rfl) rfl rfl rfl rfl

theorem thread_voice {tenv : TEnv} {tid : Tid} {th : Thread} (hth : s.threads tid = some th)
    (he : threadStep tenv tid s = .ok s') : Voice c s (.thread tid tenv) s' := by
  have hact : actor c s (.thread tid tenv) = some th.sess := by
    show (s.threads tid).map _ = _
    rw [hth]
    rfl
  obtain ⟨o, hr⟩ := thread_ran hth he
  exact .thread hact hth (thread_speaks hth he) hr.cmdNo (congrArg Books.nextSid hr.books) hr.main hr.threads
    fun u hu => ⟨(hr.next u hu).1, (hr.next u hu).2.1⟩

/-- **Every step.** -/
theorem exec_voice (hen : enabled s l) (he : exec c s l = .ok s') : Voice c s l s' := by
  cases l with
  | dispatch now env =>
    obtain ⟨ev, evs, hm⟩ := hen
    unfold exec at he
    simp only [hm] at he
    exact dispatch_voice hm he
  | command env =>
    obtain ⟨sid, evs, hm⟩ := hen
    exact command_voice hm (exec_command_ok hm he)
  | onward b => exact handlerStep_voice (handlerStep_cases hen he)
  | thread tid env =>
    obtain ⟨th, hth⟩ := Option.ne_none_iff_exists'.mp hen
    exact thread_voice hth he
  | acceptOne conn => exact handleNewConn_voice he
  | acceptErr e =>
    obtain ⟨evs, hm⟩ := hen
    unfold exec at he
    simp only [hm] at he
    split at he
    · cases he
      exact .quiet (.of rfl) (goto_unmoved rfl)
    · cases he
  | evictOne now => exact evictOne_voice he
  | waitErr e => cases he
  | arrive fd bs => cases he; exact .quiet (.of rfl) ⟨rfl, rfl, rfl, fun _ => rfl⟩
  | hangup fd => cases he; exact .quiet (.of rfl) ⟨rfl, rfl, rfl, fun _ => rfl⟩
  | faults fd es => cases he; exact .quiet (.of rfl) ⟨rfl, rfl, rfl, fun _ => rfl⟩
  | wait evs => cases he; exact .quiet (.of rfl) (goto_unmoved rfl)
  | timeout => cases he; exact .quiet (.of rfl) (goto_unmoved rfl)

end

end Myftpd
