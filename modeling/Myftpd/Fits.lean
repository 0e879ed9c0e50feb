import Myftpd.Buffers
import Myftpd.Effect
import Myftpd.Noted

/-!
# Every text fits its array

* `written`    the arrays that a step writes, and how far;
* `Roomy`      the lengths with which nothing is written past an array;
* `fits_iff`   every step, and every line of the configuration file.
-/

namespace Myftpd
open CMem Server

/-- `ftp_reply`, `ftp_lreply` and the lines of a listing -/
def Act.built : Act → List Written
  | .reply _ _ _ code text => [sprintf .reply (replyText code text)]
  | .lreply _ _ _ code text => [sprintf .reply (lreplyText code text)]
  | .mainReply code text => [sprintf .reply (replyText code text)]
  | .data _ _ bs => [sprintf .line bs]
  | _ => []

def Cmd.built (env : Env) (x : Session) : Cmd → List Written
  | .site => siteWrites x.arg
  | .pwd => [sprintf .pwd (pwdText env x)]
  | .mkd => if env.mkdir = true then [sprintf .mkd (mkdText env x)] else []
  | .list =>
    if getPasvDataFd x = 0 ∨ getFileName env x.dirfd = none then []
    else (env.opendir.getD []).map fun e => sprintf .path (entryPath (env.fileName.getD []) e.name)
  | _ => []

/-- the control line that the step reads, trimmed -/
def lineOf (c : Conf) (s : Server) (l : Label) : Option (List UInt8) :=
  match readsFrom c s l with
  | some (.ctrl, sid) => (s.heap sid).bind fun x =>
    match ctrlRead (s.sock x.ctrlFd) with
    | .ok (some (m, _)) => some (trimCrlf (cstrAt m 0))
    | _ => none
  | _ => none

/-- what the step writes to arrays other than those of the replies -/
def arrays (c : Conf) (s : Server) : Label → List Written
  | .dispatch now env => (lineOf c s (.dispatch now env)).elim [] fun t => strSplitWrites .cmd .arg t SP
  | .command env => (handles s (.command env)).elim [] fun r => r.2.2.built env r.2.1
  | .thread tid _ => (s.threads tid).elim [] fun th =>
    if th.pc = .opening then (s.heap th.sess).elim [] fun x => [sprintf .opening (openingText x th.size)]
    else []
  | _ => []

/-- the step when none of its writes raises `SIGPIPE` -/
def Label.unpiped : Label → Label
  | .command env => .command { env with sigpipe := false }
  | .onward _ => .onward false
  | l => l

/-- what the step adds to the log; after `SIGPIPE` the rest of its texts are not built -/
def logged (c : Conf) (s : Server) (l : Label) : List Act :=
  match exec c s l.unpiped with
  | .ok s' => s'.log.drop s.log.length
  | .error _ => []

/-- the arrays that a step writes, and how far -/
def written (c : Conf) (s : Server) (l : Label) : List Written :=
  arrays c s l ++ (logged c s l).flatMap Act.built

/-! ## what the system can answer -/

/-- Numbers are those of their types, names in a directory have at most 255 bytes, and a line of a listing
is built from the `stat` of its entry. -/
structure Env.Legal (env : Env) (info : Dirent → FileStat) : Prop where
  ip : ∀ i, env.localip.getD i 0 < 256
  port : ∀ p, env.tcpServer = some p → p < 65536
  size : ∀ r n, env.stat = some (r, n) → n < 2^63
  entry : ∀ es, env.opendir = some es → ∀ e ∈ es,
    e.name.length ≤ 255 ∧ (info e).Legal ∧ e.line = listLine (info e) e.name

def Label.Legal (c : Conf) (info : Dirent → FileStat) : Label → Prop
  | .command env => c.localUmask < 2^32 ∧ env.Legal info
  | _ => True

/-! ## the lengths -/

/-- SITE: a sub-command of at most 98 bytes and an argument of at most 99, or 99 bytes without a blank; PWD:
a directory of at most 1015; MKD: a path of at most 1010, or what is left beside the directory of the process;
LIST: a path of at most 1022 for every entry, and 1017 for a link, its columns and its target. -/
def Cmd.roomy (env : Env) (info : Dirent → FileStat) (x : Session) : Cmd → Prop
  | .site =>
    if SP ∈ x.arg then (splitFst x.arg SP).length ≤ 98 ∧ (splitSnd x.arg SP).length ≤ 99
    else x.arg.length ≤ 99
  | .pwd => ∀ name, getFileName env x.dirfd = some name → name.length ≤ 1015
  | .mkd => env.mkdir = true → x.arg.length +
      (if x.arg.head? = some 47 then 7
      else if env.getcwd.getLast? = some 47 then env.getcwd.length + 8
      else env.getcwd.length + 9) ≤ 1017
  | .list => getPasvDataFd x ≠ 0 → getFileName env x.dirfd ≠ none → ∀ es, env.opendir = some es → ∀ e ∈ es,
      (env.fileName.getD []).length + e.name.length ≤ 1022 ∧ (e ∈ shown es → ∀ tmp, (info e).link = some tmp →
        (info e).columns.length + e.name.length + tmp.length ≤ 1017)
  | _ => True

/-- A line with a first word of at most 30 bytes, or one of at most 31 without a blank; for a transfer, 967
bytes (968 in ASCII mode) for the argument and the digits of the size; and for a command, its own lengths. -/
def Roomy (c : Conf) (info : Dirent → FileStat) (s : Server) : Label → Prop
  | .dispatch now env => ∀ t, lineOf c s (.dispatch now env) = some t →
      if SP ∈ t then (splitFst t SP).length ≤ 30 else t.length ≤ 31
  | .command env => ∀ sid x h, handles s (.command env) = some (sid, x, h) → h.roomy env info x
  | .thread tid _ => ∀ th x, s.threads tid = some th → th.pc = .opening → s.heap th.sess = some x →
      x.arg.length + (fmtDec th.size).length ≤ if x.isAscii = true then 968 else 967
  | _ => True

def Act.Fits (a : Act) : Prop := ∀ w ∈ a.built, w.Fits

/-- what the handler under way has still to write fits -/
def Ready (s : Server) : Prop := ∀ sid x n, ∀ w ∈ s.main.writes, (w.act sid x n).Fits

section
variable {c : Conf} {env : Env} {info : Dirent → FileStat} {s s' t : Server} {l : Label} {sid : Sid}
  {x : Session} {h : Cmd} {code : Nat} {a : Act} {as : List Act}

theorem written_fits : (∀ w ∈ written c s l, w.Fits) ↔
    (∀ w ∈ arrays c s l, w.Fits) ∧ ∀ a ∈ logged c s l, a.Fits := by
  unfold written
  rw [List.forall_mem_append]
  refine and_congr_right fun _ => ⟨fun h a ha w hw => ?_, fun h w hw => ?_⟩
  · exact h w (List.mem_flatMap.mpr ⟨a, ha, hw⟩)
  · obtain ⟨a, ha, hw⟩ := List.mem_flatMap.mp hw
    exact h a ha w hw

theorem logged_ok (he : exec c s l.unpiped = .ok s') : logged c s l = s'.log.drop s.log.length := by
  unfold logged
  rw [he]

theorem logged_of (he : exec c s l.unpiped = .ok s') (hl : s'.log = s.log ++ as) : logged c s l = as := by
  rw [logged_ok he, hl, List.drop_left]

theorem logged_fits (he : ∀ s', exec c s l.unpiped = .ok s' → Adds Act.Fits s s') : ∀ a ∈ logged c s l, a.Fits := by
  intro a ha
  unfold logged at ha
  split at ha
  · rename_i s' h
    exact (he s' h).drop a ha
  · cases ha

theorem quiet_fits (h : a.built = []) : a.Fits := by
  intro w hw
  rw [h] at hw
  cases hw

theorem Act.reply_fits {sid : Sid} {fd : Fd} {n : Option Nat} {text : List UInt8}
    (hc : (fmtDec code).length = 3) : (Act.reply sid fd n code text).Fits ↔ text.length ≤ 1017 := by
  unfold Act.Fits
  show (∀ w ∈ [sprintf .reply (replyText code text)], w.Fits) ↔ _
  rw [List.forall_mem_singleton]
  exact Myftpd.reply_fits hc

theorem adds_reply {text : List UInt8} {n : Option Nat} (hl : t.log = s.log) (hc : (fmtDec code).length = 3)
    (ht : text.length ≤ 1017) : Adds Act.Fits s (t.ftpReply sid x n code text) :=
  .emit hl ((Act.reply_fits hc).mpr ht)

theorem closeSess_adds (he : s.closeSess sid = .ok s') : Adds Act.Fits s s' := by
  obtain ⟨y, -, -, rfl⟩ := closeSess_inv he
  refine .of ?_
  show (((s.close y.ctrlFd).closeOpt y.dataFd).closeOpt y.pasvListenFd).log = _
  rw [closeOpt_log, closeOpt_log]
  rfl

/-! ## the handlers -/

theorem pasv_length (hi : ∀ i, env.localip.getD i 0 < 256) {port : Nat} (hp : port < 65536) :
    (pasvText env.localip port).length ≤ 1017 := by
  have hd : ∀ z : Int, 0 ≤ z → z < 256 → (fmtDec z).length ≤ 3 := by
    intro z h0 h1
    obtain ⟨n, rfl⟩ := Int.eq_ofNat_of_zero_le h0
    exact fmtDec_nat (by decide) (by omega)
  have h0 := hd (env.localip.getD 0 0) (by omega) (by have := hi 0; omega)
  have h1 := hd (env.localip.getD 1 0) (by omega) (by have := hi 1; omega)
  have h2 := hd (env.localip.getD 2 0) (by omega) (by have := hi 2; omega)
  have h3 := hd (env.localip.getD 3 0) (by omega) (by have := hi 3; omega)
  have h4 := hd (port / 256) (by omega) (by omega)
  have h5 := hd (port % 256) (by omega) (by omega)
  unfold pasvText
  simp only [List.length_append, ascii_length, show "Entering Passive Mode (".length = 23 from rfl,
    show ",".length = 1 from rfl, show ").".length = 2 from rfl]
  omega

theorem fixed_reply {n : Nat} {text : String} (hc : (fmtDec code).length = 3) (ht : text.length ≤ 1017) :
    ∀ a ∈ replied sid n x code (ascii text), a.Fits :=
  List.forall_mem_singleton.mpr ((Act.reply_fits hc).mpr (by rw [ascii_length]; exact ht))

theorem built_reply {n : Nat} {text : List UInt8} (hc : (fmtDec code).length = 3) (ht : text.length ≤ 1017) :
    ∀ a ∈ replied sid n x code text, a.Fits :=
  List.forall_mem_singleton.mpr ((Act.reply_fits hc).mpr ht)

theorem begun_fits {n : Nat} {first : String} (hc : (fmtDec code).length = 3) (hf : first.length ≤ 1017) :
    ∀ a ∈ begun sid n x code first, a.Fits := by
  refine List.forall_mem_singleton.mpr fun w hw => ?_
  rw [List.mem_singleton.mp hw]
  exact (lreply_fits hc).mpr (by rw [ascii_length]; exact hf)

theorem append_fits (ha : ∀ a ∈ as, a.Fits) {bs : List Act} (hb : ∀ a ∈ bs, a.Fits) : ∀ a ∈ as ++ bs, a.Fits :=
  List.forall_mem_append.mpr ⟨ha, hb⟩

theorem cons_fits (h0 : a.built = []) (ha : ∀ b ∈ as, b.Fits) : ∀ b ∈ a :: as, b.Fits :=
  List.forall_mem_cons.mpr ⟨quiet_fits h0, ha⟩

theorem called_fits {op : FsOp} {b : Bool} : ∀ a ∈ called sid op b, a.Fits := by
  unfold called
  split
  · exact List.forall_mem_singleton.mpr (quiet_fits rfl)
  · exact nofun

theorem chmod_fits {n : Nat} {arg : List UInt8} : ∀ a ∈ chmodLogs env sid n x arg, a.Fits := by
  unfold chmodLogs
  split
  · exact fixed_reply (by decide) (by decide)
  · cases split100 arg with
    | none => exact nofun
    | some p =>
      dsimp only [Option.elim_some]
      split
      · exact fixed_reply (by decide) (by decide)
      · refine append_fits called_fits ?_
        split
        · exact fixed_reply (by decide) (by decide)
        · exact fixed_reply (by decide) (by decide)

theorem umask_fits {n : Nat} {arg : List UInt8} (hu : c.localUmask < 2^32) :
    ∀ a ∈ umaskLogs c sid n x arg, a.Fits := by
  have hlen : ∀ (t : String) (n : Nat), t.length ≤ 100 → n < 2^32 → (ascii t ++ fmtOct n).length ≤ 1017 := by
    intro t n ht hn
    have := fmtOct_le (k := 11) (by decide) (show n < 8^11 by omega)
    rw [List.length_append, ascii_length]
    omega
  unfold umaskLogs
  split
  · exact built_reply (by decide) (hlen _ _ (by decide) hu)
  · exact cons_fits rfl (built_reply (by decide) (hlen _ _ (by decide) (strOctalToUint_32 arg)))

theorem siteLogs_fits {n : Nat} (hu : c.localUmask < 2^32) : ∀ a ∈ Cmd.site.logs c env sid n x, a.Fits := by
  show ∀ a ∈ ((split100 x.arg).elim [] _ : List Act), a.Fits
  cases split100 x.arg with
  | none => exact nofun
  | some p =>
    dsimp only [Option.elim_some]
    split
    · exact chmod_fits
    · split
      · exact umask_fits hu
      · split
        · exact fixed_reply (by decide) (by decide)
        · exact fixed_reply (by decide) (by decide)

theorem rest_fits {n : Nat} : ∀ a ∈ Cmd.rest.logs c env sid n x, a.Fits := by
  obtain ⟨hlo, hhi⟩ := strToLonglong_64 x.arg
  have hd : (fmtDec (strToLonglong x.arg)).length ≤ 20 := fmtDec_int (k := 19) (by decide) (by omega) (by omega)
  apply built_reply (by decide)
  simp only [List.length_append, ascii_length, show "Restart position accepted (".length = 27 from rfl,
    show ").".length = 2 from rfl]
  omega

theorem size_fits {n : Nat} (hL : env.Legal info) : ∀ a ∈ Cmd.size.logs c env sid n x, a.Fits := by
  show ∀ a ∈ (env.stat.elim _ _ : List Act), a.Fits
  cases hs : env.stat with
  | none => exact fixed_reply (by decide) (by decide)
  | some p =>
    have hd : (fmtDec p.2).length ≤ 1017 :=
      Nat.le_trans (fmtDec_nat (k := 19) (by decide) (by have := hL.size p.1 p.2 hs; omega)) (by decide)
    refine cons_fits rfl ?_
    split
    · exact built_reply (by decide) hd
    · exact fixed_reply (by decide) (by decide)

/-- **The handlers whose replies always fit** -/
theorem logs_fit {n : Nat} (h1 : h ≠ .pwd) (h2 : h ≠ .mkd) (h3 : h ≠ .list) (hu : c.localUmask < 2^32)
    (hL : env.Legal info) : ∀ a ∈ h.logs c env sid n x, a.Fits := by
  have hite : ∀ {p : Prop} [Decidable p] {as bs : List Act}, (∀ a ∈ as, a.Fits) → (∀ a ∈ bs, a.Fits) →
      ∀ a ∈ (if p then as else bs), a.Fits := fun ha hb => by
    split
    · exact ha
    · exact hb
  cases h with
  | user =>
    show ∀ a ∈ ((c.getpwnam x.arg).elim _ _ : List Act), a.Fits
    cases c.getpwnam x.arg with
    | none => exact fixed_reply (by decide) (by decide)
    | some pw => exact fixed_reply (by decide) (by decide)
  | pass => exact hite (fixed_reply (by decide) (by decide)) (fixed_reply (by decide) (by decide))
  | cwd => exact hite (cons_fits rfl (fixed_reply (by decide) (by decide))) (fixed_reply (by decide) (by decide))
  | cdup => exact hite (cons_fits rfl (fixed_reply (by decide) (by decide))) (fixed_reply (by decide) (by decide))
  | type =>
    exact hite (fixed_reply (by decide) (by decide))
      (hite (fixed_reply (by decide) (by decide)) (fixed_reply (by decide) (by decide)))
  | rest => exact rest_fits
  | pwd => exact absurd rfl h1
  | mkd => exact absurd rfl h2
  | list => exact absurd rfl h3
  | rmd => exact append_fits called_fits (hite (fixed_reply (by decide) (by decide)) (fixed_reply (by decide) (by decide)))
  | dele => exact append_fits called_fits (hite (fixed_reply (by decide) (by decide)) (fixed_reply (by decide) (by decide)))
  | rnto =>
    show ∀ a ∈ (x.rnfrName.elim _ _ : List Act), a.Fits
    cases x.rnfrName with
    | none => exact fixed_reply (by decide) (by decide)
    | some old => exact append_fits called_fits (fixed_reply (by decide) (by decide))
  | site => exact siteLogs_fits hu
  | size => exact size_fits hL
  | feat => exact begun_fits (by decide) (by decide)
  | stat => exact begun_fits (by decide) (by decide)
  | help => exact begun_fits (by decide) (by decide)
  | pasv => exact nofun
  | retr => exact nofun
  | stor => exact nofun
  | appe => exact nofun
  | nlst => exact nofun
  | _ => exact fixed_reply (by decide) (by decide)

theorem leads_fit {m : Main} {n : Option Nat} {i : Sid} {w : Write} (hL : env.Legal info) (hm : m.writes = [])
    (hw : w ∈ (h.leads env sid x m).writes) : (w.act i x n).Fits := by
  have hlines : ∀ {ts : List (List UInt8)} {code : Nat} {text : String}, w ∈ linesThen ts code text →
      (fmtDec code).length = 3 → text.length ≤ 1017 → (w.act i x n).Fits := by
    intro ts code text hw hc ht
    rcases List.mem_append.mp hw with hw | hw
    · obtain ⟨t, -, rfl⟩ := List.mem_map.mp hw
      exact quiet_fits rfl
    · rw [List.mem_singleton.mp hw]
      exact (Act.reply_fits hc).mpr (by rw [ascii_length]; exact ht)
  cases h with
  | pasv =>
    rw [List.mem_singleton.mp hw]
    refine (Act.reply_fits (by decide)).mpr ?_
    cases hp : env.tcpServer with
    | none => exact pasv_length hL.ip (by decide)
    | some port => exact pasv_length hL.ip (hL.port port hp)
  | feat => exact hlines hw (by decide) (by decide)
  | stat => exact hlines hw (by decide) (by decide)
  | help => exact hlines hw (by decide) (by decide)
  | _ =>
    change w ∈ m.writes at hw
    rw [hm] at hw
    cases hw

theorem runCmd_quiet (h1 : h ≠ .pwd) (h2 : h ≠ .mkd) (h3 : h ≠ .list) (h4 : h ≠ .site) :
    h.built env x = [] ∧ h.roomy env info x := by
  cases h with
  | pwd => exact absurd rfl h1
  | mkd => exact absurd rfl h2
  | list => exact absurd rfl h3
  | site => exact absurd rfl h4
  | _ => exact ⟨rfl, trivial⟩

/-- PWD: the text goes through `text` and through the buffer of the reply -/
theorem pwd_fits : (∀ w ∈ Cmd.built env x .pwd, w.Fits) ∧
    (Act.reply sid x.ctrlFd (some s.cmdNo) FTP_PWDOK (pwdText env x)).Fits ↔ Cmd.roomy env info x .pwd := by
  rw [Act.reply_fits (by decide), pwd_length]
  show (∀ w ∈ [sprintf .pwd (pwdText env x)], w.Fits) ∧ _ ↔ ∀ name, getFileName env x.dirfd = some name → _
  rw [List.forall_mem_singleton]
  show (pwdText env x).length + 1 ≤ 1024 ∧ _ ↔ _
  rw [pwd_length]
  cases hn : getFileName env x.dirfd with
  | none =>
    have hnull : (fmtStr none).length = 6 := rfl
    rw [hnull]
    exact ⟨fun _ => nofun, fun _ => ⟨by decide, by decide⟩⟩
  | some name =>
    have hname : fmtStr (some name) = name := rfl
    simp only [hname, Option.some.injEq, forall_eq']
    omega

/-- MKD: `text` is larger than the buffer of the reply -/
theorem mkd_fits (hm : env.mkdir = true) : (∀ w ∈ Cmd.built env x .mkd, w.Fits) ∧
    (Act.reply sid x.ctrlFd (some s.cmdNo) FTP_MKDIROK (mkdText env x)).Fits ↔ Cmd.roomy env info x .mkd := by
  rw [Act.reply_fits (by decide)]
  show (∀ w ∈ (if env.mkdir = true then [sprintf .mkd (mkdText env x)] else []), w.Fits) ∧ _ ↔
    (env.mkdir = true → _ ≤ 1017)
  rw [if_pos hm, List.forall_mem_singleton, imp_iff_right hm, ← mkd_length]
  show (mkdText env x).length + 1 ≤ 4096 ∧ _ ↔ _
  omega

theorem list_fits (sid : Sid) {es : List Dirent} (hL : env.Legal info) (hd : getPasvDataFd x ≠ 0)
    (hf : getFileName env x.dirfd ≠ none) (ho : env.opendir = some es) : (∀ w ∈ Cmd.built env x .list, w.Fits) ∧
      (∀ e ∈ shown es, (Act.data sid x.dataFd e.line).Fits) ↔ Cmd.roomy env info x .list := by
  have hb : Cmd.built env x .list = es.map fun e => sprintf .path (entryPath (env.fileName.getD []) e.name) := by
    show (if getPasvDataFd x = 0 ∨ getFileName env x.dirfd = none then [] else (env.opendir.getD []).map _) = _
    rw [if_neg (not_or.mpr ⟨hd, hf⟩), ho]
    rfl
  have hline : ∀ e ∈ es, (Act.data sid x.dataFd e.line).Fits ↔ ∀ tmp, (info e).link = some tmp →
      (info e).columns.length + e.name.length + tmp.length ≤ 1017 := by
    intro e he
    obtain ⟨hn, hst, hl⟩ := hL.entry es ho e he
    rw [← listLine_fits hst hn, ← hl]
    exact List.forall_mem_singleton
  have hsub : ∀ e ∈ shown es, e ∈ es := fun e he => (List.mem_filter.mp he).1
  rw [hb, List.forall_mem_map]
  constructor
  · rintro ⟨h1, h2⟩ - - es' ho' e he
    cases ho.symm.trans ho'
    exact ⟨path_fits.mp (h1 e he), fun hs => (hline e he).mp (h2 e hs)⟩
  · intro hr
    have hall := hr hd hf es ho
    exact ⟨fun e he => path_fits.mpr (hall e he).1,
      fun e hs => (hline e (hsub e hs)).mpr ((hall e (hsub e hs)).2 hs)⟩

theorem handleCmd_eq (hx : s.heap sid = some x) (hh : handlerOf x = some h) :
    handleCmd c env sid s = runCmd c env sid x s h := by
  have hl : lookupCmd x.cmd = some (some h) := Option.join_eq_some_iff.mp hh
  unfold handleCmd
  simp only [hx, hl]

theorem handleCmd_const (hx : s.heap sid = some x) (hh : handlerOf x = none)
    (he : handleCmd c env sid s = .ok s') : Adds Act.Fits s s' := by
  unfold handleCmd at he
  unfold handlerOf at hh
  rw [hx] at he
  dsimp only at he
  cases hl : lookupCmd x.cmd with
  | none =>
    rw [hl] at he
    cases he
    exact adds_reply rfl (by decide) (by decide)
  | some o =>
    rw [hl] at he hh
    obtain rfl : o = none := hh
    cases he
    exact adds_reply rfl (by decide) (by decide)

/-! ## a command -/

section
variable (hrun : exec c s l.unpiped = runCmd c env sid x t h) (ht : t.log = s.log) (hx : t.heap sid = some x)
include hrun ht hx

theorem logged_run (he : ∃ s', runCmd c env sid x t h = .ok s') : logged c s l = h.logs c env sid t.cmdNo x := by
  obtain ⟨s', he⟩ := he
  exact logged_of (hrun.trans he) (by rw [runCmd_log hx he, ht])

theorem runMkd_fits (hh : h = .mkd) :
    (∀ w ∈ h.built env x, w.Fits) ∧ (∀ a ∈ logged c s l, a.Fits) ↔ h.roomy env info x := by
  subst hh
  rw [logged_run hrun ht hx ⟨_, rfl⟩]
  show _ ∧ (∀ a ∈ called sid (.mkdir x.arg) env.mkdir ++ if env.mkdir = true then _ else _, a.Fits) ↔ _
  rw [List.forall_mem_append, and_iff_right called_fits]
  by_cases hk : env.mkdir = true
  · rw [if_pos hk]
    show _ ∧ (∀ a ∈ [Act.reply sid x.ctrlFd (some t.cmdNo) FTP_MKDIROK (mkdText env x)], a.Fits) ↔ _
    rw [List.forall_mem_singleton]
    exact mkd_fits hk
  · rw [if_neg hk, show Cmd.built env x .mkd = [] from if_neg hk]
    exact ⟨fun _ e => absurd e hk, fun _ => ⟨nofun, fixed_reply (by decide) (by decide)⟩⟩

/-- LIST builds its texts when there is a data connection and a directory, and the directory can be opened -/
theorem runList_fits (hL : env.Legal info) (hh : h = .list) :
    (∀ w ∈ h.built env x, w.Fits) ∧ (∀ a ∈ logged c s l, a.Fits) ↔ h.roomy env info x := by
  subst hh
  by_cases hd : getPasvDataFd x = 0
  · have hlogs : Cmd.list.logs c env sid t.cmdNo x = [] := if_pos hd
    rw [logged_run hrun ht hx ⟨t, if_pos hd⟩, hlogs, show Cmd.built env x .list = [] from if_pos (Or.inl hd)]
    exact ⟨fun _ e => absurd hd e, fun _ => ⟨nofun, nofun⟩⟩
  by_cases hf : getFileName env x.dirfd = none
  · have hdo : runCmd c env sid x t .list = .error (.crash .nullPath) := by
      show doList env sid x _ = _
      unfold doList listCommon
      rw [if_neg hd, hf]
      rfl
    have hlog : logged c s l = [] := by
      unfold logged
      rw [hrun, hdo]
    rw [hlog, show Cmd.built env x .list = [] from if_pos (Or.inr hf)]
    exact ⟨fun _ _ e => absurd hf e, fun _ => ⟨nofun, nofun⟩⟩
  have hfirst : ∀ a ∈ replied sid t.cmdNo x FTP_DATACONN (ascii "Here comes the directory listing."), a.Fits :=
    fixed_reply (by decide) (by decide)
  have hlast : ∀ a ∈ replied sid t.cmdNo x FTP_TRANSFEROK (ascii "Directory send OK."), a.Fits :=
    fixed_reply (by decide) (by decide)
  rw [logged_run hrun ht hx (doList_runs hd hf), show Cmd.list.logs c env sid t.cmdNo x = _ from if_neg hd,
    List.forall_mem_append, and_iff_right hfirst, List.forall_mem_append, and_iff_left hlast]
  unfold listed
  cases ho : env.opendir with
  | none =>
    have hb : Cmd.built env x .list = [] := by
      show (if getPasvDataFd x = 0 ∨ getFileName env x.dirfd = none then [] else (env.opendir.getD []).map _) = _
      rw [if_neg (not_or.mpr ⟨hd, hf⟩), ho]
      rfl
    rw [hb]
    exact ⟨fun _ _ _ es e => absurd (ho.symm.trans e) nofun, fun _ => ⟨nofun, nofun⟩⟩
  | some es =>
    rw [← list_fits sid hL hd hf ho]
    refine and_congr_right fun _ => ?_
    show (∀ a ∈ Act.fs sid (.list (.dirfd x.dirfd)) :: (shown es).map _, a.Fits) ↔ _
    rw [List.forall_mem_cons, and_iff_right (quiet_fits rfl), List.forall_mem_map]

/-- **A handler** stays within its arrays exactly when it has room. -/
theorem runCmd_fits (hu : c.localUmask < 2^32) (hL : env.Legal info) :
    (∀ w ∈ h.built env x, w.Fits) ∧ (∀ a ∈ logged c s l, a.Fits) ↔ h.roomy env info x := by
  by_cases h1 : h = .pwd
  · subst h1
    rw [logged_run hrun ht hx ⟨_, rfl⟩]
    show _ ∧ (∀ a ∈ [Act.reply sid x.ctrlFd (some t.cmdNo) FTP_PWDOK (pwdText env x)], a.Fits) ↔ _
    rw [List.forall_mem_singleton]
    exact pwd_fits
  by_cases h2 : h = .mkd
  · exact runMkd_fits hrun ht hx h2
  by_cases h3 : h = .list
  · exact runList_fits hrun ht hx hL h3
  have hlog : ∀ a ∈ logged c s l, a.Fits := logged_fits fun s' he => by
    rw [hrun] at he
    exact ⟨_, by rw [runCmd_log hx he, ht], logs_fit h1 h2 h3 hu hL⟩
  rw [and_iff_left hlog]
  by_cases h4 : h = .site
  · subst h4
    exact site_fits
  · obtain ⟨hb, hr⟩ : h.built env x = [] ∧ h.roomy env info x := runCmd_quiet h1 h2 h3 h4
    rw [hb]
    exact ⟨fun _ => hr, fun _ => nofun⟩

end

theorem command_fits {evs : List Event} (hm : s.main = .command sid evs) (hu : c.localUmask < 2^32)
    (hL : env.Legal info) : (∀ w ∈ written c s (.command env), w.Fits) ↔ Roomy c info s (.command env) := by
  have he : exec c s (Label.command env).unpiped =
      handleCmd c { env with sigpipe := false } sid (s.goto (.events evs)) :=
    (exec_command hm).trans (piped_quiet rfl)
  have hL' : { env with sigpipe := false }.Legal info := ⟨hL.ip, hL.port, hL.size, hL.entry⟩
  rw [written_fits]
  cases hn : handles s (.command env) with
  | none =>
    have ha : arrays c s (.command env) = [] := by
      show (handles s (.command env)).elim [] _ = _
      rw [hn]
      rfl
    have hlog : ∀ a ∈ logged c s (.command env), a.Fits := logged_fits fun s' hs => by
      rw [he] at hs
      obtain ⟨x, hx, -⟩ := handleCmd_cases hs
      have hh : handlerOf x = none := by
        unfold handles at hn
        simp only [hm] at hn
        rw [show s.heap sid = some x from hx, Option.bind_some, Option.map_eq_none_iff] at hn
        exact hn
      have hrest : Adds Act.Fits (s.goto (.events evs)) s' := handleCmd_const hx hh hs
      exact (Adds.of rfl).trans hrest
    rw [ha]
    exact ⟨fun _ sid x h e => absurd (hn.symm.trans e) nofun, fun _ => ⟨nofun, hlog⟩⟩
  | some p =>
    obtain ⟨i, x, h⟩ := p
    obtain rfl : i = sid := handles_sid hm hn
    have hn' := hn
    unfold handles at hn'
    simp only [hm] at hn'
    obtain ⟨y, hx, hn'⟩ := Option.bind_eq_some_iff.mp hn'
    obtain ⟨k, hh, e⟩ := Option.map_eq_some_iff.mp hn'
    cases e
    have ha : arrays c s (.command env) = h.built env x := by
      show (handles s (.command env)).elim [] _ = _
      rw [hn]
      rfl
    have hroomy : Roomy c info s (.command env) ↔ h.roomy env info x := by
      show (∀ sid x' h', handles s (.command env) = some (sid, x', h') → _) ↔ _
      simp only [hn, Option.some.injEq, Prod.mk.injEq]
      exact ⟨fun H => H _ _ _ ⟨rfl, rfl, rfl⟩, by rintro H _ _ _ ⟨rfl, rfl, rfl⟩; exact H⟩
    rw [ha, hroomy]
    have hrun : exec c s (Label.command env).unpiped =
        runCmd c { env with sigpipe := false } i x (s.goto (.events evs)) h := he.trans (handleCmd_eq hx hh)
    have hfits := runCmd_fits hrun rfl hx hu hL'
    exact hfits

/-! ## the other steps of the main loop -/

theorem dispatch_adds {now : Int} {ev : Event} {evs : List Event}
    (he : dispatch c env now ev evs s = .ok s') : Adds Act.Fits s s' := by
  cases dispatch_cases he with
  | listen _ _ => exact .of rfl
  | ctrl _ _ _ _ he =>
    obtain ⟨x, -, ⟨-, he⟩ | ⟨m, k, cmd, arg, -, -, rfl⟩⟩ := processCtrlRead_cases he
    · have hrest := closeSess_adds he
      exact (Adds.of rfl).trans hrest
    · exact Adds.trans (.emit rfl (quiet_fits rfl)) (.of rfl)
  | data _ _ _ _ he =>
    obtain ⟨x, p, -, -, ⟨-, rfl⟩ | ⟨-, rfl⟩⟩ := processDataRead_cases he
    · exact .of rfl
    · exact .of rfl
  | hup _ _ _ _ _ he =>
    have hrest := closeSess_adds he
    exact (Adds.of rfl).trans hrest
  | quiet _ _ => exact .of rfl

theorem evictOne_adds {now : Int} (he : Myftpd.evictOne c now s = .ok s') : Adds Act.Fits s s' := by
  obtain ⟨rfl, -⟩ | ⟨n, node, x, t, -, -, -, -, hc, rfl⟩ := evictOne_cases he
  · exact .of rfl
  · exact (closeSess_adds hc).trans (.of rfl)

theorem isValid_length {r : Nat × String} (h : isValid c x = some r) : r.2.length ≤ 1017 := by
  unfold isValid at h
  split at h
  · cases h
    decide
  · split at h
    · cases h
      decide
    · cases h

theorem handleNewConn_adds {conn : Conn} (he : handleNewConn c conn s = .ok s') : Adds Act.Fits s s' := by
  unfold handleNewConn at he
  dsimp only at he
  split at he
  · rename_i code text hv
    obtain ⟨rfl, -⟩ := Prod.mk.inj (isValid_code hv)
    have h1 : Adds Act.Fits s ((beginConn s).ftpReply s.nextSid (newSession s) none FTP_TOO_MANY_USERS (ascii text)) :=
      adds_reply rfl (by decide) (by rw [ascii_length]; exact isValid_length hv)
    exact h1.trans (closeSess_adds he)
  · obtain ⟨t, ht, he⟩ := bind_ok.mp he
    unfold setSessinfo at ht
    split at ht
    · cases ht
      cases he
      refine Adds.trans (Adds.emit ?_ ((Act.reply_fits (by decide)).mpr (by decide))) (.of rfl)
      rfl
    · cases ht

/-! ## a step of a transfer thread -/

section
variable {tenv : TEnv} {tid : Tid} {th : Thread}

theorem replied_fits {n code : Nat} {x : Session} {text : List UInt8} (hc : (fmtDec code).length = 3)
    (ht : text.length ≤ 1017) : ∀ a ∈ replied sid n x code text, a.Fits := by
  intro a ha
  rw [List.mem_singleton.mp ha]
  exact (Act.reply_fits hc).mpr ht

theorem closing_fits {x : Session} : ∀ a ∈ th.closing x, a.Fits := by
  have htexts : (badFileText th.kind).length ≤ 1017 ∧ (badNetText th.kind).length ≤ 1017 := by
    cases th.kind with
    | retr => decide
    | stor a => exact ⟨(by decide : "Failure writting to local file.".length ≤ 1017),
        (by decide : "Failure reading from network stream.".length ≤ 1017)⟩
  unfold Thread.closing
  split
  · exact replied_fits (by decide) (by decide)
  · split
    · exact replied_fits (by decide) (by rw [ascii_length]; exact htexts.1)
    · split
      · exact replied_fits (by decide) (by rw [ascii_length]; exact htexts.2)
      · exact fun a ha => absurd ha List.not_mem_nil

theorem acts_fits {x : Session} (hpc : th.pc ≠ .opening) : ∀ a ∈ th.acts tenv x, a.Fits := by
  have hfs : ∀ op, ∀ a ∈ [Act.fs th.sess op], a.Fits := fun op a ha => by
    rw [List.mem_singleton.mp ha]
    exact quiet_fits rfl
  have hnil : ∀ a ∈ ([] : List Act), a.Fits := fun a ha => absurd ha List.not_mem_nil
  obtain ⟨sess, cmd, kind, p, offset, file, size, left, flag⟩ := th
  cases p with
  | opening => exact absurd rfl hpc
  | final => exact closing_fits
  | checkAbor =>
    show ∀ a ∈ (if x.aborReceived = true then [Act.mainReply FTP_ABOROK (ascii "ABOR successful")] else []), a.Fits
    split
    · intro a ha w hw
      rw [List.mem_singleton.mp ha] at hw
      rw [List.mem_singleton.mp hw]
      exact (Myftpd.reply_fits (by decide)).mpr (by decide)
    · exact hnil
  | «open» =>
    cases kind with
    | retr => exact hfs _
    | stor a => exact hfs _
  | trunc =>
    cases kind with
    | retr => exact hnil
    | stor a => exact hfs _
  | loop =>
    cases kind with
    | retr =>
      show ∀ a ∈ (if left = 0 then [] else _), Act.Fits a
      split
      · exact hnil
      · cases Thread.sends ⟨sess, cmd, .retr, .loop, offset, file, size, left, flag⟩ tenv x with
        | none => exact hnil
        | some n => exact hfs _
    | stor a => exact hnil
  | write n =>
    cases kind with
    | retr => exact hnil
    | stor a =>
      unfold Thread.acts
      cases tenv.write with
      | ok k => exact hfs _
      | intr => exact hnil
      | err => exact hnil
  | _ => exact hnil

theorem thread_adds (hth : s.threads tid = some th) (hpc : th.pc ≠ .opening)
    (he : threadStep tenv tid s = .ok s') : Adds Act.Fits s s' := by
  refine ⟨_, thread_logs hth he, ?_⟩
  unfold Thread.logs
  split
  · have htext : (fmtDec (failReply th.kind).1).length = 3 ∧ (failReply th.kind).2.length ≤ 1017 := by
      cases th.kind with
      | retr => decide
      | stor a => exact ⟨(by decide : (fmtDec FTP_UPLOADFAIL).length = 3),
          (by decide : "Could not create file.".length ≤ 1017)⟩
    exact replied_fits htext.1 (by rw [ascii_length]; exact htext.2)
  · exact acts_fits hpc

theorem opening_fits (hth : s.threads tid = some th) (hpc : th.pc = .opening) :
    (∀ w ∈ written c s (.thread tid tenv), w.Fits) ↔ Roomy c info s (.thread tid tenv) := by
  rw [written_fits]
  have hroomy : Roomy c info s (.thread tid tenv) ↔ ∀ x, s.heap th.sess = some x →
      x.arg.length + (fmtDec th.size).length ≤ if x.isAscii = true then 968 else 967 := by
    show (∀ th' x, s.threads tid = some th' → _) ↔ _
    simp only [hth, Option.some.injEq]
    exact ⟨fun H x hx => H th x rfl hpc hx, by rintro H _ x rfl - hx; exact H x hx⟩
  have ha : arrays c s (.thread tid tenv) =
      (s.heap th.sess).elim [] fun x => [sprintf .opening (openingText x th.size)] := by
    show (s.threads tid).elim [] _ = _
    rw [hth]
    exact if_pos hpc
  have hstep : exec c s (.thread tid tenv) = th.outcome tenv tid s := thread_eq hth
  rw [hroomy, ha]
  cases hx : s.heap th.sess with
  | none =>
    have hlog : ∀ a ∈ logged c s (.thread tid tenv), a.Fits := logged_fits fun s' he => by
      have huse : th.usesRecord tenv = true := by
        unfold Thread.usesRecord
        rw [hpc]
      exact absurd (hx.symm.trans ((thread_stepped hth he).1 huse)) nofun
    exact ⟨fun _ => nofun, fun _ => ⟨nofun, hlog⟩⟩
  | some x =>
    have hdo : ∃ s', th.outcome tenv tid s = .ok s' ∧ s'.log = s.log ++
        [.reply th.sess x.ctrlFd (some th.cmd) FTP_DATACONN (openingText x th.size)] := by
      rw [← openingStep_eq hpc]
      unfold openingStep withSess
      rw [hx]
      exact ⟨_, rfl, rfl⟩
    obtain ⟨s', hdo, hl⟩ := hdo
    rw [logged_of (hstep.trans hdo) hl, List.forall_mem_singleton, Act.reply_fits (by decide), opening_length]
    show (∀ w ∈ [sprintf .opening (openingText x th.size)], w.Fits) ∧ _ ↔ _
    rw [List.forall_mem_singleton]
    show (openingText x th.size).length + 1 ≤ 1024 ∧ _ ↔ _
    rw [opening_length]
    simp only [Option.some.injEq, forall_eq']
    split <;> omega

end

/-! ## the control line -/

/-- the second part of a line always fits into `arg` -/
theorem line_fits {now : Int} : (∀ w ∈ arrays c s (.dispatch now env), w.Fits) ↔
    Roomy c info s (.dispatch now env) := by
  show (∀ w ∈ (lineOf c s (.dispatch now env)).elim [] fun t => strSplitWrites .cmd .arg t SP, w.Fits) ↔
    ∀ t, lineOf c s (.dispatch now env) = some t → _
  cases ht : lineOf c s (.dispatch now env) with
  | none => exact ⟨fun _ => nofun, fun _ => nofun⟩
  | some t =>
    have hlen : t.length ≤ 1024 := by
      unfold lineOf at ht
      split at ht
      · obtain ⟨x, -, ht⟩ := Option.bind_eq_some_iff.mp ht
        split at ht
        · rename_i m k hk
          cases ht
          exact Nat.le_trans (List.takeWhile_prefix _).length_le (ctrlRead_strlen hk)
        · cases ht
      · cases ht
    have h1 : Buf.cmd.size = 32 := rfl
    have h2 : Buf.arg.size = 1024 := rfl
    show (∀ w ∈ strSplitWrites .cmd .arg t SP, w.Fits) ↔ _
    rw [strSplit_fits, h1, h2]
    simp only [Option.some.injEq, forall_eq']
    split
    · rename_i hm
      have := split_length hm
      omega
    · omega

/-! ## every step -/

/-- a step whose arrays are only those of its replies, which have fixed texts -/
theorem fixed_fits (ha : arrays c s l = []) (hr : Roomy c info s l)
    (he : ∀ s', exec c s l.unpiped = .ok s' → Adds Act.Fits s s') :
    (∀ w ∈ written c s l, w.Fits) ↔ Roomy c info s l := by
  rw [written_fits, ha]
  exact ⟨fun _ => hr, fun _ => ⟨nofun, logged_fits he⟩⟩

theorem handlerStep_adds (hr : Ready s) {b : Bool} (he : exec c s (.onward b) = .ok s') : Adds Act.Fits s s' := by
  by_cases hi : s.main.inside = none
  · change handlerStep b s = _ at he
    unfold handlerStep at he
    cases hm : s.main with
    | pasv j text pc evs => rw [hm] at hi; cases hi
    | reply j ws evs => rw [hm] at hi; cases hi
    | _ => rw [hm] at he; cases he; exact .refl s
  · cases handlerStep_cases hi he with
    | write hm hx =>
      refine ⟨[_], rfl, List.forall_mem_singleton.mpr (hr _ _ _ _ ?_)⟩
      rw [hm]
      exact List.mem_cons_self
    | _ => exact .of rfl

theorem step_fits (hl : l.Legal c info) (hr : l.further = true → Ready s) :
    (∀ w ∈ written c s l, w.Fits) ↔ Roomy c info s l := by
  cases l with
  | onward b => exact fixed_fits rfl trivial fun s' he => handlerStep_adds (hr rfl) he
  | dispatch now env =>
    rw [written_fits, line_fits]
    refine and_iff_left (logged_fits fun s' he => ?_)
    change exec c s (.dispatch now env) = _ at he
    unfold exec at he
    dsimp only at he
    split at he
    · exact dispatch_adds he
    · cases he
      exact .refl s
  | command env =>
    obtain ⟨hu, hL⟩ := hl
    by_cases hm : ∃ sid evs, s.main = .command sid evs
    · obtain ⟨sid, evs, hm⟩ := hm
      exact command_fits hm hu hL
    · have hn : handles s (.command env) = none := by
        unfold handles
        dsimp only
        split
        · rename_i sid evs h
          exact absurd ⟨sid, evs, h⟩ hm
        · rfl
      refine fixed_fits ?_ (fun sid x h e => absurd (e.symm.trans hn) (Option.some_ne_none _)) fun s' he => ?_
      · show (handles s (.command env)).elim [] _ = _
        rw [hn]
        rfl
      · change exec c s (.command _) = _ at he
        unfold exec at he
        dsimp only at he
        split at he
        · rename_i sid evs h
          exact absurd ⟨sid, evs, h⟩ hm
        · cases he
          exact .refl s
  | thread tid tenv =>
    cases hth : s.threads tid with
    | none =>
      refine fixed_fits ?_ (fun th x e => absurd (e.symm.trans hth) (Option.some_ne_none _)) fun s' he => ?_
      · show (s.threads tid).elim [] _ = _
        rw [hth]
        rfl
      · change threadStep tenv tid s = _ at he
        unfold threadStep at he
        rw [hth] at he
        cases he
        exact .refl s
    | some th =>
      by_cases hpc : th.pc = .opening
      · exact opening_fits hth hpc
      · refine fixed_fits ?_ ?_ fun s' he => thread_adds hth hpc he
        · show (s.threads tid).elim [] _ = _
          rw [hth]
          exact if_neg hpc
        · intro th' x hth' hpc'
          cases hth.symm.trans hth'
          exact absurd hpc' hpc
  | acceptOne conn => exact fixed_fits rfl trivial fun s' he => handleNewConn_adds he
  | acceptErr e =>
    refine fixed_fits rfl trivial fun s' he => ?_
    change exec c s (.acceptErr e) = _ at he
    unfold exec at he
    dsimp only at he
    split at he
    · split at he
      · cases he
        exact .of rfl
      · cases he
    · cases he
      exact .refl s
  | evictOne now => exact fixed_fits rfl trivial fun s' he => evictOne_adds he
  | waitErr e => exact fixed_fits rfl trivial fun s' he => by cases he
  | arrive fd bs => exact fixed_fits rfl trivial fun s' he => by cases he; exact .of rfl
  | hangup fd => exact fixed_fits rfl trivial fun s' he => by cases he; exact .of rfl
  | faults fd es => exact fixed_fits rfl trivial fun s' he => by cases he; exact .of rfl
  | wait evs => exact fixed_fits rfl trivial fun s' he => by cases he; exact .of rfl
  | timeout => exact fixed_fits rfl trivial fun s' he => by cases he; exact .of rfl

end

/-! ## runs -/

section
variable {c : Conf} {info : Dirent → FileStat} {s s' : Server} {l : Label}

theorem Ready.outside (h : s.main.inside = none) : Ready s := fun sid x n w hw => by
  rw [writes_outside h] at hw
  cases hw

theorem Ready.of (h : Ready s) (hm : s'.main = s.main) : Ready s' := fun sid x n w hw => h sid x n w (hm ▸ hw)

/-- the text of a write, not the session, says whether it fits -/
theorem act_fits {w : Write} {i j : Sid} {x y : Session} {m n : Option Nat} (h : (w.act i x m).Fits) :
    (w.act j y n).Fits := by
  cases w with
  | raw text => exact quiet_fits rfl
  | reply code text => exact h

theorem ready_command {env : Env} {sid : Sid} {evs : List Event} (hL : env.Legal info)
    (he : handleCmd c env sid (s.goto (.events evs)) = .ok s') : Ready s' := by
  obtain ⟨x, hx, ⟨-, code, text, -, rfl⟩ | ⟨h, -, he⟩⟩ := handleCmd_cases he
  · exact .outside rfl
  · intro i y n w hw
    rw [runCmd_main hx he] at hw
    exact act_fits (leads_fit (n := none) (i := sid) hL rfl hw)

theorem ready_step (hr : Ready s) (hl : l.Legal c info) (hen : enabled s l) (he : exec c s l = .ok s') : Ready s' := by
  rcases exec_cases hen he with ⟨hb, -⟩ | ⟨env, sid, evs, rfl, -, he⟩ | ⟨tid, env, th, rfl, hth, he⟩
  · cases hf : l.further with
    | true =>
      cases l with
      | onward b =>
        intro i y n w hw
        cases handlerStep_cases hen he with
        | name hm => exact hr i y n w (by rw [hm]; exact hw)
        | entry hm => exact hr i y n w (by rw [hm]; exact hw)
        | watch hm => exact hr i y n w (by rw [hm]; exact hw)
        | deaf hm => exact hr i y n w (by rw [hm]; exact hw)
        | write hm => exact hr i y n w (by rw [hm]; exact List.mem_cons_of_mem _ hw)
        | back => cases hw
      | _ => cases hf
    | false =>
      rcases between_stays hen he hb hf with ⟨e, -⟩ | ⟨-, e⟩
      · exact hr.of e
      · exact .outside e
  · exact ready_command hl.2 he
  · exact hr.of (thread_ran hth he).choose_spec.main

end

/-- the server, and what it has written to its arrays so far -/
abbrev builds (c : Conf) : Runs.System (Server × List Written) Label :=
  (sys c).recording [] fun ws s l _ => ws ++ written c s l

/-- a line of the configuration file that is neither empty nor a comment: a key of at most 126 bytes and a
value of at most 127, or 127 bytes without an equals sign -/
def RoomyLine (line : List UInt8) : Prop :=
  ¬ (line = [] ∨ line.head? = some 35 ∨ strAllSpace line = true) →
    if 61 ∈ trimCrlf line then
      (splitFst (trimCrlf line) 61).length ≤ 126 ∧ (splitSnd (trimCrlf line) 61).length ≤ 127
    else (trimCrlf line).length ≤ 127

/-- **Every text fits its array** in a run whose steps all have room, and every next step that has none
writes past an array; the same for the lines of the configuration file. -/
theorem fits_iff {c : Conf} {info : Dirent → FileStat} {p : Server × List Written}
    (h : Runs.Reach (builds c) (fun p l => l.Legal c info ∧ Roomy c info p.1 l) p) :
    (∀ w ∈ p.2, w.Fits) ∧
    (∀ l, enabled p.1 l → l.Legal c info → ((∀ w ∈ written c p.1 l, w.Fits) ↔ Roomy c info p.1 l)) ∧
    ∀ line, (∀ w ∈ settingWrites line, w.Fits) ↔ RoomyLine line := by
  have hinv : Ready p.1 ∧ ∀ w ∈ p.2, w.Fits := by
    induction h with
    | init hi =>
      obtain ⟨⟨fds, -, e⟩, hws⟩ := hi
      rw [e, hws]
      exact ⟨.outside rfl, nofun⟩
    | step _ hc ht ih =>
      refine ⟨ready_step ih.1 hc.1 ht.1.1 ht.1.2, ?_⟩
      rw [ht.2, List.forall_mem_append]
      exact ⟨ih.2, (step_fits hc.1 fun _ => ih.1).mpr hc.2⟩
  exact ⟨hinv.2, fun l _ hl => step_fits hl fun _ => hinv.1, fun line => setting_fits⟩

def sampleInfo (_ : Dirent) : FileStat := ⟨ascii "-rw-r--r--", 1, 1000, 1000, 3, ascii "Jan 01 00:00", none⟩

theorem sampleEnv_legal : sampleEnv.Legal sampleInfo where
  ip := by
    intro i
    match i with
    | 0 | 1 | 2 | 3 => decide
    | i+4 => exact (by decide : 0 < 256)
  port := by
    intro p h
    cases h
    decide
  size := by
    intro r n h
    cases h
    decide
  entry := by
    intro es h
    cases h
    exact nofun

def isSample : Label → Bool
  | .command env => env = sampleEnv
  | _ => true

theorem isSample_legal {l : Label} (h : isSample l = true) : l.Legal sampleConf sampleInfo := by
  cases l with
  | command env =>
    have he : env = sampleEnv := of_decide_eq_true h
    subst he
    exact ⟨by decide, sampleEnv_legal⟩
  | _ => trivial

def talkRun : List Label :=
  connects ++ sends 5 "USER u" ++ sends 5 "PASS p" ++ sends 5 "PWD" ++ sends 5 "MKD d" ++ sends 5 "SITE UMASK 022"

theorem fits_iff_talk : ∃ p, Runs.Reach (builds sampleConf)
    (fun p l => l.Legal sampleConf sampleInfo ∧ Roomy sampleConf sampleInfo p.1 l) p ∧
    (⟨.mkd, 11⟩ ∈ p.2 ∧ ⟨.siteCmd, 7⟩ ∈ p.2) ∧ ∀ w ∈ p.2, w.Fits := by
  obtain ⟨p, hp, ht⟩ := noted_of_play
    (t := fun p : Server × List Written => decide (⟨.mkd, 11⟩ ∈ p.2 ∧ ⟨.siteCmd, 7⟩ ∈ p.2))
    (D := fun p l => isSample l = true ∧ ∀ w ∈ written sampleConf p.1 l, w.Fits)
    (sampleNoted [] (fun ws s l _ => ws ++ written sampleConf s l) _)
    (by decide +kernel : (playNoted sampleConf (fun (ws : List Written) s l _ => ws ++ written sampleConf s l)
      (fun p l => isSample l = true ∧ ∀ w ∈ written sampleConf p.1 l, w.Fits)
      (sampleBoot, []) talkRun).any _ = true)
  have hr := hp.weaken (D := fun p l => l.Legal sampleConf sampleInfo ∧ Roomy sampleConf sampleInfo p.1 l)
    fun p l hl => ⟨isSample_legal hl.1, by
      cases l with
      | onward b => trivial
      | _ => exact (step_fits (isSample_legal hl.1) nofun).mp hl.2⟩
  exact ⟨p, hr, of_decide_eq_true ht, (fits_iff hr).1⟩

/-- **A line of forty letters**: 41 bytes are copied into `cmd[32]`. -/
theorem cmd_overrun : ¬ ∀ c info s l, Reach c Runs.Any s → enabled s l → l.Legal c info →
    ∀ w ∈ written c s l, w.Fits := by
  intro h
  obtain ⟨s, hs, hp⟩ := reach_of_play
    (p := fun s => decide (enabled s (.dispatch 0 sampleEnv) ∧
      ¬ ∀ w ∈ written sampleConf s (.dispatch 0 sampleEnv), w.Fits))
    (sampleReach Runs.Any)
    (by decide +kernel : (play sampleConf Runs.Any sampleBoot (connects ++
      [.arrive 5 (List.replicate 40 65 ++ [CR, LF]), .wait [input 5]])).any _ = true)
  obtain ⟨hen, hw⟩ := of_decide_eq_true hp
  exact hw (h sampleConf sampleInfo s (.dispatch 0 sampleEnv) hs hen trivial)

end Myftpd
