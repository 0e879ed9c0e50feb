import Myftpd.Buffers
import Myftpd.Perms
import Myftpd.Lib.Civil
import Myftpd.Lib.Column
import Myftpd.Epoll

/-!
# ftpproto.cpp, sysutil.cpp: the lines of LIST

`list_common` takes the columns of a line from different places: the numbers from an `lstat` of the full path, the date
from `gettimeofday`, and the target of a symbolic link from a `readlink` of the bare name.

* `listDetail`         `list_common(sess, 1)`, with the arrays that it builds the lines in;
* `listCommon_detail`  it is the `listCommon` of the handlers;
* `Describes`          a line that describes its entry;
* `listLine_inj`       the columns of a line can be read back;
* `list_describes_iff` when LIST describes its entries.
-/

namespace Myftpd
open CMem Server

/-! ## dates -/

/-- `struct tm`, as far as `strftime` looks at it here -/
structure Tm where
  date : Civil.Date
  hour : Nat
  min : Nat
  hour_lt : hour < 24
  min_lt : min < 60

/-- `localtime(&t)`; local time is `zone t` seconds ahead -/
def localtime (zone : Int → Int) (t : Int) : Tm where
  date := Civil.Date.ofDay ((t + zone t) / 86400)
  hour := ((t + zone t) % 86400).toNat / 3600
  min := ((t + zone t) % 86400).toNat / 60 % 60
  hour_lt := by omega
  min_lt := Nat.mod_lt _ (by decide)

/-- the formats of `statbuf_get_date` -/
inductive DateFormat where
  | time   -- `"%b %e %H:%M"`
  | year   -- `"%b %e  %Y"`
  deriving DecidableEq, Repr

def monthNames : List String := ["Jan", "Feb", "Mar", "Apr", "May", "Jun", "Jul", "Aug", "Sep", "Oct", "Nov", "Dec"]

/-- `%H` and `%M` -/
def twoDigits (n : Nat) : List UInt8 := if n < 10 then ascii "0" ++ fmtDec n else fmtDec n

/-- `%b` and `%e` -/
def monthDay (date : Civil.Date) : List UInt8 :=
  ascii (monthNames.getD date.month "") ++ ascii " " ++ padLeft 2 (fmtDec date.day)

def strftime (tm : Tm) : DateFormat → List UInt8
  | .time => monthDay tm.date ++ ascii " " ++ twoDigits tm.hour ++ ascii ":" ++ twoDigits tm.min
  | .year => monthDay tm.date ++ ascii "  " ++ fmtDec tm.date.year

/-- the format that `statbuf_get_date` chooses -/
def dateFormat (mtime now : Int) : DateFormat :=
  if mtime > now ∨ now - mtime > 60 * 60 * 24 * 182 then .year else .time

/-- `statbuf_get_date(sbuf)`: it is `local_time` that is formatted -/
def statbufGetDate (zone : Int → Int) (mtime now : Int) : List UInt8 :=
  strftime (localtime zone now) (dateFormat mtime now)

/-! ## list_common -/

/-- what is found under a path: the fields of its `struct stat`, and the text of a symbolic link -/
structure Inode where
  mode : Nat
  nlink : Nat
  uid : Nat
  gid : Nat
  size : Nat
  mtime : Int
  target : List UInt8
  deriving DecidableEq, Repr

def S_ISLNK (mode : Nat) : Prop := mode &&& S_IFMT = S_IFLNK

instance (mode : Nat) : Decidable (S_ISLNK mode) := inferInstanceAs (Decidable (_ = _))

/-- one round of the loop: the name that `readdir` gives, the files of the system, and the time of day -/
structure ListRound where
  name : List UInt8
  disk : List UInt8 → Option Inode
  now : Int

/-- `readlink(path, …)`, -1 for what is not a symbolic link -/
def readlink (disk : List UInt8 → Option Inode) (path : List UInt8) : Option (List UInt8) :=
  (disk path).bind fun n => if S_ISLNK n.mode then some n.target else none

/-- What the line is printed from.  `%3d` and `%-8d` take an `int`, and a relative path leads from the working
directory `cwd`; where `readlink` fails, `tmp` is empty. -/
def Inode.printed (zone : Int → Int) (cwd perms : List UInt8) (r : ListRound) (n : Inode) : FileStat where
  perms := perms
  nlink := wrapS 32 n.nlink
  uid := wrapS 32 n.uid
  gid := wrapS 32 n.gid
  size := n.size
  date := statbufGetDate zone n.mtime r.now
  link := if S_ISLNK n.mode then some (((readlink r.disk (entryPath cwd r.name)).getD []).take 1024) else none

/-- The loop of `list_common` in the directory `dir`: the lines, and the buffer of `statbuf_get_perms` behind them.
A text of 1024 bytes in `tmp` has no NUL, and then the line is too long as well. -/
def listLoop (zone : Int → Int) (dir cwd : List UInt8) :
    List ListRound → List UInt8 → Res (List (List UInt8) × List UInt8)
  | [], perms => .ok ([], perms)
  | r :: rs, perms =>
    if (sprintf .path (entryPath dir r.name)).Fits then
      match r.disk (entryPath dir r.name) with
      | none => listLoop zone dir cwd rs perms
      | some n =>
        if r.name.head? = some 46 then listLoop zone dir cwd rs perms
        else
          let perms := statbufGetPerms perms n.mode
          let buf := listLine (n.printed zone cwd perms r) r.name
          if (sprintf .line buf).Fits then do
            let (lines, perms) ← listLoop zone dir cwd rs perms
            return (buf :: lines, perms)
          else .error (.crash .overlap)
    else .error (.crash .overlap)

/-- `list_common(sess, 1)`, when `opendir` and `readdir` give these rounds -/
def listDetail (zone : Int → Int) (rounds : Option (List ListRound)) (perms : List UInt8) (env : Env) (sid : Sid)
    (x : Session) (s : Server) : Res (Server × List UInt8) :=
  match getFileName env x.dirfd with
  | none => .error (.crash .nullPath)
  | some dir =>
    match rounds with
    | none => .ok (s, perms)
    | some rs => do
      let s := s.emit (.fs sid (.list (.dirfd x.dirfd)))
      let (lines, perms) ← listLoop zone dir env.getcwd rs perms
      return (s.emits (lines.map fun bs => .data sid x.dataFd bs), perms)

/-! ## what LIST should send -/

/-- the entry of a round that is to be listed -/
def ListRound.listed (dir : List UInt8) (r : ListRound) : Option Inode :=
  if r.name.head? = some 46 then none else r.disk (entryPath dir r.name)

/-- the entry as it is, at the time `now` -/
def Inode.real (zone : Int → Int) (perms : List UInt8) (now : Int) (n : Inode) : FileStat where
  perms := perms
  nlink := n.nlink
  uid := n.uid
  gid := n.gid
  size := n.size
  date := strftime (localtime zone n.mtime) (dateFormat n.mtime now)
  link := if S_ISLNK n.mode then some n.target else none

/-- the line describes the entry; of the ten bytes of the permissions nothing is said -/
def Describes (zone : Int → Int) (dir : List UInt8) (r : ListRound) (line : List UInt8) : Prop :=
  ∃ n perms, r.listed dir = some n ∧ perms.length = 10 ∧ line = listLine (n.real zone perms r.now) r.name

/-- LIST sends one line for each entry that is to be listed, in the order of `readdir`, and it describes the entry. -/
def ListsEntries (zone : Int → Int) (dir : List UInt8) (rs : List ListRound) (perms : List UInt8) (env : Env)
    (sid : Sid) (x : Session) (s : Server) : Prop :=
  ∃ s' perms' lines, listDetail zone (some rs) perms env sid x s = .ok (s', perms') ∧
    s'.log = s.log ++ .fs sid (.list (.dirfd x.dirfd)) :: lines.map (fun bs => .data sid x.dataFd bs) ∧
    List.Forall₂ (Describes zone dir) (rs.filter fun r => (r.listed dir).isSome) lines

/-- Local time was the same in what the format shows: month, day, hour and minute, or the day. -/
def SameDate (zone : Int → Int) (mtime now : Int) : Prop :=
  match dateFormat mtime now with
  | .time => (localtime zone now).date.month = (localtime zone mtime).date.month ∧
      (localtime zone now).date.day = (localtime zone mtime).date.day ∧
      (localtime zone now).hour = (localtime zone mtime).hour ∧ (localtime zone now).min = (localtime zone mtime).min
  | .year => (now + zone now) / 86400 = (mtime + zone mtime) / 86400

instance (zone : Int → Int) (mtime now : Int) : Decidable (SameDate zone mtime now) := by
  unfold SameDate
  split <;> infer_instance

/-- The numbers are those of an `int`, the file has been modified when the line is made as far as the date shows, and
the name leads to the same target from the working directory; and the line fits. -/
structure Inode.Plain (zone : Int → Int) (cwd : List UInt8) (r : ListRound) (n : Inode) : Prop where
  nlink : n.nlink < 2^31
  uid : n.uid < 2^31
  gid : n.gid < 2^31
  date : SameDate zone n.mtime r.now
  link : S_ISLNK n.mode → (readlink r.disk (entryPath cwd r.name)).getD [] = n.target
  fits : (sprintf .line (listLine (n.real zone (lsPerms n.mode) r.now) r.name)).Fits

/-! ## numbers are columns -/

/-- the characters of a number -/
def decChars : Int → List Char
  | .ofNat n => Nat.toDigits 10 n
  | .negSucc n => '-' :: Nat.toDigits 10 (n + 1)

theorem fmtDec_eq (z : Int) : fmtDec z = (decChars z).map fun c => c.toNat.toUInt8 := by
  unfold fmtDec ascii
  cases z with
  | ofNat n =>
    show (Nat.repr n).toList.map _ = _
    unfold Nat.repr
    rw [String.toList_ofList]
    rfl
  | negSucc n =>
    show ("-" ++ Nat.repr (n + 1)).toList.map _ = _
    unfold Nat.repr
    rw [String.toList_append]
    show (['-'] ++ (String.ofList _).toList).map _ = _
    rw [String.toList_ofList]
    rfl

theorem mem_decChars {z : Int} {c : Char} (h : c ∈ decChars z) : 45 ≤ c.toNat ∧ c.toNat ≤ 57 := by
  have hdigit : ∀ n, c ∈ Nat.toDigits 10 n → 45 ≤ c.toNat ∧ c.toNat ≤ 57 := by
    intro n hc
    have hd := Char.isDigit_iff_toNat.mp (Nat.isDigit_of_mem_toDigits (by decide) (by decide) hc)
    exact ⟨Nat.le_trans (by decide) hd.1, hd.2⟩
  cases z with
  | ofNat n => exact hdigit n h
  | negSucc n =>
    rcases List.mem_cons.mp h with rfl | h
    · decide
    · exact hdigit _ h

theorem decChars_inj {z w : Int} (h : decChars z = decChars w) : z = w := by
  have hdash : ∀ n k : Nat, Nat.toDigits 10 n ≠ '-' :: Nat.toDigits 10 k := by
    intro n k e
    have hmem : '-' ∈ Nat.toDigits 10 n := by
      rw [e]
      exact List.mem_cons_self
    exact absurd (Nat.isDigit_of_mem_toDigits (by decide) (by decide) hmem) (by decide)
  have hinj : ∀ {n k : Nat}, Nat.toDigits 10 n = Nat.toDigits 10 k → n = k := by
    intro n k e
    rw [← Nat.ofDigitChars_ten_toDigits (n := n), e, Nat.ofDigitChars_ten_toDigits]
  cases z with
  | ofNat n =>
    cases w with
    | ofNat k => rw [hinj h]
    | negSucc k => exact absurd h (hdash _ _)
  | negSucc n =>
    cases w with
    | ofNat k => exact absurd h.symm (hdash _ _)
    | negSucc k => rw [Nat.succ.inj (hinj (List.cons.inj h).2)]

theorem fmtDec_inj {z w : Int} : fmtDec z = fmtDec w ↔ z = w := by
  refine ⟨fun h => decChars_inj ?_, fun h => by rw [h]⟩
  have hback : ∀ z, (fmtDec z).map (fun b => Char.ofNat b.toNat) = decChars z := by
    intro z
    rw [fmtDec_eq, List.map_map]
    conv_rhs => rw [← List.map_id (decChars z)]
    apply List.map_congr_left
    intro c hc
    have hb := mem_decChars hc
    show Char.ofNat (c.toNat.toUInt8).toNat = c
    rw [show c.toNat.toUInt8.toNat = c.toNat from Nat.mod_eq_of_lt (by omega), Char.ofNat_toNat]
  rw [← hback z, h, hback]

theorem fmtDec_column (z : Int) : SP ∉ fmtDec z ∧ fmtDec z ≠ [] := by
  rw [fmtDec_eq]
  constructor
  · intro h
    obtain ⟨c, hc, e⟩ := List.mem_map.mp h
    have hb := mem_decChars hc
    have e' := congrArg UInt8.toNat e
    rw [show c.toNat.toUInt8.toNat = c.toNat from Nat.mod_eq_of_lt (by omega)] at e'
    have hsp : SP.toNat = 32 := rfl
    omega
  · intro h
    have hnil := List.map_eq_nil_iff.mp h
    cases z with
    | ofNat n => exact Nat.toDigits_ne_nil hnil
    | negSucc n => exact absurd hnil (List.cons_ne_nil _ _)

/-! ## dates -/

/-- the number that a text of digits and blanks stands for -/
def digitsValue (bs : List UInt8) : Nat := (bs.filter (· != SP)).foldl (fun n b => 10 * n + (b.toNat - 48)) 0

theorem digit_spec {d : Nat} (h : d < 10) :
    (Nat.digitChar d).toNat.toUInt8 ≠ SP ∧ (Nat.digitChar d).toNat.toUInt8.toNat - 48 = d := by
  interval_cases d <;> decide

theorem fmtDec_one {n : Nat} (h : n < 10) : fmtDec n = [(Nat.digitChar n).toNat.toUInt8] := by
  rw [fmtDec_eq]
  show (Nat.toDigits 10 n).map _ = _
  rw [Nat.toDigits_of_lt_base h]
  rfl

theorem fmtDec_two {n k : Nat} (hn : 0 < n) (h : n < 10) (hk : k < 10) :
    fmtDec (10 * n + k : Nat) = [(Nat.digitChar n).toNat.toUInt8, (Nat.digitChar k).toNat.toUInt8] := by
  rw [fmtDec_eq]
  show (Nat.toDigits 10 (10 * n + k)).map _ = _
  rw [← Nat.toDigits_append_toDigits (by decide) hn hk, Nat.toDigits_of_lt_base h, Nat.toDigits_of_lt_base hk]
  rfl

theorem digitsValue_two {a b : UInt8} (ha : a ≠ SP) (hb : b ≠ SP) :
    digitsValue [a, b] = 10 * (a.toNat - 48) + (b.toNat - 48) := by
  unfold digitsValue
  rw [List.filter_cons_of_pos (p := (· != SP)) (bne_iff_ne.mpr ha),
    List.filter_cons_of_pos (p := (· != SP)) (bne_iff_ne.mpr hb), List.filter_nil, List.foldl_cons, List.foldl_cons,
    List.foldl_nil, Nat.mul_zero, Nat.zero_add]

theorem fmtDec_digits {n : Nat} (h10 : 10 ≤ n) (h : n < 100) : (fmtDec n).length = 2 ∧ digitsValue (fmtDec n) = n := by
  obtain ⟨hq, hqv⟩ := digit_spec (show n / 10 < 10 by omega)
  obtain ⟨hr, hrv⟩ := digit_spec (Nat.mod_lt n (show 0 < 10 by decide))
  have htext := fmtDec_two (show 0 < n / 10 by omega) (show n / 10 < 10 by omega) (Nat.mod_lt n (by decide))
  rw [Nat.div_add_mod] at htext
  rw [htext, digitsValue_two hq hr, hqv, hrv]
  exact ⟨rfl, Nat.div_add_mod n 10⟩

theorem twoDigits_spec {n : Nat} (h : n < 60) : (twoDigits n).length = 2 ∧ digitsValue (twoDigits n) = n := by
  unfold twoDigits
  by_cases h10 : n < 10
  · obtain ⟨hd, hv⟩ := digit_spec h10
    rw [if_pos h10, fmtDec_one h10]
    refine ⟨rfl, ?_⟩
    show digitsValue [48, (Nat.digitChar n).toNat.toUInt8] = n
    rw [digitsValue_two (by decide) hd, hv]
    exact Nat.zero_add n
  · rw [if_neg h10]
    exact fmtDec_digits (by omega) (by omega)

theorem day_spec {d : Nat} (h : d ≤ 31) :
    (padLeft 2 (fmtDec d)).length = 2 ∧ digitsValue (padLeft 2 (fmtDec d)) = d := by
  unfold padLeft
  by_cases h10 : d < 10
  · obtain ⟨hd, hv⟩ := digit_spec h10
    rw [fmtDec_one h10]
    refine ⟨rfl, ?_⟩
    show digitsValue (SP :: [(Nat.digitChar d).toNat.toUInt8]) = d
    unfold digitsValue
    rw [List.filter_cons_of_neg (by decide), List.filter_cons_of_pos (p := (· != SP)) (bne_iff_ne.mpr hd),
      List.filter_nil, List.foldl_cons, List.foldl_nil, hv, Nat.mul_zero, Nat.zero_add]
  · obtain ⟨hl, hv⟩ := fmtDec_digits (show 10 ≤ d by omega) (show d < 100 by omega)
    rw [hl, Nat.sub_self, List.replicate_zero, List.nil_append]
    exact ⟨hl, hv⟩

theorem month_spec {m : Nat} (h : m < 12) : (ascii (monthNames.getD m "")).length = 3 ∧
    ∀ k < 12, ascii (monthNames.getD m "") = ascii (monthNames.getD k "") → m = k := by
  have hlen : ∀ s ∈ monthNames, (ascii s).length = 3 := by decide
  have hnames : (monthNames.map ascii).Nodup := by decide
  have hget : ∀ k, ascii (monthNames.getD k "") = (monthNames.map ascii).getD k (ascii "") := fun k =>
    (List.getD_map ..).symm
  constructor
  · rw [List.getD_eq_getElem _ _ (show m < monthNames.length from h)]
    exact hlen _ (List.getElem_mem _)
  · intro k hk he
    have hm' : m < (monthNames.map ascii).length := h
    have hk' : k < (monthNames.map ascii).length := hk
    rw [hget m, hget k, List.getD_eq_getElem _ _ hm', List.getD_eq_getElem _ _ hk'] at he
    exact hnames.getElem_inj_iff.mp he

theorem twoDigits_inj {n k : Nat} (hn : n < 60) (hk : k < 60) (h : twoDigits n = twoDigits k) : n = k := by
  rw [← (twoDigits_spec hn).2, h, (twoDigits_spec hk).2]

theorem monthDay_length (d : Civil.Date) : (monthDay d).length = 6 := by
  unfold monthDay
  rw [List.length_append, List.length_append, (month_spec d.month_lt).1, (day_spec d.day_le).1]
  rfl

theorem monthDay_inj {d e : Civil.Date} (h : monthDay d = monthDay e) : d.month = e.month ∧ d.day = e.day := by
  obtain ⟨h1, h2⟩ := List.append_inj' h (by rw [(day_spec d.day_le).1, (day_spec e.day_le).1])
  refine ⟨(month_spec d.month_lt).2 _ e.month_lt (List.append_cancel_right h1), ?_⟩
  rw [← (day_spec d.day_le).2, h2, (day_spec e.day_le).2]

theorem strftime_time {a b : Tm} : strftime a .time = strftime b .time ↔ a.date.month = b.date.month ∧
    a.date.day = b.date.day ∧ a.hour = b.hour ∧ a.min = b.min := by
  have hh : ∀ t : Tm, t.hour < 60 := fun t => Nat.lt_trans t.hour_lt (by decide)
  constructor
  · intro h
    obtain ⟨h1, hmin⟩ := List.append_inj' h (by rw [(twoDigits_spec a.min_lt).1, (twoDigits_spec b.min_lt).1])
    obtain ⟨h2, hhour⟩ := List.append_inj' (List.append_cancel_right h1)
      (by rw [(twoDigits_spec (hh a)).1, (twoDigits_spec (hh b)).1])
    obtain ⟨hmonth, hday⟩ := monthDay_inj (List.append_cancel_right h2)
    exact ⟨hmonth, hday, twoDigits_inj (hh a) (hh b) hhour, twoDigits_inj a.min_lt b.min_lt hmin⟩
  · rintro ⟨h1, h2, h3, h4⟩
    unfold strftime monthDay
    rw [h1, h2, h3, h4]

theorem strftime_year {a b : Tm} : strftime a .year = strftime b .year ↔ a.date = b.date := by
  constructor
  · intro h
    obtain ⟨h1, hyear⟩ := List.append_inj h (by
      rw [List.length_append, List.length_append, monthDay_length, monthDay_length])
    obtain ⟨hmonth, hday⟩ := monthDay_inj (List.append_cancel_right h1)
    exact Civil.Date.ext (fmtDec_inj.mp hyear) hmonth hday
  · intro h
    unfold strftime
    rw [h]

/-- **The date column** is that of the modification when local time was the same. -/
theorem date_iff (zone : Int → Int) (mtime now : Int) :
    statbufGetDate zone mtime now = strftime (localtime zone mtime) (dateFormat mtime now) ↔
      SameDate zone mtime now := by
  unfold statbufGetDate SameDate
  cases dateFormat mtime now with
  | time => exact strftime_time
  | year => exact strftime_year.trans Civil.ofDay_inj

theorem strftime_cancel {a b : Tm} {f : DateFormat} {r t : List UInt8}
    (h : strftime a f ++ SP :: r = strftime b f ++ SP :: t) : strftime a f = strftime b f ∧ r = t := by
  cases f with
  | time =>
    have hlen : ∀ t : Tm, (strftime t .time).length = 12 := by
      intro t
      show (monthDay t.date ++ ascii " " ++ twoDigits t.hour ++ ascii ":" ++ twoDigits t.min).length = 12
      simp only [List.length_append, monthDay_length, (twoDigits_spec t.min_lt).1,
        (twoDigits_spec (Nat.lt_trans t.hour_lt (by decide))).1]
      rfl
    obtain ⟨h1, h2⟩ := List.append_inj h (by rw [hlen, hlen])
    exact ⟨h1, (List.cons.inj h2).2⟩
  | year =>
    have hsplit : ∀ (t : Tm) (r : List UInt8), strftime t .year ++ SP :: r =
        (monthDay t.date ++ ascii "  ") ++ (fmtDec t.date.year ++ SP :: r) := fun t r => List.append_assoc ..
    rw [hsplit, hsplit] at h
    obtain ⟨h1, h2⟩ := List.append_inj h (by
      rw [List.length_append, List.length_append, monthDay_length, monthDay_length])
    obtain ⟨ha, hna⟩ := fmtDec_column a.date.year
    obtain ⟨hb, hnb⟩ := fmtDec_column b.date.year
    obtain ⟨h3, h4⟩ := Column.column_inj (i := 0) (j := 0) ha hna hb hnb h2
    refine ⟨?_, h4⟩
    show (monthDay a.date ++ ascii "  ") ++ fmtDec a.date.year = (monthDay b.date ++ ascii "  ") ++ fmtDec b.date.year
    rw [h1, h3]

/-! ## lines -/

/-- what is behind the blank that ends the date -/
def lineEnd (link : Option (List UInt8)) (name : List UInt8) : List UInt8 :=
  (match link with
    | some tmp => name ++ ascii " -> " ++ tmp
    | none => name) ++ [CR, LF]

theorem padLeft_split (n : Nat) (t r : List UInt8) :
    ascii " " ++ (padLeft n t ++ r) = List.replicate (n - t.length + 1) SP ++ (t ++ r) := by
  unfold padLeft
  rw [List.append_assoc, List.replicate_succ]
  rfl

theorem padLeft_more (k n : Nat) (t r : List UInt8) :
    List.replicate k SP ++ (padLeft n t ++ r) = List.replicate (k + (n - t.length)) SP ++ (t ++ r) := by
  unfold padLeft
  rw [List.append_assoc, ← List.append_assoc, List.replicate_append_replicate]

theorem padRight_split (n : Nat) (t r : List UInt8) :
    padRight n t ++ (ascii " " ++ r) = t ++ SP :: (List.replicate (n - t.length) SP ++ r) := by
  have hblank : ∀ k, List.replicate k SP ++ (ascii " " ++ r) = SP :: (List.replicate k SP ++ r) := by
    intro k
    rw [← List.append_assoc, show ascii " " = [SP] from rfl, ← List.replicate_succ', List.replicate_succ]
    rfl
  unfold padRight
  rw [List.append_assoc, hblank]

theorem listLine_split (st : FileStat) (name : List UInt8) : ∃ i j k, listLine st name =
    st.perms ++ (List.replicate i SP ++ (fmtDec st.nlink ++ SP :: (fmtDec st.uid ++ SP :: (List.replicate j SP ++
      (fmtDec st.gid ++ SP :: (List.replicate k SP ++ (fmtDec st.size ++ SP :: (st.date ++ SP ::
        lineEnd st.link name)))))))) := by
  refine ⟨3 - (fmtDec st.nlink).length + 1, 8 - (fmtDec st.uid).length,
    8 - (fmtDec st.gid).length + (8 - (fmtDec st.size).length), ?_⟩
  have hend : listLine st name = st.columns ++ lineEnd st.link name := by
    unfold listLine lineEnd
    cases st.link <;> exact List.append_assoc ..
  have hcolumns : st.columns ++ lineEnd st.link name = st.perms ++ (ascii " " ++ (padLeft 3 (fmtDec st.nlink) ++
      (ascii " " ++ (padRight 8 (fmtDec st.uid) ++ (ascii " " ++ (padRight 8 (fmtDec st.gid) ++ (ascii " " ++
        (padLeft 8 (fmtDec st.size) ++ (ascii " " ++ (st.date ++ (ascii " " ++ lineEnd st.link name))))))))))) := by
    unfold FileStat.columns
    simp only [List.append_assoc]
  rw [hend, hcolumns, padLeft_split, padRight_split, padRight_split, padLeft_more]
  rfl

/-- **The columns of a line can be read back**, whatever the permissions are. -/
theorem listLine_inj {st su : FileStat} {name : List UInt8} {a b : Tm} {f : DateFormat}
    (hp : st.perms.length = su.perms.length) (hs : st.date = strftime a f) (hu : su.date = strftime b f)
    (hl : st.link.isSome = su.link.isSome) (h : listLine st name = listLine su name) :
    st.nlink = su.nlink ∧ st.uid = su.uid ∧ st.gid = su.gid ∧ st.date = su.date ∧ st.link = su.link := by
  obtain ⟨i, j, k, h1⟩ := listLine_split st name
  obtain ⟨i', j', k', h2⟩ := listLine_split su name
  have hcol : ∀ {i j : Nat} {z w : Int} {r t : List UInt8}, List.replicate i SP ++ (fmtDec z ++ SP :: r) =
      List.replicate j SP ++ (fmtDec w ++ SP :: t) → z = w ∧ r = t := by
    intro i j z w r t e
    obtain ⟨hz, hnz⟩ := fmtDec_column z
    obtain ⟨hw, hnw⟩ := fmtDec_column w
    obtain ⟨h1, h2⟩ := Column.column_inj hz hnz hw hnw e
    exact ⟨fmtDec_inj.mp h1, h2⟩
  rw [h1, h2] at h
  obtain ⟨-, h⟩ := List.append_inj h hp
  obtain ⟨hnlink, h⟩ := hcol h
  obtain ⟨huid, h⟩ := hcol (i := 0) (j := 0) h
  obtain ⟨hgid, h⟩ := hcol h
  obtain ⟨-, h⟩ := hcol h
  rw [hs, hu] at h
  obtain ⟨hdate, h⟩ := strftime_cancel h
  refine ⟨hnlink, huid, hgid, by rw [hs, hu, hdate], ?_⟩
  cases hsl : st.link with
  | none =>
    rw [hsl] at hl
    exact (Option.isNone_iff_eq_none.mp (Option.isSome_eq_false_iff.mp hl.symm)).symm
  | some tmp =>
    rw [hsl] at hl h
    obtain ⟨tmp', hsu⟩ := Option.isSome_iff_exists.mp hl.symm
    rw [hsu] at h
    rw [hsu, List.append_cancel_left (List.append_cancel_right h)]

/-! ## one round -/

section
variable {zone : Int → Int} {cwd dir perms q : List UInt8} {r : ListRound} {n : Inode} {rs : List ListRound}

theorem setPerm_length (mode bit i : Nat) (c : UInt8) (l : List UInt8) :
    (setPerm mode bit i c l).length = l.length := by
  unfold setPerm
  split
  · exact List.length_set
  · rfl

theorem setSpecial_length (mode bit i : Nat) (c d : UInt8) (l : List UInt8) :
    (setSpecial mode bit i c d l).length = l.length := by
  unfold setSpecial
  split
  · exact List.length_set
  · rfl

theorem getPerms_length (perms : List UInt8) (mode : Nat) : (statbufGetPerms perms mode).length = perms.length := by
  unfold statbufGetPerms
  simp only [setSpecial_length, setPerm_length, List.length_set]

theorem permsAfter_length (modes : List Nat) : (permsAfter modes).length = 10 := by
  obtain ⟨p, h⟩ := permsAfter_eq modes
  rw [h]
  rfl

/-- the length of the line does not depend on the permissions -/
theorem real_length (now : Int) (name : List UInt8) (h : perms.length = q.length) :
    (listLine (n.real zone perms now) name).length = (listLine (n.real zone q now) name).length := by
  unfold listLine FileStat.columns Inode.real
  simp only [List.length_append, h]

theorem wrapS_self {k : Nat} (h : k < 2^31) : wrapS 32 k = k := by
  unfold wrapS
  omega

theorem wrapS_fixed {k : Nat} (h : wrapS 32 k = k) : k < 2^31 := by
  unfold wrapS at h
  omega

/-- a line that fits has a target that fits into `tmp` -/
theorem target_length {st : FileStat} {tmp name : List UInt8} (hl : st.link = some tmp)
    (h : (sprintf .line (listLine st name)).Fits) : tmp.length < 1024 := by
  change (listLine st name).length + 1 ≤ 1024 at h
  unfold listLine at h
  rw [hl] at h
  simp only [List.length_append] at h
  omega

theorem printed_real (h : n.Plain zone cwd r) : n.printed zone cwd perms r = n.real zone perms r.now := by
  have hlink : (n.printed zone cwd perms r).link = (n.real zone perms r.now).link := by
    show (if S_ISLNK n.mode then _ else _) = if S_ISLNK n.mode then _ else _
    split
    · rename_i hm
      have hlink : (n.real zone (lsPerms n.mode) r.now).link = some n.target := if_pos hm
      have hfit := target_length hlink h.fits
      rw [h.link hm, List.take_of_length_le (Nat.le_of_lt hfit)]
    · rfl
  have hdate : (n.printed zone cwd perms r).date = (n.real zone perms r.now).date := (date_iff ..).mpr h.date
  unfold Inode.printed Inode.real at hlink hdate ⊢
  simp only at hlink hdate
  rw [hlink, hdate, wrapS_self h.nlink, wrapS_self h.uid, wrapS_self h.gid]

/-- **One line.** -/
theorem line_iff (hp : perms.length = 10) (hl : r.listed dir = some n) :
    (sprintf .line (listLine (n.printed zone cwd perms r) r.name)).Fits ∧
      Describes zone dir r (listLine (n.printed zone cwd perms r) r.name) ↔ n.Plain zone cwd r := by
  constructor
  · rintro ⟨hf, n', p, hn, hp', he⟩
    cases hl.symm.trans hn
    have hsome : (n.printed zone cwd perms r).link.isSome = (n.real zone p r.now).link.isSome := by
      show Option.isSome (if S_ISLNK n.mode then _ else _) = Option.isSome (if S_ISLNK n.mode then _ else _)
      split
      · rfl
      · rfl
    have hlen : (n.printed zone cwd perms r).perms.length = (n.real zone p r.now).perms.length := hp.trans hp'.symm
    obtain ⟨hnlink, huid, hgid, hdate, hlink⟩ := listLine_inj hlen rfl rfl hsome he
    refine ⟨wrapS_fixed hnlink, wrapS_fixed huid, wrapS_fixed hgid, (date_iff ..).mp hdate, fun hm => ?_, ?_⟩
    · have htmp := target_length (if_pos hm) hf
      change (if S_ISLNK n.mode then _ else _) = if S_ISLNK n.mode then _ else _ at hlink
      rw [if_pos hm, if_pos hm, Option.some.injEq] at hlink
      rw [List.length_take] at htmp
      rw [← hlink, List.take_of_length_le (by omega)]
    · show _ + 1 ≤ 1024
      rw [real_length r.now r.name (show (lsPerms n.mode).length = p.length from hp'.symm), ← he]
      exact hf
  · intro h
    rw [printed_real h]
    refine ⟨?_, n, perms, hl, hp, rfl⟩
    have hfit := h.fits
    change _ + 1 ≤ 1024 at hfit
    show _ + 1 ≤ 1024
    rw [real_length r.now r.name (hp.trans (show 10 = (lsPerms n.mode).length from rfl))]
    exact hfit

/-! ## the loop -/

theorem loop_skips (hp : (sprintf .path (entryPath dir r.name)).Fits) (h : r.listed dir = none) :
    listLoop zone dir cwd (r :: rs) perms = listLoop zone dir cwd rs perms := by
  unfold ListRound.listed at h
  conv_lhs => unfold listLoop
  rw [if_pos hp]
  cases hn : r.disk (entryPath dir r.name) with
  | none => rfl
  | some n =>
    rw [hn] at h
    dsimp only
    split
    · rfl
    · rename_i hd
      rw [if_neg hd] at h
      exact nomatch h

theorem loop_lists (hp : (sprintf .path (entryPath dir r.name)).Fits) (h : r.listed dir = some n) :
    listLoop zone dir cwd (r :: rs) perms =
      if (sprintf .line (listLine (n.printed zone cwd (statbufGetPerms perms n.mode) r) r.name)).Fits then
        listLoop zone dir cwd rs (statbufGetPerms perms n.mode) >>= fun p =>
          .ok (listLine (n.printed zone cwd (statbufGetPerms perms n.mode) r) r.name :: p.1, p.2)
      else .error (.crash .overlap) := by
  unfold ListRound.listed at h
  split at h
  · exact nomatch h
  · rename_i hd
    conv_lhs => unfold listLoop
    rw [if_pos hp, h]
    dsimp only
    rw [if_neg hd]
    rfl

/-- the lines of the loop describe the entries -/
def LoopRight (zone : Int → Int) (dir cwd : List UInt8) (rs : List ListRound) (perms : List UInt8) : Prop :=
  ∃ lines perms', listLoop zone dir cwd rs perms = .ok (lines, perms') ∧
    List.Forall₂ (Describes zone dir) (rs.filter fun r => (r.listed dir).isSome) lines

theorem right_skips (hp : (sprintf .path (entryPath dir r.name)).Fits) (h : r.listed dir = none) :
    LoopRight zone dir cwd (r :: rs) perms ↔ LoopRight zone dir cwd rs perms := by
  unfold LoopRight
  rw [loop_skips hp h, List.filter_cons_of_neg (by rw [h]; exact Bool.false_ne_true)]

theorem right_lists (hp : (sprintf .path (entryPath dir r.name)).Fits) (h : r.listed dir = some n)
    (h10 : perms.length = 10) : LoopRight zone dir cwd (r :: rs) perms ↔
      n.Plain zone cwd r ∧ LoopRight zone dir cwd rs (statbufGetPerms perms n.mode) := by
  rw [← line_iff ((getPerms_length perms n.mode).trans h10) h]
  unfold LoopRight
  rw [loop_lists hp h, List.filter_cons_of_pos (by rw [h]; rfl)]
  constructor
  · rintro ⟨lines, perms', he, hall⟩
    split at he
    · rename_i hf
      obtain ⟨⟨lines', q⟩, hrest, he⟩ := bind_ok.mp he
      cases he
      obtain ⟨h1, h2⟩ := List.forall₂_cons.mp hall
      exact ⟨⟨hf, h1⟩, lines', q, hrest, h2⟩
    · exact nomatch he
  · rintro ⟨⟨hf, h1⟩, lines, perms', hrest, hall⟩
    rw [if_pos hf, hrest]
    exact ⟨_, perms', rfl, .cons h1 hall⟩

/-- **The loop**, whatever the buffer of the permissions holds. -/
theorem loop_iff (h10 : perms.length = 10) : LoopRight zone dir cwd rs perms ↔
    ∀ r ∈ rs, dir.length + r.name.length ≤ 1022 ∧ ∀ n, r.listed dir = some n → n.Plain zone cwd r := by
  induction rs generalizing perms with
  | nil => exact iff_of_true ⟨[], perms, rfl, .nil⟩ fun r hr => absurd hr List.not_mem_nil
  | cons r rs ih =>
    rw [List.forall_mem_cons]
    by_cases hp : (sprintf .path (entryPath dir r.name)).Fits
    · rw [← path_fits]
      cases h : r.listed dir with
      | none =>
        rw [right_skips hp h, ih h10]
        exact ⟨fun hall => ⟨⟨hp, nofun⟩, hall⟩, And.right⟩
      | some n =>
        rw [right_lists hp h h10, ih ((getPerms_length perms n.mode).trans h10)]
        refine and_congr_left fun _ => ⟨fun hpl => ⟨hp, fun m hm => ?_⟩, fun hr => hr.2 n rfl⟩
        cases hm
        exact hpl
    · constructor
      · rintro ⟨lines, perms', he, -⟩
        unfold listLoop at he
        rw [if_neg hp] at he
        exact nomatch he
      · rintro ⟨⟨hlen, -⟩, -⟩
        exact absurd (path_fits.mpr hlen) hp

/-! ## list_common -/

theorem detail_iff {env : Env} {sid : Sid} {x : Session} {s : Server} (hd : getFileName env x.dirfd = some dir) :
    ListsEntries zone dir rs perms env sid x s ↔ LoopRight zone dir env.getcwd rs perms := by
  unfold ListsEntries LoopRight listDetail
  rw [hd]
  constructor
  · rintro ⟨s', perms', lines, he, hlog, hall⟩
    obtain ⟨⟨lines', q⟩, hloop, he⟩ := bind_ok.mp he
    cases he
    change (s.log ++ [_]) ++ lines'.map _ = _ at hlog
    rw [List.append_assoc, List.append_cancel_left_eq] at hlog
    have hlines : lines' = lines := by
      refine List.map_injective_iff.mpr ?_ (List.cons.inj hlog).2
      intro a b e
      cases e
      rfl
    rw [hlines] at hloop
    exact ⟨lines, _, hloop, hall⟩
  · rintro ⟨lines, perms', hloop, hall⟩
    refine ⟨_, perms', lines, bind_ok.mpr ⟨_, hloop, rfl⟩, ?_, hall⟩
    exact List.append_assoc ..

theorem loop_dirents {lines : List (List UInt8)} (h : listLoop zone dir cwd rs perms = .ok (lines, q)) :
    ∃ es : List Dirent, es.map Dirent.name = rs.map ListRound.name ∧
      es.map Dirent.lstat = rs.map (fun r => (r.disk (entryPath dir r.name)).isSome) ∧
        (shown es).map Dirent.line = lines := by
  induction rs generalizing perms lines with
  | nil =>
    cases h
    exact ⟨[], rfl, rfl, rfl⟩
  | cons r rs ih =>
    unfold listLoop at h
    split at h
    · cases hn : r.disk (entryPath dir r.name) with
      | none =>
        rw [hn] at h
        obtain ⟨es, h1, h2, h3⟩ := ih h
        refine ⟨⟨r.name, false, []⟩ :: es, ?_, ?_, h3⟩
        · rw [List.map_cons, h1, List.map_cons]
        · rw [List.map_cons, h2, List.map_cons, hn]
          rfl
      | some n =>
        rw [hn] at h
        dsimp only at h
        split at h
        · rename_i hdot
          obtain ⟨es, h1, h2, h3⟩ := ih h
          refine ⟨⟨r.name, true, []⟩ :: es, ?_, ?_, ?_⟩
          · rw [List.map_cons, h1, List.map_cons]
          · rw [List.map_cons, h2, List.map_cons, hn]
            rfl
          · rw [← h3]
            unfold shown
            rw [List.filter_cons_of_neg (by simp [hdot])]
        · rename_i hdot
          split at h
          · obtain ⟨⟨lines', q'⟩, hrest, h⟩ := bind_ok.mp h
            cases h
            obtain ⟨es, h1, h2, h3⟩ := ih hrest
            refine ⟨⟨r.name, true, listLine (n.printed zone cwd (statbufGetPerms perms n.mode) r) r.name⟩ :: es,
              ?_, ?_, ?_⟩
            · rw [List.map_cons, h1, List.map_cons]
            · rw [List.map_cons, h2, List.map_cons, hn]
              rfl
            · rw [← h3]
              unfold shown
              rw [List.filter_cons_of_pos (by simp [hdot]), List.map_cons]
          · exact nomatch h
    · exact nomatch h

/-- **`listDetail` is the `listCommon` of the handlers**, with the lines that it builds. -/
theorem listCommon_detail {env : Env} {sid : Sid} {x : Session} {s s' : Server}
    (h : listDetail zone (some rs) perms env sid x s = .ok (s', q)) : ∃ es : List Dirent,
      es.map Dirent.name = rs.map ListRound.name ∧ listCommon { env with opendir := some es } sid x s = .ok s' := by
  unfold listDetail at h
  split at h
  · exact nomatch h
  · rename_i dir hd
    obtain ⟨⟨lines, q'⟩, hloop, h⟩ := bind_ok.mp h
    cases h
    obtain ⟨es, h1, -, h3⟩ := loop_dirents hloop
    refine ⟨es, h1, ?_⟩
    unfold listCommon
    rw [show getFileName { env with opendir := some es } x.dirfd = some dir from hd]
    dsimp only
    rw [foldl_emit, ← h3, List.map_map]
    rfl

/-- **When LIST describes its entries**, in any session with a directory, whatever files have been listed before. -/
theorem list_describes_iff {env : Env} {sid : Sid} {x : Session} {s : Server} (hd : getFileName env x.dirfd = some dir)
    (modes : List Nat) : ListsEntries zone dir rs (permsAfter modes) env sid x s ↔
      ∀ r ∈ rs, dir.length + r.name.length ≤ 1022 ∧ ∀ n, r.listed dir = some n → n.Plain zone env.getcwd r :=
  (detail_iff hd).trans (loop_iff (permsAfter_length modes))

end

def sampleInode (mtime : Int) : Inode := ⟨0o100644, 1, 1000, 1000, 3, mtime, []⟩

/-- a file in the directory of the session, listed on 14 November 2023 at 22:13:20 UTC -/
def sampleRound (mtime : Int) : ListRound where
  name := ascii "f"
  disk := fun path => if path = ascii "/home/u/f" then some (sampleInode mtime) else none
  now := 1700000000

theorem sample_listed (mtime : Int) : (sampleRound mtime).listed (ascii "/home/u") = some (sampleInode mtime) := by
  have hdot : ¬ (ascii "f").head? = some 46 := by decide
  have hpath : entryPath (ascii "/home/u") (ascii "f") = ascii "/home/u/f" := by decide
  exact (if_neg hdot).trans (if_pos (e := none) hpath)

theorem list_describes_fresh : ListsEntries (fun _ => 0) (ascii "/home/u") [sampleRound 1699999990] (permsAfter [])
    sampleEnv 0 { initSession 5 with dirfd := some 7, dataFd := some 8 } sampleBoot := by
  refine (list_describes_iff rfl []).mpr fun r hr => ?_
  rw [List.mem_singleton.mp hr]
  refine ⟨by decide, fun n hn => ?_⟩
  cases (sample_listed _).symm.trans hn
  exact ⟨by decide, by decide, by decide, by decide +kernel, fun hm => absurd hm (by decide), by decide +kernel⟩

/-- **A file of 22 July** is shown with the date and the time of day of the listing. -/
theorem list_shows_now : ¬ ∀ zone dir rs modes env sid x s, getFileName env x.dirfd = some dir →
    ListsEntries zone dir rs (permsAfter modes) env sid x s := by
  intro h
  have hlists := h (fun _ => 0) (ascii "/home/u") [sampleRound 1690000000] [] sampleEnv 0
    { initSession 5 with dirfd := some 7, dataFd := some 8 } sampleBoot rfl
  obtain ⟨-, hplain⟩ := (loop_iff (permsAfter_length [])).mp ((detail_iff rfl).mp hlists) _ List.mem_cons_self
  exact absurd (hplain _ (sample_listed _)).date (by decide +kernel)

end Myftpd
