import Myftpd.Output
import Myftpd.Split
import Myftpd.Numbers

/-!
# The arrays that texts are built in

`str_split`, `strcpy` and `sprintf` are given no lengths.  A `Written` is an array and the number of bytes
from its start to the last byte that is written, the NUL included.

* `strSplitWrites`   what `str_split` writes; `cstrAt_strTrimCrlf` and `split100_eq` tie it to the memory;
* `listLine`         the line that `list_common` builds for an entry;
* `siteWrites`, `settingWrites`   the chains of `do_site` and of the configuration file;
* `reply_fits`, `opening_length`, `listLine_fits`, …  the lengths of the texts, and when they fit.
-/

namespace Myftpd
open CMem Server

inductive Buf where
  | cmd          -- `cmd[MAX_COMMAND]` of `session_t`
  | arg          -- `arg[MAX_ARG]` of `session_t`
  | siteCmd      -- `cmd[100]` of `do_site`
  | siteArg      -- `arg[100]` of `do_site`
  | perm         -- `perm[100]` of `do_site_chmod`
  | file         -- `file[100]` of `do_site_chmod`
  | reply        -- `buf[1024]` of `ftp_reply` and `ftp_lreply`
  | opening      -- `text[1024]` of `threadRetr` and `upload_common`
  | pwd          -- `text[1024]` of `do_pwd`
  | mkd          -- `text[4096]` of `do_mkd`
  | path         -- `path[1024]` of `list_common`
  | line         -- `buf[1024]` of `list_common`
  | key          -- `key[128]` of `parseconf_load_setting`
  | value        -- `value[128]` of `parseconf_load_setting`
  deriving DecidableEq, Repr

def Buf.size : Buf → Nat
  | .cmd => MAX_COMMAND
  | .arg => MAX_ARG
  | .siteCmd => 100
  | .siteArg => 100
  | .perm => 100
  | .file => 100
  | .reply => 1024
  | .opening => 1024
  | .pwd => 1024
  | .mkd => 4096
  | .path => 1024
  | .line => 1024
  | .key => 128
  | .value => 128

/-- the array `buf` is written up to its byte number `extent` -/
structure Written where
  buf : Buf
  extent : Nat
  deriving DecidableEq, Repr

def Written.Fits (w : Written) : Prop := w.extent ≤ w.buf.size

instance (w : Written) : Decidable w.Fits := inferInstanceAs (Decidable (_ ≤ _))

/-- `sprintf(buf, …)` and `strcpy(buf, …)`: the text and its NUL -/
def sprintf (b : Buf) (text : List UInt8) : Written := ⟨b, text.length + 1⟩

/-! ## str_split -/

/-- `str_split(str, a, b, c)`: with a delimiter the NUL behind the first part comes one byte too far, at
`a[p-str+1]` -/
def strSplitWrites (a b : Buf) (str : List UInt8) (c : UInt8) : List Written :=
  if c ∈ str then [⟨a, (splitFst str c).length + 2⟩, sprintf b (splitSnd str c)] else [sprintf a str]

/-! ## the chains -/

/-- `do_site` on its argument, and `do_site_chmod` behind it -/
def siteWrites (arg : List UInt8) : List Written :=
  strSplitWrites .siteCmd .siteArg arg SP ++
    if splitFst arg SP = ascii "CHMOD" ∧ splitSnd arg SP ≠ [] then
      strSplitWrites .perm .file (splitSnd arg SP) SP
    else []

/-- the string that `str_trim_crlf` leaves -/
def trimCrlf (s : List UInt8) : List UInt8 := s.takeWhile fun c => c != CR && c != LF

/-- `parseconf_load_file` on one line that `fgets` has delivered, and `parseconf_load_setting` behind it -/
def settingWrites (settingLine : List UInt8) : List Written :=
  if settingLine = [] ∨ settingLine.head? = some 35 ∨ strAllSpace settingLine = true then []
  else strSplitWrites .key .value (trimCrlf settingLine) 61

/-- `%3d` and `%8lu` -/
def padLeft (n : Nat) (t : List UInt8) : List UInt8 := List.replicate (n - t.length) SP ++ t

/-- `%-8d` -/
def padRight (n : Nat) (t : List UInt8) : List UInt8 := t ++ List.replicate (n - t.length) SP

/-- what `lstat` and, for a symbolic link, `readlink` say of an entry; `perms` and `date` are the texts of
`statbuf_get_perms` and `statbuf_get_date`, `link` is what is printed of `tmp` -/
structure FileStat where
  perms : List UInt8
  nlink : Int
  uid : Int
  gid : Int
  size : Nat
  date : List UInt8
  link : Option (List UInt8)
  deriving DecidableEq, Repr

/-- the columns before the name: `"%s"`, `" %3d %-8d %-8d "`, `"%8lu "` and `"%s "` -/
def FileStat.columns (st : FileStat) : List UInt8 :=
  st.perms ++ ascii " " ++ padLeft 3 (fmtDec st.nlink) ++ ascii " " ++ padRight 8 (fmtDec st.uid) ++ ascii " "
    ++ padRight 8 (fmtDec st.gid) ++ ascii " " ++ padLeft 8 (fmtDec st.size) ++ ascii " " ++ st.date ++ ascii " "

/-- the line that `list_common` builds in `buf`, piece by piece, with `detail` set -/
def listLine (st : FileStat) (name : List UInt8) : List UInt8 :=
  st.columns ++ (match st.link with
    | some tmp => name ++ ascii " -> " ++ tmp
    | none => name) ++ [CR, LF]

/-- `sprintf(path,"%s/%s",get_file_name(sess->dirfd),dt->d_name)` -/
def entryPath (dir name : List UInt8) : List UInt8 := dir ++ ascii "/" ++ name

/-- the text of `do_pwd` -/
def pwdText (env : Env) (x : Session) : List UInt8 :=
  ascii "\"" ++ fmtStr (getFileName env x.dirfd) ++ ascii "\""

/-! ## numbers -/

theorem ascii_length (s : String) : (ascii s).length = s.length := by
  unfold ascii
  rw [List.length_map]
  rfl

theorem repr_digits (n : Nat) : (Nat.repr n).length = (Nat.toDigits 10 n).length := by
  unfold Nat.repr
  rw [← String.length_toList, String.toList_ofList]

theorem fmtDec_nat {n k : Nat} (hk : 0 < k) (h : n < 10^k) : (fmtDec n).length ≤ k := by
  unfold fmtDec
  rw [ascii_length]
  show (Nat.repr n).length ≤ k
  rw [repr_digits]
  exact (Nat.length_toDigits_le_iff (by decide) hk).mpr h

theorem fmtDec_int {z : Int} {k : Nat} (hk : 0 < k) (h1 : -10^k < z) (h2 : z < 10^k) :
    (fmtDec z).length ≤ k + 1 := by
  have hp : ((10^k : Nat) : Int) = 10^k := by norm_cast
  cases z with
  | ofNat n =>
    have hn : n < 10^k := by
      have h3 : (n : Int) < ((10^k : Nat) : Int) := by rw [hp]; exact h2
      exact_mod_cast h3
    exact Nat.le_succ_of_le (fmtDec_nat hk hn)
  | negSucc n =>
    have hn : n + 1 < 10^k := by
      rw [← hp] at h1
      omega
    have hlen : (Nat.toDigits 10 (n + 1)).length ≤ k := (Nat.length_toDigits_le_iff (by decide) hk).mpr hn
    unfold fmtDec
    rw [ascii_length]
    show ("-" ++ Nat.repr (n + 1)).length ≤ k + 1
    rw [String.length_append, repr_digits, show "-".length = 1 from rfl]
    omega

theorem fmtOct_le {n k : Nat} (hk : 0 < k) (h : n < 8^k) : (fmtOct n).length ≤ k := by
  unfold fmtOct
  rw [List.length_map]
  exact (Nat.length_toDigits_le_iff (by decide) hk).mpr h

theorem wrapS_64 (z : Int) : -2^63 ≤ wrapS 64 z ∧ wrapS 64 z < 2^63 := by
  show -2^63 ≤ (z + 2^63) % 2^64 - 2^63 ∧ (z + 2^63) % 2^64 - 2^63 < 2^63
  omega

theorem strToLonglong_64 (s : List UInt8) : -2^63 ≤ strToLonglong s ∧ strToLonglong s < 2^63 := by
  have hloop : ∀ ret : Int, -2^63 ≤ ret → ret < 2^63 →
      -2^63 ≤ longlongLoop ret s ∧ longlongLoop ret s < 2^63 := by
    induction s with
    | nil => exact fun ret h1 h2 => ⟨h1, h2⟩
    | cons d s ih =>
      intro ret _ _
      unfold longlongLoop
      split
      · obtain ⟨h1, h2⟩ := wrapS_64 (ret * 10 + (d.toNat - 48))
        exact ih _ h1 h2
      · exact ⟨by decide, by decide⟩
  exact hloop 0 (by decide) (by decide)

theorem strOctalToUint_32 (s : List UInt8) : strOctalToUint s < 2^32 := by
  rw [strOctal_mod]
  exact Nat.mod_lt _ (by decide)

/-! ## when they fit -/

section
variable {str : List UInt8} {c : UInt8} {a b : Buf} {w : Written}

theorem strSplit_fits : (∀ w ∈ strSplitWrites a b str c, w.Fits) ↔
    if c ∈ str then (splitFst str c).length + 2 ≤ a.size ∧ (splitSnd str c).length + 1 ≤ b.size
    else str.length + 1 ≤ a.size := by
  unfold strSplitWrites
  split
  · rw [List.forall_mem_cons, List.forall_mem_singleton]
    rfl
  · rw [List.forall_mem_singleton]
    rfl

theorem site_fits {arg : List UInt8} : (∀ w ∈ siteWrites arg, w.Fits) ↔
    if SP ∈ arg then (splitFst arg SP).length ≤ 98 ∧ (splitSnd arg SP).length ≤ 99 else arg.length ≤ 99 := by
  unfold siteWrites
  rw [List.forall_mem_append, strSplit_fits]
  have hinner : (splitSnd arg SP).length ≤ 99 → ∀ w ∈ (if splitFst arg SP = ascii "CHMOD" ∧ splitSnd arg SP ≠ []
      then strSplitWrites .perm .file (splitSnd arg SP) SP else []), w.Fits := by
    intro hlen w hw
    split at hw
    · refine strSplit_fits.mpr ?_ w hw
      have h1 : Buf.perm.size = 100 := rfl
      have h2 : Buf.file.size = 100 := rfl
      rw [h1, h2]
      split
      · rename_i hm
        have := split_length hm
        omega
      · omega
    · cases hw
  have h1 : Buf.siteCmd.size = 100 := rfl
  have h2 : Buf.siteArg.size = 100 := rfl
  rw [h1, h2]
  split
  · constructor
    · rintro ⟨⟨h3, h4⟩, -⟩
      omega
    · rintro ⟨h3, h4⟩
      exact ⟨by omega, hinner h4⟩
  · rename_i hm
    have hsnd := (split_none hm).2
    constructor
    · rintro ⟨h3, -⟩
      omega
    · intro h3
      exact ⟨by omega, hinner (by rw [hsnd]; exact Nat.zero_le 99)⟩

theorem setting_fits {line : List UInt8} : (∀ w ∈ settingWrites line, w.Fits) ↔
    (¬ (line = [] ∨ line.head? = some 35 ∨ strAllSpace line = true) →
      if 61 ∈ trimCrlf line then
        (splitFst (trimCrlf line) 61).length ≤ 126 ∧ (splitSnd (trimCrlf line) 61).length ≤ 127
      else (trimCrlf line).length ≤ 127) := by
  unfold settingWrites
  have h1 : Buf.key.size = 128 := rfl
  have h2 : Buf.value.size = 128 := rfl
  split
  · rename_i h
    exact ⟨fun _ h' => absurd h h', fun _ => nofun⟩
  · rename_i h
    rw [strSplit_fits, h1, h2, imp_iff_right h]
    split <;> omega

/-! ## the memory -/

/-- the string is what `str_trim_crlf` leaves, or goes on with a CR or LF -/
theorem trimCrlf_cases (s : List UInt8) : trimCrlf s = s ∨
    ∃ t d u, trimCrlf s = t ∧ s = t ++ d :: u ∧ (d = CR ∨ d = LF) := by
  have hs : trimCrlf s ++ s.dropWhile (fun c => c != CR && c != LF) = s := List.takeWhile_append_dropWhile
  cases hd : s.dropWhile fun c => c != CR && c != LF with
  | nil =>
    rw [hd, List.append_nil] at hs
    exact Or.inl hs
  | cons d u =>
    rw [hd] at hs
    refine Or.inr ⟨trimCrlf s, d, u, rfl, hs.symm, ?_⟩
    have hne : s.dropWhile (fun c => c != CR && c != LF) ≠ [] := by rw [hd]; exact List.cons_ne_nil d u
    have hhead := List.head_dropWhile_not (fun c => c != CR && c != LF) hne
    simp only [hd, List.head_cons] at hhead
    by_contra hc
    rw [not_or] at hc
    rw [bne_iff_ne.mpr hc.1, bne_iff_ne.mpr hc.2] at hhead
    cases hhead

theorem cstrAt_strTrimCrlf (m : Mem) (p : Nat) : cstrAt (strTrimCrlf m p) p = trimCrlf (cstrAt m p) := by
  have hlen : strlen m p = (cstrAt m p).length := rfl
  have hpre : trimCrlf (cstrAt m p) <+: cstrAt m p := List.takeWhile_prefix _
  rw [cstrAt_eq_iff]
  refine ⟨fun i hi => ?_, fun d hd => cstrAt_ne_zero (hpre.subset hd), ?_⟩
  · have hlt : i < (cstrAt m p).length := Nat.lt_of_lt_of_le hi hpre.length_le
    have hb := List.mem_takeWhile_imp (List.getElem_mem hi)
    rw [Bool.and_eq_true, bne_iff_ne, bne_iff_ne] at hb
    rw [getD_strTrimCrlf, if_pos (by omega), getD_cstrAt hlt, ← hpre.getElem hi]
    exact if_neg (not_or.mpr hb)
  · rcases trimCrlf_cases (cstrAt m p) with h | ⟨t, d, u, ht, h, hd⟩
    · rw [h, getD_strTrimCrlf, if_neg (by omega)]
      exact getD_cstrAt_end m p
    · -- the first CR or LF is cut to a NUL
      have hlt : t.length < (cstrAt m p).length := by
        rw [h, List.length_append, List.length_cons]
        omega
      have hbyte : (cstrAt m p)[t.length]? = some d := by
        rw [h, List.getElem?_append_right (le_refl _), Nat.sub_self]
        rfl
      rw [ht, getD_strTrimCrlf, if_pos (by omega), getD_cstrAt hlt,
        Option.some.inj ((List.getElem?_eq_getElem hlt).symm.trans hbyte)]
      exact if_pos hd

/-- the memory of `split100` -/
def mem100 (str : List UInt8) : Mem := str ++ List.replicate (MAX_ARG - str.length) 0 ++ List.replicate 200 0

/-- **`do_site` reads the two parts**, when its argument is taken apart within the arrays. -/
theorem split100_eq {str : List UInt8} (h0 : 0 ∉ str) (hl : str.length < MAX_ARG)
    (hf : ∀ w ∈ strSplitWrites .siteCmd .siteArg str SP, w.Fits) :
    split100 str = some (splitFst str SP, splitSnd str SP) := by
  obtain ⟨m', he, h1, h2⟩ := split_beside (k := 100) (c := SP) (by decide) h0 hl (strSplit_fits.mp hf)
  have hm : strSplit (mem100 str) 0 MAX_ARG (MAX_ARG + 100) SP = some m' := he
  show (strSplit (mem100 str) 0 MAX_ARG (MAX_ARG + 100) SP).map _ = _
  rw [hm, Option.map_some, h1, h2]

/-! ## the control line -/

/-- `readline` has been given 1024 bytes -/
structure LineMem (m : Mem) : Prop where
  length : m.length = 1088
  zero : ∀ i, 1024 ≤ i → m.getD i 0 = 0

theorem LineMem.poke {m : Mem} {p : Nat} {bs : List UInt8} (h : LineMem m) (hb : p + bs.length ≤ 1024) :
    LineMem (CMem.poke m p bs) := by
  have hl := h.length
  refine ⟨by rw [poke_length (by omega), hl], fun i hi => ?_⟩
  rw [getD_poke_out (by omega) (Or.inr (by omega)), h.zero i hi]

theorem LineMem.strlen_le {m : Mem} (h : LineMem m) : strlen m 0 ≤ 1024 := by
  by_contra hlt
  exact getD_ne_zero_of_lt_strlen (Nat.not_le.mp hlt) (h.zero _ (by omega))

theorem ret_le {k : Sock} {n : Nat} {bs : List UInt8} (h : k.ret n = .got bs) : bs.length ≤ n := by
  unfold Sock.ret at h
  split at h
  · split at h
    · cases h
      exact Nat.zero_le n
    · cases h
  · cases h
    exact List.length_take_le ..

theorem read_le {k k' : Sock} {n : Nat} {bs : List UInt8} (h : sockOps.read n k = (.got bs, k')) :
    bs.length ≤ n := by
  change Sock.read n k = _ at h
  unfold Sock.read at h
  split at h
  · cases h
  · exact ret_le (congrArg Prod.fst h)
  · exact ret_le (congrArg Prod.fst h)

theorem peek_le {k k' : Sock} {n fuel : Nat} {bs : List UInt8}
    (h : recvPeek sockOps n fuel k = some (.got bs, k')) : bs.length ≤ n := by
  induction fuel generalizing k with
  | zero => cases h
  | succ fuel ih =>
    rw [recvPeek_succ] at h
    split at h
    · exact ih h
    · have hp : (Sock.recvPeek n k).1 = .got bs := congrArg Prod.fst (Option.some.inj h)
      unfold Sock.recvPeek at hp
      split at hp
      · cases hp
      · exact ret_le hp
      · exact ret_le hp

theorem readnLoop_mem {cnt fuel : Nat} {m m' : Mem} {rbuf rest : Nat} {k k' : Sock} {ret : Int}
    (h : readnLoop sockOps cnt fuel m rbuf rest k = some (ret, m', k')) (hr : rbuf + rest ≤ 1024)
    (hm : LineMem m) : LineMem m' := by
  induction fuel generalizing m rbuf rest k with
  | zero => cases h
  | succ fuel ih =>
    unfold readnLoop at h
    split at h
    · cases h
      exact hm
    · split at h
      · split at h
        · exact ih h hr hm
        · cases h
          exact hm
      · rename_i bs k1 hread
        have hle := read_le hread
        split at h
        · cases h
          exact hm
        · exact ih h (by omega) (hm.poke (by omega))

theorem readnAll_mem {fuel : Nat} {m m' : Mem} {rbuf n : Nat} {k k' : Sock}
    (h : readnAll sockOps fuel m rbuf n k = .ok (m', k')) (hr : rbuf + n ≤ 1024) (hm : LineMem m) :
    LineMem m' := by
  unfold readnAll at h
  split at h
  · cases h
  · rename_i hread
    split at h
    · cases h
    · cases h
      exact readnLoop_mem hread hr hm

theorem readlineLoop_mem {fuel : Nat} {m m' : Mem} {rbuf rest tot : Nat} {k k' : Sock} {ret : Int}
    (h : readlineLoop sockOps fuel m rbuf rest tot k = .ok (ret, m', k')) (hr : rbuf + rest ≤ 1024)
    (hm : LineMem m) : LineMem m' := by
  induction fuel generalizing m rbuf rest tot k with
  | zero => cases h
  | succ fuel ih =>
    unfold readlineLoop at h
    split at h
    · cases h
    · cases h
      exact hm
    · rename_i bs k1 hpeek
      have hle := peek_le hpeek
      split at h
      · cases h
        exact hm
      have hm1 := hm.poke (show rbuf + bs.length ≤ 1024 by omega)
      split at h
      · rename_i p hp
        obtain ⟨⟨m2, k2⟩, h2, h⟩ := bind_ok.mp h
        cases h
        refine readnAll_mem h2 ?_ hm1
        -- the newline is not one of the zeros
        obtain ⟨j, hj, rfl⟩ := Option.map_eq_some_iff.mp hp
        have hlt : j < strlen (CMem.poke m rbuf bs) rbuf := (List.findIdx?_eq_some_iff_findIdx_eq.mp hj).1
        have hne := getD_ne_zero_of_lt_strlen hlt
        by_contra hge
        exact hne (hm1.zero _ (by omega))
      · split at h
        · cases h
        · obtain ⟨⟨m2, k2⟩, h2, h⟩ := bind_ok.mp h
          exact ih h (by omega) (readnAll_mem h2 (by omega) hm1)

theorem ctrlRead_strlen {k k' : Sock} {m : Mem} (h : ctrlRead k = .ok (some (m, k'))) :
    strlen m 0 ≤ 1024 := by
  have hsess : LineMem sessMem := ⟨sessMem_length, fun i _ => getD_replicate_zero _ _⟩
  unfold ctrlRead at h
  split at h
  · cases h
  · rename_i hread
    split at h
    · cases h
    · split at h
      · cases h
      · cases h
        exact (readlineLoop_mem hread (Nat.le_refl _) hsess).strlen_le

/-! ## replies and lines -/

theorem reply_fits {code : Nat} {text : List UInt8} (hc : (fmtDec code).length = 3) :
    (sprintf .reply (replyText code text)).Fits ↔ text.length ≤ 1017 := by
  show (replyText code text).length + 1 ≤ 1024 ↔ _
  unfold replyText
  simp only [List.length_append, List.length_cons, List.length_nil, hc, ascii_length,
    show " ".length = 1 from rfl]
  omega

theorem lreply_fits {code : Nat} {text : List UInt8} (hc : (fmtDec code).length = 3) :
    (sprintf .reply (lreplyText code text)).Fits ↔ text.length ≤ 1017 := by
  show (lreplyText code text).length + 1 ≤ 1024 ↔ _
  unfold lreplyText
  simp only [List.length_append, List.length_cons, List.length_nil, hc, ascii_length,
    show "-".length = 1 from rfl]
  omega

theorem opening_length (x : Session) (size : Int) : (openingText x size).length =
    x.arg.length + (fmtDec size).length + if x.isAscii then 49 else 50 := by
  unfold openingText
  simp only [List.length_append, ascii_length, show "Opening ".length = 8 from rfl,
    show " mode data connection for ".length = 26 from rfl, show " (".length = 2 from rfl,
    show " bytes).".length = 8 from rfl]
  cases x.isAscii with
  | true =>
    rw [if_pos rfl, if_pos rfl, show "ASCII".length = 5 from rfl]
    omega
  | false =>
    rw [if_neg nofun, if_neg nofun, show "BINARY".length = 6 from rfl]
    omega

theorem pwd_length (env : Env) (x : Session) :
    (pwdText env x).length = (fmtStr (getFileName env x.dirfd)).length + 2 := by
  unfold pwdText
  simp only [List.length_append, ascii_length, show "\"".length = 1 from rfl]
  omega

theorem mkd_length (env : Env) (x : Session) : (mkdText env x).length = x.arg.length +
    if x.arg.head? = some 47 then 7
    else if env.getcwd.getLast? = some 47 then env.getcwd.length + 8
    else env.getcwd.length + 9 := by
  unfold mkdText
  split
  · rw [List.length_append, ascii_length]
    rfl
  · split
    · simp only [List.length_append, ascii_length, show " created".length = 8 from rfl]
      omega
    · simp only [List.length_append, ascii_length, show " created".length = 8 from rfl,
        show "/".length = 1 from rfl]
      omega

theorem path_fits {dir name : List UInt8} :
    (sprintf .path (entryPath dir name)).Fits ↔ dir.length + name.length ≤ 1022 := by
  show (entryPath dir name).length + 1 ≤ 1024 ↔ _
  unfold entryPath
  simp only [List.length_append, ascii_length, show "/".length = 1 from rfl]
  omega

/-- what `lstat`, `statbuf_get_perms` and `strftime` into `datebuf[64]` can give -/
structure FileStat.Legal (st : FileStat) : Prop where
  perms : st.perms.length = 10
  nlink : -2^31 ≤ st.nlink ∧ st.nlink < 2^31
  uid : -2^31 ≤ st.uid ∧ st.uid < 2^31
  gid : -2^31 ≤ st.gid ∧ st.gid < 2^31
  size : st.size < 2^64
  date : st.date.length ≤ 63

theorem padLeft_length (n : Nat) (t : List UInt8) : (padLeft n t).length = max n t.length := by
  unfold padLeft
  rw [List.length_append, List.length_replicate]
  omega

theorem padRight_length (n : Nat) (t : List UInt8) : (padRight n t).length = max n t.length := by
  unfold padRight
  rw [List.length_append, List.length_replicate]
  omega

theorem columns_length {st : FileStat} (h : st.Legal) : st.columns.length ≤ 132 := by
  have h1 : (fmtDec st.nlink).length ≤ 11 := fmtDec_int (k := 10) (by omega) (by have := h.nlink; omega)
    (by have := h.nlink; omega)
  have h2 : (fmtDec st.uid).length ≤ 11 := fmtDec_int (k := 10) (by omega) (by have := h.uid; omega)
    (by have := h.uid; omega)
  have h3 : (fmtDec st.gid).length ≤ 11 := fmtDec_int (k := 10) (by omega) (by have := h.gid; omega)
    (by have := h.gid; omega)
  have h4 : (fmtDec st.size).length ≤ 20 := fmtDec_nat (by omega) (by have := h.size; omega)
  have h5 := h.perms
  have h6 := h.date
  unfold FileStat.columns
  simp only [List.length_append, ascii_length, show " ".length = 1 from rfl, padLeft_length,
    padRight_length]
  omega

/-- only a symbolic link can make the line too long -/
theorem listLine_fits {st : FileStat} {name : List UInt8} (h : st.Legal) (hn : name.length ≤ 255) :
    (sprintf .line (listLine st name)).Fits ↔
      ∀ tmp, st.link = some tmp → st.columns.length + name.length + tmp.length ≤ 1017 := by
  have hcol := columns_length h
  show (listLine st name).length + 1 ≤ 1024 ↔ _
  unfold listLine
  cases st.link with
  | none =>
    simp only [List.length_append, List.length_cons, List.length_nil]
    exact ⟨fun _ => nofun, fun _ => by omega⟩
  | some tmp =>
    simp only [List.length_append, List.length_cons, List.length_nil, ascii_length,
      show " -> ".length = 4 from rfl, Option.some.injEq, forall_eq']
    omega

end

end Myftpd
