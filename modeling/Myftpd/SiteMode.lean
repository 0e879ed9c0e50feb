import Myftpd.Buffers
import Myftpd.Epoll

/-!
# ftpproto.cpp: the numbers of SITE CHMOD and SITE UMASK

`str_octal_to_uint` stops at the first byte that is not an octal digit, and nobody asks where it stopped.

* `octalValue`      the number that a word of octal digits stands for;
* `strOctal_eq`     `str_octal_to_uint` on such a word;
* `ChmodRight`, `UmaskRight`  what the two commands should do with their arguments;
* `chmod_right_iff`, `umask_right_iff`  when they do.
-/

namespace Myftpd
open CMem Server

/-- the number that the word stands for, where it is made of octal digits and not empty -/
def octalValue (w : List UInt8) : Option Nat :=
  if w ≠ [] ∧ w.all isOctal then some (octalNum w) else none

/-- the modes that were set, of the files named -/
def chmods (log : List Act) : List (List UInt8 × Nat) :=
  log.filterMap fun a => match a with | .fs _ (.chmod file mode) => some (file, mode) | _ => none

/-- the masks that were set -/
def umasks (log : List Act) : List Nat := log.filterMap fun a => match a with | .umask um => some um | _ => none

/-- a reply that reports success -/
def Act.success : Act → Bool
  | .reply _ _ _ code _ => 200 ≤ code && code < 400
  | _ => false

/-- `chmod(2)` uses the lowest twelve bits of the mode, `umask(2)` the lowest nine -/
def fileMode (m : Nat) : Nat := m % 0o10000
def maskMode (m : Nat) : Nat := m % 0o1000

/-- no mode is set, and no success is reported -/
def ChmodRefused (new : List Act) : Prop := chmods new = [] ∧ ∀ a ∈ new, a.success = false
def UmaskRefused (new : List Act) : Prop := umasks new = [] ∧ ∀ a ∈ new, a.success = false

/-- What `SITE CHMOD text` should do.  A word of octal digits up to 07777 is the new mode of the file, if one is
named and `chmod` succeeds; any other word is refused. -/
def ChmodRight (env : Env) (text : List UInt8) (new : List Act) : Prop :=
  match octalValue (splitFst text SP) with
  | some v =>
    if v ≤ 0o7777 then
      (chmods new).map (fun a => (a.1, fileMode a.2)) =
        if env.chmod ∧ splitSnd text SP ≠ [] then [(splitSnd text SP, v)] else []
    else ChmodRefused new
  | none => ChmodRefused new

/-- What `SITE UMASK text` should do.  A word of octal digits up to 07777 is the new mask, any other is refused;
without a word, the mask stays. -/
def UmaskRight (text : List UInt8) (new : List Act) : Prop :=
  if text = [] then umasks new = []
  else match octalValue text with
    | some v => if v ≤ 0o7777 then (umasks new).map maskMode = [v] else UmaskRefused new
    | none => UmaskRefused new

/-! ## octal words -/

section
variable {w : List UInt8} {v : Nat}

/-- **`str_octal_to_uint`** reads a word of octal digits, where its number fits. -/
theorem strOctal_eq (h : octalValue w = some v) (hv : v < 2 ^ 32) : strOctalToUint w = v := by
  unfold octalValue at h
  split at h
  · rename_i hw
    cases h
    exact strOctal_of_lt (List.all_eq_true.mp hw.2) hv
  · exact nomatch h

end

/-! ## CHMOD -/

section
variable {c : Conf} {env : Env} {sid : Sid} {x : Session} {s s' : Server} {t : List UInt8}

theorem split_no_space (h : SP ∉ t) : splitFst t SP = t ∧ splitSnd t SP = [] := by
  have hall : ∀ b ∈ t, (b != SP) = true := fun b hb => bne_iff_ne.mpr fun e => h (e ▸ hb)
  unfold splitFst splitSnd
  rw [List.takeWhile_eq_self_iff.mpr hall, List.dropWhile_eq_nil_iff.mpr hall]
  exact ⟨rfl, rfl⟩

/-- the sub-command is short, so the text alone decides whether the arrays hold it -/
theorem site_fits_iff (hw : (splitFst x.arg SP).length ≤ 98) :
    (∀ w ∈ siteWrites x.arg, w.Fits) ↔ (splitSnd x.arg SP).length ≤ 99 := by
  rw [site_fits]
  split
  · exact and_iff_right hw
  · rename_i h
    obtain ⟨h1, h2⟩ := split_no_space h
    rw [h1] at hw
    rw [h2]
    exact iff_of_true (Nat.le_succ_of_le hw) (Nat.zero_le _)

theorem site_split (h0 : 0 ∉ x.arg) (hl : x.arg.length < MAX_ARG) (hf : ∀ w ∈ siteWrites x.arg, w.Fits) :
    split100 x.arg = some (splitFst x.arg SP, splitSnd x.arg SP) :=
  split100_eq h0 hl fun w hw => hf w (List.mem_append_left _ hw)

theorem splitSnd_sub (t : List UInt8) : (splitSnd t SP).length ≤ t.length ∧ (0 ∉ t → 0 ∉ splitSnd t SP) := by
  by_cases h : SP ∈ t
  · have hlen := split_length h
    have hparts := split_parts h
    refine ⟨by omega, fun h0 hm => h0 ?_⟩
    rw [hparts]
    exact List.mem_append_right _ (List.mem_cons_of_mem _ hm)
  · rw [(split_no_space h).2]
    exact ⟨Nat.zero_le _, fun _ => List.not_mem_nil⟩

/-- what `do_site_chmod` adds to the log -/
def chmodNew (env : Env) (sid : Sid) (x : Session) (s : Server) (t : List UInt8) : List Act :=
  let reply := fun code text => Act.reply sid x.ctrlFd (some s.cmdNo) code (ascii text)
  if splitSnd t SP = [] then [reply FTP_BADCMD "SITE CHMOD needs 2 arguments."]
  else if env.chmod then [.fs sid (.chmod (splitSnd t SP) (strOctalToUint (splitFst t SP))),
    reply FTP_CHMODOK "SITE CHMOD command ok."]
  else [reply FTP_CHMODOK "SITE CHMOD command failed."]

theorem doSiteChmod_log (env : Env) (sid : Sid) (x : Session) (s : Server) (h0 : 0 ∉ t) (ht : t.length ≤ 99) :
    ∃ s', doSiteChmod env sid x s t = .ok s' ∧ s'.log = s.log ++ chmodNew env sid x s t := by
  unfold doSiteChmod chmodNew
  by_cases he : t = []
  · subst he
    exact ⟨_, rfl, rfl⟩
  · have hsplit : split100 t = some (splitFst t SP, splitSnd t SP) := by
      refine split100_eq h0 (Nat.lt_of_le_of_lt ht (by decide)) (strSplit_fits.mpr ?_)
      have h1 : Buf.siteCmd.size = 100 := rfl
      have h2 : Buf.siteArg.size = 100 := rfl
      rw [h1, h2]
      split
      · rename_i hm
        have hlen := split_length hm
        omega
      · omega
    rw [if_neg he, hsplit]
    dsimp only
    by_cases hf : splitSnd t SP = []
    · rw [if_pos hf, if_pos hf]
      exact ⟨_, rfl, rfl⟩
    · rw [if_neg hf, if_neg hf]
      split
      · refine ⟨_, rfl, ?_⟩
        exact List.append_assoc _ _ _
      · exact ⟨_, rfl, rfl⟩

/-- the word is octal and not too large -/
def OctalUpTo (max : Nat) (w : List UInt8) : Prop := ∃ v, octalValue w = some v ∧ v ≤ max

theorem chmodRight_some {v : Nat} {new : List Act} (hv : octalValue (splitFst t SP) = some v) (hle : v ≤ 0o7777) :
    ChmodRight env t new ↔ (chmods new).map (fun a => (a.1, fileMode a.2)) =
      if env.chmod ∧ splitSnd t SP ≠ [] then [(splitSnd t SP, v)] else [] := by
  unfold ChmodRight
  rw [hv]
  exact iff_of_eq (if_pos hle)

theorem chmodRight_none {new : List Act} (ho : ¬ OctalUpTo 0o7777 (splitFst t SP)) :
    ChmodRight env t new ↔ ChmodRefused new := by
  unfold ChmodRight
  cases hv : octalValue (splitFst t SP) with
  | none => exact Iff.rfl
  | some v => exact iff_of_eq (if_neg fun hle => ho ⟨v, hv, hle⟩)

theorem chmodNew_right : ChmodRight env t (chmodNew env sid x s t) ↔
    splitSnd t SP = [] ∨ OctalUpTo 0o7777 (splitFst t SP) := by
  unfold chmodNew
  dsimp only
  by_cases ho : OctalUpTo 0o7777 (splitFst t SP)
  · refine iff_of_true ?_ (Or.inr ho)
    obtain ⟨v, hv, hle⟩ := ho
    rw [chmodRight_some hv hle]
    by_cases hf : splitSnd t SP = []
    · rw [if_pos hf, if_neg fun h => h.2 hf]
      rfl
    · rw [if_neg hf]
      by_cases hc : env.chmod = true
      · have hval : fileMode (strOctalToUint (splitFst t SP)) = v := by
          rw [strOctal_eq hv (Nat.lt_of_le_of_lt hle (by decide))]
          exact Nat.mod_eq_of_lt (Nat.lt_succ_of_le hle)
        rw [if_pos hc, if_pos ⟨hc, hf⟩]
        show [(splitSnd t SP, fileMode (strOctalToUint (splitFst t SP)))] = _
        rw [hval]
      · rw [if_neg hc, if_neg fun h => hc h.1]
        rfl
  · rw [chmodRight_none ho, or_iff_left ho]
    by_cases hf : splitSnd t SP = []
    · -- the reply is 500
      rw [if_pos hf]
      exact iff_of_true ⟨rfl, List.forall_mem_singleton.mpr rfl⟩ hf
    · rw [if_neg hf]
      split
      · exact iff_of_false (fun h => absurd h.1 (List.cons_ne_nil _ _)) hf
      · -- the reply is 200, though nothing has been done
        exact iff_of_false (fun h => nomatch h.2 _ List.mem_cons_self) hf

/-- what `do_site_umask` adds to the log -/
def umaskNew (c : Conf) (sid : Sid) (x : Session) (s : Server) (t : List UInt8) : List Act :=
  let reply := Act.reply sid x.ctrlFd (some s.cmdNo) FTP_UMASKOK
  if t = [] then [reply (ascii "Your current UMASK is 0" ++ fmtOct c.localUmask)]
  else [.umask (strOctalToUint t), reply (ascii "UMASK set to 0" ++ fmtOct (strOctalToUint t))]

theorem doSiteUmask_log (c : Conf) (sid : Sid) (x : Session) (s : Server) (t : List UInt8) :
    (doSiteUmask c sid x s t).log = s.log ++ umaskNew c sid x s t := by
  unfold doSiteUmask umaskNew
  split
  · rfl
  · exact List.append_assoc _ _ _

theorem umaskNew_right : UmaskRight t (umaskNew c sid x s t) ↔ t = [] ∨ OctalUpTo 0o777 t := by
  unfold UmaskRight umaskNew OctalUpTo
  by_cases ht : t = []
  · rw [if_pos ht, if_pos ht]
    exact iff_of_true rfl (Or.inl ht)
  · rw [if_neg ht, if_neg ht]
    cases hv : octalValue t with
    | none =>
      refine iff_of_false (fun h => absurd h.1 (List.cons_ne_nil _ _)) ?_
      rintro (h | ⟨v, h, -⟩)
      exacts [ht h, nomatch h]
    | some v =>
      dsimp only
      have hor : (t = [] ∨ ∃ u, some v = some u ∧ u ≤ 0o777) ↔ v ≤ 0o777 := by
        constructor
        · rintro (h | ⟨u, h, hu⟩)
          · exact absurd h ht
          · cases h
            exact hu
        · exact fun h => Or.inr ⟨v, rfl, h⟩
      rw [hor]
      by_cases hle : v ≤ 0o7777
      · have hval : strOctalToUint t = v := strOctal_eq hv (Nat.lt_of_le_of_lt hle (by decide))
        rw [if_pos hle, hval]
        show [v % 512] = [v] ↔ v ≤ 511
        rw [List.cons.injEq, and_iff_left rfl]
        omega
      · rw [if_neg hle]
        refine iff_of_false (fun h => absurd h.1 (List.cons_ne_nil _ _)) fun h => ?_
        exact hle (Nat.le_trans h (by decide))

/-! ## the commands -/

/-- `do_site` comes back within its arrays, and what it has added to the log is right. -/
def SiteRight (c : Conf) (env : Env) (sid : Sid) (x : Session) (s : Server) (right : List Act → Prop) : Prop :=
  (∀ w ∈ siteWrites x.arg, w.Fits) ∧
    ∃ s' new, doSite c env sid x s = .ok s' ∧ s'.log = s.log ++ new ∧ right new

theorem siteRight_iff {right : List Act → Prop} (new : List Act) (hw : (splitFst x.arg SP).length ≤ 98)
    (hd : (splitSnd x.arg SP).length ≤ 99 → ∃ s', doSite c env sid x s = .ok s' ∧ s'.log = s.log ++ new) :
    SiteRight c env sid x s right ↔ (splitSnd x.arg SP).length ≤ 99 ∧ right new := by
  unfold SiteRight
  rw [site_fits_iff hw]
  apply and_congr_right
  intro ht
  obtain ⟨s', hs', hlog⟩ := hd ht
  constructor
  · rintro ⟨s'', new', hs'', hlog', hr⟩
    cases hs'.symm.trans hs''
    rwa [List.append_cancel_left (hlog.symm.trans hlog')]
  · exact fun hr => ⟨s', new, hs', hlog, hr⟩

theorem chmod_right_iff (h0 : 0 ∉ x.arg) (hl : x.arg.length < MAX_ARG) (hcmd : splitFst x.arg SP = ascii "CHMOD") :
    SiteRight c env sid x s (ChmodRight env (splitSnd x.arg SP)) ↔ (splitSnd x.arg SP).length ≤ 99 ∧
      (splitSnd (splitSnd x.arg SP) SP = [] ∨ OctalUpTo 0o7777 (splitFst (splitSnd x.arg SP) SP)) := by
  have hw : (splitFst x.arg SP).length ≤ 98 := by
    rw [hcmd]
    decide
  rw [siteRight_iff (chmodNew env sid x s (splitSnd x.arg SP)) hw, chmodNew_right]
  intro ht
  obtain ⟨s', hs', hlog⟩ := doSiteChmod_log env sid x s ((splitSnd_sub x.arg).2 h0) ht
  refine ⟨s', ?_, hlog⟩
  unfold doSite
  rw [site_split h0 hl ((site_fits_iff hw).mpr ht)]
  dsimp only
  rw [if_pos hcmd]
  exact hs'

theorem umask_right_iff (h0 : 0 ∉ x.arg) (hl : x.arg.length < MAX_ARG) (hcmd : splitFst x.arg SP = ascii "UMASK") :
    SiteRight c env sid x s (UmaskRight (splitSnd x.arg SP)) ↔ (splitSnd x.arg SP).length ≤ 99 ∧
      (splitSnd x.arg SP = [] ∨ OctalUpTo 0o777 (splitSnd x.arg SP)) := by
  have hw : (splitFst x.arg SP).length ≤ 98 := by
    rw [hcmd]
    decide
  have hne : ascii "UMASK" ≠ ascii "CHMOD" := by decide
  rw [siteRight_iff (umaskNew c sid x s (splitSnd x.arg SP)) hw, umaskNew_right]
  intro ht
  refine ⟨_, ?_, doSiteUmask_log c sid x s (splitSnd x.arg SP)⟩
  unfold doSite
  rw [site_split h0 hl ((site_fits_iff hw).mpr ht)]
  dsimp only
  rw [hcmd, if_neg hne, if_pos rfl]

/-- **SITE CHMOD and SITE UMASK** do what they should with the text behind the sub-command where it has at most 99
bytes and: for CHMOD, names no file, or its first word is made of octal digits and is at most 07777; for UMASK, is
empty, or is made of octal digits and is at most 0777. -/
theorem site_octal_iff (c : Conf) (env : Env) (sid : Sid) (x : Session) (s : Server) (h0 : 0 ∉ x.arg)
    (hl : x.arg.length < MAX_ARG) :
    (splitFst x.arg SP = ascii "CHMOD" →
      (SiteRight c env sid x s (ChmodRight env (splitSnd x.arg SP)) ↔ (splitSnd x.arg SP).length ≤ 99 ∧
        (splitSnd (splitSnd x.arg SP) SP = [] ∨ OctalUpTo 0o7777 (splitFst (splitSnd x.arg SP) SP)))) ∧
    (splitFst x.arg SP = ascii "UMASK" →
      (SiteRight c env sid x s (UmaskRight (splitSnd x.arg SP)) ↔ (splitSnd x.arg SP).length ≤ 99 ∧
        (splitSnd x.arg SP = [] ∨ OctalUpTo 0o777 (splitSnd x.arg SP)))) :=
  ⟨chmod_right_iff h0 hl, umask_right_iff h0 hl⟩

end

theorem site_octal_sample :
    SiteRight sampleConf sampleEnv 0 { initSession 5 with arg := ascii "CHMOD 0644 f" } sampleBoot
      (ChmodRight sampleEnv (ascii "0644 f")) ∧
    SiteRight sampleConf sampleEnv 0 { initSession 5 with arg := ascii "UMASK 027" } sampleBoot
      (UmaskRight (ascii "027")) :=
  ⟨((site_octal_iff sampleConf sampleEnv 0 { initSession 5 with arg := ascii "CHMOD 0644 f" } sampleBoot (by decide)
      (by decide)).1 (by decide)).mpr ⟨by decide, Or.inr ⟨0o644, by decide, by decide⟩⟩,
    ((site_octal_iff sampleConf sampleEnv 0 { initSession 5 with arg := ascii "UMASK 027" } sampleBoot (by decide)
      (by decide)).2 (by decide)).mpr ⟨by decide, Or.inr ⟨0o27, by decide, by decide⟩⟩⟩

/-- a word that is no number makes the mode 0 -/
theorem site_chmod_typo : ¬ SiteRight sampleConf sampleEnv 0 { initSession 5 with arg := ascii "CHMOD u+x f" } sampleBoot
    (ChmodRight sampleEnv (ascii "u+x f")) := by
  have hiff := @chmod_right_iff sampleConf sampleEnv 0 { initSession 5 with arg := ascii "CHMOD u+x f" } sampleBoot
    (by decide) (by decide) (by decide)
  have hbad : ¬ ((splitSnd (ascii "u+x f") SP = []) ∨ OctalUpTo 0o7777 (splitFst (ascii "u+x f") SP)) := by
    rintro (h | ⟨v, h, -⟩)
    · exact absurd h (by decide)
    · have hnone : octalValue (splitFst (ascii "u+x f") SP) = none := by decide
      rw [hnone] at h
      exact nomatch h
  exact fun h => hbad (hiff.mp h).2

end Myftpd
