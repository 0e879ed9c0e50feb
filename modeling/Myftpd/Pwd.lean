import Myftpd.Output
import Myftpd.Buffers
import Myftpd.Lib.Quoted

/-!
# ftpproto.cpp: what a client reads in the reply to PWD

`do_pwd` puts the path between two quotes as it is.  A client reads the line up to its end, and in it the path
from the first quote to the one that closes it, where two quotes stand for one.

* `ReadsPath`            a reply is one line, and the path in it is `p`;
* `pwd_decodes_iff`  which paths a client reads back.
-/

namespace Myftpd
open CMem Quoted

/-- `"` -/
def DQUOTE : UInt8 := 34

/-- the path in a 257 reply: the text between the quotes, where two quotes stand for one -/
def readPath (line : List UInt8) : Option (List UInt8) :=
  if ascii "257 \"" <+: line then unquote DQUOTE (line.drop 5) else none

/-- The bytes are one line, with `eol` at its end and nowhere else, and the path in it is `p`. -/
def ReadsPath (eol bytes p : List UInt8) : Prop :=
  ∃ line, bytes = line ++ eol ∧ ¬ eol <:+: line ∧ readPath line = some p

section
variable {env : Env} {sid : Sid} {x : Session} {s : Server} {p eol r : List UInt8}

theorem pwd_reply (hp : getFileName env x.dirfd = some p) :
    replyText FTP_PWDOK (pwdText env x) = ascii "257 \"" ++ p ++ [DQUOTE, CR, LF] := by
  have hcode : fmtDec (FTP_PWDOK : Nat) ++ ascii " " ++ ascii "\"" = ascii "257 \"" := by decide
  unfold replyText pwdText
  rw [hp, ← hcode]
  simp only [List.append_assoc]
  rfl

theorem readPath_iff (hr : DQUOTE ∉ r) : readPath (ascii "257 \"" ++ p ++ DQUOTE :: r) = some p ↔ DQUOTE ∉ p := by
  have hpre : ascii "257 \"" <+: ascii "257 \"" ++ p ++ DQUOTE :: r :=
    (List.prefix_append _ _).trans (List.prefix_append _ _)
  have hdrop : (ascii "257 \"" ++ p ++ DQUOTE :: r).drop 5 = p ++ DQUOTE :: r := by
    rw [List.append_assoc]
    rfl
  unfold readPath
  rw [if_pos hpre, hdrop]
  exact unquote_iff hr

theorem infix_path (he : eol ≠ []) (hl : ∀ b ∈ eol, b ∉ ascii "257 \"") (hr : ∀ b ∈ eol, b ∉ DQUOTE :: r) :
    eol <:+: ascii "257 \"" ++ p ++ DQUOTE :: r ↔ eol <:+: p := by
  rw [infix_append_right he hr, infix_append_left he hl]

theorem reads_iff (he : eol = [CR, LF] ∨ eol = [LF]) (p : List UInt8) :
    ReadsPath eol (ascii "257 \"" ++ p ++ [DQUOTE, CR, LF]) p ↔ DQUOTE ∉ p ∧ ¬ eol <:+: p := by
  -- what is left in front of the line end
  obtain ⟨r, hsplit, hq, hne, hl, hr⟩ : ∃ r, [DQUOTE, CR, LF] = DQUOTE :: r ++ eol ∧ DQUOTE ∉ r ∧ eol ≠ [] ∧
      (∀ b ∈ eol, b ∉ ascii "257 \"") ∧ ∀ b ∈ eol, b ∉ DQUOTE :: r := by
    rcases he with rfl | rfl
    · refine ⟨[], rfl, by decide, by decide, ?_, ?_⟩
      · exact List.forall_mem_cons.mpr ⟨by decide, List.forall_mem_singleton.mpr (by decide)⟩
      · exact List.forall_mem_cons.mpr ⟨by decide, List.forall_mem_singleton.mpr (by decide)⟩
    · refine ⟨[CR], rfl, by decide, by decide, ?_, ?_⟩
      · exact List.forall_mem_singleton.mpr (by decide)
      · exact List.forall_mem_singleton.mpr (by decide)
  rw [hsplit, ← List.append_assoc, ← readPath_iff (p := p) hq, ← infix_path hne hl hr]
  constructor
  · rintro ⟨line, e, hone, hpath⟩
    obtain rfl := List.append_cancel_right e
    exact ⟨hpath, hone⟩
  · rintro ⟨hpath, hone⟩
    exact ⟨_, rfl, hone, hpath⟩

/-- **The reply to PWD.**  For a path of less than 1000 bytes, both texts fit their arrays and hold no NUL, so the
reply is sent as it is.  Whether lines end with CR LF or with a bare LF: a client gets one line and reads the path
back from it where the path has no quote and no line end, and only there. -/
theorem pwd_decodes_iff (hp : getFileName env x.dirfd = some p) (h0 : 0 ∉ p) (hlen : p.length < 1000) :
    ∃ bytes, ctrlTexts sid (doPwd env sid x s).log = ctrlTexts sid s.log ++ [bytes] ∧
      (sprintf .pwd (pwdText env x)).Fits ∧ (sprintf .reply bytes).Fits ∧ 0 ∉ bytes ∧
      ∀ eol, eol = [CR, LF] ∨ eol = [LF] → (ReadsPath eol bytes p ↔ DQUOTE ∉ p ∧ ¬ eol <:+: p) := by
  have htext : (pwdText env x).length = p.length + 2 := by
    rw [pwd_length, hp]
    rfl
  refine ⟨replyText FTP_PWDOK (pwdText env x), ?_, ?_, ?_, ?_, fun eol he => ?_⟩
  · have hlog : (doPwd env sid x s).log = s.log ++ [.reply sid x.ctrlFd (some s.cmdNo) FTP_PWDOK (pwdText env x)] := rfl
    unfold ctrlTexts
    rw [hlog, List.filterMap_append]
    congr 1
    exact List.filterMap_cons_some (if_pos rfl)
  · show (pwdText env x).length + 1 ≤ 1024
    omega
  · exact (reply_fits (by decide)).mpr (by omega)
  · rw [pwd_reply hp]
    simp only [List.mem_append, not_or]
    exact ⟨⟨by decide, h0⟩, by decide⟩
  · rw [pwd_reply hp]
    exact reads_iff he p

end

theorem pwd_decodes_plain : ∃ bytes, ctrlTexts 0 (doPwd { sampleEnv with fileName := ascii "/srv/ftp" } 0
    { initSession 5 with dirfd := some 7 } sampleBoot).log = ctrlTexts 0 sampleBoot.log ++ [bytes] ∧
      ReadsPath [CR, LF] bytes (ascii "/srv/ftp") := by
  obtain ⟨bytes, hlog, -, -, -, hreads⟩ := @pwd_decodes_iff { sampleEnv with fileName := ascii "/srv/ftp" } 0
    { initSession 5 with dirfd := some 7 } sampleBoot (ascii "/srv/ftp") rfl (by decide) (by decide)
  exact ⟨bytes, hlog, (hreads _ (Or.inl rfl)).mpr ⟨by decide, by decide⟩⟩

/-- A quote in a name, and a name that goes on with a reply of its own. -/
theorem pwd_forged : ¬ ReadsPath [CR, LF] (replyText FTP_PWDOK (pwdText { sampleEnv with fileName := ascii "/a\"b" }
      { initSession 5 with dirfd := some 7 })) (ascii "/a\"b") ∧
    ¬ ReadsPath [CR, LF] (replyText FTP_PWDOK (pwdText { sampleEnv with fileName := ascii "/a\r\n226 Done" }
      { initSession 5 with dirfd := some 7 })) (ascii "/a\r\n226 Done") := by
  constructor
  · rw [pwd_reply (p := ascii "/a\"b") rfl, reads_iff (Or.inl rfl)]
    exact fun h => h.1 (by decide)
  · rw [pwd_reply (p := ascii "/a\r\n226 Done") rfl, reads_iff (Or.inl rfl)]
    exact fun h => h.2 ⟨ascii "/a", ascii "226 Done", by decide⟩

end Myftpd
