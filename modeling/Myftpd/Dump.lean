import Myftpd.Parseconf
import Myftpd.Listing

/-!
# The settings that `main` prints

Before it starts the server, `main` prints its tunables, one line for each: `tunable_`, the key, `=` and the value.

* `Tunables.printed`   the lines;
* `Tunables.asFile`    a configuration file of them, without the `tunable_`;
* `printed_reloads`    what `main` prints about a configuration is read back as that configuration, over any tunables
                       that have no address.
-/

namespace Myftpd
open CMem

/-- the address may be `NULL` -/
def printedAddress : Option (List UInt8) → List UInt8
  | none => ascii "tunable_listen_address=NULL"
  | some v => ascii "tunable_listen_address=" ++ v

/-- the calls of `printf` at the start of `main`, without the newlines -/
def Tunables.printed (t : Tunables) : List (List UInt8) :=
  [ascii "tunable_pasv_enable=" ++ fmtDec (t.bool .pasvEnable),
   ascii "tunable_port_enable=" ++ fmtDec (t.bool .portEnable),
   ascii "tunable_listen_port=" ++ fmtDec (t.uint .listenPort),
   ascii "tunable_max_clients=" ++ fmtDec (t.uint .maxClients),
   ascii "tunable_max_per_ip=" ++ fmtDec (t.uint .maxPerIp),
   ascii "tunable_accept_timeout=" ++ fmtDec (t.uint .acceptTimeout),
   ascii "tunable_connect_timeout=" ++ fmtDec (t.uint .connectTimeout),
   ascii "tunable_idle_session_timeout=" ++ fmtDec (t.uint .idleSessionTimeout),
   ascii "tunable_data_connection_timeout=" ++ fmtDec (t.uint .dataConnectionTimeout),
   ascii "tunable_local_umask=0" ++ fmtOct (t.uint .localUmask),
   ascii "tunable_upload_max_rate=" ++ fmtDec (t.uint .uploadMaxRate),
   ascii "tunable_download_max_rate=" ++ fmtDec (t.uint .downloadMaxRate),
   printedAddress (t.str .listenAddress)]

def Tunables.asFile (t : Tunables) : List UInt8 :=
  t.printed.flatMap fun line => line.drop (ascii "tunable_").length ++ [LF]

/-- an address that is not given has been printed as a word -/
def Tunables.named (t : Tunables) : Tunables := { t with str := fun p => some ((t.str p).getD (ascii "NULL")) }

/-- a value that can stand in a file -/
structure ValueText (value : List UInt8) : Prop where
  given : value ≠ []
  short : value.length < 127
  noNul : 0 ∉ value
  noCr : CR ∉ value
  noLf : LF ∉ value

/-- the tunables as they can be after a configuration file -/
structure Printable (t : Tunables) : Prop where
  bool : ∀ p, t.bool p = 0 ∨ t.bool p = 1
  uint : ∀ p, t.uint p < 2^32
  str : ∀ p v, t.str p = some v → ValueText v

/-! ## what a file leaves in the tunables -/

section
variable {key value line file : List UInt8} {t : Tunables} {n : Nat}

theorem uintValue_lt (value : List UInt8) : uintValue value < 2^32 := by
  have hmod := uintValue_mod value
  omega

theorem boolValue_cases {b : Int} (h : boolValue value = some b) : b = 0 ∨ b = 1 := by
  unfold boolValue at h
  split at h
  · cases h
    exact Or.inr rfl
  · split at h
    · cases h
      exact Or.inl rfl
    · cases h

theorem Printable.assign (h : Printable t) (hv : ValueText value) : Printable (assign t key value) := by
  obtain ⟨q, -, he⟩ | ⟨q, -, he⟩ | ⟨q, -, he⟩ | ⟨-, -, -, he⟩ := assign_cases t key value
  · refine ⟨fun p => ?_, fun p => ?_, fun p v hp => ?_⟩
    · rw [he]
      exact h.bool p
    · rw [he]
      exact h.uint p
    · rw [he] at hp
      cases p
      cases q
      simp only [Function.update_self, Option.some.injEq] at hp
      rw [← hp]
      exact hv
  · refine ⟨fun p => ?_, fun p => ?_, fun p v hp => ?_⟩
    · rw [he]
      by_cases hq : p = q
      · subst hq
        simp only [Function.update_self]
        cases hb : boolValue value with
        | none => exact h.bool p
        | some b => exact boolValue_cases hb
      · simp only [Function.update_of_ne hq]
        exact h.bool p
    · rw [he]
      exact h.uint p
    · rw [he] at hp
      exact h.str p v hp
  · refine ⟨fun p => ?_, fun p => ?_, fun p v hp => ?_⟩
    · rw [he]
      exact h.bool p
    · rw [he]
      by_cases hq : p = q
      · subst hq
        simp only [Function.update_self]
        exact uintValue_lt value
      · simp only [Function.update_of_ne hq]
        exact h.uint p
    · rw [he] at hp
      exact h.str p v hp
  · rw [he]
    exact h

theorem ConfLine.value_spec (h : ConfLine line) (hlf : LF ∉ line) {a : List UInt8 × List UInt8}
    (ha : assignment line = some a) : ValueText a.2 := by
  unfold assignment at ha
  split at ha
  · cases ha
  · rename_i hno
    rw [not_or] at hno
    cases ha
    have hsub : ∀ c ∈ splitSnd (stripEnd line) 61, c ∈ stripEnd line := by
      intro c hc
      have hm : 61 ∈ stripEnd line := by
        by_contra hm
        rw [(split_none hm).2] at hc
        exact absurd hc List.not_mem_nil
      rw [split_parts hm]
      exact List.mem_append_right _ (List.mem_cons_of_mem _ hc)
    exact ⟨hno.2, h.value hno.1, fun hc => h.noNul (stripEnd_mem (hsub _ hc)), fun hc => h.noCr (hsub _ hc),
      fun hc => hlf (stripEnd_mem (hsub _ hc))⟩

theorem printable_foldl {as : List (List UInt8 × List UInt8)} (h : ∀ a ∈ as, ValueText a.2) (ht : Printable t) :
    Printable (as.foldl (fun t a => assign t a.1 a.2) t) := by
  induction as generalizing t with
  | nil => exact ht
  | cons a as ih =>
    rw [List.forall_mem_cons] at h
    exact ih h.2 (ht.assign h.1)

theorem printable_default : Printable tunables := by
  refine ⟨fun p => Or.inr rfl, fun p => ?_, fun p v hp => ?_⟩
  · cases p <;> decide
  · cases hp

/-! ## lines and numbers -/

theorem lines_lf : ∀ line ∈ file.splitOn LF, LF ∉ line := by
  induction file with
  | nil => simp
  | cons c file ih =>
    rw [List.splitOn_cons_eq_if_modifyHead]
    split
    · rw [List.forall_mem_cons]
      exact ⟨List.not_mem_nil, ih⟩
    · rename_i hc
      cases hs : file.splitOn LF with
      | nil => exact absurd hs (List.splitOn_ne_nil _ _)
      | cons first lines =>
        rw [hs, List.forall_mem_cons] at ih
        rw [List.modifyHead_cons, List.forall_mem_cons]
        refine ⟨fun hm => ?_, ih.2⟩
        rcases List.mem_cons.mp hm with e | hm
        · exact hc (beq_iff_eq.mpr e.symm)
        · exact ih.1 hm

theorem splitOn_lines {lines : List (List UInt8)} (h : ∀ line ∈ lines, LF ∉ line) :
    (lines.flatMap fun line => line ++ [LF]).splitOn LF = lines ++ [[]] := by
  induction lines with
  | nil => simp
  | cons line lines ih =>
    rw [List.forall_mem_cons] at h
    rw [List.flatMap_cons, List.append_assoc, List.singleton_append,
      List.splitOn_append_cons_self_of_not_mem h.1, ih h.2]
    rfl

theorem decDigit_spec {d : Nat} (h : d < 10) : isDigit (octalDigit d) = true ∧ (octalDigit d).toNat - 48 = d ∧
    (0 < d → octalDigit d ≠ 48) := by
  interval_cases d <;> decide

theorem fmtDec_nat_eq (n : Nat) : fmtDec n = (Nat.toDigits 10 n).map fun c => c.toNat.toUInt8 := fmtDec_eq n

theorem fmtDec_digit {d : Nat} (hn : 0 < n) (hd : d < 10) :
    fmtDec (10 * n + d : Nat) = fmtDec n ++ [octalDigit d] := by
  rw [fmtDec_nat_eq, fmtDec_nat_eq, ← Nat.toDigits_append_toDigits (by decide) hn hd, Nat.toDigits_of_lt_base hd,
    List.map_append]
  rfl

/-- **What `%u` prints**: decimal digits, with no zero in front, and they stand for the number. -/
theorem fmtDec_spec (n : Nat) : (∀ c ∈ fmtDec n, isDigit c = true) ∧ decNum (fmtDec n) = n ∧ fmtDec n ≠ [] ∧
    (0 < n → (fmtDec n).head? ≠ some 48) := by
  induction n using Nat.base_induction 10 (by decide) with
  | single n hn =>
    obtain ⟨hdig, hv, h0⟩ := decDigit_spec hn
    have he : fmtDec n = [octalDigit n] := by
      rw [fmtDec_nat_eq, Nat.toDigits_of_lt_base hn]
      rfl
    rw [he]
    refine ⟨List.forall_mem_singleton.mpr hdig, ?_, List.cons_ne_nil _ _, fun hpos e => h0 hpos (Option.some.inj e)⟩
    show 10 * 0 + ((octalDigit n).toNat - 48) = n
    rw [hv, Nat.mul_zero, Nat.zero_add]
  | digit n d hd hn ih =>
    obtain ⟨hdig, hv, -⟩ := decDigit_spec hd
    obtain ⟨h1, h2, h3, h4⟩ := ih
    rw [fmtDec_digit hn hd]
    refine ⟨?_, ?_, List.append_ne_nil_of_left_ne_nil h3 _, fun _ => ?_⟩
    · rw [List.forall_mem_append]
      exact ⟨h1, List.forall_mem_singleton.mpr hdig⟩
    · unfold decNum at h2 ⊢
      rw [List.foldl_append, h2, List.foldl_cons, List.foldl_nil, hv]
    · rw [List.head?_append_of_ne_nil _ h3]
      exact h4 hn

theorem uintValue_fmtDec (h : n < 2^32) : uintValue (fmtDec n) = n := by
  obtain ⟨h1, h2, h3, h4⟩ := fmtDec_spec n
  rcases Nat.eq_zero_or_pos n with rfl | hpos
  · rfl
  · have htext : UintText (fmtDec n) := by
      refine ⟨h3, ?_⟩
      rw [if_neg (h4 hpos), h2]
      exact ⟨h1, h⟩
    rw [uintValue_text htext, if_neg (h4 hpos), h2]

theorem uintValue_fmtOct (h : n < 2^32) : uintValue (ascii "0" ++ fmtOct n) = n := by
  obtain ⟨h1, h2⟩ := octalNum_fmtOct n
  have htext : UintText (48 :: fmtOct n) := by
    refine ⟨List.cons_ne_nil _ _, ?_⟩
    rw [if_pos List.head?_cons, octalNum_zero, h2]
    exact ⟨List.forall_mem_cons.mpr ⟨by decide, h1⟩, h⟩
  show uintValue (48 :: fmtOct n) = n
  rw [uintValue_text htext, if_pos List.head?_cons, octalNum_zero, h2]

/-! ## the file that is printed -/

def uintText : UintVar → Nat → List UInt8
  | .localUmask, n => ascii "0" ++ fmtOct n
  | _, n => fmtDec n

/-- the keys of the three tables with the values that are printed -/
def Tunables.entries (t : Tunables) : List (List UInt8 × List UInt8) :=
  (parseconfBoolArray.map fun a => (a.1, fmtDec (t.bool a.2))) ++
    (parseconfUintArray.map fun a => (a.1, uintText a.2 (t.uint a.2))) ++
      parseconfStrArray.map fun a => (a.1, (t.str a.2).getD (ascii "NULL"))

theorem setting_line {s : List UInt8} (h : s = ascii "tunable_" ++ (key ++ [61])) :
    s ++ value = ascii "tunable_" ++ (key ++ 61 :: value) := by
  rw [h, List.append_assoc, List.append_assoc, List.singleton_append]

theorem address_line (v : Option (List UInt8)) :
    printedAddress v = ascii "tunable_listen_address=" ++ v.getD (ascii "NULL") := by
  cases v with
  | none => decide +kernel
  | some v => rfl

theorem umask_line : ascii "tunable_local_umask=0" = ascii "tunable_local_umask=" ++ ascii "0" := by decide +kernel

theorem printed_eq (t : Tunables) : t.printed = t.entries.map fun a => ascii "tunable_" ++ (a.1 ++ 61 :: a.2) := by
  unfold Tunables.printed Tunables.entries parseconfBoolArray parseconfUintArray parseconfStrArray
  rw [address_line, umask_line, List.append_assoc]
  simp only [List.map_cons, List.map_nil, List.cons_append, List.nil_append, List.cons.injEq, and_true]
  refine ⟨?_, ?_, ?_, ?_, ?_, ?_, ?_, ?_, ?_, ?_, ?_, ?_, ?_⟩
  all_goals exact setting_line (by decide +kernel)

theorem asFile_eq (t : Tunables) :
    t.asFile = (t.entries.map fun a => a.1 ++ 61 :: a.2).flatMap fun line => line ++ [LF] := by
  unfold Tunables.asFile
  rw [printed_eq, List.flatMap_map, List.flatMap_map]
  simp only [List.drop_left]

theorem entries_keys (t : Tunables) : (t.entries.map Prod.fst).Nodup := by
  have hkeys : t.entries.map Prod.fst =
      parseconfBoolArray.map Prod.fst ++ parseconfUintArray.map Prod.fst ++ parseconfStrArray.map Prod.fst := by
    unfold Tunables.entries
    simp only [List.map_append, List.map_map, Function.comp_def]
  rw [hkeys]
  decide +kernel

/-- a key of the tables, as it stands in a line -/
def KeyText (key : List UInt8) : Prop :=
  key ≠ [] ∧ key.length < 127 ∧ key.head? ≠ some 35 ∧ ∀ c ∈ key, c ≠ 61 ∧ c ≠ 0 ∧ c ≠ CR ∧ c ≠ LF

instance (key : List UInt8) : Decidable (KeyText key) := inferInstanceAs (Decidable (_ ∧ _ ∧ _ ∧ _))

theorem key_text : (∀ a ∈ parseconfBoolArray, KeyText a.1) ∧ (∀ a ∈ parseconfUintArray, KeyText a.1) ∧
    ∀ a ∈ parseconfStrArray, KeyText a.1 := by
  decide +kernel

theorem digits_text (hne : value ≠ []) (hlen : value.length < 127) (h : ∀ c ∈ value, isDigit c = true) :
    ValueText value := by
  refine ⟨hne, hlen, fun hm => ?_, fun hm => ?_, fun hm => ?_⟩
  · exact absurd (h _ hm) (by decide)
  · exact absurd (h _ hm) (by decide)
  · exact absurd (h _ hm) (by decide)

theorem octal_isDigit {c : UInt8} (h : isOctal c = true) : isDigit c = true := by
  unfold isOctal at h
  unfold isDigit
  rw [Bool.and_eq_true, decide_eq_true_eq, decide_eq_true_eq] at h ⊢
  exact ⟨h.1, UInt8.le_trans h.2 (by decide)⟩

theorem uintText_spec (p : UintVar) (h : n < 2^32) : ValueText (uintText p n) ∧ uintValue (uintText p n) = n := by
  have hdec : ValueText (fmtDec n) ∧ uintValue (fmtDec n) = n := by
    obtain ⟨h1, -, h3, -⟩ := fmtDec_spec n
    have hlen : (fmtDec n).length ≤ 10 := fmtDec_nat (by decide) (h.trans (by decide))
    exact ⟨digits_text h3 (by omega) h1, uintValue_fmtDec h⟩
  cases p with
  | localUmask =>
    have hlen : (fmtOct n).length ≤ 11 := fmtOct_le (by decide) (h.trans (by decide))
    have hdigits : ∀ c ∈ 48 :: fmtOct n, isDigit c = true :=
      List.forall_mem_cons.mpr ⟨by decide, fun c hc => octal_isDigit ((octalNum_fmtOct n).1 c hc)⟩
    refine ⟨digits_text (List.cons_ne_nil _ _) ?_ hdigits, uintValue_fmtOct h⟩
    show (fmtOct n).length + 1 < 127
    omega
  | _ => exact hdec

theorem boolText_spec {b : Int} (h : b = 0 ∨ b = 1) : ValueText (fmtDec b) ∧ boolValue (fmtDec b) = some b := by
  rcases h with rfl | rfl
  · exact ⟨by constructor <;> decide, rfl⟩
  · exact ⟨by constructor <;> decide, rfl⟩

/-- **A line** gives its value to its key. -/
theorem line_spec (hk : KeyText key) (hv : ValueText value) : ConfLine (key ++ 61 :: value) ∧
    LF ∉ key ++ 61 :: value ∧ assignment (key ++ 61 :: value) = some (key, value) := by
  obtain ⟨hne, hlen, hhead, hclean⟩ := hk
  have hno : ∀ c, (c = 0 ∨ c = CR ∨ c = LF) → c ∉ value → c ∉ key ++ 61 :: value := by
    intro c hc hnot hm
    rcases List.mem_append.mp hm with hm | hm
    · rcases hc with e | e | e
      · exact (hclean c hm).2.1 e
      · exact (hclean c hm).2.2.1 e
      · exact (hclean c hm).2.2.2 e
    · rcases List.mem_cons.mp hm with e | hm
      · rw [e] at hc
        exact absurd hc (by decide)
      · exact hnot hm
  have hcr := hno CR (Or.inr (Or.inl rfl)) hv.noCr
  have hlf := hno LF (Or.inr (Or.inr rfl)) hv.noLf
  have hstrip : stripEnd (key ++ 61 :: value) = key ++ 61 :: value := by
    unfold stripEnd
    rw [List.rdropWhile_eq_self_iff]
    intro hnil
    rw [Bool.not_eq_true, isEol_eq_false]
    have hlast := List.getLast_mem hnil
    exact ⟨fun e => hcr (e ▸ hlast), fun e => hlf (e ▸ hlast)⟩
  have hcomment : (key ++ 61 :: value).head? ≠ some 35 := by
    rw [List.head?_append_of_ne_nil _ hne]
    exact hhead
  obtain ⟨hfst, hsnd⟩ := split_unique (c := 61) (fun hm => (hclean 61 hm).1 rfl) (rfl : key ++ 61 :: value = _)
  have hshort := hv.short
  refine ⟨⟨?_, hno 0 (Or.inl rfl) hv.noNul, ?_, fun _ => ?_, fun _ => ?_⟩, hlf, ?_⟩
  · rw [List.length_append, List.length_cons]
    omega
  · rw [hstrip]
    exact hcr
  · rw [hstrip, ← hfst]
    exact hlen
  · rw [hstrip, ← hsnd]
    exact hshort
  · unfold assignment
    rw [hstrip, ← hfst, ← hsnd, if_neg (not_or.mpr ⟨hcomment, hv.given⟩)]

theorem entries_spec (h : Printable t) : ∀ a ∈ t.entries, KeyText a.1 ∧ ValueText a.2 := by
  unfold Tunables.entries
  simp only [List.forall_mem_append, List.forall_mem_map]
  refine ⟨⟨fun a ha => ?_, fun a ha => ?_⟩, fun a ha => ?_⟩
  · exact ⟨key_text.1 a ha, (boolText_spec (h.bool a.2)).1⟩
  · exact ⟨key_text.2.1 a ha, (uintText_spec a.2 (h.uint a.2)).1⟩
  · refine ⟨key_text.2.2 a ha, ?_⟩
    cases hs : t.str a.2 with
    | none => constructor <;> decide
    | some v => exact h.str a.2 v hs

theorem asFile_read (h : Printable t) :
    (∀ line ∈ t.asFile.splitOn LF, ConfLine line) ∧ assignments t.asFile = t.entries := by
  have hlines : t.asFile.splitOn LF = (t.entries.map fun a => a.1 ++ 61 :: a.2) ++ [[]] := by
    rw [asFile_eq]
    apply splitOn_lines
    rw [List.forall_mem_map]
    intro a ha
    obtain ⟨hk, hv⟩ := entries_spec h a ha
    exact (line_spec hk hv).2.1
  constructor
  · rw [hlines, List.forall_mem_append, List.forall_mem_map]
    refine ⟨fun a ha => ?_, List.forall_mem_singleton.mpr confLine_nil⟩
    obtain ⟨hk, hv⟩ := entries_spec h a ha
    exact (line_spec hk hv).1
  · unfold assignments
    have hall : (t.entries.map fun a => a.1 ++ 61 :: a.2).filterMap assignment = t.entries := by
      rw [List.filterMap_map]
      conv_rhs => rw [← List.filterMap_some (l := t.entries)]
      apply List.filterMap_congr
      intro a ha
      obtain ⟨hk, hv⟩ := entries_spec h a ha
      exact (line_spec hk hv).2.2
    rw [hlines, List.filterMap_append, hall]
    exact List.append_nil _

theorem given_asFile (h : Printable t) (ha : (key, value) ∈ t.entries) : given t.asFile key = [value] := by
  unfold given
  rw [(asFile_read h).2]
  exact LastWins.filterMap_of_mem (entries_keys t) ha

theorem asFile_once_iff (h : Printable t) (t₀ : Tunables) :
    SetOnce (assignments t.asFile) t₀ ↔ ∀ p, t₀.str p = none := by
  have hone : ∀ key p, (key, p) ∈ parseconfStrArray → (valuesOf (assignments t.asFile) key).length = 1 := by
    intro key p hp
    have hin : (key, (t.str p).getD (ascii "NULL")) ∈ t.entries :=
      List.mem_append_right _ (List.mem_map_of_mem hp)
    exact congrArg List.length (given_asFile h hin)
  constructor
  · intro ho p
    obtain ⟨key, hp⟩ := str_key p
    have hlen := ho key p hp
    rw [hone key p hp] at hlen
    cases hs : t₀.str p with
    | none => rfl
    | some v =>
      rw [hs] at hlen
      exact absurd hlen (by decide : ¬ 1 + 1 ≤ 1)
  · intro hnone key p hp
    rw [hone key p hp, hnone p]
    exact Nat.le_refl 1

/-- **What has been printed is read back**, over any tunables without an address. -/
theorem asFile_loads (h : Printable t) {t₀ : Tunables} (hnone : ∀ p, t₀.str p = none) :
    parseconfLoadFile t.asFile t₀ = .ok t.named := by
  rw [loadFile_ok (asFile_read h).1 ((asFile_once_iff h t₀).mpr hnone)]
  apply congrArg Except.ok
  have hlast := lastGiven_foldl t.asFile t₀
  ext p : 2
  · obtain ⟨key, hp⟩ := bool_key p
    have hin : (key, fmtDec (t.bool p)) ∈ t.entries :=
      List.mem_append_left _ (List.mem_append_left _ (List.mem_map_of_mem hp))
    rw [hlast.bool key p hp, given_asFile h hin]
    simp [(boolText_spec (h.bool p)).2, Tunables.named]
  · obtain ⟨key, hp⟩ := uint_key p
    have hin : (key, uintText p (t.uint p)) ∈ t.entries :=
      List.mem_append_left _ (List.mem_append_right _ (List.mem_map_of_mem hp))
    rw [hlast.uint key p hp, given_asFile h hin]
    exact (uintText_spec p (h.uint p)).2
  · obtain ⟨key, hp⟩ := str_key p
    have hin : (key, (t.str p).getD (ascii "NULL")) ∈ t.entries :=
      List.mem_append_right _ (List.mem_map_of_mem hp)
    rw [hlast.str key p hp, given_asFile h hin]
    rfl

end

end Myftpd
